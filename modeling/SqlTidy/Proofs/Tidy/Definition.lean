import SqlTidy.Proofs.Tidy.Clause
import SqlTidy.Proofs.Tunnel

/-!
# Definitions and commands that are printed without stray blanks

One lemma for each kind of statement and for its parts. Most parts of a command are optional: a part that is missing
leaves the line as it is, and one that is there ends with something firm. Settings hold source text as it was written,
so nothing is said about them.
-/

namespace SqlTidy

open Text Doc Layout Tidy

/-! ## `CREATE` -/

instance : Tidy CreateTable := ⟨fun s => Solid s.doc⟩

instance : Tidy CreateView := ⟨fun s =>
  tidy s.name ∧ tidy s.columns ∧ tidy s.comment ∧ tidy s.partitionedOn ∧ tidy s.tableProperties ∧ tidy s.query⟩

instance : Tidy CreateSourceView := ⟨fun s => Solid s.doc⟩

instance : Tidy CreateNamespace := ⟨fun s => tidy s.name ∧ tidy s.comment ∧ tidy s.location ∧ tidy s.properties⟩

instance : Tidy CreateFunction := ⟨fun s => Solid s.doc⟩

instance : Tidy CreateIndex := ⟨fun s => Solid s.doc⟩

namespace Layout

theorem keeps_tableProvider {provider : Option Ident} (hasColumns : Bool) (h : tidy provider) :
    Keeps (tableProvider hasColumns provider) := by
  cases provider with
  | none => exact .nil
  | some provider => exact .seq <| .part (.ite .line (.text rfl)) <| .word rfl <| .word (h provider rfl) .nil

theorem tidy_namespaceWord (word : NamespaceWord) : tidy word.spelling := by cases word <;> rfl

theorem loose_onWord (tableWord : Bool) : Loose (onWord tableWord) := .ite (.text rfl) (.text rfl)

theorem solid_indexColumns {columns : List IndexColumn} (h : tidy columns) : Solid (indexColumns columns) := by
  have hdoc (c : IndexColumn) (hc : tidy c) : Solid c.doc := by
    refine Lands.seq <| .word hc.1 <| .part (?_ : Keeps _) .nil
    split
    · exact .nil
    · rename_i options hne
      exact .seq <| .word rfl <| .solid (.parens (solid_map (fun _ hp => hp) hc.2)) .nil
  unfold indexColumns
  split
  · have hname := (h _ List.mem_cons_self).1
    exact .parens (List.forall_mem_cons.2 ⟨.text hname, by simp⟩)
  · exact .block (solid_map hdoc h)

end Layout

theorem CreateTable.tidy_of {s : CreateTable} (hname : tidy s.name) (hcolumns : tidy s.columns)
    (hprovider : tidy s.provider) (hclauses : tidy s.clauses) (hquery : tidy s.query) : tidy s := by
  refine Lands.seq <| .word (by cases s.mode <;> rfl) <| .word rfl <| .part (.when (.text rfl)) <| .word rfl <|
    .part (.when (.text rfl)) <| .word hname <| .part (?columns : Keeps _) <|
    .part (keeps_tableProvider _ hprovider) <| .part (TableClauses.keeps_doc hclauses) <| .part (?query : Keeps _) .nil
  case columns =>
    split
    · exact .nil
    · rename_i columns heq
      exact Lands.anywhere (solid_columnBlock rfl (hcolumns columns heq))
  case query =>
    split
    · exact .nil
    · rename_i query heq
      exact .seq <| .word rfl <| .line <| .solid (hquery query heq false) .nil

theorem ViewColumn.tidy_of {c : ViewColumn} (hname : tidy c.name) (hcomment : tidy c.comment) : tidy c :=
  Lands.seq <| .word hname <| .part (.optText hcomment rfl) .nil

theorem CreateView.solid_doc {s : CreateView} (h : tidy s) : Solid s.doc := by
  obtain ⟨hname, hcolumns, hcomment, hpartitioned, hproperties, hquery⟩ := h
  refine Lands.seq <| .word rfl <| .part (.when (.text rfl)) <| .part (.when (.text rfl)) <|
    .part (.when (.text rfl)) <| .word rfl <| .part (.when (.text rfl)) <| .word hname <| .part (?columns : Keeps _) <|
    .part (keeps_textLine rfl hcomment) <| .part (keeps_identLine rfl hpartitioned) <|
    .part (keeps_propertyLine rfl hproperties) <| .line <| .word rfl <| .solid (hquery false) .nil
  split
  · exact .nil
  · rename_i columns heq
    exact Lands.anywhere (.block (solid_map (fun _ hc => hc) (hcolumns columns heq)))

theorem CreateSourceView.tidy_of {s : CreateSourceView} (hname : tidy s.name) (hcolumns : tidy s.columns)
    (hprovider : tidy s.provider) (hoptions : tidy s.options) : tidy s := by
  refine Lands.seq <| .word rfl <| .part (.when (.text rfl)) <| .part (.when (.text rfl)) <| .word rfl <|
    .word hname <| .part (?columns : Keeps _) <| .line <| .word rfl <| .word hprovider <|
    .part (keeps_propertyLine rfl hoptions) .nil
  split
  · exact .nil
  · rename_i columns heq
    exact Lands.anywhere (solid_columnBlock rfl (hcolumns columns heq))

theorem CreateNamespace.solid_doc {s : CreateNamespace} (h : tidy s) : Solid s.doc := by
  obtain ⟨hname, hcomment, hlocation, hproperties⟩ := h
  have hwords : settle false (if s.dbWord then "WITH DBPROPERTIES " else "WITH PROPERTIES ").toList = some false := by
    split <;> rfl
  exact Lands.seq <| .word rfl <| .word (tidy_namespaceWord s.word) <| .word rfl <| .part (.when (.text rfl)) <|
    .word hname <| .part (keeps_textLine rfl hcomment) <| .part (keeps_textLine rfl hlocation) <|
    .part (keeps_propertyLine hwords hproperties) .nil

theorem FunctionResource.tidy_of {r : FunctionResource} (h : tidy r.uri) : tidy r :=
  Lands.seq <| .word (by cases r.kind <;> rfl) <| .word rfl <| .word h .nil

theorem CreateFunction.tidy_of {s : CreateFunction} (hname : tidy s.name) (hclass : tidy s.className)
    (hresources : tidy s.resources) : tidy s := by
  refine Lands.seq <| .word rfl <| .part (.when (.text rfl)) <| .part (.when (.text rfl)) <| .word rfl <|
    .part (.when (.text rfl)) <| .word hname <| .word rfl <| .word hclass <| .part (?_ : Keeps _) .nil
  split
  · exact .nil
  · exact .seq <| .word rfl <| .part (.lines (solid_map (fun _ hr => hr) hresources)) .nil

theorem CreateIndex.tidy_of {s : CreateIndex} (hname : tidy s.name) (htable : tidy s.table)
    (htype : tidy s.indexType) (hcolumns : tidy s.columns) (hoptions : tidy s.options) : tidy s := by
  refine Lands.seq <| .word rfl <| .part (.when (.text rfl)) <| .word hname <| .part (loose_onWord s.tableWord).anywhere <|
    .word htable <| .line <| .part (?_ : Loose _) <| .solid (solid_indexColumns hcolumns) <|
    .part (keeps_propertyLine rfl hoptions) .nil
  split
  · exact .nil
  · rename_i type heq
    exact .seq <| .word rfl <| .word (htype type heq) <| .word rfl .nil

/-! ## `ALTER` and `DROP` -/

instance : Tidy ColumnChange := ⟨fun c => Solid c.doc⟩

instance : Tidy AlterAction := ⟨fun a => Solid a.doc⟩

instance : Tidy AlterTable := ⟨fun s => Solid s.doc⟩

instance : Tidy AlterViewQuery := ⟨fun s => Solid s.doc⟩

instance : Tidy AlterNamespaceAction := ⟨fun a => Solid a.doc⟩

instance : Tidy AlterNamespace := ⟨fun s => Solid s.doc⟩

instance : Tidy Drop := ⟨fun s => Solid s.doc⟩

instance : Tidy DropNamespace := ⟨fun s => Solid s.doc⟩

instance : Tidy DropFunction := ⟨fun s => Solid s.doc⟩

instance : Tidy DropIndex := ⟨fun s => Solid s.doc⟩

namespace ColumnChange

theorem tidy_type {t : DataType} (h : tidy t) : tidy (type t) := Lands.seq <| .word rfl <| .solid h .nil

theorem tidy_comment {text : String} (h : tidy text) : tidy (comment text) := Lands.seq <| .word rfl <| .word h .nil

theorem tidy_position {p : ColumnPosition} (h : tidy p) : tidy (position p) := h

theorem tidy_setNotNull : tidy setNotNull := Lands.text rfl

theorem tidy_dropNotNull : tidy dropNotNull := Lands.text rfl

end ColumnChange

namespace Layout

theorem loose_leadingPartition {partition : Option PartitionSpec} (h : tidy partition) :
    Loose (leadingPartition partition) := by
  cases partition with
  | none => exact .nil
  | some spec => exact .seq <| .solid (h spec rfl) <| .word rfl .nil

theorem lands_nameList {b : Bool} {names : List DottedName} (h : tidy names) : Lands b (nameList names) b :=
  .commas (solid_map (fun _ hn => .text hn) h)

theorem solid_nameList {names : List DottedName} (hne : names ≠ []) (h : tidy names) : Solid (nameList names) :=
  .sep_ne_nil rfl (by simpa using hne) (solid_map (fun _ hn => .text hn) h)

theorem solid_addedPartition {entry : PartitionSpec × Option String} (h : tidy entry) : Solid (addedPartition entry) :=
  .seq <| .solid h.1 <| .part (.optText h.2 rfl) .nil

end Layout

namespace AlterAction

variable {partition : Option PartitionSpec} {properties : List Property} {columns : List ColumnDefinition}
  {column : DottedName}

theorem tidy_renameTo {name : DottedName} (h : tidy name) : tidy (renameTo name) :=
  Lands.seq <| .word rfl <| .word h .nil

theorem tidy_setProperties (h : tidy properties) : tidy (setProperties properties) := solid_propertyBlock rfl h

theorem tidy_unsetProperties (ifExists : Bool) (h : tidy properties) : tidy (unsetProperties ifExists properties) := by
  cases ifExists with
  | false => exact solid_propertyBlock rfl h
  | true => exact solid_propertyBlock rfl h

theorem tidy_addColumns (plural parenthesized : Bool) (h : tidy columns) :
    tidy (addColumns plural parenthesized columns) := by
  have hwords : settle false (if plural then "ADD COLUMNS" else "ADD COLUMN").toList = some true := by
    split <;> rfl
  exact Lands.ite (solid_columnBlock hwords h)
    (.seq <| .word hwords <| .part (.lines (solid_map (fun _ hc => hc) h)) .nil)

theorem tidy_dropColumns {columns : List DottedName} (plural ifExists parenthesized : Bool) (hne : columns ≠ [])
    (h : tidy columns) : tidy (dropColumns plural ifExists parenthesized columns) :=
  Lands.seq <| .part (.ite (.text rfl) (.text rfl)) <| .part (.when (.text rfl)) <| .word rfl <|
    .solid (.ite (.seq <| .word rfl <| .part (lands_nameList h) <| .word rfl .nil) (solid_nameList hne h)) .nil

theorem tidy_renameColumn {new : Ident} (h : tidy column) (hnew : tidy new) : tidy (renameColumn column new) :=
  Lands.seq <| .word rfl <| .word h <| .word rfl <| .word hnew .nil

theorem tidy_alterColumn {change : ColumnChange} (changeWord columnWord : Bool) (h : tidy column)
    (hchange : tidy change) : tidy (alterColumn changeWord columnWord column change) :=
  Lands.seq <| .part (.ite (.text rfl) (.text rfl)) <| .part (.when (.text rfl)) <| .word rfl <| .word h <|
    .word rfl <| .solid hchange .nil

theorem tidy_changeColumn {definition : ColumnDefinition} (columnWord : Bool) (hpartition : tidy partition)
    (h : tidy column) (hdefinition : tidy definition) : tidy (changeColumn partition columnWord column definition) :=
  Lands.seq <| .part (loose_leadingPartition hpartition) <| .word rfl <| .part (.when (.text rfl)) <| .word rfl <|
    .word h <| .word rfl <| .solid hdefinition .nil

theorem tidy_replaceColumns (hpartition : tidy partition) (h : tidy columns) :
    tidy (replaceColumns partition columns) :=
  Lands.seq <| .part (loose_leadingPartition hpartition) <| .solid (solid_columnBlock rfl h) .nil

theorem tidy_addPartitions {partitions : List (PartitionSpec × Option String)} (ifNotExists : Bool)
    (h : tidy partitions) : tidy (addPartitions ifNotExists partitions) :=
  Lands.seq <| .word rfl <| .part (.when (.text rfl)) <|
    .part (.nest (.onLines (solid_map (fun _ he => solid_addedPartition he) h))) .nil

theorem tidy_dropPartitions {partitions : List PartitionSpec} (ifExists purge : Bool) (h : tidy partitions) :
    tidy (dropPartitions ifExists partitions purge) :=
  Lands.seq <| .word rfl <| .part (.when (.text rfl)) <| .part (.lines (solid_map (fun _ hs => hs) h)) <|
    .part (.when (.text rfl)) .nil

theorem tidy_renamePartition {old new : PartitionSpec} (h : tidy old) (hnew : tidy new) :
    tidy (renamePartition old new) :=
  Lands.seq <| .solid h <| .word rfl <| .solid hnew .nil

theorem tidy_setLocation {location : String} (hpartition : tidy partition) (h : tidy location) :
    tidy (setLocation partition location) :=
  Lands.seq <| .part (loose_leadingPartition hpartition) <| .word rfl <| .word h .nil

theorem tidy_recoverPartitions : tidy recoverPartitions := Lands.text rfl

theorem tidy_touch (h : tidy partition) : tidy (touch partition) :=
  Lands.seq <| .word rfl <| .part (lands_optPartition h) .nil

end AlterAction

theorem AlterTable.tidy_of {s : AlterTable} (hname : tidy s.name) (haction : tidy s.action) : tidy s :=
  Lands.seq <| .part (.ite (.text rfl) (.text rfl)) <| .word hname <| .word rfl <| .solid haction .nil

theorem AlterViewQuery.tidy_of {s : AlterViewQuery} (hname : tidy s.name) (hquery : tidy s.query) : tidy s :=
  Lands.seq <| .word rfl <| .word hname <| .word rfl <| .line <| .solid (hquery false) .nil

namespace AlterNamespaceAction

theorem tidy_setProperties {properties : List Property} (dbWord : Bool) (h : tidy properties) :
    tidy (setProperties dbWord properties) := by
  cases dbWord with
  | false => exact solid_propertyBlock rfl h
  | true => exact solid_propertyBlock rfl h

theorem tidy_setLocation {location : String} (h : tidy location) : tidy (setLocation location) :=
  Lands.seq <| .word rfl <| .word h .nil

end AlterNamespaceAction

theorem AlterNamespace.tidy_of {s : AlterNamespace} (hname : tidy s.name) (haction : tidy s.action) : tidy s :=
  Lands.seq <| .word rfl <| .word (tidy_namespaceWord s.word) <| .word rfl <| .word hname <| .solid haction .nil

theorem Drop.tidy_of {s : Drop} (hname : tidy s.name) : tidy s :=
  Lands.seq <| .part (.ite (.text rfl) (.text rfl)) <| .part (.when (.text rfl)) <| .word hname <|
    .part (.when (.text rfl)) .nil

theorem DropNamespace.tidy_of {s : DropNamespace} (hname : tidy s.name) : tidy s :=
  Lands.seq <| .word rfl <| .word (tidy_namespaceWord s.word) <| .word rfl <| .part (.when (.text rfl)) <|
    .word hname <| .part (.optWord (by intro x; cases x <;> rfl) s.behavior) .nil

theorem DropFunction.tidy_of {s : DropFunction} (hname : tidy s.name) : tidy s :=
  Lands.seq <| .word rfl <| .part (.when (.text rfl)) <| .word rfl <| .part (.when (.text rfl)) <| .word hname .nil

theorem DropIndex.tidy_of {s : DropIndex} (hname : tidy s.name) (htable : tidy s.table) : tidy s :=
  Lands.seq <| .word rfl <| .part (.when (.text rfl)) <| .word hname <| .part (loose_onWord s.tableWord).anywhere <|
    .word htable .nil

/-! ## Commands -/

instance : Tidy Truncate := ⟨fun s => Solid s.doc⟩

instance : Tidy RepairTable := ⟨fun s => Solid s.doc⟩

/-- Nothing is printed for the table itself. -/
instance : Tidy AnalyzeTarget := ⟨fun t => Keeps t.doc⟩

instance : Tidy Analyze := ⟨fun s => Solid s.doc⟩

instance : Tidy Scope := ⟨fun s => Solid s.doc⟩

instance : Tidy AnalyzeTables := ⟨fun s => Solid s.doc⟩

instance : Tidy CommentOn := ⟨fun s => Solid s.doc⟩

instance : Tidy Use := ⟨fun s => Solid s.doc⟩

instance : Tidy ShowPattern := ⟨fun p => tidy p.pattern⟩

instance : Tidy Show := ⟨fun s => Solid s.doc⟩

instance : Tidy DescribeTarget := ⟨fun t => Solid t.doc⟩

instance : Tidy Describe := ⟨fun s => Solid s.doc⟩

instance : Tidy CallProcedure := ⟨fun s => Solid s.doc⟩

instance : Tidy LoadData := ⟨fun s => Solid s.doc⟩

instance : Tidy LoadFile := ⟨fun s => Solid s.doc⟩

instance : Tidy ExportTable := ⟨fun s => Solid s.doc⟩

instance : Tidy TunnelValue := ⟨fun v => Solid v.doc⟩

instance : Tidy TunnelProperty := ⟨fun p => Solid p.doc⟩

instance : Tidy DataTunnel := ⟨fun s => Solid s.doc⟩

instance : Tidy MergeFiles := ⟨fun s => Solid s.doc⟩

theorem Truncate.tidy_of {s : Truncate} (htable : tidy s.table) (hpartition : tidy s.partition) : tidy s :=
  Lands.seq <| .word rfl <| .word htable <| .part (lands_optPartition hpartition) .nil

theorem RepairTable.tidy_of {s : RepairTable} (htable : tidy s.table) : tidy s :=
  Lands.seq <| .part (.when (.text rfl)) <| .word rfl <| .word htable <|
    .part (.optWord (by intro x; cases x <;> rfl) s.option) .nil

namespace AnalyzeTarget

theorem tidy_table : tidy table := Lands.nil

theorem tidy_noScan : tidy noScan := Lands.text rfl

theorem tidy_columns {names : List DottedName} (hne : names ≠ []) (h : tidy names) : tidy (columns names) :=
  Lands.seq <| .word rfl <| .solid (solid_nameList hne h) .nil

theorem tidy_allColumns : tidy allColumns := Lands.text rfl

end AnalyzeTarget

theorem Analyze.tidy_of {s : Analyze} (htable : tidy s.table) (hpartition : tidy s.partition)
    (htarget : tidy s.target) : tidy s :=
  Lands.seq <| .word rfl <| .word htable <| .part (lands_optPartition hpartition) <| .word rfl <|
    .part htarget .nil

theorem Scope.tidy_of {s : Scope} (hname : tidy s.name) : tidy s :=
  Lands.seq <| .word rfl <| .word (by cases s.word <;> rfl) <| .word rfl <| .word hname .nil

namespace Layout

variable {b : Bool}

theorem lands_optScope {scope : Option Scope} (h : tidy scope) : Lands b (optScope scope) b := by
  cases scope with
  | none => exact .nil
  | some scope => exact .stay (h scope rfl)

theorem lands_optPattern {pattern : Option ShowPattern} (h : tidy pattern) : Lands b (optPattern pattern) b := by
  cases pattern with
  | none => exact .nil
  | some pattern => exact .stay (.seq <| .part (.ite (.text rfl) (.text rfl)) <| .word (h pattern rfl) .nil)

theorem keeps_trailingOptions {options : List Property} (h : tidy options) : Keeps (trailingOptions options) := by
  cases options with
  | nil => exact .nil
  | cons => exact Lands.anywhere (solid_propertyBlock rfl h)

end Layout

theorem AnalyzeTables.tidy_of {s : AnalyzeTables} (hscope : tidy s.scope) : tidy s :=
  Lands.seq <| .word rfl <| .part (lands_optScope hscope) <| .word rfl <| .part (.when (.text rfl)) .nil

theorem CommentOn.tidy_of {s : CommentOn} (hname : tidy s.name) (hcomment : tidy s.comment) : tidy s := by
  have htarget : Solid s.target.doc := by
    cases s.target with
    | «namespace» word => exact .text (tidy_namespaceWord word)
    | table => exact .text rfl
  have hcomment : tidy (s.comment.getD "NULL") := by
    cases heq : s.comment with
    | none => rfl
    | some comment => exact hcomment comment heq
  exact Lands.seq <| .word rfl <| .solid htarget <| .word rfl <| .word hname <| .word rfl <| .word hcomment .nil

theorem Use.tidy_of {s : Use} (hname : tidy s.name) : tidy s :=
  Lands.seq <| .word rfl <| .part (.optWordGap tidy_namespaceWord s.word) <| .word hname .nil

namespace Show

variable {scope : Option Scope} {pattern : Option ShowPattern} {partition : Option PartitionSpec} {table : DottedName}

theorem tidy_namespaces (word : NamespaceWord) (hscope : tidy scope) (hpattern : tidy pattern) :
    tidy (namespaces word scope pattern) :=
  Lands.seq <| .word (by cases word <;> rfl) <| .part (lands_optScope hscope) <| .part (lands_optPattern hpattern) .nil

theorem tidy_tables (hscope : tidy scope) (hpattern : tidy pattern) : tidy (tables scope pattern) :=
  Lands.seq <| .word rfl <| .part (lands_optScope hscope) <| .part (lands_optPattern hpattern) .nil

theorem tidy_tableExtended {pattern : String} (hscope : tidy scope) (hpattern : tidy pattern)
    (hpartition : tidy partition) : tidy (tableExtended scope pattern partition) :=
  Lands.seq <| .word rfl <| .part (lands_optScope hscope) <| .word rfl <| .word hpattern <|
    .part (lands_optPartition hpartition) .nil

theorem tidy_views (hscope : tidy scope) (hpattern : tidy pattern) : tidy (views scope pattern) :=
  Lands.seq <| .word rfl <| .part (lands_optScope hscope) <| .part (lands_optPattern hpattern) .nil

theorem tidy_columns {table : Scope} {database : Option Scope} (htable : tidy table) (hdatabase : tidy database) :
    tidy (columns table database) :=
  Lands.seq <| .word rfl <| .solid htable <| .part (lands_optScope hdatabase) .nil

theorem tidy_partitions (htable : tidy table) (hpartition : tidy partition) : tidy (partitions table partition) :=
  Lands.seq <| .word rfl <| .word htable <| .part (lands_optPartition hpartition) .nil

theorem tidy_tableProperties {key : Option String} (htable : tidy table) (hkey : tidy key) :
    tidy (tableProperties table key) := by
  refine Lands.seq <| .word rfl <| .word htable <| .part (?_ : Keeps _) .nil
  cases key with
  | none => exact .nil
  | some key => exact .seq <| .word rfl <| .word (hkey key rfl) <| .word rfl .nil

theorem tidy_functions (kind : Option FunctionKind) (hscope : tidy scope) (hpattern : tidy pattern) :
    tidy (functions kind scope pattern) :=
  Lands.seq <| .part (.optWordGap (by intro x; cases x <;> rfl) kind) <| .word rfl <|
    .part (lands_optScope hscope) <| .part (lands_optPattern hpattern) .nil

theorem tidy_createTable (asSerde : Bool) (htable : tidy table) : tidy (createTable table asSerde) :=
  Lands.seq <| .word rfl <| .word htable <| .part (.when (.text rfl)) .nil

theorem tidy_catalogs (hpattern : tidy pattern) : tidy (catalogs pattern) :=
  Lands.seq <| .word rfl <| .part (lands_optPattern hpattern) .nil

theorem tidy_currentNamespace : tidy currentNamespace := Lands.text rfl

end Show

namespace DescribeTarget

variable {name : DottedName}

theorem tidy_table {partition : Option PartitionSpec} {column : Option DottedName} (tableWord : Bool)
    (detail : Option DescribeDetail) (h : tidy name) (hpartition : tidy partition) (hcolumn : tidy column) :
    tidy (table tableWord detail name partition column) := by
  have hcolumn : Keeps (optWord (column.map DottedName.written)) := by
    cases column with
    | none => exact .nil
    | some column => exact .stay (.append (.text rfl) (.text (hcolumn column rfl)))
  exact Lands.seq <| .part (.when (.loosen (.text rfl))) <|
    .part (.optWord (by intro x; cases x <;> rfl) detail) <| .word rfl <| .word h <|
    .part (lands_optPartition hpartition) <| .part hcolumn .nil

theorem tidy_function (extended : Bool) (h : tidy name) : tidy (function extended name) :=
  Lands.seq <| .word rfl <| .part (.when (.text rfl)) <| .word rfl <| .word h .nil

theorem tidy_namespace (word : NamespaceWord) (extended : Bool) (h : tidy name) :
    tidy (DescribeTarget.namespace word extended name) :=
  Lands.seq <| .word rfl <| .word (tidy_namespaceWord word) <| .part (.when (.text rfl)) <| .word rfl <| .word h .nil

theorem tidy_query {q : Query} (queryWord : Bool) (h : tidy q) : tidy (query queryWord q) :=
  Lands.seq <| .part (.when (.loosen (.text rfl))) <| .word rfl <| .solid (h false) .nil

end DescribeTarget

theorem Describe.tidy_of {s : Describe} (h : tidy s.target) : tidy s :=
  Lands.seq <| .part (.ite (.text rfl) (.text rfl)) <| .solid h .nil

theorem CallProcedure.tidy_of {s : CallProcedure} (hprocedure : tidy s.procedure) (hargs : tidy s.args) : tidy s :=
  Lands.seq <| .word rfl <| .word hprocedure <|
    .solid (.block (solid_map (fun (a : CallArg) (ha : tidy a) => ha false) hargs)) .nil

theorem LoadData.tidy_of {s : LoadData} (hpath : tidy s.path) (htable : tidy s.table)
    (hpartition : tidy s.partition) : tidy s :=
  Lands.seq <| .word rfl <| .part (.when (.text rfl)) <| .word rfl <| .word hpath <| .part (.when (.text rfl)) <|
    .word rfl <| .word htable <| .part (lands_optPartition hpartition) .nil

theorem LoadFile.tidy_of {s : LoadFile} (hpath : tidy s.path) (htable : tidy s.table) (hoptions : tidy s.options) :
    tidy s :=
  Lands.seq <| .word rfl <| .word hpath <| .part (.ite (.text rfl) (.text rfl)) <| .word htable <|
    .part (keeps_trailingOptions hoptions) .nil

theorem ExportTable.tidy_of {s : ExportTable} (htables : tidy s.withClause) (htable : tidy s.table)
    (hpartition : tidy s.partition) (hpath : tidy s.path) (hoptions : tidy s.options) : tidy s := by
  refine Lands.seq <| .part (loose_leadingWith htables) <| .word rfl <| .word htable <|
    .part (?_ : Lands true _ false) <| .word rfl <| .word hpath <| .part (keeps_trailingOptions hoptions) .nil
  split
  · exact .text rfl
  · rename_i spec heq
    exact .seq <| .word rfl <| .solid (hpartition spec heq) <| .line .nil

namespace TunnelValue

theorem tidy_scalar {text : String} (h : tidy text) : tidy (scalar text) := Lands.text h

theorem solid_docs {items : List TunnelValue} (h : tidy items) : ∀ d ∈ docs items, Solid d := by
  rw [docs_eq_map]
  exact solid_map (fun _ hv => hv) h

theorem tidy_list {items : List TunnelValue} (h : tidy items) : tidy (list items) :=
  Lands.seq <| .word rfl <| .part (.commas (solid_docs h)) <| .word rfl .nil

end TunnelValue

theorem TunnelProperty.tidy_of {p : TunnelProperty} (hkey : tidy p.key) (hvalue : tidy p.value) : tidy p :=
  Lands.seq <| .word hkey <| .word rfl <| .solid hvalue .nil

theorem Layout.solid_tunnelEnd {keyword kind : String} {options : List TunnelProperty} (hkeyword : tidy keyword)
    (hkind : tidy kind) (h : tidy options) : Solid (tunnelEnd keyword kind options) :=
  .seq <| .word hkeyword <| .word rfl <| .word hkind <| .word rfl <|
    .solid (.block (solid_map (fun _ hp => hp) h)) .nil

theorem DataTunnel.tidy_of {s : DataTunnel} (hsource : tidy s.source) (hsourceOptions : tidy s.sourceOptions)
    (htransform : tidy s.transform) (hsink : tidy s.sink) (hsinkOptions : tidy s.sinkOptions) : tidy s :=
  Lands.seq <| .word rfl <| .solid (solid_tunnelEnd rfl hsource hsourceOptions) <|
    .part (keeps_textLine rfl htransform) <| .line <| .solid (solid_tunnelEnd rfl hsink hsinkOptions) .nil

theorem MergeFiles.tidy_of {s : MergeFiles} (htable : tidy s.table) (hpartition : tidy s.partition)
    (hoptions : tidy s.options) : tidy s :=
  Lands.seq <| .word rfl <| .word htable <| .part (lands_optPartition hpartition) <|
    .part (keeps_propertyLine rfl hoptions) .nil

/-! ## Statements -/

/-- A setting is printed as it was written, so it is tidy or not as it was. -/
instance : Tidy Statement := ⟨fun s => s.isSetting = false → Solid s.doc⟩

namespace Statement

theorem tidy_of {s : Statement} (h : Solid s.doc) : tidy s := fun _ => h

theorem tidy_explain {s : Statement} (mode : Option ExplainMode) (h : tidy s) : tidy (explain mode s) :=
  fun hs => Lands.seq <| .word rfl <| .part (.optWordGap (by intro x; cases x <;> rfl) mode) <| .solid (h hs) .nil

end Statement

end SqlTidy
