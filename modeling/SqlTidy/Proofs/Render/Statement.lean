import SqlTidy.Proofs.Render.Tree

/-!
# Statements carry their strings

**Theorem (`Statement.renders`).** The document of a statement shows every string of the statement and
closes every bracket that it opens.
-/

namespace SqlTidy

open Text Doc Layout

/-! ## Statements that change rows -/

theorem Layout.renders_exprs (es : List Expr) : Each Renders (stored es) (es.map fun e => e.doc) :=
  .map (fun e => e.renders false) es

theorem Layout.renders_optExpr (e : Option Expr) :
    Maybe Renders (stored e) (e.map fun e => e.doc) :=
  .map (fun e => e.renders false) e

theorem Layout.renders_leadingWith (w : Option WithClause) : Renders (stored w) (leadingWith w) := by
  cases w with
  | none => exact .nil
  | some w => exact .seqOne <| .part (w.renders false) <| .skip .line .nil

theorem Layout.renders_whereLine (e : Option Expr) : Renders (stored e) (whereLine e) := by
  cases e with
  | none => exact .nil
  | some e => exact Carries.line.after (.conditionClause rfl (e.renders true))

theorem PartitionValue.renders (v : PartitionValue) : Renders (stored v) v.doc :=
  .seq <| .part (renders_ident v.name) <| .part (.optBehind rfl (renders_optExpr v.value)) .nil

theorem PartitionSpec.renders (s : PartitionSpec) : Renders (stored s) s.doc :=
  .seqOne <| .word rfl <| .part (.parens (.map PartitionValue.renders s.values)) .nil

theorem Layout.renders_optPartition (s : Option PartitionSpec) :
    Renders (stored s) (optPartition s) :=
  .optBehind rfl (.map PartitionSpec.renders s)

theorem InsertTarget.renders (t : InsertTarget) : Renders (stored t) t.doc := by
  refine .seq <| .skip (.ite (.word rfl) (.word rfl)) <| .skip (.when _ (.word rfl)) <| .word rfl <|
    .part (renders_name t.table) <| .part (renders_optPartition t.partition) <|
    .skip (.when _ (.word rfl)) <| .part ?_ .nil
  cases t.columns with
  | nil => exact .nil
  | cons name names => exact .seqOne <| .word rfl <| .part (renders_identList (name :: names)) .nil

theorem Layout.renders_insertBreak : (q : Query) → Renders [] (insertBreak q)
  | .query .none (.tableBody _) _ => .ite (.word rfl) .line
  | .query .none (.selectBody _) _ | .query .none (.setOperation ..) _
  | .query .none (.nestedQuery _) _ | .query .none (.valuesBody ..) _
  | .query .none (.fromFirst ..) _ | .query (.some _) _ _ => .line

theorem Insert.renders (s : Insert) : Renders (stored s) s.doc :=
  .seq <| .part (renders_leadingWith s.withClause) <| .part s.target.renders <|
    .skip (renders_insertBreak s.source) <| .part (s.source.renders false) .nil

theorem MultiInsertBody.renders (b : MultiInsertBody) : Renders (stored b) b.doc :=
  .seq <| .part b.target.renders <| .skip .line <| .part (b.select.renders false) <|
    .part (b.organization.renders false) .nil

theorem MultiInsert.renders (s : MultiInsert) : Renders (stored s) s.doc :=
  .seq <| .part (renders_leadingWith s.withClause) <| .part (s.source.renders false) <|
    .part (.onLines (.map MultiInsertBody.renders s.inserts)) .nil

theorem Assignment.renders (a : Assignment) : Renders (stored a) a.doc :=
  .seq <| .part (renders_name a.target) <| .word rfl <| .part (a.value.renders false) .nil

theorem Update.renders (s : Update) : Renders (stored s) s.doc :=
  .seq <| .word rfl <| .part (renders_name s.table) <| .part (renders_tableAlias s.asName) <|
    .word rfl <| .part (.lines (.map Assignment.renders s.assignments)) <|
    .part (renders_whereLine s.condition) .nil

theorem Delete.renders (s : Delete) : Renders (stored s) s.doc :=
  .seq <| .word rfl <| .part (renders_name s.table) <| .part (renders_tableAlias s.asName) <|
    .part (renders_whereLine s.condition) .nil

theorem MergeAction.renders (a : MergeAction) : Renders (stored a) a.doc := by
  cases a with
  | updateAll => exact .word rfl
  | update assignments =>
    exact .seqOne <| .word rfl <| .part (.lines (.map Assignment.renders assignments)) .nil
  | delete => exact .word rfl
  | insertAll => exact .word rfl
  | insert columns values =>
    exact .seq <| .word rfl <| .part (renders_identList columns) <| .word rfl <|
      .part (.parens (renders_exprs values)) .nil

theorem awaiting_mergeCondition (kind : MergeCondition) :
    awaiting [] kind.spelling.toList = some [] := by
  match kind with
  | .matched | .notMatched true | .notMatched false | .notMatchedBySource => rfl

theorem MergeClause.renders (c : MergeClause) : Renders (stored c) c.doc :=
  .seq <| .skip (.word (awaiting_mergeCondition c.kind)) <|
    .part (.optBehind rfl (renders_optExpr c.condition)) <| .word rfl <|
    .part (.nest (Carries.line.after c.action.renders)) .nil

theorem Merge.renders (s : Merge) : Renders (stored s) s.doc :=
  .seq <| .word rfl <| .part (renders_name s.target) <| .part (renders_tableAlias s.targetAlias) <|
    .skip .line <| .word rfl <| .part (s.source.renders false) <| .skip .line <| .word rfl <|
    .part (.nest (s.condition.renders true)) <| .part (.onLines (.map MergeClause.renders s.clauses)) .nil

/-! ## Statements that define things -/

theorem Property.renders (p : Property) : Renders (stored p) p.doc :=
  .seq <| .leaf <| .part (.optBehind rfl (renders_optExpr p.value)) .nil

theorem ColumnPosition.renders (p : ColumnPosition) : Renders (stored p) p.doc := by
  cases p with
  | first => exact .word rfl
  | after column => exact .seqOne <| .word rfl <| .part (renders_name column) .nil

theorem ColumnDefinition.renders (c : ColumnDefinition) : Renders (stored c) c.doc :=
  .seq <| .part (renders_name c.name) <| .word rfl <| .part c.type.renders <|
    .skip (.when _ (.word rfl)) <| .part (.optBehind rfl (renders_optExpr c.default)) <|
    .part (.optText rfl c.comment) <| .part (.optBehind rfl (.map ColumnPosition.renders c.position)) .nil

theorem PartitionField.renders (f : PartitionField) : Renders (stored f) f.doc := by
  cases f with
  | column name => exact renders_ident name
  | typed name type =>
    exact .seq <| .part (renders_ident name) <| .word rfl <| .part type.renders .nil
  | transform value => exact value.renders false

namespace Layout

variable {w : String}

theorem renders_propertyBlock (hw : awaiting [] w.toList = some []) (ps : List Property) :
    Renders (stored ps) (propertyBlock w ps) :=
  (Carries.word hw).after (.block (.map Property.renders ps))

theorem renders_columnBlock (hw : awaiting [] w.toList = some []) (cs : List ColumnDefinition) :
    Renders (stored cs) (columnBlock w cs) :=
  (Carries.word hw).after (.block (.map ColumnDefinition.renders cs))

theorem renders_propertyLine (hw : awaiting [] w.toList = some []) (ps : List Property) :
    Renders (stored ps) (propertyLine w ps) := by
  cases ps with
  | nil => exact .nil
  | cons p ps => exact Carries.line.after (renders_propertyBlock hw (p :: ps))

theorem renders_textLine (hw : awaiting [] w.toList = some []) (s : Option String) :
    Renders (stored s) (textLine w s) := by
  cases s with
  | none => exact .nil
  | some s => exact .seqOne <| .skip .line <| .word hw <| .leaf .nil

theorem renders_identLine (hw : awaiting [] w.toList = some []) (names : List Ident) :
    Renders (stored names) (identLine w names) := by
  cases names with
  | nil => exact .nil
  | cons name names =>
    exact .seqOne <| .skip .line <| .word hw <| .part (renders_identList (name :: names)) .nil

end Layout

/-! ### Tables -/

theorem BucketSpec.renders (b : BucketSpec) : Renders (stored b) b.doc := by
  refine .seq <| .word rfl <| .part (renders_identList b.columns) <| .part ?_ <| .word rfl <|
    .leaf <| .word rfl .nil
  cases b.sortedBy with
  | nil => exact .nil
  | cons item items =>
    exact .seqOne <| .word rfl <|
      .part (.parens (.map (fun i : OrderItem => i.renders false) (item :: items))) .nil

theorem TableClauses.renders (c : TableClauses) : Renders (stored c) c.doc := by
  have hformat : Renders (stored c.storedAs) (textLine "STORED AS " (c.storedAs.map Ident.written)) := by
    cases c.storedAs with
    | none => exact .nil
    | some format => exact renders_textLine rfl (some format.written)
  refine .seq <| .part (renders_identLine rfl c.primaryKey) <| .part ?_ <|
    .part (.optLine (.map BucketSpec.renders c.clusteredBy)) <| .part hformat <|
    .part (renders_textLine rfl c.location) <| .part (renders_textLine rfl c.lifecycle) <|
    .part (renders_propertyLine rfl c.options) <| .part (renders_propertyLine rfl c.tableProperties) <|
    .part (renders_textLine rfl c.comment) .nil
  cases c.partitionedBy with
  | nil => exact .nil
  | cons field fields =>
    exact .seqOne <| .skip .line <| .word rfl <|
      .part (.parens (.map PartitionField.renders (field :: fields))) .nil

theorem Layout.renders_tableProvider (hasColumns : Bool) (provider : Option Ident) :
    Renders (stored provider) (tableProvider hasColumns provider) := by
  cases provider with
  | none => exact .nil
  | some provider =>
    exact .seqOne <| .skip (.ite .line (.word rfl)) <| .word rfl <| .part (renders_ident provider) .nil

theorem CreateTable.renders (s : CreateTable) : Renders (stored s) s.doc := by
  refine .seq <| .skip (.word (by cases s.mode <;> rfl)) <| .word rfl <| .skip (.when _ (.word rfl)) <|
    .word rfl <| .skip (.when _ (.word rfl)) <| .part (renders_name s.name) <| .part ?_ <|
    .part (renders_tableProvider _ s.provider) <| .part s.clauses.renders <| .part ?_ .nil
  · cases s.columns with
    | none => exact .nil
    | some columns => exact renders_columnBlock rfl columns
  · cases s.query with
    | none => exact .nil
    | some query => exact .seqOne <| .word rfl <| .skip .line <| .part (query.renders false) .nil

/-! ### Views -/

theorem ViewColumn.renders (c : ViewColumn) : Renders (stored c) c.doc :=
  .seq <| .part (renders_ident c.name) <| .part (.optText rfl c.comment) .nil

theorem CreateView.renders (s : CreateView) : Renders (stored s) s.doc := by
  refine .seq <| .word rfl <| .skip (.when _ (.word rfl)) <| .skip (.when _ (.word rfl)) <|
    .skip (.when _ (.word rfl)) <| .word rfl <| .skip (.when _ (.word rfl)) <|
    .part (renders_name s.name) <| .part ?_ <| .part (renders_textLine rfl s.comment) <|
    .part (renders_identLine rfl s.partitionedOn) <|
    .part (renders_propertyLine rfl s.tableProperties) <| .skip .line <| .word rfl <|
    .part (s.query.renders false) .nil
  cases s.columns with
  | none => exact .nil
  | some columns => exact .block (.map ViewColumn.renders columns)

theorem CreateSourceView.renders (s : CreateSourceView) : Renders (stored s) s.doc := by
  refine .seq <| .word rfl <| .skip (.when _ (.word rfl)) <| .skip (.when _ (.word rfl)) <| .word rfl <|
    .part (renders_name s.name) <| .part ?_ <| .skip .line <| .word rfl <|
    .part (renders_ident s.provider) <| .part (renders_propertyLine rfl s.options) .nil
  cases s.columns with
  | none => exact .nil
  | some columns => exact renders_columnBlock rfl columns

/-! ### Namespaces, functions and indexes -/

theorem CreateNamespace.renders (s : CreateNamespace) : Renders (stored s) s.doc := by
  have hproperties : Renders (stored s.properties)
      (propertyLine (if s.dbWord then "WITH DBPROPERTIES " else "WITH PROPERTIES ") s.properties) :=
    renders_propertyLine (by split <;> rfl) s.properties
  exact .seq <| .word rfl <| .skip (.word (by cases s.word <;> rfl)) <| .word rfl <|
    .skip (.when _ (.word rfl)) <| .part (renders_name s.name) <|
    .part (renders_textLine rfl s.comment) <| .part (renders_textLine rfl s.location) <|
    .part hproperties .nil

theorem FunctionResource.renders (r : FunctionResource) : Renders (stored r) r.doc :=
  .seqOne <| .skip (.word (by cases r.kind <;> rfl)) <| .word rfl <| .leaf .nil

theorem CreateFunction.renders (s : CreateFunction) : Renders (stored s) s.doc := by
  refine .seq <| .word rfl <| .skip (.when _ (.word rfl)) <| .skip (.when _ (.word rfl)) <| .word rfl <|
    .skip (.when _ (.word rfl)) <| .part (renders_name s.name) <| .word rfl <| .leaf <|
    .part ?_ .nil
  cases s.resources with
  | nil => exact .nil
  | cons r rs => exact .seqOne <| .word rfl <| .part (.lines (.map FunctionResource.renders (r :: rs))) .nil

theorem IndexColumn.renders (c : IndexColumn) : Renders (stored c) c.doc := by
  refine .seq <| .part (renders_name c.name) <| .part ?_ .nil
  cases c.options with
  | nil => exact .nil
  | cons p ps => exact .seqOne <| .word rfl <| .part (.parens (.map Property.renders (p :: ps))) .nil

theorem Layout.renders_indexColumns (cs : List IndexColumn) :
    Renders (stored cs) (indexColumns cs) := by
  unfold indexColumns
  split
  · rename_i name
    have hstored : stored [(⟨name, []⟩ : IndexColumn)] = stored name := by
      show [stored name, []].flatten ++ [] = stored name
      simp
    rw [hstored]
    exact .parensOne (renders_name name)
  · exact .block (.map IndexColumn.renders cs)

theorem Layout.renders_onWord (tableWord : Bool) : Renders [] (onWord tableWord) :=
  .ite (.word rfl) (.word rfl)

theorem CreateIndex.renders (s : CreateIndex) : Renders (stored s) s.doc := by
  refine .seq <| .word rfl <| .skip (.when _ (.word rfl)) <| .part (renders_ident s.name) <|
    .skip (renders_onWord s.tableWord) <| .part (renders_name s.table) <| .skip .line <|
    .part ?_ <| .part (renders_indexColumns s.columns) <|
    .part (renders_propertyLine rfl s.options) .nil
  cases s.indexType with
  | none => exact .nil
  | some type => exact .seqOne <| .word rfl <| .part (renders_ident type) <| .word rfl .nil

/-! ### `ALTER` -/

theorem ColumnChange.renders (c : ColumnChange) : Renders (stored c) c.doc := by
  cases c with
  | type t => exact .seqOne <| .word rfl <| .part t.renders .nil
  | comment text => exact .seqOne <| .word rfl <| .leaf .nil
  | position p => exact p.renders
  | setNotNull => exact .word rfl
  | dropNotNull => exact .word rfl

theorem Layout.renders_leadingPartition (s : Option PartitionSpec) :
    Renders (stored s) (leadingPartition s) := by
  cases s with
  | none => exact .nil
  | some s => exact .seqOne <| .part s.renders <| .word rfl .nil

theorem Layout.renders_nameList (names : List DottedName) : Renders (stored names) (nameList names) :=
  .commas (.map renders_name names)

theorem Layout.renders_addedPartition (entry : PartitionSpec × Option String) :
    Renders (stored entry) (addedPartition entry) :=
  entry.1.renders.append ((Carries.optText rfl entry.2).before .nil)

theorem AlterAction.renders (a : AlterAction) : Renders (stored a) a.doc := by
  cases a with
  | renameTo name => exact .seqOne <| .word rfl <| .part (renders_name name) .nil
  | setProperties properties => exact renders_propertyBlock rfl properties
  | unsetProperties ifExists keys => exact renders_propertyBlock (by split <;> rfl) keys
  | addColumns plural parenthesized columns =>
    have hwords : awaiting [] (if plural then "ADD COLUMNS" else "ADD COLUMN").toList = some [] := by
      split <;> rfl
    cases parenthesized with
    | true => exact renders_columnBlock hwords columns
    | false => exact .seqOne <| .word hwords <| .part (.lines (.map ColumnDefinition.renders columns)) .nil
  | dropColumns plural ifExists parenthesized columns =>
    have hcolumns := renders_nameList columns
    exact .seqOne <| .skip (.ite (.word rfl) (.word rfl)) <| .skip (.when _ (.word rfl)) <| .word rfl <|
      .part (.ite (.seqOne <| .word rfl <| .part hcolumns <| .word rfl .nil) hcolumns) .nil
  | renameColumn old new =>
    exact .seq <| .word rfl <| .part (renders_name old) <| .word rfl <| .part (renders_ident new) .nil
  | alterColumn changeWord columnWord column change =>
    exact .seq <| .skip (.ite (.word rfl) (.word rfl)) <| .skip (.when _ (.word rfl)) <| .word rfl <|
      .part (renders_name column) <| .word rfl <| .part change.renders .nil
  | changeColumn partition columnWord column definition =>
    exact .seq <| .part (renders_leadingPartition partition) <| .word rfl <|
      .skip (.when _ (.word rfl)) <| .word rfl <| .part (renders_name column) <| .word rfl <|
      .part definition.renders .nil
  | replaceColumns partition columns =>
    exact .seq <| .part (renders_leadingPartition partition) <|
      .part (renders_columnBlock rfl columns) .nil
  | addPartitions ifNotExists partitions =>
    exact .seqOne <| .word rfl <| .skip (.when _ (.word rfl)) <|
      .part (.nest (.onLines (.map renders_addedPartition partitions))) .nil
  | dropPartitions ifExists partitions purge =>
    exact .seqOne <| .word rfl <| .skip (.when _ (.word rfl)) <|
      .part (.lines (.map PartitionSpec.renders partitions)) <| .skip (.when _ (.word rfl)) .nil
  | renamePartition old new => exact .seq <| .part old.renders <| .word rfl <| .part new.renders .nil
  | setLocation partition location =>
    exact .seq <| .part (renders_leadingPartition partition) <| .word rfl <| .leaf .nil
  | recoverPartitions => exact .word rfl
  | touch partition => exact .seqOne <| .word rfl <| .part (renders_optPartition partition) .nil

theorem AlterTable.renders (s : AlterTable) : Renders (stored s) s.doc :=
  .seq <| .skip (.ite (.word rfl) (.word rfl)) <| .part (renders_name s.name) <| .word rfl <|
    .part s.action.renders .nil

theorem AlterViewQuery.renders (s : AlterViewQuery) : Renders (stored s) s.doc :=
  .seq <| .word rfl <| .part (renders_name s.name) <| .word rfl <| .skip .line <|
    .part (s.query.renders false) .nil

theorem AlterNamespaceAction.renders (a : AlterNamespaceAction) : Renders (stored a) a.doc := by
  cases a with
  | setProperties dbWord properties => exact renders_propertyBlock (by split <;> rfl) properties
  | setLocation location => exact .seqOne <| .word rfl <| .leaf .nil

theorem AlterNamespace.renders (s : AlterNamespace) : Renders (stored s) s.doc :=
  .seq <| .word rfl <| .skip (.word (by cases s.word <;> rfl)) <| .word rfl <|
    .part (renders_name s.name) <| .part s.action.renders .nil

/-! ### `DROP` -/

theorem Drop.renders (s : Drop) : Renders (stored s) s.doc :=
  .seqOne <| .skip (.ite (.word rfl) (.word rfl)) <| .skip (.when _ (.word rfl)) <|
    .part (renders_name s.name) <| .skip (.when _ (.word rfl)) .nil

theorem DropNamespace.renders (s : DropNamespace) : Renders (stored s) s.doc :=
  .seqOne <| .word rfl <| .skip (.word (by cases s.word <;> rfl)) <| .word rfl <|
    .skip (.when _ (.word rfl)) <| .part (renders_name s.name) <|
    .skip (.optWord (by rintro ⟨⟩ <;> rfl) s.behavior) .nil

theorem DropFunction.renders (s : DropFunction) : Renders (stored s) s.doc :=
  .seqOne <| .word rfl <| .skip (.when _ (.word rfl)) <| .word rfl <| .skip (.when _ (.word rfl)) <|
    .part (renders_name s.name) .nil

theorem DropIndex.renders (s : DropIndex) : Renders (stored s) s.doc :=
  .seq <| .word rfl <| .skip (.when _ (.word rfl)) <| .part (renders_ident s.name) <|
    .skip (renders_onWord s.tableWord) <| .part (renders_name s.table) .nil

/-! ## Commands -/

theorem Truncate.renders (s : Truncate) : Renders (stored s) s.doc :=
  .seq <| .word rfl <| .part (renders_name s.table) <| .part (renders_optPartition s.partition) .nil

theorem RepairTable.renders (s : RepairTable) : Renders (stored s) s.doc :=
  .seqOne <| .skip (.when _ (.word rfl)) <| .word rfl <| .part (renders_name s.table) <|
    .skip (.optWord (by rintro ⟨⟩ <;> rfl) s.option) .nil

theorem AnalyzeTarget.renders (t : AnalyzeTarget) : Renders (stored t) t.doc := by
  cases t with
  | table => exact .nil
  | noScan => exact .word rfl
  | columns names => exact .seqOne <| .word rfl <| .part (renders_nameList names) .nil
  | allColumns => exact .word rfl

theorem Analyze.renders (s : Analyze) : Renders (stored s) s.doc :=
  .seq <| .word rfl <| .part (renders_name s.table) <| .part (renders_optPartition s.partition) <|
    .word rfl <| .part s.target.renders .nil

theorem Scope.renders (s : Scope) : Renders (stored s) s.doc :=
  .seqOne <| .word rfl <| .skip (.word (by cases s.word <;> rfl)) <| .word rfl <|
    .part (renders_name s.name) .nil

theorem Layout.renders_optScope (s : Option Scope) : Renders (stored s) (optScope s) := by
  cases s with
  | none => exact .nil
  | some s => exact s.renders

theorem AnalyzeTables.renders (s : AnalyzeTables) : Renders (stored s) s.doc :=
  .seqOne <| .word rfl <| .part (renders_optScope s.scope) <| .word rfl <|
    .skip (.when _ (.word rfl)) .nil

theorem CommentOn.renders (s : CommentOn) : Renders (stored s) s.doc := by
  have htarget : Renders [] s.target.doc := by
    cases s.target with
    | «namespace» word => exact .word (by cases word <;> rfl)
    | table => exact .word rfl
  have hcomment : Renders (stored s.comment) (s.comment.getD "NULL") := by
    cases s.comment with
    | none => exact .word rfl
    | some comment => exact .leaf comment
  exact .seq <| .word rfl <| .skip htarget <| .word rfl <| .part (renders_name s.name) <| .word rfl <|
    .part hcomment .nil

theorem Use.renders (s : Use) : Renders (stored s) s.doc :=
  .seqOne <| .word rfl <| .skip (.optWordGap (by rintro ⟨⟩ <;> rfl) s.word) <|
    .part (renders_name s.name) .nil

theorem SetConfig.renders (s : SetConfig) : Renders (stored s) s.doc :=
  .seq <| .word rfl <| .part (.optText rfl s.key) <| .part (.optText rfl s.value) .nil

theorem Layout.renders_optPattern (p : Option ShowPattern) : Renders (stored p) (optPattern p) := by
  cases p with
  | none => exact .nil
  | some p => exact .seqOne <| .skip (.ite (.word rfl) (.word rfl)) <| .leaf .nil

theorem Show.renders (s : Show) : Renders (stored s) s.doc := by
  cases s with
  | namespaces word scope pattern =>
    exact .seq <| .skip (.word (by cases word <;> rfl)) <| .part (renders_optScope scope) <|
      .part (renders_optPattern pattern) .nil
  | tables scope pattern =>
    exact .seq <| .word rfl <| .part (renders_optScope scope) <| .part (renders_optPattern pattern) .nil
  | tableExtended scope pattern partition =>
    exact .seq <| .word rfl <| .part (renders_optScope scope) <| .word rfl <| .leaf <|
      .part (renders_optPartition partition) .nil
  | views scope pattern =>
    exact .seq <| .word rfl <| .part (renders_optScope scope) <| .part (renders_optPattern pattern) .nil
  | columns table database =>
    exact .seq <| .word rfl <| .part table.renders <| .part (renders_optScope database) .nil
  | partitions table partition =>
    exact .seq <| .word rfl <| .part (renders_name table) <| .part (renders_optPartition partition) .nil
  | tableProperties table key =>
    refine .seq <| .word rfl <| .part (renders_name table) <| .part ?_ .nil
    cases key with
    | none => exact .nil
    | some key => exact .seqOne <| .word rfl <| .leaf <| .word rfl .nil
  | functions kind scope pattern =>
    exact .seq <| .skip (.optWordGap (by rintro ⟨⟩ <;> rfl) kind) <| .word rfl <|
      .part (renders_optScope scope) <| .part (renders_optPattern pattern) .nil
  | createTable table asSerde =>
    exact .seqOne <| .word rfl <| .part (renders_name table) <| .skip (.when _ (.word rfl)) .nil
  | catalogs pattern => exact .seqOne <| .word rfl <| .part (renders_optPattern pattern) .nil
  | currentNamespace => exact .word rfl

theorem DescribeTarget.renders (t : DescribeTarget) : Renders (stored t) t.doc := by
  cases t with
  | table tableWord detail name partition column =>
    have hcolumn : Renders (stored column) (optWord (column.map DottedName.written)) := by
      cases column with
      | none => exact .nil
      | some column => exact (Carries.word rfl).after (renders_name column)
    exact .seq <| .skip (.when _ (.word rfl)) <| .skip (.optWord (by rintro ⟨⟩ <;> rfl) detail) <|
      .word rfl <| .part (renders_name name) <| .part (renders_optPartition partition) <|
      .part hcolumn .nil
  | function extended name =>
    exact .seqOne <| .word rfl <| .skip (.when _ (.word rfl)) <| .word rfl <| .part (renders_name name) .nil
  | «namespace» word extended name =>
    exact .seqOne <| .word rfl <| .skip (.word (by cases word <;> rfl)) <|
      .skip (.when _ (.word rfl)) <| .word rfl <| .part (renders_name name) .nil
  | query queryWord q =>
    exact .seqOne <| .skip (.when _ (.word rfl)) <| .word rfl <| .part (q.renders false) .nil

theorem Describe.renders (s : Describe) : Renders (stored s) s.doc :=
  .seqOne <| .skip (.ite (.word rfl) (.word rfl)) <| .part s.target.renders .nil

theorem CallProcedure.renders (s : CallProcedure) : Renders (stored s) s.doc :=
  .seq <| .word rfl <| .part (renders_name s.procedure) <|
    .part (.block (.map (fun a : CallArg => a.renders false) s.args)) .nil

theorem LoadData.renders (s : LoadData) : Renders (stored s) s.doc :=
  .seq <| .word rfl <| .skip (.when _ (.word rfl)) <| .word rfl <| .leaf <|
    .skip (.when _ (.word rfl)) <| .word rfl <| .part (renders_name s.table) <|
    .part (renders_optPartition s.partition) .nil

theorem Layout.renders_trailingOptions (ps : List Property) :
    Renders (stored ps) (trailingOptions ps) := by
  cases ps with
  | nil => exact .nil
  | cons p ps => exact renders_propertyBlock rfl (p :: ps)

theorem LoadFile.renders (s : LoadFile) : Renders (stored s) s.doc :=
  .seq <| .word rfl <| .leaf <| .skip (.ite (.word rfl) (.word rfl)) <| .part (renders_name s.table) <|
    .part (renders_trailingOptions s.options) .nil

theorem ExportTable.renders (s : ExportTable) : Renders (stored s) s.doc := by
  refine .seq <| .part (renders_leadingWith s.withClause) <| .word rfl <| .part (renders_name s.table) <|
    .part ?_ <| .word rfl <| .leaf <| .part (renders_trailingOptions s.options) .nil
  cases s.partition with
  | none => exact .word rfl
  | some spec => exact .seqOne <| .word rfl <| .part spec.renders <| .skip .line .nil

mutual

theorem TunnelValue.renders : (v : TunnelValue) → Renders v.strings v.doc
  | .scalar value => .leaf value
  | .list items => .seqOne <| .word rfl <| .part (.commas (TunnelValue.renders_items items)) <| .word rfl .nil

theorem TunnelValue.renders_items : (vs : List TunnelValue) →
    Each Renders (TunnelValue.itemStrings vs) (TunnelValue.docs vs)
  | [] => .nil
  | v :: vs => .cons v.renders (TunnelValue.renders_items vs)

end

theorem TunnelProperty.renders (p : TunnelProperty) : Renders (stored p) p.doc :=
  .seq <| .leaf <| .word rfl <| .part p.value.renders .nil

theorem Layout.renders_tunnelEnd {w : String} (hw : awaiting [] w.toList = some []) (kind : String)
    (options : List TunnelProperty) :
    Renders [[kind], stored options].flatten (tunnelEnd w kind options) :=
  .seq <| .word hw <| .word rfl <| .leaf <| .word rfl <|
    .part (.block (.map TunnelProperty.renders options)) .nil

theorem DataTunnel.renders (s : DataTunnel) : Renders (stored s) s.doc :=
  .seq <| .word rfl <| .part (renders_tunnelEnd rfl s.source s.sourceOptions) <|
    .part (renders_textLine rfl s.transform) <| .skip .line <|
    .part (renders_tunnelEnd rfl s.sink s.sinkOptions) .nil

theorem MergeFiles.renders (s : MergeFiles) : Renders (stored s) s.doc :=
  .seq <| .word rfl <| .part (renders_name s.table) <| .part (renders_optPartition s.partition) <|
    .part (renders_propertyLine rfl s.options) .nil

/-! ## All statements -/

/-- The document of a statement shows its strings and closes what it opens. -/
theorem Statement.renders : (s : Statement) → Renders (stored s) s.doc
  | .query s => s.renders false
  | .insert s => s.renders
  | .multiInsert s => s.renders
  | .update s => s.renders
  | .delete s => s.renders
  | .merge s => s.renders
  | .createTable s => s.renders
  | .createView s => s.renders
  | .createSourceView s => s.renders
  | .alterViewQuery s => s.renders
  | .alterTable s => s.renders
  | .drop s => s.renders
  | .createNamespace s => s.renders
  | .alterNamespace s => s.renders
  | .dropNamespace s => s.renders
  | .createFunction s => s.renders
  | .dropFunction s => s.renders
  | .createIndex s => s.renders
  | .dropIndex s => s.renders
  | .truncate s => s.renders
  | .repairTable s => s.renders
  | .analyze s => s.renders
  | .analyzeTables s => s.renders
  | .commentOn s => s.renders
  | .use s => s.renders
  | .setCatalog _ => .seqOne <| .word rfl <| .leaf .nil
  | .setConfig s => s.renders
  | .reset key => .seqOne <| .word rfl <| .part (.optText rfl key) .nil
  | .show s => .seqOne <| .word rfl <| .part s.renders .nil
  | .describe s => s.renders
  | .explain mode inner =>
    .seqOne <| .word rfl <| .skip (.optWordGap (by rintro ⟨⟩ <;> rfl) mode) <| .part inner.renders .nil
  | .call s => s.renders
  | .loadData s => s.renders
  | .loadFile s => s.renders
  | .exportTable s => s.renders
  | .dataTunnel s => s.renders
  | .mergeFiles s => s.renders

end SqlTidy
