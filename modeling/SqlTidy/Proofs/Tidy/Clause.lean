import SqlTidy.Layout.Statement
import SqlTidy.Proofs.Tidy.Tree
import SqlTidy.Proofs.Walk.Command

/-!
# Statements that are printed without stray blanks

The parts of statements, with one lemma for each that has a document of its own. Where clauses are added one by one to
what has been read, the parts have to be tidy and not the document, so that one more tidy clause leaves it so.
-/

namespace SqlTidy

open Text Doc Layout Tidy

namespace Layout

variable {b : Bool}

theorem solid_exprs {es : List Expr} (h : tidy es) : ∀ d ∈ es.map fun e => e.doc, Solid d :=
  solid_map (fun (e : Expr) (he : tidy e) => he false) h

theorem solid_optExpr {e : Option Expr} (h : tidy e) : ∀ d ∈ e.map fun e => e.doc, Solid d :=
  solid_optionMap (fun (e : Expr) (he : tidy e) => he false) h

theorem loose_leadingWith {tables : Option WithClause} (h : tidy tables) : Loose (leadingWith tables) := by
  cases tables with
  | none => exact .nil
  | some tables => exact .seq <| .solid (h tables rfl false) <| .line .nil

theorem keeps_whereLine {condition : Option Expr} (h : tidy condition) : Keeps (whereLine condition) := by
  cases condition with
  | none => exact .nil
  | some e => exact .append .line (.conditionClause rfl (h e rfl true))

end Layout

/-! ## Statements that change rows -/

instance : Tidy PartitionValue := ⟨fun v => Solid v.doc⟩

instance : Tidy PartitionSpec := ⟨fun spec => Solid spec.doc⟩

instance : Tidy InsertTarget := ⟨fun t => Solid t.doc⟩

instance : Tidy Insert := ⟨fun s => Solid s.doc⟩

instance : Tidy MultiInsertBody := ⟨fun body => Solid body.doc⟩

instance : Tidy MultiInsert := ⟨fun s => Solid s.doc⟩

instance : Tidy Assignment := ⟨fun a => Solid a.doc⟩

instance : Tidy Update := ⟨fun s => Solid s.doc⟩

instance : Tidy Delete := ⟨fun s => Solid s.doc⟩

instance : Tidy MergeAction := ⟨fun a => Solid a.doc⟩

instance : Tidy MergeClause := ⟨fun c => Solid c.doc⟩

instance : Tidy Merge := ⟨fun s => Solid s.doc⟩

theorem PartitionValue.tidy_of {v : PartitionValue} (hname : tidy v.name) (hvalue : tidy v.value) : tidy v :=
  Lands.seq <| .word hname <| .part (.optBehind rfl (solid_optExpr hvalue)) .nil

theorem PartitionSpec.tidy_of {values : List PartitionValue} (h : tidy values) : tidy (mk values) :=
  Lands.seq <| .word rfl <| .solid (.parens (solid_map (fun _ hv => hv) h)) .nil

theorem Layout.lands_optPartition {b : Bool} {spec : Option PartitionSpec} (h : tidy spec) :
    Lands b (optPartition spec) b :=
  .optBehind rfl (solid_optionMap (fun _ hs => hs) h)

theorem InsertTarget.tidy_of {t : InsertTarget} (htable : tidy t.table) (hpartition : tidy t.partition)
    (hcolumns : tidy t.columns) : tidy t := by
  refine Lands.seq <| .part (.ite (.text rfl) (.text rfl)) <| .part (.when (.text rfl)) <| .word rfl <|
    .word htable <| .part (lands_optPartition hpartition) <| .part (.when (.text rfl)) <|
    .part (?_ : Keeps _) .nil
  split
  · exact .nil
  · exact .seq <| .word rfl <| .solid (solid_identList hcolumns) .nil

theorem Layout.lands_insertBreak (q : Query) : Lands true (insertBreak q) false := by
  cases q with
  | query tables body clauses =>
    cases tables with
    | some => exact .line
    | none =>
      cases body with
      | tableBody => exact .ite (.text rfl) .line
      | selectBody | setOperation | nestedQuery | valuesBody | fromFirst => exact .line

theorem Insert.tidy_of {s : Insert} (htables : tidy s.withClause) (htarget : tidy s.target)
    (hsource : tidy s.source) : tidy s :=
  Lands.seq <| .part (loose_leadingWith htables) <| .solid htarget <| .part (lands_insertBreak s.source) <|
    .solid (hsource false) .nil

theorem MultiInsertBody.tidy_of {body : MultiInsertBody} (htarget : tidy body.target)
    (hselect : tidy body.select) (hclauses : tidy body.organization) : tidy body :=
  Lands.seq <| .solid htarget <| .line <| .solid (hselect false) <| .part (hclauses false) .nil

theorem MultiInsert.tidy_of {s : MultiInsert} (htables : tidy s.withClause) (hsource : tidy s.source)
    (hinserts : tidy s.inserts) : tidy s :=
  Lands.seq <| .part (loose_leadingWith htables) <| .solid (hsource false) <|
    .part (.onLines (solid_map (fun _ hi => hi) hinserts)) .nil

theorem Assignment.tidy_of {a : Assignment} (htarget : tidy a.target) (hvalue : tidy a.value) : tidy a :=
  Lands.seq <| .word htarget <| .word rfl <| .solid (hvalue false) .nil

theorem Layout.keeps_assignments {as : List Assignment} (h : tidy as) :
    Keeps (.lines (as.map Assignment.doc)) :=
  .lines (solid_map (fun _ ha => ha) h)

theorem Update.tidy_of {s : Update} (htable : tidy s.table) (hname : tidy s.asName)
    (has : tidy s.assignments) (hcondition : tidy s.condition) : tidy s :=
  Lands.seq <| .word rfl <| .word htable <| .part (lands_tableAlias hname) <| .word rfl <|
    .part (keeps_assignments has) <| .part (keeps_whereLine hcondition) .nil

theorem Delete.tidy_of {s : Delete} (htable : tidy s.table) (hname : tidy s.asName)
    (hcondition : tidy s.condition) : tidy s :=
  Lands.seq <| .word rfl <| .word htable <| .part (lands_tableAlias hname) <|
    .part (keeps_whereLine hcondition) .nil

namespace MergeAction

theorem tidy_updateAll : tidy updateAll := Lands.text rfl

theorem tidy_update {as : List Assignment} (h : tidy as) : tidy (update as) :=
  Lands.seq <| .word rfl <| .part (keeps_assignments h) .nil

theorem tidy_delete : tidy delete := Lands.text rfl

theorem tidy_insertAll : tidy insertAll := Lands.text rfl

theorem tidy_insert {columns : List Ident} {values : List Expr} (hcolumns : tidy columns)
    (hvalues : tidy values) : tidy (insert columns values) :=
  Lands.seq <| .word rfl <| .solid (solid_identList hcolumns) <| .word rfl <|
    .solid (.parens (solid_exprs hvalues)) .nil

end MergeAction

theorem MergeClause.tidy_of {c : MergeClause} (hcondition : tidy c.condition) (haction : tidy c.action) :
    tidy c := by
  have hkind : settle false c.kind.spelling.toList = some true := by
    cases c.kind with
    | matched | notMatchedBySource => rfl
    | notMatched byTarget => cases byTarget <;> rfl
  exact Lands.seq <| .word hkind <| .part (.optBehind rfl (solid_optExpr hcondition)) <| .word rfl <|
    .part (.nest (.append .line haction)) .nil

theorem Merge.tidy_of {s : Merge} (htarget : tidy s.target) (hname : tidy s.targetAlias)
    (hsource : tidy s.source) (hcondition : tidy s.condition) (hclauses : tidy s.clauses) : tidy s :=
  Lands.seq <| .word rfl <| .word htarget <| .part (lands_tableAlias hname) <| .line <| .word rfl <|
    .solid (hsource false) <| .line <| .word rfl <| .solid (.nest (hcondition true)) <|
    .part (.onLines (solid_map (fun _ hc => hc) hclauses)) .nil

/-! ## Statements that define things -/

instance : Tidy Property := ⟨fun p => Solid p.doc⟩

instance : Tidy ColumnPosition := ⟨fun p => Solid p.doc⟩

instance : Tidy ColumnDefinition := ⟨fun c => Solid c.doc⟩

instance : Tidy PartitionField := ⟨fun f => Solid f.doc⟩

instance : Tidy BucketSpec := ⟨fun spec => Solid spec.doc⟩

instance : Tidy ViewColumn := ⟨fun c => Solid c.doc⟩

instance : Tidy FunctionResource := ⟨fun r => Solid r.doc⟩

instance : Tidy IndexColumn := ⟨fun c => tidy c.name ∧ tidy c.options⟩

instance : Tidy TableClause := ⟨fun
  | .primaryKey columns => tidy columns
  | .partitionedBy fields => tidy fields
  | .clusteredBy spec => tidy spec
  | .storedAs format => tidy format
  | .location path => tidy path
  | .lifecycle days => tidy days
  | .options properties => tidy properties
  | .tableProperties properties => tidy properties
  | .comment s => tidy s⟩

instance : Tidy TableClauses := ⟨fun c =>
  tidy c.primaryKey ∧ tidy c.partitionedBy ∧ tidy c.clusteredBy ∧ tidy c.storedAs ∧ tidy c.location ∧
    tidy c.lifecycle ∧ tidy c.options ∧ tidy c.tableProperties ∧ tidy c.comment⟩

theorem Property.tidy_of {p : Property} (hkey : tidy p.key) (hvalue : tidy p.value) : tidy p :=
  Lands.seq <| .word hkey <| .part (.optBehind rfl (solid_optExpr hvalue)) .nil

theorem ColumnPosition.tidy_first : tidy first := Lands.text rfl

theorem ColumnPosition.tidy_after {column : DottedName} (h : tidy column) : tidy (after column) :=
  Lands.seq <| .word rfl <| .word h .nil

theorem ColumnDefinition.tidy_of {c : ColumnDefinition} (hname : tidy c.name) (htype : tidy c.type)
    (hdefault : tidy c.default) (hcomment : tidy c.comment) (hposition : tidy c.position) : tidy c :=
  Lands.seq <| .word hname <| .word rfl <| .solid htype <| .part (.when (.text rfl)) <|
    .part (.optBehind rfl (solid_optExpr hdefault)) <| .part (.optText hcomment rfl) <|
    .part (.optBehind rfl (solid_optionMap (fun _ hp => hp) hposition)) .nil

namespace PartitionField

theorem tidy_column {name : Ident} (h : tidy name) : tidy (column name) := Lands.text h

theorem tidy_typed {name : Ident} {type : DataType} (h : tidy name) (htype : tidy type) :
    tidy (typed name type) :=
  Lands.seq <| .word h <| .word rfl <| .solid htype .nil

theorem tidy_transform {e : Expr} (h : tidy e) : tidy (transform e) := h false

end PartitionField

namespace Layout

variable {w : String} {c : Bool}

theorem solid_propertyBlock {ps : List Property} (hw : settle false w.toList = some c) (h : tidy ps) :
    Solid (propertyBlock w ps) :=
  .append (.text hw) (.anywhere (.block (solid_map (fun _ hp => hp) h)))

theorem solid_columnBlock {cs : List ColumnDefinition} (hw : settle false w.toList = some c)
    (h : tidy cs) : Solid (columnBlock w cs) :=
  .append (.text hw) (.anywhere (.block (solid_map (fun _ hc => hc) h)))

theorem keeps_propertyLine {ps : List Property} (hw : settle false w.toList = some c) (h : tidy ps) :
    Keeps (propertyLine w ps) := by
  cases ps with
  | nil => exact .nil
  | cons p ps => exact .append .line (solid_propertyBlock hw h)

theorem keeps_textLine {s : Option String} (hw : settle false w.toList = some c) (h : tidy s) :
    Keeps (textLine w s) := by
  cases s with
  | none => exact .nil
  | some s => exact .seq <| .line <| .word hw <| .word (h s rfl) .nil

theorem keeps_identLine {names : List Ident} (hw : settle false w.toList = some c) (h : tidy names) :
    Keeps (identLine w names) := by
  cases names with
  | nil => exact .nil
  | cons name names => exact .seq <| .line <| .word hw <| .solid (solid_identList h) .nil

theorem tidy_written {name : Option Ident} (h : tidy name) : tidy (name.map Ident.written) := by
  intro w hw
  obtain ⟨i, hi, rfl⟩ := Option.map_eq_some_iff.1 hw
  exact h i hi

end Layout

theorem BucketSpec.tidy_of {spec : BucketSpec} (hcolumns : tidy spec.columns) (hsorted : tidy spec.sortedBy)
    (hbuckets : tidy spec.buckets) : tidy spec := by
  refine Lands.seq <| .word rfl <| .solid (solid_identList hcolumns) <| .part (?_ : Keeps _) <|
    .word rfl <| .word hbuckets <| .word rfl .nil
  split
  · exact .nil
  · exact .seq <| .word rfl <| .solid (.parens (solid_map (fun (i : OrderItem) (hi : tidy i) => hi false) hsorted)) .nil

namespace TableClauses

theorem tidy_empty : tidy empty := by
  refine ⟨?_, ?_, ?_, ?_, ?_, ?_, ?_, ?_, ?_⟩ <;> simp [tidy, empty]

/-- One more tidy clause leaves the clauses tidy. -/
theorem tidy_add {clauses : TableClauses} {clause : TableClause} (h : tidy clauses) (hc : tidy clause) :
    tidy (clauses.add clause) := by
  obtain ⟨h₁, h₂, h₃, h₄, h₅, h₆, h₇, h₈, h₉⟩ := h
  cases clause with
  | primaryKey => exact ⟨hc, h₂, h₃, h₄, h₅, h₆, h₇, h₈, h₉⟩
  | partitionedBy => exact ⟨h₁, hc, h₃, h₄, h₅, h₆, h₇, h₈, h₉⟩
  | clusteredBy => exact ⟨h₁, h₂, tidy_some hc, h₄, h₅, h₆, h₇, h₈, h₉⟩
  | storedAs => exact ⟨h₁, h₂, h₃, tidy_some hc, h₅, h₆, h₇, h₈, h₉⟩
  | location => exact ⟨h₁, h₂, h₃, h₄, tidy_some hc, h₆, h₇, h₈, h₉⟩
  | lifecycle => exact ⟨h₁, h₂, h₃, h₄, h₅, tidy_some hc, h₇, h₈, h₉⟩
  | options => exact ⟨h₁, h₂, h₃, h₄, h₅, h₆, hc, h₈, h₉⟩
  | tableProperties => exact ⟨h₁, h₂, h₃, h₄, h₅, h₆, h₇, hc, h₉⟩
  | comment => exact ⟨h₁, h₂, h₃, h₄, h₅, h₆, h₇, h₈, tidy_some hc⟩

theorem keeps_doc {clauses : TableClauses} (h : tidy clauses) : Keeps clauses.doc := by
  obtain ⟨h₁, h₂, h₃, h₄, h₅, h₆, h₇, h₈, h₉⟩ := h
  refine .seq <| .part (keeps_identLine rfl h₁) <| .part (?_ : Keeps _) <|
    .part (.optLine (solid_optionMap (fun _ hb => hb) h₃)) <| .part (keeps_textLine rfl (tidy_written h₄)) <|
    .part (keeps_textLine rfl h₅) <| .part (keeps_textLine rfl h₆) <| .part (keeps_propertyLine rfl h₇) <|
    .part (keeps_propertyLine rfl h₈) <| .part (keeps_textLine rfl h₉) .nil
  split
  · exact .nil
  · exact .seq <| .line <| .word rfl <| .solid (.parens (solid_map (fun _ hf => hf) h₂)) .nil

end TableClauses

end SqlTidy
