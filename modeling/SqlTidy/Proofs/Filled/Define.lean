import SqlTidy.Grammar.Alter
import SqlTidy.Proofs.Filled.Query

/-!
# What the rules for statements that change or define things fill

Every name in a statement comes from `dottedName`, every partition from `partitionSpec`, and the lists of
assignments are written with commas. The clauses of a `MERGE` are counted by its own rule. Clauses that may come
in any order are added one by one to the clauses read so far, and a filled clause keeps them filled.
-/

namespace SqlTidy

namespace Grammar

open Parse

/-! ## Statements that change rows -/

theorem fills_partitionValue : Yields filled partitionValue :=
  .andThen fun _ => fills_expression.maybe.bind fun _ hvalue => .pure hvalue

theorem fills_partitionSpec : Yields filled partitionSpec := by
  refine .andThen fun _ => .andThen fun _ => ?_
  exact fills_partitionValue.stocked.bind fun _ hvalues => .andThen fun _ => .pure hvalues

theorem fills_optionalPartition : Yields filled optionalPartition := fills_partitionSpec.maybe

theorem fills_insertTarget : Yields filled insertTarget := by
  refine .andThen fun _ => .andThen fun _ => .andThen fun _ => ?_
  refine fills_dottedName.bind fun table htable => ?_
  refine fills_optionalPartition.bind fun partition hpartition => ?_
  exact .andThen fun _ => .andThen fun _ => .pure ⟨htable, hpartition⟩

theorem fills_insert {tables : Option WithClause} (htables : filled tables) :
    Yields filled (insert tables) := by
  refine fills_insertTarget.bind fun target htarget => ?_
  exact fills_query.bind fun source hsource => .pure ⟨htables, htarget, hsource⟩

theorem fills_multiInsertBody : Yields filled multiInsertBody := by
  refine .maybe (fills_insertTarget.bind fun target htarget => ?_)
  refine (yields_within_filled fun _ h => fills_select h false).bind fun body hbody => ?_
  refine (yields_within_filled fun _ h => fills_organization h).bind fun clauses hclauses => ?_
  exact .pure ⟨htarget, hbody.2 rfl, hbody.1, hclauses⟩

theorem fills_assignments : Yields Stocked assignments := by
  refine Yields.stocked (fills_dottedName.bind fun target htarget => .andThen fun _ => ?_)
  exact fills_expression.bind fun value hvalue => .pure ⟨htarget, hvalue⟩

theorem fills_optionalWhere : Yields filled optionalWhere := fills_expression.maybe

theorem fills_update : Yields filled update := by
  refine .andThen fun _ => fills_dottedName.bind fun table htable => ?_
  refine .andThen fun _ => .andThen fun _ => fills_assignments.bind fun assignments hassignments => ?_
  exact fills_optionalWhere.bind fun condition hcondition => .pure ⟨htable, hassignments, hcondition⟩

theorem fills_delete : Yields filled delete := by
  refine .andThen fun _ => fills_dottedName.bind fun table htable => .andThen fun _ => ?_
  exact fills_optionalWhere.bind fun condition hcondition => .pure ⟨htable, hcondition⟩

theorem fills_mergeInsert : Yields filled mergeInsert := by
  refine .andThen fun _ => .ite (.pure trivial) ?_
  refine .andThen fun _ => .andThen fun _ => .andThen fun _ => ?_
  refine (yields_within_filled fun _ h => fills_expressions h).bind fun values hvalues => ?_
  exact .andThen fun _ => .pure hvalues.filled

theorem fills_mergeUpdate : Yields filled mergeUpdate := by
  refine .andThen fun _ => .ite (.pure trivial) ?_
  exact fills_assignments.bind fun assignments hassignments => .pure hassignments

theorem fills_mergeAction : Yields filled mergeAction := by
  have hrules : ∀ r ∈ [(["DELETE"], pure .delete), (["UPDATE", "SET"], mergeUpdate),
      (["INSERT"], mergeInsert)], Yields filled r.2 := by
    simp only [List.forall_mem_cons, List.not_mem_nil, false_implies, implies_true, and_true]
    exact ⟨.pure trivial, fills_mergeUpdate, fills_mergeInsert⟩
  refine (Yields.chooseRule hrules).bind fun action haction => ?_
  cases action with
  | none => exact yields_expected _
  | some action => exact .pure (haction action rfl)

theorem fills_mergeClause : Yields filled mergeClause := by
  refine .maybe (.andThen fun _ => fills_expression.maybe.bind fun condition hcondition => ?_)
  refine .andThen fun _ => fills_mergeAction.bind fun action haction => ?_
  exact .pure ⟨hcondition, haction⟩

theorem fills_merge : Yields filled merge := by
  refine .andThen fun _ => fills_dottedName.bind fun target htarget => ?_
  refine .andThen fun _ => .andThen fun _ => ?_
  refine (yields_within_filled fun _ h => fills_tableFactor h).bind fun source hsource => ?_
  refine .andThen fun _ => fills_expression.bind fun condition hcondition => ?_
  refine fills_mergeClause.stockedOrFail fun clauses hclauses => ?_
  exact .pure ⟨htarget, hsource, hcondition, hclauses⟩

/-! ## Properties and columns -/

theorem fills_propertyValue : Yields filled propertyValue := by
  refine .andThen fun _ => .ite fills_expression.toSome (.andThen fun _ => ?_)
  exact .ite yields_none fills_expression.toSome

theorem fills_property : Yields filled property :=
  .andThen fun _ => fills_propertyValue.bind fun _ hvalue => .pure hvalue

theorem fills_properties : Yields filled properties := by
  refine .andThen fun _ => .andThen fun _ => .ite yields_nil ?_
  exact fills_property.commaSeparated.bind fun entries hentries => .andThen fun _ => .pure hentries

theorem fills_optionalOptions : Yields filled optionalOptions := fills_properties.maybeList

theorem fills_columnPosition : Yields filled columnPosition := by
  refine .andThen fun _ => .ite (Yields.toSome (.pure trivial)) (.andThen fun _ => .ite ?_ yields_none)
  refine fills_dottedName.bind fun column hcolumn => .pure ?_
  have hposition : filled (ColumnPosition.after column) := hcolumn
  exact Parts.filled_some hposition

theorem fills_columnDefinition : Yields filled columnDefinition := by
  refine fills_dottedName.bind fun name hname => .andThen fun _ => .andThen fun _ => ?_
  refine fills_expression.maybe.bind fun default hdefault => .andThen fun _ => ?_
  exact fills_columnPosition.bind fun position hposition => .pure ⟨hname, hdefault, hposition⟩

theorem fills_columnDefinitions : Yields filled columnDefinitions := by
  refine .andThen fun _ => fills_columnDefinition.commaSeparated.bind fun columns hcolumns => ?_
  exact .andThen fun _ => .pure hcolumns

/-! ## Tables -/

theorem fills_partitionField : Yields filled partitionField := by
  have htransform : Yields filled (do return .transform (← expression) : Parse PartitionField) :=
    fills_expression.bind fun value hvalue => .pure hvalue
  refine .andThen fun next => .andThen fun _ => .ite htransform ?_
  split
  · exact .andThen fun _ => .pure trivial
  · exact .andThen fun _ => .pure trivial
  · exact .andThen fun _ => .andThen fun _ => .pure trivial
  · exact htransform

theorem fills_partitionFields : Yields filled partitionFields := by
  refine .andThen fun _ => fills_partitionField.commaSeparated.bind fun fields hfields => ?_
  exact .andThen fun _ => .pure hfields

theorem fills_sortedBy : Yields filled sortedBy := by
  refine .maybeList (.andThen fun _ => ?_)
  refine (yields_within_filled fun _ h => fills_orderItems h).bind fun items hitems => ?_
  exact .andThen fun _ => .pure hitems.filled

theorem fills_bucketSpec : Yields filled bucketSpec := by
  refine .andThen fun _ => fills_sortedBy.bind fun items hitems => ?_
  exact .andThen fun _ => .andThen fun _ => .andThen fun _ => .pure hitems

theorem fills_tableClauseRules : ∀ r ∈ tableClauseRules, Yields filled r.2 := by
  simp only [tableClauseRules, List.forall_mem_cons, List.not_mem_nil, false_implies, implies_true,
    and_true]
  refine ⟨.andThen fun _ => .pure trivial, ?_, ?_, .andThen fun _ => .pure trivial,
    .andThen fun _ => .pure trivial, .andThen fun _ => .pure trivial, ?_, ?_,
    .andThen fun _ => .pure trivial⟩
  · exact fills_partitionFields.bind fun fields hfields => .pure hfields
  · exact fills_bucketSpec.bind fun spec hspec => .pure hspec
  · exact fills_properties.bind fun entries hentries => .pure hentries
  · exact fills_properties.bind fun entries hentries => .pure hentries

theorem filled_add {clauses : TableClauses} {clause : TableClause} (h : filled clauses)
    (hclause : filled clause) : filled (clauses.add clause) := by
  obtain ⟨hpartition, hbuckets, hoptions, hproperties⟩ := h
  cases clause with
  | partitionedBy fields => exact ⟨hclause, hbuckets, hoptions, hproperties⟩
  | clusteredBy spec => exact ⟨hpartition, Parts.filled_some hclause, hoptions, hproperties⟩
  | options entries => exact ⟨hpartition, hbuckets, hclause, hproperties⟩
  | tableProperties entries => exact ⟨hpartition, hbuckets, hoptions, hclause⟩
  | _ => exact ⟨hpartition, hbuckets, hoptions, hproperties⟩

/-- What is filled stays filled when filled clauses are added one by one. -/
theorem filled_foldl {α β : Type} [Parts α] [Parts β] {add : α → β → α}
    (hadd : ∀ a b, filled a → filled b → filled (add a b)) {clauses : List β} {a : α}
    (ha : filled a) (hclauses : filled clauses) : filled (clauses.foldl add a) := by
  induction clauses generalizing a with
  | nil => exact ha
  | cons clause clauses ih =>
    obtain ⟨hclause, hclauses⟩ := List.forall_mem_cons.1 hclauses
    exact ih (hadd a clause ha hclause) hclauses

theorem fills_tableClauses : Yields filled tableClauses := by
  refine (Yields.many (.chooseRule fills_tableClauseRules)).bind fun clauses hclauses => .pure ?_
  have hempty : filled TableClauses.empty :=
    ⟨Parts.filled_nil, Parts.filled_none, Parts.filled_nil, Parts.filled_nil⟩
  exact filled_foldl (fun _ _ => filled_add) hempty hclauses

theorem fills_createTable (mode : CreateMode) (external : Bool) :
    Yields filled (createTable mode external) := by
  refine .andThen fun _ => fills_dottedName.bind fun name hname => ?_
  refine fills_columnDefinitions.maybe.bind fun columns hcolumns => .andThen fun _ => ?_
  refine fills_tableClauses.bind fun clauses hclauses => ?_
  exact fills_query.maybe.bind fun query hquery => .pure ⟨hname, hcolumns, hclauses, hquery⟩

/-! ## Views -/

theorem fills_sourceView (orReplace global : Bool) {name : DottedName} (hname : filled name) :
    Yields filled (sourceView orReplace global name) := by
  refine fills_columnDefinitions.maybe.bind fun columns hcolumns => ?_
  refine .andThen fun _ => .andThen fun _ => ?_
  exact fills_optionalOptions.bind fun entries hentries => .pure ⟨hname, hcolumns, hentries⟩

instance : Parts ViewClause := ⟨fun
  | .tableProperties properties => filled properties
  | .comment _ | .partitionedOn _ => True⟩

theorem fills_viewClauseRules : ∀ r ∈ viewClauseRules, Yields filled r.2 := by
  simp only [viewClauseRules, List.forall_mem_cons, List.not_mem_nil, false_implies, implies_true,
    and_true]
  refine ⟨.andThen fun _ => .pure trivial, .andThen fun _ => .pure trivial, ?_⟩
  exact fills_properties.bind fun entries hentries => .pure hentries

theorem filled_addViewClause {view : CreateView} {clause : ViewClause} (h : filled view)
    (hclause : filled clause) : filled (addViewClause view clause) := by
  obtain ⟨hname, hproperties, hquery⟩ := h
  cases clause with
  | tableProperties entries => exact ⟨hname, hclause, hquery⟩
  | comment text => exact ⟨hname, hproperties, hquery⟩
  | partitionedOn columns => exact ⟨hname, hproperties, hquery⟩

theorem fills_queryView (orReplace global temporary ifNotExists : Bool) {name : DottedName}
    (hname : filled name) : Yields filled (queryView orReplace global temporary ifNotExists name) := by
  refine .andThen fun columns => ?_
  refine (Yields.many (.chooseRule fills_viewClauseRules)).bind fun clauses hclauses => ?_
  refine .andThen fun _ => fills_query.bind fun query hquery => .pure ?_
  have hview : filled (CreateView.mk orReplace global temporary ifNotExists name columns none [] []
      query) := ⟨hname, Parts.filled_nil, hquery⟩
  exact filled_foldl (fun _ _ => filled_addViewClause) hview hclauses

theorem fills_createView (orReplace global temporary : Bool) :
    Yields filled (createView orReplace global temporary) := by
  refine .andThen fun _ => fills_dottedName.bind fun name hname => .andThen fun _ => .ite ?_ ?_
  · exact fills_sourceView orReplace global hname
  · exact fills_queryView orReplace global temporary _ hname

/-! ## Namespaces, functions and indexes -/

instance : Parts NamespaceClause := ⟨fun
  | .properties _ properties => filled properties
  | .comment _ | .location _ => True⟩

theorem fills_namespaceClauseRules : ∀ r ∈ namespaceClauseRules, Yields filled r.2 := by
  simp only [namespaceClauseRules, List.forall_mem_cons, List.not_mem_nil, false_implies,
    implies_true, and_true]
  refine ⟨.andThen fun _ => .pure trivial, .andThen fun _ => .pure trivial, ?_, ?_⟩
  · exact fills_properties.bind fun entries hentries => .pure hentries
  · exact fills_properties.bind fun entries hentries => .pure hentries

theorem filled_addNamespaceClause {create : CreateNamespace} {clause : NamespaceClause}
    (h : filled create) (hclause : filled clause) : filled (addNamespaceClause create clause) := by
  cases clause with
  | properties dbWord entries => exact ⟨h.1, hclause⟩
  | comment text => exact ⟨h.1, h.2⟩
  | location path => exact ⟨h.1, h.2⟩

theorem fills_createNamespace (word : NamespaceWord) : Yields filled (createNamespace word) := by
  refine .andThen fun ifNotExists => fills_dottedName.bind fun name hname => ?_
  refine (Yields.many (.chooseRule fills_namespaceClauseRules)).bind fun clauses hclauses => .pure ?_
  have hcreate : filled (CreateNamespace.mk word ifNotExists name none none true []) :=
    ⟨hname, Parts.filled_nil⟩
  exact filled_foldl (fun _ _ => filled_addNamespaceClause) hcreate hclauses

theorem fills_createFunction (orReplace temporary : Bool) :
    Yields filled (createFunction orReplace temporary) := by
  refine .andThen fun _ => fills_dottedName.bind fun name hname => ?_
  exact .andThen fun _ => .andThen fun _ => .andThen fun _ => .pure hname

theorem fills_indexColumn : Yields filled indexColumn :=
  fills_dottedName.bind fun _ hname => fills_optionalOptions.bind fun _ hentries =>
    .pure ⟨hname, hentries⟩

theorem fills_createIndex : Yields filled createIndex := by
  refine .andThen fun _ => .andThen fun _ => .andThen fun _ => .andThen fun _ => ?_
  refine fills_dottedName.bind fun table htable => .andThen fun _ => .andThen fun _ => ?_
  refine fills_indexColumn.commaSeparated.bind fun columns hcolumns => .andThen fun _ => ?_
  exact fills_optionalOptions.bind fun entries hentries => .pure ⟨htable, hcolumns, hentries⟩

theorem fills_createOther : Yields filled createOther := by
  refine .andThen fun word => ?_
  cases word with
  | none => exact .andThen fun _ => .ite fills_createIndex (yields_expected _)
  | some word => exact fills_createNamespace word

theorem fills_createModified (orReplace : Bool) : Yields filled (createModified orReplace) := by
  refine .andThen fun global => .andThen fun temporary => .andThen fun _ => ?_
  refine .ite (fills_createView orReplace global temporary) (.ite (yields_expected _) ?_)
  refine .andThen fun _ => .ite (fills_createFunction orReplace temporary) ?_
  exact .ite (yields_expected _) fills_createOther

theorem fills_create : Yields filled create := by
  have hafter : Yields filled createAfter := by
    refine .andThen fun orReplace => .andThen fun _ => .ite ?_ (.andThen fun _ => .ite ?_ ?_)
    · exact .andThen fun _ => fills_createTable _ true
    · exact fills_createTable _ false
    · exact fills_createModified orReplace
  refine .andThen fun _ => .ite (.andThen fun _ => ?_) (.andThen fun _ => hafter)
  exact fills_createTable .replace false

/-! ## `ALTER` and `DROP` -/

theorem fills_columnChangeRules : ∀ r ∈ columnChangeRules, Yields filled r.2 := by
  simp only [columnChangeRules, List.forall_mem_cons, List.not_mem_nil, false_implies, implies_true,
    and_true]
  refine ⟨.andThen fun _ => .pure trivial, .andThen fun _ => .pure trivial, .pure trivial,
    .pure trivial, .pure trivial, ?_⟩
  exact fills_dottedName.bind fun column hcolumn => .pure hcolumn

theorem fills_changeColumn {partition : Option PartitionSpec} (hpartition : filled partition) :
    Yields filled (changeColumn partition) := by
  refine .andThen fun _ => .andThen fun _ => .andThen fun _ => ?_
  refine fills_dottedName.bind fun column hcolumn => ?_
  refine (Yields.chooseRule fills_columnChangeRules).bind fun change hchange => ?_
  cases change with
  | none =>
    refine .ite (fills_columnDefinition.bind fun definition hdefinition => ?_) (yields_expected _)
    exact .pure ⟨hpartition, hcolumn, hdefinition⟩
  | some change => exact .ite (.pure ⟨hcolumn, hchange change rfl⟩) (yields_expected _)

theorem fills_addColumns (plural : Bool) : Yields filled (addColumns plural) := by
  refine .andThen fun _ => .ite ?_ ?_
  · exact fills_columnDefinitions.bind fun columns hcolumns => .pure hcolumns
  · exact fills_columnDefinition.commaSeparated.bind fun columns hcolumns => .pure hcolumns

theorem fills_addPartitions : Yields filled addPartitions := by
  have hadded : Yields filled addedPartition := by
    refine .maybe (fills_partitionSpec.bind fun spec hspec => .andThen fun _ => .pure ?_)
    exact ⟨hspec, fun _ _ => trivial⟩
  refine .andThen fun _ => (Yields.many hadded).bind fun partitions hpartitions => ?_
  exact .ite (yields_expected _) (.pure hpartitions)

theorem fills_dropPartitions : Yields filled dropPartitions := by
  refine .andThen fun _ => fills_partitionSpec.commaSeparated.bind fun partitions hpartitions => ?_
  exact .andThen fun _ => .pure hpartitions

theorem fills_dropColumns (plural : Bool) : Yields filled (dropColumns plural) := by
  refine .andThen fun _ => .andThen fun _ => .ite ?_ ?_
  · refine fills_dottedName.commaSeparated.bind fun columns hcolumns => ?_
    exact .andThen fun _ => .pure hcolumns
  · exact fills_dottedName.commaSeparated.bind fun columns hcolumns => .pure hcolumns

theorem fills_addAction : Yields filled addAction := by
  refine .andThen fun plural => ?_
  cases plural with
  | none => exact fills_addPartitions
  | some plural => exact fills_addColumns plural

theorem fills_dropAction : Yields filled dropAction := by
  refine .andThen fun plural => ?_
  cases plural with
  | none => exact fills_dropPartitions
  | some plural => exact fills_dropColumns plural

theorem fills_renameAction : Yields filled renameAction := by
  refine .andThen fun _ => .ite ?_ (.andThen fun _ => ?_)
  · refine fills_dottedName.bind fun old hold => ?_
    exact .andThen fun _ => .andThen fun _ => .pure hold
  · exact fills_dottedName.bind fun name hname => .pure hname

/-- The keys of removed properties are listed as properties without values. -/
theorem fills_unsetProperties : Yields filled unsetProperties := by
  refine .andThen fun _ => .andThen fun _ => .andThen fun keys => .andThen fun _ => .pure ?_
  intro entry hentry
  obtain ⟨key, -, rfl⟩ := List.mem_map.1 hentry
  exact Parts.filled_none

theorem fills_tableActionRules : ∀ r ∈ tableActionRules, Yields filled r.2 := by
  simp only [tableActionRules, List.forall_mem_cons, List.not_mem_nil, false_implies, implies_true,
    and_true]
  refine ⟨?_, fills_renameAction, ?_, fills_unsetProperties, fills_addAction, fills_dropAction⟩
  · exact fills_optionalPartition.bind fun partition hpartition => .pure hpartition
  · exact fills_properties.bind fun entries hentries => .pure hentries

theorem fills_tableAction : Yields filled tableAction := by
  refine (Yields.chooseRule fills_tableActionRules).bind fun action haction => ?_
  cases action with
  | some action => exact .pure (haction action rfl)
  | none =>
    refine .andThen fun _ => .ite (fills_changeColumn Parts.filled_none) (.andThen fun _ => ?_)
    exact .ite (.pure trivial) (yields_expected _)

theorem fills_partitionAction {partition : Option PartitionSpec} (hpartition : filled partition) :
    Yields filled (partitionAction partition) := by
  refine .andThen fun _ => .ite (.andThen fun _ => .pure hpartition) (.andThen fun _ => .ite ?_ ?_)
  · exact fills_columnDefinitions.bind fun columns hcolumns => .pure ⟨hpartition, hcolumns⟩
  · refine .andThen fun _ => .ite (fills_changeColumn hpartition) ?_
    exact .ite (yields_expected _) fills_tableAction

theorem fills_alterAction : Yields filled alterAction := by
  refine fills_optionalPartition.bind fun partition hpartition => ?_
  cases partition with
  | none => exact fills_partitionAction Parts.filled_none
  | some old =>
    refine .andThen fun _ => .ite ?_ (fills_partitionAction hpartition)
    exact fills_partitionSpec.bind fun new hnew => .pure ⟨hpartition old rfl, hnew⟩

theorem fills_alterNamespaceAction : Yields filled alterNamespaceAction := by
  have hrules : ∀ r ∈ [(["LOCATION"], return .setLocation (← stringLiteral)),
      (["DBPROPERTIES"], return .setProperties true (← properties)),
      (["PROPERTIES"], return .setProperties false (← properties))],
      Yields (fun a : AlterNamespaceAction => filled a) r.2 := by
    simp only [List.forall_mem_cons, List.not_mem_nil, false_implies, implies_true, and_true]
    refine ⟨.andThen fun _ => .pure trivial, ?_, ?_⟩
    · exact fills_properties.bind fun entries hentries => .pure hentries
    · exact fills_properties.bind fun entries hentries => .pure hentries
  refine (Yields.chooseRule hrules).bind fun action haction => ?_
  cases action with
  | none => exact yields_expected _
  | some action => exact .pure (haction action rfl)

theorem fills_alter : Yields filled alter := by
  refine .andThen fun _ => .andThen fun word => ?_
  cases word with
  | some word =>
    refine fills_dottedName.bind fun name hname => .andThen fun _ => ?_
    exact fills_alterNamespaceAction.bind fun action haction => .pure ⟨hname, haction⟩
  | none =>
    refine .andThen fun view => fills_dottedName.bind fun name hname => .andThen fun _ => .ite ?_ ?_
    · exact .andThen fun _ => fills_query.bind fun query hquery => .pure ⟨hname, hquery⟩
    · exact fills_alterAction.bind fun action haction => .pure ⟨hname, haction⟩

theorem fills_dropTable : Yields filled dropTable := by
  refine .andThen fun _ => .andThen fun _ => fills_dottedName.bind fun name hname => ?_
  exact .ite (.andThen fun _ => .pure hname) (.andThen fun _ => .pure hname)

theorem fills_dropIndex : Yields filled dropIndex := by
  refine .andThen fun _ => .andThen fun _ => .andThen fun _ => .andThen fun _ => ?_
  exact fills_dottedName.bind fun table htable => .pure htable

theorem fills_drop : Yields filled drop := by
  refine .andThen fun _ => .andThen fun word => ?_
  cases word with
  | some word =>
    exact .andThen fun _ => fills_dottedName.bind fun name hname => .andThen fun _ => .pure hname
  | none =>
    refine .andThen fun temporary => .andThen fun _ => .ite ?_ (.ite (yields_expected _) ?_)
    · exact .andThen fun _ => fills_dottedName.bind fun name hname => .pure hname
    · exact .andThen fun _ => .ite fills_dropIndex fills_dropTable

end Grammar

end SqlTidy
