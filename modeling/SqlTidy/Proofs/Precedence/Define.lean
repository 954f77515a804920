import SqlTidy.Grammar.Alter
import SqlTidy.Proofs.Precedence.Query

/-!
# Precedence in statements that change or define things

These rules build no operators. They collect expressions and queries into the parts of a statement, so each
lemma says which parts of its result come from which rule. Clauses that may come in any order are added one
by one to the clauses read so far, and adding a normal clause keeps them normal.
-/

namespace SqlTidy

namespace Grammar

open Parse

/-! ## Statements that change rows -/

theorem yields_partitionValue : Yields Normal partitionValue :=
  .andThen fun _ => yields_expression.maybe.bind fun _ hvalue => .pure hvalue

theorem yields_partitionSpec : Yields Normal partitionSpec := by
  refine .andThen fun _ => .andThen fun _ => ?_
  exact yields_partitionValue.commaSeparated.bind fun _ hvalues => .andThen fun _ => .pure hvalues

theorem yields_optionalPartition : Yields Normal optionalPartition := yields_partitionSpec.maybe

theorem yields_insertTarget : Yields Normal insertTarget := by
  refine .andThen fun _ => .andThen fun _ => .andThen fun _ => .andThen fun _ => ?_
  refine yields_optionalPartition.bind fun partition hpartition => ?_
  exact .andThen fun _ => .andThen fun _ => .pure hpartition

theorem yields_insert {tables : Option WithClause} (htables : Normal tables) :
    Yields Normal (insert tables) := by
  refine yields_insertTarget.bind fun target htarget => ?_
  exact yields_query.bind fun source hsource => .pure ⟨htables, htarget, hsource⟩

theorem yields_multiInsertBody : Yields Normal multiInsertBody := by
  refine .maybe (yields_insertTarget.bind fun target htarget => ?_)
  refine (yields_within_normal fun _ h => yields_select h false).bind fun body hbody => ?_
  refine (yields_within_normal fun _ h => yields_organization h).bind fun clauses hclauses => ?_
  exact .pure ⟨htarget, hbody, hclauses⟩

theorem yields_assignments : Yields Normal assignments := by
  refine Yields.commaSeparated (.andThen fun _ => .andThen fun _ => ?_)
  exact yields_expression.bind fun value hvalue => .pure hvalue

theorem yields_optionalWhere : Yields Normal optionalWhere := yields_expression.maybe

theorem yields_update : Yields Normal update := by
  refine .andThen fun _ => .andThen fun _ => .andThen fun _ => .andThen fun _ => ?_
  refine yields_assignments.bind fun assignments hassignments => ?_
  exact yields_optionalWhere.bind fun condition hcondition => .pure ⟨hassignments, hcondition⟩

theorem yields_delete : Yields Normal delete := by
  refine .andThen fun _ => .andThen fun _ => .andThen fun _ => ?_
  exact yields_optionalWhere.bind fun condition hcondition => .pure hcondition

theorem yields_mergeInsert : Yields Normal mergeInsert := by
  refine .andThen fun _ => .ite (.pure trivial) ?_
  refine .andThen fun _ => .andThen fun _ => .andThen fun _ => ?_
  refine (yields_within_normal fun _ h => yields_expressions h).bind fun values hvalues => ?_
  exact .andThen fun _ => .pure hvalues

theorem yields_mergeUpdate : Yields Normal mergeUpdate := by
  refine .andThen fun _ => .ite (.pure trivial) ?_
  exact yields_assignments.bind fun assignments hassignments => .pure hassignments

theorem yields_mergeAction : Yields Normal mergeAction := by
  have hrules : ∀ r ∈ [(["DELETE"], pure .delete), (["UPDATE", "SET"], mergeUpdate),
      (["INSERT"], mergeInsert)], Yields Normal r.2 := by
    simp only [List.forall_mem_cons, List.not_mem_nil, false_implies, implies_true, and_true]
    exact ⟨.pure trivial, yields_mergeUpdate, yields_mergeInsert⟩
  refine (Yields.chooseRule hrules).bind fun action haction => ?_
  cases action with
  | none => exact yields_expected _
  | some action => exact .pure (haction action rfl)

theorem yields_mergeClause : Yields Normal mergeClause := by
  refine .maybe (.andThen fun _ => yields_expression.maybe.bind fun condition hcondition => ?_)
  refine .andThen fun _ => yields_mergeAction.bind fun action haction => ?_
  exact .pure ⟨hcondition, haction⟩

theorem yields_merge : Yields Normal merge := by
  refine .andThen fun _ => .andThen fun _ => .andThen fun _ => .andThen fun _ => ?_
  refine (yields_within_normal fun _ h => yields_tableFactor h).bind fun source hsource => ?_
  refine .andThen fun _ => yields_expression.bind fun condition hcondition => ?_
  refine (Yields.many yields_mergeClause).bind fun clauses hclauses => ?_
  exact .ite (yields_expected _) (.pure ⟨hsource, hcondition, hclauses⟩)

/-! ## Properties and columns -/

theorem yields_propertyValue : Yields Normal propertyValue := by
  refine .andThen fun _ => .ite yields_expression.toSome (.andThen fun _ => ?_)
  exact .ite yields_none yields_expression.toSome

theorem yields_property : Yields Normal property :=
  .andThen fun _ => yields_propertyValue.bind fun _ hvalue => .pure hvalue

theorem yields_properties : Yields Normal properties := by
  refine .andThen fun _ => .andThen fun _ => .ite yields_nil ?_
  exact yields_property.commaSeparated.bind fun entries hentries => .andThen fun _ => .pure hentries

theorem yields_optionalOptions : Yields Normal optionalOptions := yields_properties.maybeList

theorem yields_columnDefinition : Yields Normal columnDefinition := by
  refine .andThen fun _ => .andThen fun _ => .andThen fun _ => ?_
  refine yields_expression.maybe.bind fun default hdefault => ?_
  exact .andThen fun _ => .andThen fun _ => .pure hdefault

theorem yields_columnDefinitions : Yields Normal columnDefinitions := by
  refine .andThen fun _ => yields_columnDefinition.commaSeparated.bind fun columns hcolumns => ?_
  exact .andThen fun _ => .pure hcolumns

/-! ## Tables -/

theorem yields_partitionField : Yields Normal partitionField := by
  have htransform : Yields Normal (do return .transform (← expression) : Parse PartitionField) :=
    yields_expression.bind fun value hvalue => .pure hvalue
  refine .andThen fun next => .andThen fun _ => .ite htransform ?_
  split
  · exact .andThen fun _ => .pure trivial
  · exact .andThen fun _ => .pure trivial
  · exact .andThen fun _ => .andThen fun _ => .pure trivial
  · exact htransform

theorem yields_partitionFields : Yields Normal partitionFields := by
  refine .andThen fun _ => yields_partitionField.commaSeparated.bind fun fields hfields => ?_
  exact .andThen fun _ => .pure hfields

theorem yields_sortedBy : Yields Normal sortedBy := by
  refine .maybeList (.andThen fun _ => ?_)
  refine (yields_within_normal fun _ h => yields_orderItems h).bind fun items hitems => ?_
  exact .andThen fun _ => .pure hitems

theorem yields_bucketSpec : Yields Normal bucketSpec := by
  refine .andThen fun _ => yields_sortedBy.bind fun items hitems => ?_
  exact .andThen fun _ => .andThen fun _ => .andThen fun _ => .pure hitems

theorem yields_tableClauseRules : ∀ r ∈ tableClauseRules, Yields Normal r.2 := by
  simp only [tableClauseRules, List.forall_mem_cons, List.not_mem_nil, false_implies, implies_true,
    and_true]
  refine ⟨.andThen fun _ => .pure trivial, ?_, ?_, .andThen fun _ => .pure trivial,
    .andThen fun _ => .pure trivial, .andThen fun _ => .pure trivial, ?_, ?_,
    .andThen fun _ => .pure trivial⟩
  · exact yields_partitionFields.bind fun fields hfields => .pure hfields
  · exact yields_bucketSpec.bind fun spec hspec => .pure hspec
  · exact yields_properties.bind fun entries hentries => .pure hentries
  · exact yields_properties.bind fun entries hentries => .pure hentries

theorem normal_add {clauses : TableClauses} {clause : TableClause} (h : Normal clauses)
    (hclause : Normal clause) : Normal (clauses.add clause) := by
  obtain ⟨hpartition, hbuckets, hoptions, hproperties⟩ := h
  cases clause with
  | partitionedBy fields => exact ⟨hclause, hbuckets, hoptions, hproperties⟩
  | clusteredBy spec => exact ⟨hpartition, Trees.every_some hclause, hoptions, hproperties⟩
  | options entries => exact ⟨hpartition, hbuckets, hclause, hproperties⟩
  | tableProperties entries => exact ⟨hpartition, hbuckets, hoptions, hclause⟩
  | _ => exact ⟨hpartition, hbuckets, hoptions, hproperties⟩

/-- What is normal stays normal when normal clauses are added one by one. -/
theorem normal_foldl {α β : Type} [Trees α] [Trees β] {add : α → β → α}
    (hadd : ∀ a b, Normal a → Normal b → Normal (add a b)) {clauses : List β} {a : α}
    (ha : Normal a) (hclauses : Normal clauses) : Normal (clauses.foldl add a) := by
  induction clauses generalizing a with
  | nil => exact ha
  | cons clause clauses ih =>
    obtain ⟨hclause, hclauses⟩ := List.forall_mem_cons.1 hclauses
    exact ih (hadd a clause ha hclause) hclauses

theorem yields_tableClauses : Yields Normal tableClauses := by
  refine (Yields.many (.chooseRule yields_tableClauseRules)).bind fun clauses hclauses => .pure ?_
  have hempty : Normal TableClauses.empty :=
    ⟨Trees.every_nil, Trees.every_none, Trees.every_nil, Trees.every_nil⟩
  exact normal_foldl (fun _ _ => normal_add) hempty hclauses

theorem yields_createTable (mode : CreateMode) (external : Bool) :
    Yields Normal (createTable mode external) := by
  refine .andThen fun _ => .andThen fun _ => ?_
  refine yields_columnDefinitions.maybe.bind fun columns hcolumns => .andThen fun _ => ?_
  refine yields_tableClauses.bind fun clauses hclauses => ?_
  exact yields_query.maybe.bind fun query hquery => .pure ⟨hcolumns, hclauses, hquery⟩

/-! ## Views -/

theorem yields_sourceView (orReplace global : Bool) (name : DottedName) :
    Yields Normal (sourceView orReplace global name) := by
  refine yields_columnDefinitions.maybe.bind fun columns hcolumns => ?_
  refine .andThen fun _ => .andThen fun _ => ?_
  exact yields_optionalOptions.bind fun entries hentries => .pure ⟨hcolumns, hentries⟩

instance : Trees ViewClause := ⟨fun
  | P, .tableProperties properties => every P properties
  | _, .comment _ | _, .partitionedOn _ => True⟩

theorem yields_viewClauseRules : ∀ r ∈ viewClauseRules, Yields Normal r.2 := by
  simp only [viewClauseRules, List.forall_mem_cons, List.not_mem_nil, false_implies, implies_true,
    and_true]
  refine ⟨.andThen fun _ => .pure trivial, .andThen fun _ => .pure trivial, ?_⟩
  exact yields_properties.bind fun entries hentries => .pure hentries

theorem normal_addViewClause {view : CreateView} {clause : ViewClause} (h : Normal view)
    (hclause : Normal clause) : Normal (addViewClause view clause) := by
  cases clause with
  | tableProperties entries => exact ⟨hclause, h.2⟩
  | comment text => exact h
  | partitionedOn columns => exact h

theorem yields_queryView (orReplace global temporary ifNotExists : Bool) (name : DottedName) :
    Yields Normal (queryView orReplace global temporary ifNotExists name) := by
  refine .andThen fun columns => ?_
  refine (Yields.many (.chooseRule yields_viewClauseRules)).bind fun clauses hclauses => ?_
  refine .andThen fun _ => yields_query.bind fun query hquery => .pure ?_
  exact normal_foldl (fun _ _ => normal_addViewClause)
    (show Normal (CreateView.mk _ _ _ _ _ _ _ _ _ _) from ⟨Trees.every_nil, hquery⟩) hclauses

theorem yields_createView (orReplace global temporary : Bool) :
    Yields Normal (createView orReplace global temporary) := by
  refine .andThen fun _ => .andThen fun name => .andThen fun _ => .ite ?_ ?_
  · exact yields_sourceView orReplace global name
  · exact yields_queryView orReplace global temporary _ name

/-! ## Namespaces, functions and indexes -/

instance : Trees NamespaceClause := ⟨fun
  | P, .properties _ properties => every P properties
  | _, .comment _ | _, .location _ => True⟩

theorem yields_namespaceClauseRules : ∀ r ∈ namespaceClauseRules, Yields Normal r.2 := by
  simp only [namespaceClauseRules, List.forall_mem_cons, List.not_mem_nil, false_implies,
    implies_true, and_true]
  refine ⟨.andThen fun _ => .pure trivial, .andThen fun _ => .pure trivial, ?_, ?_⟩
  · exact yields_properties.bind fun entries hentries => .pure hentries
  · exact yields_properties.bind fun entries hentries => .pure hentries

theorem normal_addNamespaceClause {create : CreateNamespace} {clause : NamespaceClause}
    (h : Normal create) (hclause : Normal clause) : Normal (addNamespaceClause create clause) := by
  cases clause with
  | properties dbWord entries => exact hclause
  | comment text => exact h
  | location path => exact h

theorem yields_createNamespace (word : NamespaceWord) : Yields Normal (createNamespace word) := by
  refine .andThen fun _ => .andThen fun _ => ?_
  refine (Yields.many (.chooseRule yields_namespaceClauseRules)).bind fun clauses hclauses => .pure ?_
  exact normal_foldl (fun _ _ => normal_addNamespaceClause)
    (show Normal (CreateNamespace.mk _ _ _ _ _ _ _) from Trees.every_nil) hclauses

theorem yields_createFunction (orReplace temporary : Bool) :
    Yields Normal (createFunction orReplace temporary) :=
  .andThen fun _ => .andThen fun _ => .andThen fun _ => .andThen fun _ => .andThen fun _ =>
    .pure trivial

theorem yields_indexColumn : Yields Normal indexColumn :=
  .andThen fun _ => yields_optionalOptions.bind fun _ hentries => .pure hentries

theorem yields_createIndex : Yields Normal createIndex := by
  refine .andThen fun _ => .andThen fun _ => .andThen fun _ => .andThen fun _ => ?_
  refine .andThen fun _ => .andThen fun _ => .andThen fun _ => ?_
  refine yields_indexColumn.commaSeparated.bind fun columns hcolumns => .andThen fun _ => ?_
  exact yields_optionalOptions.bind fun entries hentries => .pure ⟨hcolumns, hentries⟩

theorem yields_createOther : Yields Normal createOther := by
  refine .andThen fun word => ?_
  cases word with
  | none => exact .andThen fun _ => .ite yields_createIndex (yields_expected _)
  | some word => exact yields_createNamespace word

theorem yields_createModified (orReplace : Bool) : Yields Normal (createModified orReplace) := by
  refine .andThen fun global => .andThen fun temporary => .andThen fun _ => ?_
  refine .ite (yields_createView orReplace global temporary) (.ite (yields_expected _) ?_)
  refine .andThen fun _ => .ite (yields_createFunction orReplace temporary) ?_
  exact .ite (yields_expected _) yields_createOther

theorem yields_create : Yields Normal create := by
  have hafter : Yields Normal createAfter := by
    refine .andThen fun orReplace => .andThen fun _ => .ite ?_ (.andThen fun _ => .ite ?_ ?_)
    · exact .andThen fun _ => yields_createTable _ true
    · exact yields_createTable _ false
    · exact yields_createModified orReplace
  refine .andThen fun _ => .ite (.andThen fun _ => ?_) (.andThen fun _ => hafter)
  exact yields_createTable .replace false

/-! ## `ALTER` and `DROP` -/

theorem yields_changeColumn {partition : Option PartitionSpec} (hpartition : Normal partition) :
    Yields Normal (changeColumn partition) := by
  refine .andThen fun _ => .andThen fun _ => .andThen fun _ => .andThen fun _ => ?_
  refine .andThen fun change => ?_
  cases change with
  | none =>
    refine .ite ?_ (yields_expected _)
    exact yields_columnDefinition.bind fun definition hdefinition => .pure ⟨hpartition, hdefinition⟩
  | some change => exact .ite (.pure trivial) (yields_expected _)

theorem yields_addColumns (plural : Bool) : Yields Normal (addColumns plural) := by
  refine .andThen fun _ => .ite ?_ ?_
  · exact yields_columnDefinitions.bind fun columns hcolumns => .pure hcolumns
  · exact yields_columnDefinition.commaSeparated.bind fun columns hcolumns => .pure hcolumns

theorem yields_addPartitions : Yields Normal addPartitions := by
  have hadded : Yields Normal addedPartition := by
    refine .maybe (yields_partitionSpec.bind fun spec hspec => .andThen fun _ => .pure ?_)
    exact ⟨hspec, fun _ _ => trivial⟩
  refine .andThen fun _ => (Yields.many hadded).bind fun partitions hpartitions => ?_
  exact .ite (yields_expected _) (.pure hpartitions)

theorem yields_dropPartitions : Yields Normal dropPartitions := by
  refine .andThen fun _ => yields_partitionSpec.commaSeparated.bind fun partitions hpartitions => ?_
  exact .andThen fun _ => .pure hpartitions

theorem yields_addAction : Yields Normal addAction := by
  refine .andThen fun plural => ?_
  cases plural with
  | none => exact yields_addPartitions
  | some plural => exact yields_addColumns plural

theorem yields_dropAction : Yields Normal dropAction := by
  refine .andThen fun plural => ?_
  cases plural with
  | none => exact yields_dropPartitions
  | some plural =>
    refine .andThen fun _ => .andThen fun _ => .ite ?_ (.andThen fun _ => .pure trivial)
    exact .andThen fun _ => .andThen fun _ => .pure trivial

theorem yields_renameAction : Yields Normal renameAction := by
  refine .andThen fun _ => .ite ?_ (.andThen fun _ => .andThen fun _ => .pure trivial)
  exact .andThen fun _ => .andThen fun _ => .andThen fun _ => .pure trivial

/-- The keys of removed properties are listed as properties without values. -/
theorem yields_unsetProperties : Yields Normal unsetProperties := by
  refine .andThen fun _ => .andThen fun _ => .andThen fun keys => .andThen fun _ => .pure ?_
  intro entry hentry
  obtain ⟨key, -, rfl⟩ := List.mem_map.1 hentry
  exact Trees.every_none

theorem yields_tableActionRules : ∀ r ∈ tableActionRules, Yields Normal r.2 := by
  simp only [tableActionRules, List.forall_mem_cons, List.not_mem_nil, false_implies, implies_true,
    and_true]
  refine ⟨?_, yields_renameAction, ?_, yields_unsetProperties, yields_addAction, yields_dropAction⟩
  · exact yields_optionalPartition.bind fun partition hpartition => .pure hpartition
  · exact yields_properties.bind fun entries hentries => .pure hentries

theorem yields_tableAction : Yields Normal tableAction := by
  refine (Yields.chooseRule yields_tableActionRules).bind fun action haction => ?_
  cases action with
  | some action => exact .pure (haction action rfl)
  | none =>
    refine .andThen fun _ => .ite (yields_changeColumn Trees.every_none) (.andThen fun _ => ?_)
    exact .ite (.pure trivial) (yields_expected _)

theorem yields_partitionAction {partition : Option PartitionSpec} (hpartition : Normal partition) :
    Yields Normal (partitionAction partition) := by
  refine .andThen fun _ => .ite (.andThen fun _ => .pure hpartition) (.andThen fun _ => .ite ?_ ?_)
  · exact yields_columnDefinitions.bind fun columns hcolumns => .pure ⟨hpartition, hcolumns⟩
  · refine .andThen fun _ => .ite (yields_changeColumn hpartition) ?_
    exact .ite (yields_expected _) yields_tableAction

theorem yields_alterAction : Yields Normal alterAction := by
  refine yields_optionalPartition.bind fun partition hpartition => ?_
  cases partition with
  | none => exact yields_partitionAction Trees.every_none
  | some old =>
    refine .andThen fun _ => .ite ?_ (yields_partitionAction hpartition)
    exact yields_partitionSpec.bind fun new hnew => .pure ⟨hpartition old rfl, hnew⟩

theorem yields_alterNamespaceAction : Yields Normal alterNamespaceAction := by
  have hrules : ∀ r ∈ [(["LOCATION"], return .setLocation (← stringLiteral)),
      (["DBPROPERTIES"], return .setProperties true (← properties)),
      (["PROPERTIES"], return .setProperties false (← properties))],
      Yields (fun a : AlterNamespaceAction => Normal a) r.2 := by
    simp only [List.forall_mem_cons, List.not_mem_nil, false_implies, implies_true, and_true]
    refine ⟨.andThen fun _ => .pure trivial, ?_, ?_⟩
    · exact yields_properties.bind fun entries hentries => .pure hentries
    · exact yields_properties.bind fun entries hentries => .pure hentries
  refine (Yields.chooseRule hrules).bind fun action haction => ?_
  cases action with
  | none => exact yields_expected _
  | some action => exact .pure (haction action rfl)

theorem yields_alter : Yields Normal alter := by
  refine .andThen fun _ => .andThen fun word => ?_
  cases word with
  | some word =>
    refine .andThen fun _ => .andThen fun _ => ?_
    exact yields_alterNamespaceAction.bind fun action haction => .pure haction
  | none =>
    refine .andThen fun view => .andThen fun name => .andThen fun _ => .ite ?_ ?_
    · exact .andThen fun _ => yields_query.bind fun query hquery => .pure hquery
    · exact yields_alterAction.bind fun action haction => .pure haction

/-- Nothing that is dropped is given by an expression. -/
theorem yields_drop : Yields Normal drop := by
  have htable : Yields Normal dropTable :=
    .andThen fun _ => .andThen fun _ => .andThen fun _ =>
      .ite (.andThen fun _ => .pure trivial) (.andThen fun _ => .pure trivial)
  have hindex : Yields Normal dropIndex :=
    .andThen fun _ => .andThen fun _ => .andThen fun _ => .andThen fun _ => .andThen fun _ =>
      .pure trivial
  refine .andThen fun _ => .andThen fun word => ?_
  cases word with
  | some word => exact .andThen fun _ => .andThen fun _ => .andThen fun _ => .pure trivial
  | none =>
    refine .andThen fun temporary => .andThen fun _ => .ite ?_ (.ite (yields_expected _) ?_)
    · exact .andThen fun _ => .andThen fun _ => .pure trivial
    · exact .andThen fun _ => .ite hindex htable

end Grammar

end SqlTidy
