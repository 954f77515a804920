import SqlTidy.Grammar.Alter
import SqlTidy.Proofs.Case.Query

/-!
# Changes and definitions do not see letter case

`INSERT`, `UPDATE`, `DELETE` and `MERGE`, and then `CREATE`, `ALTER` and `DROP`. The keys of properties
are the one place where a name is kept as text; there it matters that the name was scanned, since its
backticks have to tell its quoted parts.
-/

namespace SqlTidy

open Text Parse

namespace Grammar

/-! ## Statements that change rows -/

theorem mirrors_partitionValue :
    Mirrors PartitionValue.foldCase partitionValue partitionValue :=
  mirrors_identifier.bind fun _ => (Mirrors.maybe (steady_accept _) blind_expression).map fun _ => rfl

theorem mirrors_partitionSpec : Mirrors PartitionSpec.foldCase partitionSpec partitionSpec :=
  (steady_expectWord _).andThen fun _ => (steady_expect _).andThen fun _ =>
    mirrors_partitionValue.commaSeparated.bind fun _ => (steady_expect _).andThen fun _ => .pure rfl

theorem steady_isPartition : Steady isPartition :=
  (steady_isWord _).andThen fun _ => .ite (steady_peekSymbol _ _) (.pure rfl)

theorem mirrors_optionalPartition :
    Mirrors (Option.map PartitionSpec.foldCase) optionalPartition optionalPartition :=
  .maybe steady_isPartition mirrors_partitionSpec

theorem steady_insertMode : Steady insertMode :=
  (steady_acceptWord _).andThen fun _ => .ite (.pure rfl) <|
    (steady_expectWord _).andThen fun _ => .pure rfl

theorem steady_isColumnList : Steady isColumnList :=
  (steady_isSymbol _).andThen fun _ => .ite (steady_not steady_isQueryStart) (.pure rfl)

theorem mirrors_insertTarget : Mirrors InsertTarget.foldCase insertTarget insertTarget := by
  refine (steady_expectWord _).andThen fun _ => steady_insertMode.andThen fun _ => ?_
  refine (steady_acceptWord _).andThen fun _ => mirrors_dottedName.bind fun _ => ?_
  refine mirrors_optionalPartition.bind fun _ => (steady_acceptWords _).andThen fun _ => ?_
  exact (Mirrors.maybeList steady_isColumnList mirrors_identifierList).map fun _ => rfl

theorem mirrors_insert (tables : Option WithClause) :
    Mirrors Insert.foldCase (insert tables) (insert (tables.map Tree.foldCase)) :=
  mirrors_insertTarget.bind fun _ => blind_query.map fun _ => rfl

theorem mirrors_multiInsertBody :
    Mirrors (Option.map MultiInsertBody.foldCase) multiInsertBody multiInsertBody :=
  .maybe (steady_isWord _) <| mirrors_insertTarget.bind fun _ =>
    (mirrors_within fun _ h => blind_select h false).bind fun _ =>
      (mirrors_within fun _ h => blind_organization h).map fun _ => rfl

theorem mirrors_assignment : Mirrors Assignment.foldCase assignment assignment :=
  mirrors_dottedName.bind fun _ => (steady_expect _).andThen fun _ =>
    blind_expression.map fun _ => rfl

theorem mirrors_assignments : Mirrors (List.map Assignment.foldCase) assignments assignments :=
  mirrors_assignment.commaSeparated

theorem mirrors_optionalWhere :
    Mirrors (Option.map Tree.foldCase) optionalWhere optionalWhere :=
  .maybe (steady_acceptWord _) blind_expression

theorem mirrors_update : Mirrors Update.foldCase update update := by
  refine (steady_expectWord _).andThen fun _ => mirrors_dottedName.bind fun _ => ?_
  refine mirrors_tableAlias.bind fun _ => (steady_expectWord _).andThen fun _ => ?_
  exact mirrors_assignments.bind fun _ => mirrors_optionalWhere.map fun _ => rfl

theorem mirrors_delete : Mirrors Delete.foldCase delete delete :=
  (steady_expectWords _).andThen fun _ => mirrors_dottedName.bind fun _ =>
    mirrors_tableAlias.bind fun _ => mirrors_optionalWhere.map fun _ => rfl

theorem steady_mergeCondition : Steady mergeCondition := by
  refine (steady_acceptWord _).andThen fun _ => .ite (.pure rfl) ?_
  refine (steady_expectWords _).andThen fun _ => (steady_acceptWords _).andThen fun _ => ?_
  exact .ite (.pure rfl) ((steady_acceptWords _).map fun _ => rfl)

theorem mirrors_mergeInsert : Mirrors MergeAction.foldCase mergeInsert mergeInsert := by
  refine (steady_accept _).andThen fun _ => .ite (.pure rfl) ?_
  refine mirrors_identifierList.bind fun _ => (steady_expectWord _).andThen fun _ => ?_
  refine (steady_expect _).andThen fun _ => ?_
  exact (mirrors_within fun _ h => mirrors_expressions h).bind fun _ =>
    (steady_expect _).andThen fun _ => .pure rfl

theorem mirrors_mergeUpdate : Mirrors MergeAction.foldCase mergeUpdate mergeUpdate :=
  (steady_accept _).andThen fun _ => .ite (.pure rfl) (mirrors_assignments.map fun _ => rfl)

theorem mirrors_mergeAction : Mirrors MergeAction.foldCase mergeAction mergeAction := by
  refine (Mirrors.rule (.pure (by rfl)) <| .rule mirrors_mergeUpdate <|
    .rule mirrors_mergeInsert .noRule).bind fun action => ?_
  cases action with
  | none => exact mirrors_expected _
  | some action => exact .pure rfl

theorem mirrors_mergeClause :
    Mirrors (Option.map MergeClause.foldCase) mergeClause mergeClause := by
  refine .maybe (steady_acceptWord _) (steady_mergeCondition.andThen fun _ => ?_)
  refine (Mirrors.maybe (steady_acceptWord _) blind_expression).bind fun _ => ?_
  exact (steady_expectWord _).andThen fun _ => mirrors_mergeAction.map fun _ => rfl

theorem mirrors_merge : Mirrors Merge.foldCase merge merge := by
  refine (steady_expectWords _).andThen fun _ => mirrors_dottedName.bind fun _ => ?_
  refine mirrors_tableAlias.bind fun _ => (steady_expectWord _).andThen fun _ => ?_
  refine (mirrors_within fun _ h => blind_tableFactor h).bind fun _ => ?_
  refine (steady_expectWord _).andThen fun _ => blind_expression.bind fun _ => ?_
  refine mirrors_mergeClause.many.bind fun clauses => ?_
  rw [List.isEmpty_map]
  exact .ite (mirrors_expected _) (.pure rfl)

/-! ## `CREATE` -/

theorem steady_namespaceWord : Steady namespaceWord := steady_choose _

theorem mirrors_stringLiteral_foldWritten : Mirrors foldWritten stringLiteral stringLiteral := by
  refine mirrors_expectIf fun t ht => ?_
  cases t with
  | string s =>
    simp [Token.foldCase, foldWritten_of_startsLiteral (startsLiteral_string ht)]
  | _ => rfl

theorem mirrors_propertyKey : Mirrors foldWritten propertyKey propertyKey := by
  have hname : Mirrors foldWritten (do return (← dottedName).written)
      (do return (← dottedName).written) :=
    mirrors_dottedName.bindOf yields_dottedName fun _ h =>
      .pure (DottedName.foldWritten_written h).symm
  refine mirrors_current.bind fun t => ?_
  cases t with
  | string s => exact mirrors_stringLiteral_foldWritten
  | _ => exact hname

theorem steady_isPropertyEnd : Steady isPropertyEnd := by
  refine mirrors_current.bind fun t => ?_
  cases t with
  | symbol s =>
    simp only [Token.foldCase]
    split <;> exact .pure rfl
  | _ => exact .pure rfl

theorem mirrors_propertyValue :
    Mirrors (Option.map Tree.foldCase) propertyValue propertyValue :=
  (steady_accept _).andThen fun _ => .ite (blind_expression.map fun _ => rfl) <|
    steady_isPropertyEnd.andThen fun _ => .ite (.pure rfl) (blind_expression.map fun _ => rfl)

theorem mirrors_property : Mirrors Property.foldCase property property :=
  mirrors_propertyKey.bind fun _ => mirrors_propertyValue.map fun _ => rfl

theorem mirrors_properties : Mirrors (List.map Property.foldCase) properties properties := by
  refine (steady_expect _).andThen fun _ => (steady_accept _).andThen fun _ => .ite (.pure rfl) ?_
  exact mirrors_property.commaSeparated.bind fun _ => (steady_expect _).andThen fun _ => .pure rfl

theorem mirrors_optionalOptions :
    Mirrors (List.map Property.foldCase) optionalOptions optionalOptions :=
  .maybeList (steady_acceptWord _) mirrors_properties

theorem mirrors_columnPosition :
    Mirrors (Option.map ColumnPosition.foldCase) columnPosition columnPosition :=
  (steady_acceptWord _).andThen fun _ => .ite (.pure rfl) <|
    (steady_acceptWord _).andThen fun _ => .ite (mirrors_dottedName.map fun _ => rfl) (.pure rfl)

theorem mirrors_columnDefinition :
    Mirrors ColumnDefinition.foldCase columnDefinition columnDefinition := by
  refine mirrors_dottedName.bind fun _ => mirrors_dataType.bind fun _ => ?_
  refine (steady_acceptWords _).andThen fun _ => ?_
  refine (Mirrors.maybe (steady_acceptWord _) blind_expression).bind fun _ => ?_
  exact (steady_optionalString _).andThen fun _ => mirrors_columnPosition.map fun _ => rfl

theorem mirrors_columnDefinitions :
    Mirrors (List.map ColumnDefinition.foldCase) columnDefinitions columnDefinitions :=
  (steady_expect _).andThen fun _ => mirrors_columnDefinition.commaSeparated.bind fun _ =>
    (steady_expect _).andThen fun _ => .pure rfl

theorem mirrors_partitionField : Mirrors PartitionField.foldCase partitionField partitionField := by
  have hexpr : Mirrors PartitionField.foldCase (do return .transform (← expression))
      (do return .transform (← expression)) :=
    blind_expression.map fun _ => rfl
  refine (mirrors_peek 1).bind fun next => mirrors_current.bind fun t => ?_
  rw [isIdentifier_foldCase]
  refine .ite hexpr ?_
  cases next with
  | word w => exact mirrors_identifier.bind fun _ => mirrors_dataType.map fun _ => rfl
  | symbol s =>
    simp only [Token.foldCase]
    split
    · exact mirrors_identifier.map fun _ => rfl
    · exact mirrors_identifier.map fun _ => rfl
    · contradiction
    · exact hexpr
  | _ => exact hexpr

theorem mirrors_partitionFields :
    Mirrors (List.map PartitionField.foldCase) partitionFields partitionFields :=
  (steady_expect _).andThen fun _ => mirrors_partitionField.commaSeparated.bind fun _ =>
    (steady_expect _).andThen fun _ => .pure rfl

theorem mirrors_sortedBy : Mirrors (List.map Tree.foldCase) sortedBy sortedBy :=
  .maybeList (steady_acceptWords _) <| (steady_expect _).andThen fun _ =>
    (mirrors_within fun _ h => mirrors_orderItems h).bind fun _ =>
      (steady_expect _).andThen fun _ => .pure rfl

theorem mirrors_bucketSpec : Mirrors BucketSpec.foldCase bucketSpec bucketSpec := by
  refine mirrors_identifierList.bind fun _ => mirrors_sortedBy.bind fun _ => ?_
  refine (steady_expectWord _).andThen fun _ => steady_number.andThen fun _ => ?_
  exact (steady_expectWord _).andThen fun _ => .pure rfl

theorem mirrors_tableClauseRules :
    Mirrors (Option.map TableClause.foldCase) (chooseRule tableClauseRules)
      (chooseRule tableClauseRules) := by
  refine .rule (mirrors_identifierList.map fun _ => rfl) ?_
  refine .rule (mirrors_partitionFields.map fun _ => rfl) ?_
  refine .rule (mirrors_bucketSpec.map fun _ => rfl) ?_
  refine .rule (mirrors_identifier.map fun _ => rfl) ?_
  refine .rule (steady_stringLiteral.map fun _ => rfl) ?_
  refine .rule (steady_number.map fun _ => rfl) ?_
  refine .rule (mirrors_properties.map fun _ => rfl) ?_
  refine .rule (mirrors_properties.map fun _ => rfl) ?_
  exact .rule (steady_stringLiteral.map fun _ => rfl) .noRule

/-- Clauses are collected in the same way whether they are folded before or afterwards. -/
theorem foldl_map_of_comm {α β : Type} {f : α → α} {g : β → β} {add : β → α → β}
    (h : ∀ b a, add (g b) (f a) = g (add b a)) (as : List α) (b : β) :
    (as.map f).foldl add (g b) = g (as.foldl add b) := by
  induction as generalizing b with
  | nil => rfl
  | cons a as ih => rw [List.map_cons, List.foldl_cons, h, ih, List.foldl_cons]

theorem add_foldCase (clauses : TableClauses) (clause : TableClause) :
    clauses.foldCase.add clause.foldCase = (clauses.add clause).foldCase := by
  cases clause <;> rfl

theorem mirrors_tableClauses : Mirrors TableClauses.foldCase tableClauses tableClauses := by
  refine mirrors_tableClauseRules.many.map fun clauses => ?_
  exact foldl_map_of_comm add_foldCase clauses TableClauses.empty

theorem steady_acceptAsQuery : Steady acceptAsQuery :=
  (steady_acceptWord _).andThen fun _ => .ite (.pure rfl) steady_isQueryStart

theorem mirrors_createTable (mode : CreateMode) (external : Bool) :
    Mirrors Statement.foldCase (createTable mode external) (createTable mode external) := by
  refine (steady_acceptWords _).andThen fun _ => mirrors_dottedName.bind fun _ => ?_
  refine (Mirrors.maybe steady_isColumnList mirrors_columnDefinitions).bind fun _ => ?_
  refine (Mirrors.maybe (steady_acceptWord _) mirrors_identifier).bind fun _ => ?_
  refine mirrors_tableClauses.bind fun _ => ?_
  exact (Mirrors.maybe steady_acceptAsQuery blind_query).map fun _ => rfl

theorem skipGroup_foldCase (i : Input) (bound depth pos : Nat) :
    skipGroup i.foldCase bound depth pos = skipGroup i bound depth pos := by
  induction bound generalizing depth pos with
  | zero => rfl
  | succ bound ih =>
    simp only [skipGroup, Input.tokenAt_foldCase, ih]
    cases i.tokenAt pos <;> rfl

theorem steady_isSourceView : Steady isSourceView := by
  intro i _ pos
  simp [isSourceView, mapResult, skipGroup_foldCase]

theorem mirrors_sourceView (orReplace global : Bool) (name : DottedName) :
    Mirrors Statement.foldCase (sourceView orReplace global name)
      (sourceView orReplace global name.foldCase) := by
  refine (Mirrors.maybe (steady_isSymbol _) mirrors_columnDefinitions).bind fun _ => ?_
  refine (steady_expectWord _).andThen fun _ => mirrors_identifier.bind fun _ => ?_
  exact mirrors_optionalOptions.map fun _ => rfl

theorem mirrors_viewColumn : Mirrors ViewColumn.foldCase viewColumn viewColumn :=
  mirrors_identifier.bind fun _ => (steady_optionalString _).andThen fun _ => .pure rfl

theorem mirrors_viewColumns :
    Mirrors (Option.map (List.map ViewColumn.foldCase)) viewColumns viewColumns :=
  .maybe (steady_accept _) <| mirrors_viewColumn.commaSeparated.bind fun _ =>
    (steady_expect _).andThen fun _ => .pure rfl

def ViewClause.foldCase : ViewClause → ViewClause
  | .comment text => .comment text
  | .partitionedOn columns => .partitionedOn (columns.map Ident.foldCase)
  | .tableProperties properties => .tableProperties (properties.map Property.foldCase)

theorem mirrors_viewClauseRules :
    Mirrors (Option.map ViewClause.foldCase) (chooseRule viewClauseRules)
      (chooseRule viewClauseRules) := by
  refine .rule (steady_stringLiteral.map fun _ => rfl) ?_
  refine .rule (mirrors_identifierList.map fun _ => rfl) ?_
  exact .rule (mirrors_properties.map fun _ => rfl) .noRule

theorem addViewClause_foldCase (view : CreateView) (clause : ViewClause) :
    addViewClause view.foldCase clause.foldCase = (addViewClause view clause).foldCase := by
  cases clause <;> rfl

theorem mirrors_queryView (orReplace global temporary ifNotExists : Bool) (name : DottedName) :
    Mirrors Statement.foldCase (queryView orReplace global temporary ifNotExists name)
      (queryView orReplace global temporary ifNotExists name.foldCase) := by
  refine mirrors_viewColumns.bind fun _ => mirrors_viewClauseRules.many.bind fun clauses => ?_
  refine (steady_expectWord _).andThen fun _ => blind_query.bind fun _ => .pure ?_
  rw [Statement.foldCase, ← foldl_map_of_comm addViewClause_foldCase]
  rfl

theorem mirrors_createView (orReplace global temporary : Bool) :
    Mirrors Statement.foldCase (createView orReplace global temporary)
      (createView orReplace global temporary) := by
  refine (steady_acceptWords _).andThen fun _ => mirrors_dottedName.bind fun name => ?_
  refine steady_isSourceView.andThen fun _ => ?_
  exact .ite (mirrors_sourceView _ _ name) (mirrors_queryView _ _ _ _ name)

def NamespaceClause.foldCase : NamespaceClause → NamespaceClause
  | .properties dbWord entries => .properties dbWord (entries.map Property.foldCase)
  | clause => clause

theorem mirrors_namespaceClauseRules :
    Mirrors (Option.map NamespaceClause.foldCase) (chooseRule namespaceClauseRules)
      (chooseRule namespaceClauseRules) := by
  refine .rule (steady_stringLiteral.map fun _ => rfl) ?_
  refine .rule (steady_stringLiteral.map fun _ => rfl) ?_
  refine .rule (mirrors_properties.map fun _ => rfl) ?_
  exact .rule (mirrors_properties.map fun _ => rfl) .noRule

theorem addNamespaceClause_foldCase (create : CreateNamespace) (clause : NamespaceClause) :
    addNamespaceClause create.foldCase clause.foldCase =
      (addNamespaceClause create clause).foldCase := by
  cases clause <;> rfl

theorem mirrors_createNamespace (word : NamespaceWord) :
    Mirrors Statement.foldCase (createNamespace word) (createNamespace word) := by
  refine (steady_acceptWords _).andThen fun _ => mirrors_dottedName.bind fun _ => ?_
  refine mirrors_namespaceClauseRules.many.bind fun clauses => .pure ?_
  rw [Statement.foldCase, ← foldl_map_of_comm addNamespaceClause_foldCase]
  rfl

theorem steady_functionResource : Steady functionResource := by
  refine (steady_choose _).andThen fun kind => ?_
  cases kind with
  | none => exact mirrors_expected _
  | some kind => exact steady_stringLiteral.map fun _ => rfl

theorem mirrors_createFunction (orReplace temporary : Bool) :
    Mirrors Statement.foldCase (createFunction orReplace temporary)
      (createFunction orReplace temporary) := by
  refine (steady_acceptWords _).andThen fun _ => mirrors_dottedName.bind fun _ => ?_
  refine (steady_expectWord _).andThen fun _ => steady_stringLiteral.andThen fun _ => ?_
  refine Mirrors.andThen ?_ fun _ => .pure rfl
  exact (steady_acceptWord _).andThen fun _ =>
    .ite (steady_commaSeparated steady_functionResource) (.pure rfl)

theorem mirrors_indexColumn : Mirrors IndexColumn.foldCase indexColumn indexColumn :=
  mirrors_dottedName.bind fun _ => mirrors_optionalOptions.map fun _ => rfl

theorem mirrors_createIndex : Mirrors Statement.foldCase createIndex createIndex := by
  refine (steady_acceptWords _).andThen fun _ => mirrors_identifier.bind fun _ => ?_
  refine (steady_expectWord _).andThen fun _ => (steady_acceptWord _).andThen fun _ => ?_
  refine mirrors_dottedName.bind fun _ => ?_
  refine (Mirrors.maybe (steady_acceptWord _) mirrors_identifier).bind fun _ => ?_
  refine (steady_expect _).andThen fun _ => mirrors_indexColumn.commaSeparated.bind fun _ => ?_
  exact (steady_expect _).andThen fun _ => mirrors_optionalOptions.map fun _ => rfl

theorem mirrors_createOther : Mirrors Statement.foldCase createOther createOther := by
  refine steady_namespaceWord.andThen fun word => ?_
  cases word with
  | none =>
    exact (steady_acceptWord _).andThen fun _ => .ite mirrors_createIndex (mirrors_expected _)
  | some word => exact mirrors_createNamespace word

theorem mirrors_createModified (orReplace : Bool) :
    Mirrors Statement.foldCase (createModified orReplace) (createModified orReplace) := by
  refine (steady_acceptWord _).andThen fun _ => Mirrors.andThen ?_ fun _ => ?_
  · exact (steady_acceptWord _).andThen fun _ => .ite (.pure rfl) (steady_acceptWord _)
  refine (steady_acceptWord _).andThen fun _ => .ite (mirrors_createView _ _ _) ?_
  refine .ite (mirrors_expected _) ((steady_acceptWord _).andThen fun _ => ?_)
  exact .ite (mirrors_createFunction _ _) (.ite (mirrors_expected _) mirrors_createOther)

theorem mirrors_createAfter : Mirrors Statement.foldCase createAfter createAfter := by
  refine (steady_acceptWords _).andThen fun _ => (steady_acceptWord _).andThen fun _ => ?_
  refine .ite ((steady_expectWord _).andThen fun _ => mirrors_createTable _ _) ?_
  exact (steady_acceptWord _).andThen fun _ =>
    .ite (mirrors_createTable _ _) (mirrors_createModified _)

theorem mirrors_create : Mirrors Statement.foldCase create create := by
  refine (steady_acceptWord _).andThen fun _ => .ite ?_ ?_
  · exact (steady_expectWord _).andThen fun _ => mirrors_createTable _ _
  · exact (steady_expectWord _).andThen fun _ => mirrors_createAfter

/-! ## `ALTER` and `DROP` -/

theorem mirrors_columnChangeRules :
    Mirrors (Option.map ColumnChange.foldCase) (chooseRule columnChangeRules)
      (chooseRule columnChangeRules) := by
  refine .rule (mirrors_dataType.map fun _ => rfl) ?_
  refine .rule (steady_stringLiteral.map fun _ => rfl) ?_
  refine .rule (.pure rfl) (.rule (.pure rfl) (.rule (.pure rfl) ?_))
  exact .rule (mirrors_dottedName.map fun _ => rfl) .noRule

theorem mirrors_changeColumn (partition : Option PartitionSpec) :
    Mirrors AlterAction.foldCase (changeColumn partition)
      (changeColumn (partition.map PartitionSpec.foldCase)) := by
  refine (steady_isWord _).andThen fun _ => steady_skip.andThen fun _ => ?_
  refine (steady_acceptWord _).andThen fun _ => mirrors_dottedName.bind fun _ => ?_
  refine mirrors_columnChangeRules.bind fun change => ?_
  cases change with
  | none => exact .ite (mirrors_columnDefinition.map fun _ => rfl) (mirrors_expected _)
  | some change =>
    simp only [Option.map_some, Option.isNone_map]
    exact .ite (.pure rfl) (mirrors_expected _)

theorem mirrors_addColumns (plural : Bool) :
    Mirrors AlterAction.foldCase (addColumns plural) (addColumns plural) :=
  (steady_isSymbol _).andThen fun _ => .ite (mirrors_columnDefinitions.map fun _ => rfl)
    (mirrors_columnDefinition.commaSeparated.map fun _ => rfl)

theorem mirrors_dropColumns (plural : Bool) :
    Mirrors AlterAction.foldCase (dropColumns plural) (dropColumns plural) := by
  refine (steady_acceptWords _).andThen fun _ => (steady_accept _).andThen fun _ => .ite ?_ ?_
  · exact mirrors_dottedName.commaSeparated.bind fun _ => (steady_expect _).andThen fun _ => .pure rfl
  · exact mirrors_dottedName.commaSeparated.map fun _ => rfl

theorem mirrors_addedPartition :
    Mirrors (Option.map fun p => (p.1.foldCase, p.2)) addedPartition addedPartition :=
  .maybe (steady_isWord _) <| mirrors_partitionSpec.bind fun _ =>
    (steady_optionalString _).andThen fun _ => .pure rfl

theorem mirrors_addPartitions : Mirrors AlterAction.foldCase addPartitions addPartitions := by
  refine (steady_acceptWords _).andThen fun _ => mirrors_addedPartition.many.bind fun partitions => ?_
  rw [List.isEmpty_map]
  exact .ite (mirrors_expected _) (.pure rfl)

theorem mirrors_dropPartitions : Mirrors AlterAction.foldCase dropPartitions dropPartitions :=
  (steady_acceptWords _).andThen fun _ => mirrors_partitionSpec.commaSeparated.bind fun _ =>
    (steady_acceptWord _).andThen fun _ => .pure rfl

theorem mirrors_addAction : Mirrors AlterAction.foldCase addAction addAction := by
  refine (steady_choose _).andThen fun plural => ?_
  cases plural with
  | none => exact mirrors_addPartitions
  | some plural => exact mirrors_addColumns plural

theorem mirrors_dropAction : Mirrors AlterAction.foldCase dropAction dropAction := by
  refine (steady_choose _).andThen fun plural => ?_
  cases plural with
  | none => exact mirrors_dropPartitions
  | some plural => exact mirrors_dropColumns plural

theorem mirrors_renameAction : Mirrors AlterAction.foldCase renameAction renameAction := by
  refine (steady_acceptWord _).andThen fun _ => .ite ?_ ?_
  · exact mirrors_dottedName.bind fun _ => (steady_expectWord _).andThen fun _ =>
      mirrors_identifier.map fun _ => rfl
  · exact (steady_expectWord _).andThen fun _ => mirrors_dottedName.map fun _ => rfl

theorem mirrors_unsetProperties :
    Mirrors AlterAction.foldCase unsetProperties unsetProperties := by
  refine (steady_acceptWords _).andThen fun _ => (steady_expect _).andThen fun _ => ?_
  refine mirrors_propertyKey.commaSeparated.bind fun _ => (steady_expect _).andThen fun _ => ?_
  exact .pure (by simp [AlterAction.foldCase, Property.foldCase])

theorem mirrors_tableActionRules :
    Mirrors (Option.map AlterAction.foldCase) (chooseRule tableActionRules)
      (chooseRule tableActionRules) := by
  refine .rule (mirrors_optionalPartition.map fun _ => rfl) ?_
  refine .rule mirrors_renameAction (.rule (mirrors_properties.map fun _ => rfl) ?_)
  exact .rule mirrors_unsetProperties <| .rule mirrors_addAction <|
    .rule mirrors_dropAction .noRule

theorem mirrors_tableAction : Mirrors AlterAction.foldCase tableAction tableAction := by
  refine mirrors_tableActionRules.bind fun action => ?_
  cases action with
  | none =>
    refine (steady_isWord _).andThen fun _ => .ite (mirrors_changeColumn none) ?_
    exact (steady_acceptWords _).andThen fun _ => .ite (.pure rfl) (mirrors_expected _)
  | some action => exact .pure rfl

theorem mirrors_partitionAction (partition : Option PartitionSpec) :
    Mirrors AlterAction.foldCase (partitionAction partition)
      (partitionAction (partition.map PartitionSpec.foldCase)) := by
  refine (steady_acceptWords _).andThen fun _ => .ite (steady_stringLiteral.map fun _ => rfl) ?_
  refine (steady_acceptWords _).andThen fun _ => .ite (mirrors_columnDefinitions.map fun _ => rfl) ?_
  refine (steady_isWord _).andThen fun _ => .ite (mirrors_changeColumn partition) ?_
  rw [Option.isSome_map]
  exact .ite (mirrors_expected _) mirrors_tableAction

theorem mirrors_alterAction : Mirrors AlterAction.foldCase alterAction alterAction := by
  refine mirrors_optionalPartition.bind fun old => ?_
  cases old with
  | none => exact mirrors_partitionAction none
  | some old =>
    exact (steady_acceptWords _).andThen fun _ =>
      .ite (mirrors_partitionSpec.map fun _ => rfl) (mirrors_partitionAction (some old))

theorem mirrors_alterNamespaceAction :
    Mirrors AlterNamespaceAction.foldCase alterNamespaceAction alterNamespaceAction := by
  refine (Mirrors.rule (f := AlterNamespaceAction.foldCase)
    (steady_stringLiteral.map fun _ => by rfl) <| .rule (mirrors_properties.map fun _ => by rfl) <|
    .rule (mirrors_properties.map fun _ => by rfl) .noRule).bind fun action => ?_
  cases action with
  | none => exact mirrors_expected _
  | some action => exact .pure rfl

theorem mirrors_alterNamespace (word : NamespaceWord) :
    Mirrors Statement.foldCase (alterNamespace word) (alterNamespace word) :=
  mirrors_dottedName.bind fun _ => (steady_expectWord _).andThen fun _ =>
    mirrors_alterNamespaceAction.map fun _ => rfl

theorem steady_viewOrTable : Steady viewOrTable :=
  (steady_acceptWord _).andThen fun _ => .ite (.pure rfl) <|
    (steady_expectWord _).andThen fun _ => .pure rfl

theorem mirrors_alterTable : Mirrors Statement.foldCase alterTable alterTable := by
  refine steady_viewOrTable.andThen fun _ => mirrors_dottedName.bind fun _ => ?_
  refine (steady_isWord _).andThen fun _ => .ite ?_ (mirrors_alterAction.map fun _ => rfl)
  exact steady_skip.andThen fun _ => blind_query.map fun _ => rfl

theorem mirrors_alter : Mirrors Statement.foldCase alter alter := by
  refine (steady_expectWord _).andThen fun _ => steady_namespaceWord.andThen fun word => ?_
  cases word with
  | none => exact mirrors_alterTable
  | some word => exact mirrors_alterNamespace word

theorem mirrors_dropNamespace (word : NamespaceWord) :
    Mirrors Statement.foldCase (dropNamespace word) (dropNamespace word) :=
  (steady_acceptWords _).andThen fun _ => mirrors_dottedName.bind fun _ =>
    (steady_choose _).andThen fun _ => .pure rfl

theorem mirrors_dropFunction (temporary : Bool) :
    Mirrors Statement.foldCase (dropFunction temporary) (dropFunction temporary) :=
  (steady_acceptWords _).andThen fun _ => mirrors_dottedName.map fun _ => rfl

theorem mirrors_dropIndex : Mirrors Statement.foldCase dropIndex dropIndex :=
  (steady_acceptWords _).andThen fun _ => mirrors_identifier.bind fun _ =>
    (steady_expectWord _).andThen fun _ => (steady_acceptWord _).andThen fun _ =>
      mirrors_dottedName.map fun _ => rfl

theorem mirrors_dropTable : Mirrors Statement.foldCase dropTable dropTable := by
  refine steady_viewOrTable.andThen fun _ => (steady_acceptWords _).andThen fun _ => ?_
  refine mirrors_dottedName.bind fun _ => .ite (.pure rfl) ?_
  exact (steady_acceptWord _).andThen fun _ => .pure rfl

theorem mirrors_dropObject : Mirrors Statement.foldCase dropObject dropObject := by
  refine (steady_acceptWord _).andThen fun _ => (steady_acceptWord _).andThen fun _ => ?_
  refine .ite (mirrors_dropFunction _) (.ite (mirrors_expected _) ?_)
  exact (steady_acceptWord _).andThen fun _ => .ite mirrors_dropIndex mirrors_dropTable

theorem mirrors_drop : Mirrors Statement.foldCase drop drop := by
  refine (steady_expectWord _).andThen fun _ => steady_namespaceWord.andThen fun word => ?_
  cases word with
  | none => exact mirrors_dropObject
  | some word => exact mirrors_dropNamespace word

end Grammar

end SqlTidy
