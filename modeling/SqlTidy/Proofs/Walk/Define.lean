import SqlTidy.Grammar.Alter
import SqlTidy.Proofs.Walk.Query

/-!
# Changes and definitions walk

The rules for statements that change rows, and those of `CREATE`, `ALTER` and `DROP`. They call expressions
and queries with all their levels, so they are good for any number of tokens.
-/

namespace SqlTidy

open Parse

namespace Grammar

variable {n : Nat}

/-! ## Partitions -/

theorem takes_partitionValue : Takes n [] partitionValue :=
  .take takes_identifier fun _ =>
    .mapPasses (steps_maybe (tests_accept rfl) takes_expression.passes).passes

theorem takes_partitionSpec : Takes n [] partitionSpec :=
  .take (takes_expectWord _) fun _ => .expect rfl <|
    .bind (takes_commaSeparated takes_partitionValue) fun _ => .expect rfl (.done _)

theorem looks_isPartition : Looks isPartition :=
  .bind (.isWord _) fun _ => .ite (.peekSymbol _ _) (.pure _)

theorem steps_optionalPartition : Steps n [] optionalPartition :=
  steps_maybeIf looks_isPartition.passes takes_partitionSpec

/-! ## Statements that change rows -/

theorem passes_insertMode : Passes n [] insertMode :=
  .ifTake (tests_acceptWord _) (.done _) (.bind (takes_expectWord _) fun _ => .done _)

theorem looks_isColumnList : Looks isColumnList :=
  .bind (.isSymbol _) fun _ => .ite looks_isQueryStart.not (.pure _)

theorem takes_insertTarget : Takes n [] insertTarget :=
  .take (takes_expectWord _) fun _ => .bind passes_insertMode fun _ =>
    .bind (tests_acceptWord _) fun _ => .bind takes_dottedName fun _ =>
    .bind steps_optionalPartition fun _ => .bind (tests_acceptWords rfl) fun _ =>
    .mapPasses (passes_maybeList looks_isColumnList.passes takes_identifierList.passes)

theorem takes_insert (tables : Option WithClause) : Takes n [] (insert tables) :=
  .take takes_insertTarget fun _ => .map takes_query

theorem steps_multiInsertBody : Steps n [] multiInsertBody :=
  steps_maybeIf (Looks.isWord _).passes <| .take takes_insertTarget fun _ =>
    .bind (walks_within fun _ _ h => (takes_select h _).mono) fun _ =>
      .mapPasses (walks_within fun _ _ h => passes_organization h)

theorem takes_assignment : Takes n [] assignment :=
  .take takes_dottedName fun _ => .expect rfl (.map takes_expression)

theorem takes_assignments : Takes n [] assignments := takes_commaSeparated takes_assignment

theorem steps_optionalWhere : Steps n [] optionalWhere :=
  steps_maybe (tests_acceptWord _) takes_expression.passes

theorem takes_update : Takes n [] update :=
  .take (takes_expectWord _) fun _ => .bind takes_dottedName fun _ => .bind passes_tableAlias fun _ =>
    .bind (takes_expectWord _) fun _ => .bind takes_assignments fun _ =>
      .mapPasses steps_optionalWhere.passes

theorem takes_delete : Takes n [] delete :=
  .take (takes_expectWords _ _) fun _ => .bind takes_dottedName fun _ => .bind passes_tableAlias fun _ =>
    .mapPasses steps_optionalWhere.passes

/-! ## `MERGE` -/

theorem passes_mergeCondition : Passes n [] mergeCondition :=
  .ifTake (tests_acceptWord _) (.done _) <| .bind (passes_expectWords _) fun _ =>
    .ifTake (tests_acceptWords rfl) (.done _) (.mapPasses (tests_acceptWords rfl).passes)

theorem takes_mergeInsert : Takes n [] mergeInsert := by
  refine .ifTake (tests_accept rfl) (.done _) <| .take takes_identifierList fun _ => ?_
  exact .bind (takes_expectWord _) fun _ => .expect rfl <|
    .bind (walks_within fun _ _ h => takes_expressions h) fun _ => .expect rfl (.done _)

theorem takes_mergeUpdate : Takes n [] mergeUpdate :=
  .ifTake (tests_accept rfl) (.done _) (.map takes_assignments)

theorem takes_mergeAction : Takes n [] mergeAction :=
  .matchTake
    (steps_rule rfl (.done _) <| steps_rule rfl takes_mergeUpdate.passes <|
      steps_rule rfl takes_mergeInsert.passes steps_noRule)
    (fun _ => .done _) (walks_expected _)

theorem steps_mergeClause : Steps n [] mergeClause :=
  steps_maybe (tests_acceptWord _) <| .bind passes_mergeCondition fun _ =>
    .bind (steps_maybe (tests_acceptWord _) takes_expression.passes) fun _ =>
      .bind (takes_expectWord _) fun _ => .map takes_mergeAction

theorem takes_merge : Takes n [] merge := by
  refine .take (takes_expectWords _ _) fun _ => .bind takes_dottedName fun _ => ?_
  refine .bind passes_tableAlias fun _ => .bind (takes_expectWord _) fun _ => ?_
  refine .bind (walks_within fun _ _ h => (takes_tableFactor h).mono) fun _ => ?_
  refine .bind (takes_expectWord _) fun _ => .bind takes_expression fun _ => ?_
  exact .bind (passes_many steps_mergeClause) fun _ => .ite (walks_expected _) (.done _)

/-! ## Parts of definitions -/

theorem tests_ifNotExists : Tests n ifNotExists := tests_acceptWords rfl

theorem tests_ifExists : Tests n ifExists := tests_acceptWords rfl

theorem steps_namespaceWord : Steps n [] namespaceWord := steps_choose rfl

theorem takes_propertyKey : Takes n [] propertyKey := by
  refine .look .current fun t => ?_
  split
  · exact takes_stringLiteral
  · exact .map takes_dottedName

theorem looks_isPropertyEnd : Looks isPropertyEnd := by
  refine .bind .current fun t => ?_
  split
  · exact .pure _
  · exact .pure _
  · exact .pure _

theorem steps_propertyValue : Steps n [] propertyValue :=
  .ifTake (tests_accept rfl) (.map takes_expression) <| .look looks_isPropertyEnd fun _ =>
    .ite .decline (.map takes_expression)

theorem takes_property : Takes n [] property :=
  .take takes_propertyKey fun _ => .mapPasses steps_propertyValue.passes

theorem takes_properties : Takes n [] properties :=
  .expect rfl <| .accept rfl (.done _) <| .bind (takes_commaSeparated takes_property) fun _ =>
    .expect rfl (.done _)

theorem passes_optionalOptions : Passes n [] optionalOptions :=
  passes_maybeList (tests_acceptWord _) takes_properties.passes

theorem steps_columnPosition : Steps n [] columnPosition :=
  .ifTake (tests_acceptWord _) (.done _) (.ifTake (tests_acceptWord _) (.map takes_dottedName) .decline)

theorem takes_columnDefinition : Takes n [] columnDefinition :=
  .take takes_dottedName fun _ => .bind takes_dataType fun _ => .bind (tests_acceptWords rfl) fun _ =>
    .bind (steps_maybe (tests_acceptWord _) takes_expression.passes) fun _ =>
    .bind (steps_optionalString _) fun _ => .mapPasses steps_columnPosition.passes

theorem takes_columnDefinitions : Takes n [] columnDefinitions :=
  .expect rfl <| .bind (takes_commaSeparated takes_columnDefinition) fun _ => .expect rfl (.done _)

/-! ## Tables -/

theorem takes_partitionField : Takes n [] partitionField := by
  refine .look (.peek _) fun next => .look .current fun t => .ite (.map takes_expression) ?_
  split
  · exact .map takes_identifier
  · exact .map takes_identifier
  · exact .take takes_identifier fun _ => .map takes_dataType
  · exact .map takes_expression

theorem takes_partitionFields : Takes n [] partitionFields :=
  .expect rfl <| .bind (takes_commaSeparated takes_partitionField) fun _ => .expect rfl (.done _)

theorem passes_sortedBy : Passes n [] sortedBy :=
  passes_maybeList (tests_acceptWords rfl) <| .expect rfl <|
    .bind (walks_within fun _ _ h => takes_orderItems h) fun _ => .expect rfl (.done _)

theorem takes_bucketSpec : Takes n [] bucketSpec :=
  .take takes_identifierList fun _ => .bind passes_sortedBy fun _ => .bind (takes_expectWord _) fun _ =>
    .bind takes_number fun _ => .bind (takes_expectWord _) fun _ => .done _

theorem steps_tableClause : Steps n [] (chooseRule tableClauseRules) :=
  steps_rule rfl (.map takes_identifierList) <| steps_rule rfl (.map takes_partitionFields) <|
    steps_rule rfl (.map takes_bucketSpec) <| steps_rule rfl (.map takes_identifier) <|
    steps_rule rfl (.map takes_stringLiteral) <| steps_rule rfl (.map takes_number) <|
    steps_rule rfl (.map takes_properties) <| steps_rule rfl (.map takes_properties) <|
    steps_rule rfl (.map takes_stringLiteral) steps_noRule

theorem passes_tableClauses : Passes n [] tableClauses := .mapPasses (passes_many steps_tableClause)

theorem passes_acceptAsQuery : Passes n [] acceptAsQuery :=
  .ifTake (tests_acceptWord _) (.done _) looks_isQueryStart.passes

theorem takes_createTable (mode : CreateMode) (external : Bool) :
    Takes n [] (createTable mode external) :=
  .bind tests_ifNotExists fun _ => .take takes_dottedName fun _ =>
    .bind (steps_maybeIf looks_isColumnList.passes takes_columnDefinitions) fun _ =>
    .bind (steps_maybe (tests_acceptWord _) takes_identifier.passes) fun _ =>
    .bind passes_tableClauses fun _ =>
    .mapPasses (steps_maybeIf passes_acceptAsQuery takes_query).passes

/-! ## Views -/

theorem looks_isSourceView : Looks isSourceView := fun _ _ => ⟨_, rfl⟩

theorem passes_sourceView (orReplace global : Bool) (name : DottedName) :
    Passes n [] (sourceView orReplace global name) :=
  .bind (steps_maybeIf (Looks.isSymbol _).passes takes_columnDefinitions) fun _ =>
    .bind (takes_expectWord _) fun _ => .bind takes_identifier fun _ =>
    .mapPasses passes_optionalOptions

theorem takes_viewColumn : Takes n [] viewColumn :=
  .take takes_identifier fun _ => .mapPasses (steps_optionalString _).passes

theorem steps_viewColumns : Steps n [] viewColumns :=
  steps_maybeOpen rfl <| .bind (takes_commaSeparated takes_viewColumn) fun _ => .expect rfl (.done _)

theorem steps_viewClause : Steps n [] (chooseRule viewClauseRules) :=
  steps_rule rfl (.map takes_stringLiteral) <| steps_rule rfl (.map takes_identifierList) <|
    steps_rule rfl (.map takes_properties) steps_noRule

theorem passes_queryView (orReplace global temporary ifNotExists : Bool) (name : DottedName) :
    Passes n [] (queryView orReplace global temporary ifNotExists name) :=
  .bind steps_viewColumns fun _ => .bind (passes_many steps_viewClause) fun _ =>
    .bind (takes_expectWord _) fun _ => .map takes_query

theorem takes_createView (orReplace global temporary : Bool) :
    Takes n [] (createView orReplace global temporary) :=
  .bind tests_ifNotExists fun _ => .take takes_dottedName fun _ => .look looks_isSourceView fun _ =>
    .ite (passes_sourceView _ _ _) (passes_queryView _ _ _ _ _)

/-! ## Namespaces, functions and indexes -/

theorem steps_namespaceClause : Steps n [] (chooseRule namespaceClauseRules) :=
  steps_rule rfl (.map takes_stringLiteral) <| steps_rule rfl (.map takes_stringLiteral) <|
    steps_rule rfl (.map takes_properties) <| steps_rule rfl (.map takes_properties) steps_noRule

theorem takes_createNamespace (word : NamespaceWord) : Takes n [] (createNamespace word) :=
  .bind tests_ifNotExists fun _ => .take takes_dottedName fun _ =>
    .mapPasses (passes_many steps_namespaceClause)

theorem takes_functionResource : Takes n [] functionResource :=
  .matchTake (steps_choose rfl) (fun _ => .map takes_stringLiteral) (walks_expected _)

theorem takes_createFunction (orReplace temporary : Bool) :
    Takes n [] (createFunction orReplace temporary) :=
  .bind tests_ifNotExists fun _ => .take takes_dottedName fun _ => .bind (takes_expectWord _) fun _ =>
    .bind takes_stringLiteral fun _ => .mapPasses
      (passes_maybeList (tests_acceptWord _) (takes_commaSeparated takes_functionResource).passes)

theorem takes_indexColumn : Takes n [] indexColumn :=
  .take takes_dottedName fun _ => .mapPasses passes_optionalOptions

theorem takes_createIndex : Takes n [] createIndex :=
  .bind tests_ifNotExists fun _ => .take takes_identifier fun _ => .bind (takes_expectWord _) fun _ =>
    .bind (tests_acceptWord _) fun _ => .bind takes_dottedName fun _ =>
    .bind (steps_maybe (tests_acceptWord _) takes_identifier.passes) fun _ => .expect rfl <|
    .bind (takes_commaSeparated takes_indexColumn) fun _ => .expect rfl <|
    .mapPasses passes_optionalOptions

theorem takes_createOther : Takes n [] createOther :=
  .matchTake steps_namespaceWord (fun _ => (takes_createNamespace _).passes) <|
    .ifTake (tests_acceptWord _) takes_createIndex.passes (walks_expected _)

theorem takes_createModified (orReplace : Bool) : Takes n [] (createModified orReplace) := by
  have htemporary : Tests n (do
      if ← acceptWord "TEMPORARY" then return true else acceptWord "TEMP" : Parse Bool) :=
    .ifTake (tests_acceptWord _) (.done _) (tests_acceptWord _)
  refine .bind (tests_acceptWord _) fun _ => .bind htemporary fun _ => ?_
  refine .ifTake (tests_acceptWord _) (takes_createView _ _ _).passes (.ite (walks_expected _) ?_)
  refine .ifTake (tests_acceptWord _) (takes_createFunction _ _).passes ?_
  exact .ite (walks_expected _) takes_createOther

theorem takes_createAfter : Takes n [] createAfter := by
  refine .bind (tests_acceptWords rfl) fun _ => .ifTake (tests_acceptWord _) ?_ ?_
  · exact .bind (takes_expectWord _) fun _ => (takes_createTable _ _).passes
  · exact .ifTake (tests_acceptWord _) (takes_createTable _ _).passes (takes_createModified _)

theorem takes_create : Takes n [] create :=
  .ifTake (tests_acceptWord _) (.bind (takes_expectWord _) fun _ => (takes_createTable _ _).passes)
    (.take (takes_expectWord _) fun _ => takes_createAfter.passes)

/-! ## `ALTER` -/

theorem steps_columnChange : Steps n [] (chooseRule columnChangeRules) :=
  steps_rule rfl (.map takes_dataType) <| steps_rule rfl (.map takes_stringLiteral) <|
    steps_rule rfl (.done _) <| steps_rule rfl (.done _) <| steps_rule rfl (.done _) <|
    steps_rule rfl (.map takes_dottedName) steps_noRule

/-- The first word has been looked at. -/
theorem walksAt_changeColumn {i : Input} {pos : Nat} {keyword : String} (hpos : i.Leaves pos n)
    (hword : (i.tokenAt pos).isKeyword keyword) (partition : Option PartitionSpec) :
    WalksAt (fun _ => True) (fun _ => True) [] (changeColumn partition) i pos := by
  refine .look (.isWord _) fun _ => .skipFirst hpos.succ rfl (ne_eof_of_isKeyword hword)
    (Token.nest_of_isKeyword hword []) ?_
  refine .bind (tests_acceptWord _) fun _ => .bind takes_dottedName fun _ => ?_
  refine .matchTake steps_columnChange (fun _ => .ite (.done _) (walks_expected _)) ?_
  exact .ite (.map takes_columnDefinition) (walks_expected _)

theorem takes_addColumns (plural : Bool) : Takes n [] (addColumns plural) :=
  .look (.isSymbol _) fun _ => .ite (.map takes_columnDefinitions)
    (.map (takes_commaSeparated takes_columnDefinition))

theorem takes_dropColumns (plural : Bool) : Takes n [] (dropColumns plural) :=
  .bind tests_ifExists fun _ => .accept rfl
    (.bind (takes_commaSeparated takes_dottedName) fun _ => .expect rfl (.done _))
    (.map (takes_commaSeparated takes_dottedName))

theorem steps_addedPartition : Steps n [] addedPartition :=
  steps_maybeIf (Looks.isWord _).passes <| .take takes_partitionSpec fun _ =>
    .mapPasses (steps_optionalString _).passes

theorem passes_addPartitions : Passes n [] addPartitions :=
  .bind tests_ifNotExists fun _ => .bind (passes_many steps_addedPartition) fun _ =>
    .ite (walks_expected _) (.done _)

theorem takes_dropPartitions : Takes n [] dropPartitions :=
  .bind tests_ifExists fun _ => .take (takes_commaSeparated takes_partitionSpec) fun _ =>
    .mapPasses (tests_acceptWord _).passes

theorem passes_addAction : Passes n [] addAction :=
  .matchTake (steps_choose rfl) (fun _ => (takes_addColumns _).passes) passes_addPartitions

theorem passes_dropAction : Passes n [] dropAction :=
  .matchTake (steps_choose rfl) (fun _ => (takes_dropColumns _).passes) takes_dropPartitions.passes

theorem passes_renameAction : Passes n [] renameAction :=
  .ifTake (tests_acceptWord _)
    (.bind takes_dottedName fun _ => .bind (takes_expectWord _) fun _ => .map takes_identifier)
    (.bind (takes_expectWord _) fun _ => .map takes_dottedName)

theorem passes_unsetProperties : Passes n [] unsetProperties :=
  .bind tests_ifExists fun _ => .expect rfl <| .bind (takes_commaSeparated takes_propertyKey) fun _ =>
    .expect rfl (.done _)

theorem steps_tableActionRule : Steps n [] (chooseRule tableActionRules) :=
  steps_rule rfl (.mapPasses steps_optionalPartition.passes) <| steps_rule rfl passes_renameAction <|
    steps_rule rfl (.map takes_properties) <| steps_rule rfl passes_unsetProperties <|
    steps_rule rfl passes_addAction <| steps_rule rfl passes_dropAction steps_noRule

theorem takes_tableAction : Takes n [] tableAction := by
  refine .matchTake steps_tableActionRule (fun _ => .done _) fun i pos hpos => .isWord ?_
  refine .ite (fun hword => walksAt_changeColumn hpos hword none) fun _ => .of hpos ?_
  exact .ifTake (tests_acceptWords rfl) (.done _) (walks_expected _)

theorem takes_partitionAction (partition : Option PartitionSpec) :
    Takes n [] (partitionAction partition) := by
  refine .ifTake (tests_acceptWords rfl) (.map takes_stringLiteral) ?_
  refine .ifTake (tests_acceptWords rfl) (.map takes_columnDefinitions) fun i pos hpos => .isWord ?_
  refine .ite (fun hword => walksAt_changeColumn hpos hword partition) fun _ => .of hpos ?_
  exact .ite (walks_expected _) takes_tableAction

theorem takes_alterAction : Takes n [] alterAction :=
  .matchTake steps_optionalPartition
    (fun _ => .ifTake (tests_acceptWords rfl) (.map takes_partitionSpec)
      (takes_partitionAction _).passes)
    (takes_partitionAction none)

theorem takes_alterNamespaceAction : Takes n [] alterNamespaceAction :=
  .matchTake
    (steps_rule rfl (.map takes_stringLiteral) <| steps_rule rfl (.map takes_properties) <|
      steps_rule rfl (.map takes_properties) steps_noRule)
    (fun _ => .done _) (walks_expected _)

theorem takes_alterNamespace (word : NamespaceWord) : Takes n [] (alterNamespace word) :=
  .take takes_dottedName fun _ => .bind (takes_expectWord _) fun _ => .map takes_alterNamespaceAction

theorem takes_viewOrTable : Takes n [] viewOrTable :=
  .ifTake (tests_acceptWord _) (.done _) (.take (takes_expectWord _) fun _ => .done _)

theorem takes_alterTable : Takes n [] alterTable := by
  refine .take takes_viewOrTable fun view => .bind takes_dottedName fun name i pos hpos => ?_
  refine .isWord (.ite (fun has => ?_) fun _ => .of hpos (.map takes_alterAction))
  rw [Bool.and_eq_true] at has
  exact .skipFirst hpos.succ rfl (ne_eof_of_isKeyword has.2) (Token.nest_of_isKeyword has.2 [])
    (.map takes_query)

theorem takes_alter : Takes n [] alter :=
  .take (takes_expectWord _) fun _ =>
    .matchTake steps_namespaceWord (fun _ => (takes_alterNamespace _).passes) takes_alterTable.passes

/-! ## `DROP` -/

theorem takes_dropNamespace (word : NamespaceWord) : Takes n [] (dropNamespace word) :=
  .bind tests_ifExists fun _ => .take takes_dottedName fun _ => .mapPasses (steps_choose rfl).passes

theorem takes_dropFunction (temporary : Bool) : Takes n [] (dropFunction temporary) :=
  .bind tests_ifExists fun _ => .map takes_dottedName

theorem takes_dropIndex : Takes n [] dropIndex :=
  .bind tests_ifExists fun _ => .take takes_identifier fun _ => .bind (takes_expectWord _) fun _ =>
    .bind (tests_acceptWord _) fun _ => .map takes_dottedName

theorem takes_dropTable : Takes n [] dropTable := by
  refine .take takes_viewOrTable fun view => .bind tests_ifExists fun _ => ?_
  refine .bind takes_dottedName fun _ => ?_
  cases view with
  | true => exact .done _
  | false => exact .mapPasses (tests_acceptWord _).passes

theorem takes_dropObject : Takes n [] dropObject := by
  refine .bind (tests_acceptWord _) fun _ => .ifTake (tests_acceptWord _) ?_ (.ite (walks_expected _) ?_)
  · exact (takes_dropFunction _).passes
  · exact .ifTake (tests_acceptWord _) takes_dropIndex.passes takes_dropTable

theorem takes_drop : Takes n [] drop :=
  .take (takes_expectWord _) fun _ =>
    .matchTake steps_namespaceWord (fun _ => (takes_dropNamespace _).passes) takes_dropObject.passes

end Grammar

end SqlTidy
