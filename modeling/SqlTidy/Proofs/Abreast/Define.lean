import SqlTidy.Proofs.Abreast.Query

/-!
# Changes and definitions abreast

`INSERT`, `UPDATE`, `DELETE` and `MERGE`, and then `CREATE`, `ALTER` and `DROP`. The one rule that looks arbitrarily
far ahead is the one that searches for `USING` behind the columns of a view: when it runs into the end, there is no
`USING` in either input.
-/

namespace SqlTidy

open Parse

namespace Grammar

variable {e : Pair}

/-! ## Statements that change rows -/

theorem stable_partitionValue : Stable e partitionValue :=
  stable_identifier.bind fun _ => (Agrees.maybe (stable_accept _) stable_expression).map

theorem stable_partitionSpec : Stable e partitionSpec :=
  (stable_expectWord _).bind fun _ => (stable_expect _).bind fun _ =>
    stable_partitionValue.commaSeparated.bind fun _ => (stable_expect _).bind fun _ => .pure _

theorem stable_isPartition : Stable e isPartition :=
  (stable_isWord _).bind fun _ => .ite (stable_peekSymbol _ _) (.pure _)

theorem stable_optionalPartition : Stable e optionalPartition :=
  .maybe stable_isPartition stable_partitionSpec

theorem stable_insertMode : Stable e insertMode :=
  (stable_acceptWord _).bind fun _ => .ite (.pure _) <|
    (stable_expectWord _).bind fun _ => .pure _

theorem stable_isColumnList : Stable e isColumnList :=
  (stable_isSymbol _).bind fun _ => .ite (Agrees.map stable_isQueryStart) (.pure _)

theorem stable_insertTarget : Stable e insertTarget := by
  refine (stable_expectWord _).bind fun _ => stable_insertMode.bind fun _ => ?_
  refine (stable_acceptWord _).bind fun _ => stable_dottedName.bind fun _ => ?_
  refine stable_optionalPartition.bind fun _ => (stable_acceptWords _).bind fun _ => ?_
  exact (Agrees.maybeList stable_isColumnList stable_identifierList).map

theorem stable_insert (tables : Option WithClause) : Stable e (insert tables) :=
  stable_insertTarget.bind fun _ => stable_query.map

theorem stable_multiInsertBody : Stable e multiInsertBody :=
  .maybe (stable_isWord _) <| stable_insertTarget.bind fun _ =>
    (stable_within fun _ _ h => agrees_select h false).bind fun _ =>
      (stable_within fun _ _ h => agrees_organization h).map

theorem stable_assignment : Stable e assignment :=
  stable_dottedName.bind fun _ => (stable_expect _).bind fun _ => stable_expression.map

theorem stable_assignments : Stable e assignments :=
  stable_assignment.commaSeparated

theorem stable_optionalWhere : Stable e optionalWhere :=
  .maybe (stable_acceptWord _) stable_expression

theorem stable_update : Stable e update := by
  refine (stable_expectWord _).bind fun _ => stable_dottedName.bind fun _ => ?_
  refine stable_tableAlias.bind fun _ => (stable_expectWord _).bind fun _ => ?_
  exact stable_assignments.bind fun _ => stable_optionalWhere.map

theorem stable_delete : Stable e delete :=
  (stable_expectWords _).bind fun _ => stable_dottedName.bind fun _ =>
    stable_tableAlias.bind fun _ => stable_optionalWhere.map

theorem stable_mergeCondition : Stable e mergeCondition := by
  refine (stable_acceptWord _).bind fun _ => .ite (.pure _) ?_
  refine (stable_expectWords _).bind fun _ => (stable_acceptWords _).bind fun _ => ?_
  exact .ite (.pure _) (stable_acceptWords _).map

theorem stable_mergeInsert : Stable e mergeInsert := by
  refine (stable_accept _).bind fun _ => .ite (.pure _) ?_
  refine stable_identifierList.bind fun _ => (stable_expectWord _).bind fun _ => ?_
  refine (stable_expect _).bind fun _ => ?_
  exact (stable_within fun _ _ h => agrees_expressions h).bind fun _ =>
    (stable_expect _).bind fun _ => .pure _

theorem stable_mergeUpdate : Stable e mergeUpdate :=
  (stable_accept _).bind fun _ => .ite (.pure _) stable_assignments.map

theorem stable_mergeAction : Stable e mergeAction := by
  refine (Agrees.rule (.pure _) <| .rule stable_mergeUpdate <|
    .rule stable_mergeInsert stable_noRule).bind fun action => ?_
  cases action with
  | none => exact agrees_expected _ _
  | some action => exact .pure _

theorem stable_mergeClause : Stable e mergeClause := by
  refine .maybe (stable_acceptWord _) (stable_mergeCondition.bind fun _ => ?_)
  refine (Agrees.maybe (stable_acceptWord _) stable_expression).bind fun _ => ?_
  exact (stable_expectWord _).bind fun _ => stable_mergeAction.map

theorem stable_merge : Stable e merge := by
  refine (stable_expectWords _).bind fun _ => stable_dottedName.bind fun _ => ?_
  refine stable_tableAlias.bind fun _ => (stable_expectWord _).bind fun _ => ?_
  refine (stable_within fun _ _ h => agrees_tableFactor h).bind fun _ => ?_
  refine (stable_expectWord _).bind fun _ => stable_expression.bind fun _ => ?_
  refine stable_mergeClause.many.bind fun clauses => ?_
  exact .ite (agrees_expected _ _) (.pure _)

/-! ## `CREATE` -/

theorem stable_namespaceWord : Stable e namespaceWord := stable_choose _

theorem stable_propertyKey : Stable e propertyKey := by
  refine .current (fun t => ?_) stable_dottedName.map
  split
  · exact stable_stringLiteral
  · exact stable_dottedName.map

theorem stable_isPropertyEnd : Stable e isPropertyEnd :=
  .current (fun t => by split <;> exact .pure _) (.pure false)

theorem stable_propertyValue : Stable e propertyValue :=
  (stable_accept _).bind fun _ => .ite stable_expression.map <|
    stable_isPropertyEnd.bind fun _ => .ite (.pure _) stable_expression.map

theorem stable_property : Stable e property :=
  stable_propertyKey.bind fun _ => stable_propertyValue.map

theorem stable_properties : Stable e properties := by
  refine (stable_expect _).bind fun _ => (stable_accept _).bind fun _ => .ite (.pure _) ?_
  exact stable_property.commaSeparated.bind fun _ => (stable_expect _).bind fun _ => .pure _

theorem stable_optionalOptions : Stable e optionalOptions :=
  .maybeList (stable_acceptWord _) stable_properties

theorem stable_columnPosition : Stable e columnPosition :=
  (stable_acceptWord _).bind fun _ => .ite (.pure _) <|
    (stable_acceptWord _).bind fun _ => .ite stable_dottedName.map (.pure _)

theorem stable_columnDefinition : Stable e columnDefinition := by
  refine stable_dottedName.bind fun _ => stable_dataType.bind fun _ => ?_
  refine (stable_acceptWords _).bind fun _ => ?_
  refine (Agrees.maybe (stable_acceptWord _) stable_expression).bind fun _ => ?_
  exact (stable_optionalString _).bind fun _ => stable_columnPosition.map

theorem stable_columnDefinitions : Stable e columnDefinitions :=
  (stable_expect _).bind fun _ => stable_columnDefinition.commaSeparated.bind fun _ =>
    (stable_expect _).bind fun _ => .pure _

theorem stable_partitionField : Stable e partitionField := by
  have hexpr : Stable e (do return PartitionField.transform (← expression)) := stable_expression.map
  refine .peek (fun next => .current (fun t => .ite hexpr ?_) hexpr) (.current (fun t => ?_) hexpr)
  · split
    · exact stable_identifier.map
    · exact stable_identifier.map
    · exact stable_identifier.bind fun _ => stable_dataType.map
    · exact hexpr
  · exact .ite hexpr hexpr

theorem stable_partitionFields : Stable e partitionFields :=
  (stable_expect _).bind fun _ => stable_partitionField.commaSeparated.bind fun _ =>
    (stable_expect _).bind fun _ => .pure _

theorem stable_sortedBy : Stable e sortedBy :=
  .maybeList (stable_acceptWords _) <| (stable_expect _).bind fun _ =>
    (stable_within fun _ _ h => agrees_orderItems h).bind fun _ =>
      (stable_expect _).bind fun _ => .pure _

theorem stable_bucketSpec : Stable e bucketSpec := by
  refine stable_identifierList.bind fun _ => stable_sortedBy.bind fun _ => ?_
  refine (stable_expectWord _).bind fun _ => stable_number.bind fun _ => ?_
  exact (stable_expectWord _).bind fun _ => .pure _

theorem stable_tableClauseRules : Stable e (chooseRule tableClauseRules) := by
  refine .rule stable_identifierList.map ?_
  refine .rule stable_partitionFields.map ?_
  refine .rule stable_bucketSpec.map ?_
  refine .rule stable_identifier.map ?_
  refine .rule stable_stringLiteral.map ?_
  refine .rule stable_number.map ?_
  refine .rule stable_properties.map ?_
  refine .rule stable_properties.map ?_
  exact .rule stable_stringLiteral.map stable_noRule

theorem stable_tableClauses : Stable e tableClauses := stable_tableClauseRules.many.map

theorem stable_acceptAsQuery : Stable e acceptAsQuery :=
  (stable_acceptWord _).bind fun _ => .ite (.pure _) stable_isQueryStart

theorem stable_createTable (mode : CreateMode) (external : Bool) : Stable e (createTable mode external) := by
  refine (stable_acceptWords _).bind fun _ => stable_dottedName.bind fun _ => ?_
  refine (Agrees.maybe stable_isColumnList stable_columnDefinitions).bind fun _ => ?_
  refine (Agrees.maybe (stable_acceptWord _) stable_identifier).bind fun _ => ?_
  refine stable_tableClauses.bind fun _ => ?_
  exact (Agrees.maybe stable_acceptAsQuery stable_query).map

theorem le_skipGroup (i : Input) (bound depth pos : Nat) : pos ≤ skipGroup i bound depth pos := by
  fun_induction skipGroup i bound depth pos <;> omega

theorem isKeyword_eq {pos pos' : Nat} (h : e.Abreast pos pos') (keyword : String) :
    (e.right.tokenAt pos').isKeyword keyword = (e.left.tokenAt pos).isKeyword keyword := by
  rcases h.alike 0 with heq | ⟨-, heof, hsemicolon⟩
  · exact congrArg (Token.isKeyword · keyword) heq
  · have hleft : e.left.tokenAt pos = .eof := heof
    have hright : e.right.tokenAt pos' = .symbol .semicolon := hsemicolon
    rw [hleft, hright]
    rfl

/-- Where the first input has ended, no keyword is ahead in either. -/
theorem isKeyword_eq_of_eof {pos pos' next next' : Nat} (h : e.Abreast pos pos')
    (heof : e.left.tokenAt pos = .eof) (hnext : pos ≤ next) (hnext' : pos' ≤ next')
    (keyword : String) :
    (e.right.tokenAt next').isKeyword keyword = (e.left.tokenAt next).isKeyword keyword := by
  have hend {m : Nat} (hm : pos ≤ m) : e.left.tokenAt m = .eof :=
    (e.capped_left.eof_iff m).2 (Nat.le_trans ((e.capped_left.eof_iff pos).1 heof) hm)
  have hkeyword := isKeyword_eq (h.add (next' - pos')) keyword
  rw [Nat.add_sub_cancel' hnext', hend (Nat.le_add_right _ _)] at hkeyword
  rw [hend hnext, hkeyword]

theorem isKeyword_skipGroup {pos pos' bound bound' : Nat} (h : e.Abreast pos pos')
    (hbound : e.left.remaining pos ≤ bound) (hbound' : e.right.remaining pos' ≤ bound') (depth : Nat)
    (keyword : String) :
    (e.right.tokenAt (skipGroup e.right bound' depth pos')).isKeyword keyword =
      (e.left.tokenAt (skipGroup e.left bound depth pos)).isKeyword keyword := by
  induction bound generalizing depth pos pos' bound' with
  | zero =>
    have heof : e.left.tokenAt pos = .eof := by
      unfold Input.remaining at hbound
      simp [Input.tokenAt, Array.getElem?_eq_none (show e.left.tokens.size ≤ pos by omega)]
    exact isKeyword_eq_of_eof h heof (Nat.le_refl pos) (le_skipGroup _ _ _ _) keyword
  | succ bound ih =>
    by_cases heof : e.left.tokenAt pos = .eof
    · exact isKeyword_eq_of_eof h heof (le_skipGroup _ _ _ _) (le_skipGroup _ _ _ _) keyword
    · have ht := h.tokenAt_eq heof
      have hlt : pos' < e.right.last := e.capped_right.lt_last (ht ▸ heof)
      unfold Input.remaining at hbound hbound' ih
      unfold Input.last at hlt
      obtain ⟨bound', rfl⟩ : ∃ k, bound' = k + 1 := ⟨bound' - 1, by omega⟩
      have hleft : e.left.tokens.size - (pos + 1) ≤ bound := by omega
      have hright : e.right.tokens.size - (pos' + 1) ≤ bound' := by omega
      have ih := ih h.succ hleft hright
      rw [skipGroup, skipGroup, ht]
      split
      · contradiction
      · exact ih _
      · split
        · exact isKeyword_eq h.succ keyword
        · exact ih _
      · split
        · exact isKeyword_eq h.succ keyword
        · exact ih _

theorem stable_isSourceView : Stable e isSourceView := by
  intro pos pos' h
  refine .of_ok (p := isSourceView) (q := isSourceView) rfl ?_ h
  have hparen : (e.right.tokenAt pos' = .symbol .lparen) ↔ (e.left.tokenAt pos = .symbol .lparen) := by
    rcases h.alike 0 with heq | ⟨-, heof, hsemicolon⟩
    · rw [show e.right.tokenAt pos' = e.left.tokenAt pos from heq]
    · have hleft : e.left.tokenAt pos = .eof := heof
      have hright : e.right.tokenAt pos' = .symbol .semicolon := hsemicolon
      simp [hleft, hright]
  simp only [isSourceView, hparen]
  split
  · rw [isKeyword_skipGroup h (Nat.le_refl _) (Nat.le_refl _)]
  · rw [isKeyword_eq h]

theorem stable_sourceView (orReplace global : Bool) (name : DottedName) :
    Stable e (sourceView orReplace global name) := by
  refine (Agrees.maybe (stable_isSymbol _) stable_columnDefinitions).bind fun _ => ?_
  refine (stable_expectWord _).bind fun _ => stable_identifier.bind fun _ => ?_
  exact stable_optionalOptions.map

theorem stable_viewColumn : Stable e viewColumn :=
  stable_identifier.bind fun _ => (stable_optionalString _).bind fun _ => .pure _

theorem stable_viewColumns : Stable e viewColumns :=
  .maybe (stable_accept _) <| stable_viewColumn.commaSeparated.bind fun _ =>
    (stable_expect _).bind fun _ => .pure _

theorem stable_viewClauseRules : Stable e (chooseRule viewClauseRules) := by
  refine .rule stable_stringLiteral.map ?_
  refine .rule stable_identifierList.map ?_
  exact .rule stable_properties.map stable_noRule

theorem stable_queryView (orReplace global temporary ifNotExists : Bool) (name : DottedName) :
    Stable e (queryView orReplace global temporary ifNotExists name) := by
  refine stable_viewColumns.bind fun _ => stable_viewClauseRules.many.bind fun _ => ?_
  exact (stable_expectWord _).bind fun _ => stable_query.map

theorem stable_createView (orReplace global temporary : Bool) :
    Stable e (createView orReplace global temporary) := by
  refine (stable_acceptWords _).bind fun _ => stable_dottedName.bind fun name => ?_
  refine stable_isSourceView.bind fun _ => ?_
  exact .ite (stable_sourceView _ _ name) (stable_queryView _ _ _ _ name)

theorem stable_namespaceClauseRules : Stable e (chooseRule namespaceClauseRules) := by
  refine .rule stable_stringLiteral.map ?_
  refine .rule stable_stringLiteral.map ?_
  refine .rule stable_properties.map ?_
  exact .rule stable_properties.map stable_noRule

theorem stable_createNamespace (word : NamespaceWord) : Stable e (createNamespace word) :=
  (stable_acceptWords _).bind fun _ => stable_dottedName.bind fun _ =>
    stable_namespaceClauseRules.many.map

theorem stable_functionResource : Stable e functionResource := by
  refine (stable_choose _).bind fun kind => ?_
  cases kind with
  | none => exact agrees_expected _ _
  | some kind => exact stable_stringLiteral.map

theorem stable_createFunction (orReplace temporary : Bool) :
    Stable e (createFunction orReplace temporary) := by
  refine (stable_acceptWords _).bind fun _ => stable_dottedName.bind fun _ => ?_
  refine (stable_expectWord _).bind fun _ => stable_stringLiteral.bind fun _ => ?_
  refine Agrees.bind ?_ fun _ => .pure _
  exact (stable_acceptWord _).bind fun _ =>
    .ite (Agrees.commaSeparated stable_functionResource) (.pure _)

theorem stable_indexColumn : Stable e indexColumn :=
  stable_dottedName.bind fun _ => stable_optionalOptions.map

theorem stable_createIndex : Stable e createIndex := by
  refine (stable_acceptWords _).bind fun _ => stable_identifier.bind fun _ => ?_
  refine (stable_expectWord _).bind fun _ => (stable_acceptWord _).bind fun _ => ?_
  refine stable_dottedName.bind fun _ => ?_
  refine (Agrees.maybe (stable_acceptWord _) stable_identifier).bind fun _ => ?_
  refine (stable_expect _).bind fun _ => stable_indexColumn.commaSeparated.bind fun _ => ?_
  exact (stable_expect _).bind fun _ => stable_optionalOptions.map

theorem stable_createOther : Stable e createOther := by
  refine stable_namespaceWord.bind fun word => ?_
  cases word with
  | none =>
    exact (stable_acceptWord _).bind fun _ => .ite stable_createIndex (agrees_expected _ _)
  | some word => exact stable_createNamespace word

theorem stable_createModified (orReplace : Bool) : Stable e (createModified orReplace) := by
  refine (stable_acceptWord _).bind fun _ => Agrees.bind ?_ fun _ => ?_
  · exact (stable_acceptWord _).bind fun _ => .ite (.pure _) (stable_acceptWord _)
  refine (stable_acceptWord _).bind fun _ => .ite (stable_createView _ _ _) ?_
  refine .ite (agrees_expected _ _) ((stable_acceptWord _).bind fun _ => ?_)
  exact .ite (stable_createFunction _ _) (.ite (agrees_expected _ _) stable_createOther)

theorem stable_createAfter : Stable e createAfter := by
  refine (stable_acceptWords _).bind fun _ => (stable_acceptWord _).bind fun _ => ?_
  refine .ite ((stable_expectWord _).bind fun _ => stable_createTable _ _) ?_
  exact (stable_acceptWord _).bind fun _ =>
    .ite (stable_createTable _ _) (stable_createModified _)

theorem stable_create : Stable e create := by
  refine (stable_acceptWord _).bind fun _ => .ite ?_ ?_
  · exact (stable_expectWord _).bind fun _ => stable_createTable _ _
  · exact (stable_expectWord _).bind fun _ => stable_createAfter

/-! ## `ALTER` and `DROP` -/

theorem stable_columnChangeRules : Stable e (chooseRule columnChangeRules) := by
  refine .rule stable_dataType.map ?_
  refine .rule stable_stringLiteral.map ?_
  refine .rule (.pure _) (.rule (.pure _) (.rule (.pure _) ?_))
  exact .rule stable_dottedName.map stable_noRule

theorem stable_changeColumn (partition : Option PartitionSpec) : Stable e (changeColumn partition) := by
  refine (stable_isWord _).bind fun _ => stable_skip.bind fun _ => ?_
  refine (stable_acceptWord _).bind fun _ => stable_dottedName.bind fun _ => ?_
  refine stable_columnChangeRules.bind fun change => ?_
  cases change with
  | none => exact .ite stable_columnDefinition.map (agrees_expected _ _)
  | some change =>
    exact .ite (.pure _) (agrees_expected _ _)

theorem stable_addColumns (plural : Bool) : Stable e (addColumns plural) :=
  (stable_isSymbol _).bind fun _ => .ite stable_columnDefinitions.map
    stable_columnDefinition.commaSeparated.map

theorem stable_dropColumns (plural : Bool) : Stable e (dropColumns plural) := by
  refine (stable_acceptWords _).bind fun _ => (stable_accept _).bind fun _ => .ite ?_ ?_
  · exact stable_dottedName.commaSeparated.bind fun _ => (stable_expect _).bind fun _ => .pure _
  · exact stable_dottedName.commaSeparated.map

theorem stable_addedPartition : Stable e addedPartition :=
  .maybe (stable_isWord _) <| stable_partitionSpec.bind fun _ =>
    (stable_optionalString _).bind fun _ => .pure _

theorem stable_addPartitions : Stable e addPartitions := by
  refine (stable_acceptWords _).bind fun _ => stable_addedPartition.many.bind fun partitions => ?_
  exact .ite (agrees_expected _ _) (.pure _)

theorem stable_dropPartitions : Stable e dropPartitions :=
  (stable_acceptWords _).bind fun _ => stable_partitionSpec.commaSeparated.bind fun _ =>
    (stable_acceptWord _).bind fun _ => .pure _

theorem stable_addAction : Stable e addAction := by
  refine (stable_choose _).bind fun plural => ?_
  cases plural with
  | none => exact stable_addPartitions
  | some plural => exact stable_addColumns plural

theorem stable_dropAction : Stable e dropAction := by
  refine (stable_choose _).bind fun plural => ?_
  cases plural with
  | none => exact stable_dropPartitions
  | some plural => exact stable_dropColumns plural

theorem stable_renameAction : Stable e renameAction := by
  refine (stable_acceptWord _).bind fun _ => .ite ?_ ?_
  · exact stable_dottedName.bind fun _ => (stable_expectWord _).bind fun _ => stable_identifier.map
  · exact (stable_expectWord _).bind fun _ => stable_dottedName.map

theorem stable_unsetProperties : Stable e unsetProperties := by
  refine (stable_acceptWords _).bind fun _ => (stable_expect _).bind fun _ => ?_
  refine stable_propertyKey.commaSeparated.bind fun _ => (stable_expect _).bind fun _ => ?_
  exact .pure _

theorem stable_tableActionRules : Stable e (chooseRule tableActionRules) := by
  refine .rule stable_optionalPartition.map ?_
  refine .rule stable_renameAction (.rule stable_properties.map ?_)
  exact .rule stable_unsetProperties <| .rule stable_addAction <|
    .rule stable_dropAction stable_noRule

theorem stable_tableAction : Stable e tableAction := by
  refine stable_tableActionRules.bind fun action => ?_
  cases action with
  | none =>
    refine (stable_isWord _).bind fun _ => .ite (stable_changeColumn none) ?_
    exact (stable_acceptWords _).bind fun _ => .ite (.pure _) (agrees_expected _ _)
  | some action => exact .pure _

theorem stable_partitionAction (partition : Option PartitionSpec) : Stable e (partitionAction partition) := by
  refine (stable_acceptWords _).bind fun _ => .ite stable_stringLiteral.map ?_
  refine (stable_acceptWords _).bind fun _ => .ite stable_columnDefinitions.map ?_
  refine (stable_isWord _).bind fun _ => .ite (stable_changeColumn partition) ?_
  exact .ite (agrees_expected _ _) stable_tableAction

theorem stable_alterAction : Stable e alterAction := by
  refine stable_optionalPartition.bind fun old => ?_
  cases old with
  | none => exact stable_partitionAction none
  | some old =>
    exact (stable_acceptWords _).bind fun _ =>
      .ite stable_partitionSpec.map (stable_partitionAction (some old))

theorem stable_alterNamespaceAction : Stable e alterNamespaceAction := by
  refine (Agrees.rule stable_stringLiteral.map <| .rule stable_properties.map <|
    .rule stable_properties.map stable_noRule).bind fun action => ?_
  cases action with
  | none => exact agrees_expected _ _
  | some action => exact .pure _

theorem stable_alterNamespace (word : NamespaceWord) : Stable e (alterNamespace word) :=
  stable_dottedName.bind fun _ => (stable_expectWord _).bind fun _ => stable_alterNamespaceAction.map

theorem stable_viewOrTable : Stable e viewOrTable :=
  (stable_acceptWord _).bind fun _ => .ite (.pure _) <|
    (stable_expectWord _).bind fun _ => .pure _

theorem stable_alterTable : Stable e alterTable := by
  refine stable_viewOrTable.bind fun _ => stable_dottedName.bind fun _ => ?_
  refine (stable_isWord _).bind fun _ => .ite ?_ stable_alterAction.map
  exact stable_skip.bind fun _ => stable_query.map

theorem stable_alter : Stable e alter := by
  refine (stable_expectWord _).bind fun _ => stable_namespaceWord.bind fun word => ?_
  cases word with
  | none => exact stable_alterTable
  | some word => exact stable_alterNamespace word

theorem stable_dropNamespace (word : NamespaceWord) : Stable e (dropNamespace word) :=
  (stable_acceptWords _).bind fun _ => stable_dottedName.bind fun _ =>
    (stable_choose _).bind fun _ => .pure _

theorem stable_dropFunction (temporary : Bool) : Stable e (dropFunction temporary) :=
  (stable_acceptWords _).bind fun _ => stable_dottedName.map

theorem stable_dropIndex : Stable e dropIndex :=
  (stable_acceptWords _).bind fun _ => stable_identifier.bind fun _ =>
    (stable_expectWord _).bind fun _ => (stable_acceptWord _).bind fun _ => stable_dottedName.map

theorem stable_dropTable : Stable e dropTable := by
  refine stable_viewOrTable.bind fun _ => (stable_acceptWords _).bind fun _ => ?_
  refine stable_dottedName.bind fun _ => .ite (.pure _) ?_
  exact (stable_acceptWord _).bind fun _ => .pure _

theorem stable_dropObject : Stable e dropObject := by
  refine (stable_acceptWord _).bind fun _ => (stable_acceptWord _).bind fun _ => ?_
  refine .ite (stable_dropFunction _) (.ite (agrees_expected _ _) ?_)
  exact (stable_acceptWord _).bind fun _ => .ite stable_dropIndex stable_dropTable

theorem stable_drop : Stable e drop := by
  refine (stable_expectWord _).bind fun _ => stable_namespaceWord.bind fun word => ?_
  cases word with
  | none => exact stable_dropObject
  | some word => exact stable_dropNamespace word

end Grammar

end SqlTidy
