import SqlTidy.Proofs.Abreast.Expr

/-!
# Queries abreast

The rules of the `FROM` clause and of queries, and then all levels of nesting by induction (`agrees_level`): the
second input may have more levels than the first.
-/

namespace SqlTidy

open Parse

namespace Grammar

variable {e : Pair}

/-! ## The `FROM` clause -/

theorem stable_tableAlias : Stable e tableAlias :=
  (stable_acceptWord _).bind fun _ => stable_mayBeAlias.bind fun _ => .ite (.pure _) <|
    stable_identifier.bind fun _ => stable_optionalIdentifierList.map

theorem stable_lateralColumns (explicitAs : Bool) : Stable e (lateralColumns explicitAs) :=
  .ite stable_identifier.commaSeparated
    (.maybeList stable_mayBeAlias stable_identifier.commaSeparated)

theorem stable_pivotColumns : Stable e pivotColumns :=
  (stable_accept _).bind fun _ => .ite
    (stable_dottedName.commaSeparated.bind fun _ => (stable_expect _).bind fun _ => .pure _)
    stable_dottedName.map

theorem stable_isPivot : Stable e isPivot :=
  (stable_isWord _).bind fun _ => .ite (stable_peekSymbol _ _) (.pure _)

section

variable {inner inner' : Inner} (h : inner.Agrees e inner')

include h

theorem agrees_bucketSample : Agrees e (bucketSample inner) (bucketSample inner') :=
  stable_number.bind fun _ => (stable_expectWords _).bind fun _ =>
    stable_number.bind fun _ => (Agrees.maybe (stable_acceptWord _) h.expression).bind fun _ => .pure _

theorem agrees_amountSample : Agrees e (amountSample inner) (amountSample inner') :=
  h.expression.bind fun _ => (stable_acceptWord _).bind fun _ => .ite (.pure _) <|
    (stable_acceptWord _).bind fun _ => .ite (.pure _) (agrees_expected _ _)

theorem agrees_tableSample : Agrees e (tableSample inner) (tableSample inner') := by
  refine .maybe (stable_acceptWord _) ((stable_expect _).bind fun _ => ?_)
  refine Agrees.bind ?_ fun _ => (stable_expect _).bind fun _ => .pure _
  exact (stable_acceptWord _).bind fun _ => .ite (agrees_bucketSample h) (agrees_amountSample h)

theorem agrees_valuesRows : Agrees e (valuesRows inner) (valuesRows inner') :=
  (stable_expectWord _).bind fun _ => agrees_expressions h

theorem agrees_parenFactor : Agrees e (parenFactor inner) (parenFactor inner') := by
  refine stable_isQueryStart.bind fun _ => .ite ?_ ?_
  · exact h.query.bind fun _ => (stable_expect _).bind fun _ => (agrees_tableSample h).bind fun _ =>
      stable_tableAlias.bind fun _ => .pure _
  · exact h.relation.bind fun _ => (stable_expect _).bind fun _ => stable_tableAlias.map

theorem agrees_namedFactor : Agrees e (namedFactor inner) (namedFactor inner') := by
  refine stable_dottedName.bind fun _ => (stable_accept _).bind fun _ => .ite ?_ ?_
  · exact (agrees_callArgsBeforeParen h).bind fun _ => (stable_expect _).bind fun _ =>
      stable_tableAlias.bind fun _ => .pure _
  · exact (agrees_tableSample h).bind fun _ => stable_tableAlias.bind fun _ => .pure _

theorem agrees_tableFactor : Agrees e (tableFactor inner) (tableFactor inner') := by
  refine (stable_accept _).bind fun _ => .ite (agrees_parenFactor h) ?_
  refine (stable_isWord _).bind fun _ => .ite ?_ (agrees_namedFactor h)
  exact (agrees_valuesRows h).bind fun _ => stable_tableAlias.bind fun _ => .pure _

theorem agrees_joinConstraint : Agrees e (joinConstraint inner) (joinConstraint inner') :=
  (stable_acceptWord _).bind fun _ => .ite h.expression.map <|
    (stable_acceptWord _).bind fun _ => .ite stable_identifierList.map
      (.pure _)

theorem agrees_join : Agrees e (join inner) (join inner') := by
  refine (stable_acceptWord _).bind fun _ => (stable_choose _).bind fun kind => ?_
  cases kind with
  | none => exact .ite (agrees_expected _ _) (.pure _)
  | some kind =>
    exact (agrees_tableFactor h).bind fun _ => (agrees_joinConstraint h).bind fun _ => .pure _

theorem agrees_relationOf : Agrees e (relationOf inner) (relationOf inner') :=
  (agrees_tableFactor h).bind fun _ => (agrees_join h).many.bind fun _ => .pure _

theorem agrees_lateralView : Agrees e (lateralView inner) (lateralView inner') := by
  refine (stable_expectWords _).bind fun _ => (stable_acceptWord _).bind fun _ => ?_
  refine stable_dottedName.bind fun _ => (stable_expect _).bind fun _ => ?_
  refine (agrees_expressionsBeforeParen h).bind fun _ => (stable_expect _).bind fun _ => ?_
  refine (Agrees.maybe stable_mayBeAlias stable_identifier).bind fun _ => ?_
  refine (stable_acceptWord _).bind fun _ => (stable_lateralColumns _).bind fun _ => ?_
  exact .pure _

theorem agrees_pivot : Agrees e (pivot inner) (pivot inner') := by
  refine (stable_expectWord _).bind fun _ => (stable_expect _).bind fun _ => ?_
  refine (agrees_selectItems h).bind fun _ => (stable_expectWord _).bind fun _ => ?_
  refine stable_pivotColumns.bind fun _ => (stable_expectWord _).bind fun _ => ?_
  refine (stable_expect _).bind fun _ => (agrees_selectItems h).bind fun _ => ?_
  exact (stable_expect _).bind fun _ => (stable_expect _).bind fun _ => .pure _

theorem agrees_fromClause : Agrees e (fromClause inner) (fromClause inner') := by
  refine (stable_expectWord _).bind fun _ => (agrees_relationOf h).commaSeparated.bind fun _ => ?_
  refine (Agrees.many (.maybe (stable_isWords _) (agrees_lateralView h))).bind fun _ => ?_
  exact (Agrees.maybe stable_isPivot (agrees_pivot h)).bind fun _ => .pure _

/-! ## `GROUP BY` -/

theorem agrees_groupingSet : Agrees e (groupingSet inner) (groupingSet inner') := by
  refine .rewinding ((stable_expect _).bind fun _ => (stable_accept _).bind fun _ => ?_)
  refine .ite (.pure _) ((agrees_expressions h).bind fun _ => (stable_accept _).bind fun _ => ?_)
  exact (stable_isSymbol _).bind fun _ => (stable_isSymbol _).bind fun _ =>
    .ite (.pure _) (.pure _)

theorem agrees_groupingElement : Agrees e (groupingElement inner) (groupingElement inner') := by
  refine (stable_isSymbol _).bind fun _ => stable_isQueryStart.bind fun _ => ?_
  refine .ite ((agrees_groupingSet h).bind fun members => ?_) h.expression.map
  cases members with
  | none => exact h.expression.map
  | some members => exact .pure _

omit h in
theorem stable_groupingKind : Stable e groupingKind :=
  (stable_acceptWords _).bind fun _ => .ite (.pure _) <|
    (stable_peekSymbol _ _).bind fun _ => .ite (.pure _) (stable_choose _)

theorem agrees_groupingItem : Agrees e (groupingItem inner) (groupingItem inner') := by
  refine stable_groupingKind.bind fun kind => ?_
  cases kind with
  | none => exact h.expression.map
  | some kind =>
    exact (stable_expect _).bind fun _ => (agrees_groupingElement h).commaSeparated.bind fun _ =>
      (stable_expect _).bind fun _ => .pure _

theorem agrees_groupBy : Agrees e (groupBy inner) (groupBy inner') :=
  (agrees_groupingItem h).commaSeparated.bind fun _ => (stable_choose _).bind fun _ => .pure _

/-! ## `SELECT` -/

theorem agrees_hintArgs : Agrees e (hintArgs inner) (hintArgs inner') :=
  .maybe (stable_accept _) <| (agrees_expressionsBeforeParen h).bind fun _ =>
    (stable_expect _).bind fun _ => .pure _

theorem agrees_hintFunction : Agrees e (hintFunction inner) (hintFunction inner') :=
  stable_identifier.bind fun _ => (agrees_hintArgs h).map

theorem agrees_nextHintFunction : Agrees e (nextHintFunction inner) (nextHintFunction inner') :=
  .maybe (stable_isSymbol _).map <| (stable_accept _).bind fun _ => agrees_hintFunction h

theorem agrees_hintFunctions : Agrees e (hintFunctions inner) (hintFunctions inner') :=
  (stable_isSymbol _).bind fun _ => .ite (.pure _) <| (agrees_hintFunction h).bind fun _ =>
    (agrees_nextHintFunction h).many.map

theorem agrees_hint : Agrees e (hint inner) (hint inner') :=
  .maybe (stable_accept _) <| (agrees_hintFunctions h).bind fun _ =>
    (stable_expect _).bind fun _ => .pure _

theorem agrees_namedWindow : Agrees e (namedWindow inner) (namedWindow inner') :=
  stable_identifier.bind fun _ => (stable_expectWord _).bind fun _ => (agrees_window h).map

theorem agrees_select (allowFrom : Bool) : Agrees e (select inner allowFrom) (select inner' allowFrom) := by
  refine (stable_expectWord _).bind fun _ => (agrees_hint h).many.bind fun _ => ?_
  refine (stable_choose _).bind fun _ => (agrees_selectItems h).bind fun _ => ?_
  have hfrom : Stable e (do return allowFrom && (← isWord "FROM")) :=
    (stable_isWord _).bind fun _ => .pure _
  refine (Agrees.maybe hfrom (agrees_fromClause h)).bind fun _ => ?_
  refine (Agrees.maybe (stable_acceptWord _) h.expression).bind fun _ => ?_
  refine (Agrees.maybe (stable_acceptWords _) (agrees_groupBy h)).bind fun _ => ?_
  refine (Agrees.maybe (stable_acceptWord _) h.expression).bind fun _ => ?_
  refine (Agrees.maybeList (stable_acceptWord _) (agrees_namedWindow h).commaSeparated).bind fun _ => ?_
  exact .pure _

/-! ## Bodies and queries -/

theorem agrees_limitOf : Agrees e (limitOf inner) (limitOf inner') :=
  (stable_acceptWord _).bind fun _ => .ite (.pure _) h.expression.map

theorem agrees_organization : Agrees e (organization inner) (organization inner') := by
  refine (Agrees.maybeList (stable_acceptWords _) (agrees_orderItems h)).bind fun _ => ?_
  refine (Agrees.maybeList (stable_acceptWords _) (agrees_expressions h)).bind fun _ => ?_
  refine (Agrees.maybeList (stable_acceptWords _) (agrees_expressions h)).bind fun _ => ?_
  refine (Agrees.maybeList (stable_acceptWords _) (agrees_orderItems h)).bind fun _ => ?_
  refine (Agrees.maybe (stable_acceptWord _) (agrees_limitOf h)).bind fun _ => ?_
  refine (Agrees.maybe (stable_acceptWord _) h.expression).bind fun _ => ?_
  exact .pure _

theorem agrees_fromBody : Agrees e (fromBody inner) (fromBody inner') :=
  .maybe (stable_isWord _) <| (agrees_select h false).bind fun _ => (agrees_organization h).map

theorem agrees_fromBodies (source : FromClause) :
    Agrees e (fromBodies inner source) (fromBodies inner' source) := by
  refine (agrees_fromBody h).many.bind fun bodies => ?_
  exact .ite (agrees_expected _ _) (.pure _)

theorem agrees_bodyPrimary : Agrees e (bodyPrimary inner) (bodyPrimary inner') := by
  refine (stable_isWord _).bind fun _ => .ite (agrees_select h true).map ?_
  refine (stable_isWord _).bind fun _ => .ite ?_ ((stable_acceptWord _).bind fun _ => ?_)
  · exact (agrees_valuesRows h).bind fun _ => stable_tableAlias.bind fun _ => .pure _
  refine .ite stable_dottedName.map ((stable_isWord _).bind fun _ => ?_)
  refine .ite ((agrees_fromClause h).bind fun _ => agrees_fromBodies h _) ?_
  refine (stable_accept _).bind fun _ => .ite ?_ (agrees_expected _ _)
  exact h.query.bind fun _ => (stable_expect _).bind fun _ => .pure _

omit h in
theorem agrees_setChain {operators : List (List String × SetOp)} {operand operand' : Parse QueryBody}
    (h : Agrees e operand operand') :
    Agrees e (setChain operators operand) (setChain operators operand') := by
  refine h.bind fun first => .iterate (fun left => (stable_choose _).bind fun op => ?_) first
  cases op with
  | none => exact .pure _
  | some op => exact (stable_choose _).bind fun _ => h.map

theorem agrees_queryBody : Agrees e (queryBody inner) (queryBody inner') :=
  agrees_setChain (agrees_setChain (agrees_bodyPrimary h))

theorem agrees_commonTable : Agrees e (commonTable inner) (commonTable inner') :=
  stable_identifier.bind fun _ => stable_optionalIdentifierList.bind fun _ =>
    (stable_acceptWord _).bind fun _ => (stable_expect _).bind fun _ => h.query.bind fun _ =>
      (stable_expect _).bind fun _ => .pure _

theorem agrees_withClause : Agrees e (withClause inner) (withClause inner') :=
  (stable_expectWord _).bind fun _ => (agrees_commonTable h).commaSeparated.map

theorem agrees_queryAfterWith (tables : Option WithClause) :
    Agrees e (queryAfterWith inner tables) (queryAfterWith inner' tables) :=
  (agrees_queryBody h).bind fun _ => (agrees_organization h).bind fun _ => .pure _

theorem agrees_queryOf : Agrees e (queryOf inner) (queryOf inner') :=
  (Agrees.maybe (stable_isWord _) (agrees_withClause h)).bind fun tables =>
    agrees_queryAfterWith h tables

end

/-! ## All levels -/

/-- More levels of nesting read the same, unless the fewer do not end. -/
theorem agrees_level {n m : Nat} (h : n ≤ m) : (Inner.level n).Agrees e (Inner.level m) := by
  induction n generalizing m with
  | zero =>
    exact ⟨agrees_endless _, agrees_endless _, agrees_endless _, agrees_endless _, agrees_endless _⟩
  | succ n ih =>
    obtain ⟨m, rfl⟩ : ∃ k, m = k + 1 := ⟨m - 1, by omega⟩
    have ih := ih (Nat.le_of_succ_le_succ h)
    exact ⟨agrees_expressionOf ih, agrees_negationExpr ih, agrees_unaryExpr ih, agrees_queryOf ih,
      agrees_relationOf ih⟩

-- Named, because compared by unfolding the levels of the two sides would be opened.
theorem within_apply {α : Type} (rule : Inner → Parse α) (i : Input) (pos : Nat) :
    within rule i pos = rule (.level (i.remaining pos + 1)) i pos := rfl

theorem stable_within {α : Type} {rule : Inner → Parse α}
    (h : ∀ inner inner' : Inner, inner.Agrees e inner' → Agrees e (rule inner) (rule inner')) :
    Stable e (within rule) := by
  intro pos pos' habreast
  have hrule := h _ _ (agrees_level (Nat.add_le_add_right habreast.remaining 1)) habreast
  unfold AgreesAt at hrule ⊢
  rw [within_apply, within_apply]
  exact hrule

theorem stable_expression : Stable e expression := stable_within fun _ _ h => h.expression

theorem stable_query : Stable e query := stable_within fun _ _ h => h.query

end Grammar

end SqlTidy
