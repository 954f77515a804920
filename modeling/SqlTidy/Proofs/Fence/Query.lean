import SqlTidy.Proofs.Abreast.Query
import SqlTidy.Proofs.Fence.Expr

/-!
# Queries up to a fence

The rules of the `FROM` clause and of queries, and then all levels of nesting by induction (`tracks_level`).

**Theorem (`firm_expression`, `firm_query`, `firm_relation`).** What an expression, a query or a relation reads in front
of a closing parenthesis or the end depends only on the tokens up to there.
-/

namespace SqlTidy

open Parse

namespace Grammar

variable {e : Fence} {u : List Symbol}

/-! ## The `FROM` clause -/

theorem firm_tableAlias : Firm e u tableAlias :=
  (firm_acceptWord _).bind fun _ => firm_mayBeAlias.bind fun _ => .ite (.pure _) <|
    firm_identifier.bind fun _ => firm_optionalIdentifierList.map

theorem firm_lateralColumns (explicitAs : Bool) : Firm e u (lateralColumns explicitAs) :=
  .ite firm_identifier.commaSeparated (.maybeList firm_mayBeAlias firm_identifier.commaSeparated)

theorem firm_pivotColumns : Firm e u pivotColumns :=
  .accept rfl (firm_dottedName.commaSeparated.bind fun _ => (echoes_expect rfl).bind fun _ => .pure _)
    firm_dottedName.map

theorem firm_isPivot : Firm e u isPivot := by
  intro pos hat
  refine .isWord hat (.ite (fun hword => ?_) fun _ => .of hat (.pure false))
  rw [← bind_pure (peekSymbol 1 .lparen)]
  exact .peekSymbol ((hat.before_of_isKeyword hword).next_isKeyword hword) nofun (.of hat (.pure _))

section

variable {inner inner' : Inner} (h : inner.Tracks e inner')

include h

theorem tracks_bucketSample : Tracks e u (bucketSample inner) (bucketSample inner') :=
  firm_number.bind fun _ => (firm_expectWords _).bind fun _ =>
    firm_number.bind fun _ => (Echoes.maybe (firm_acceptWord _) h.expression).bind fun _ => .pure _

theorem tracks_amountSample : Tracks e u (amountSample inner) (amountSample inner') :=
  h.expression.bind fun _ => (firm_acceptWord _).bind fun _ => .ite (.pure _) <|
    (firm_acceptWord _).bind fun _ => .ite (.pure _) (echoes_expected _ _)

theorem tracks_tableSample : Tracks e u (tableSample inner) (tableSample inner') := by
  refine .maybe (firm_acceptWord _) ((echoes_expect rfl).bind fun _ => ?_)
  refine Echoes.bind (v := .rparen :: u) ?_ fun _ => (echoes_expect rfl).bind fun _ => .pure _
  exact (firm_acceptWord _).bind fun _ => .ite (tracks_bucketSample h) (tracks_amountSample h)

theorem tracks_valuesRows : Tracks e u (valuesRows inner) (valuesRows inner') :=
  (firm_expectWord _).bind fun _ => tracks_expressions h

/-- Behind the opening parenthesis. -/
theorem echoes_parenFactor :
    Echoes e (fun _ => True) (.rparen :: u) u (parenFactor inner) (parenFactor inner') := by
  refine firm_isQueryStart.bind fun _ => .ite ?_ ?_
  · exact h.query.bind fun _ => (echoes_expect rfl).bind fun _ => (tracks_tableSample h).bind fun _ =>
      firm_tableAlias.bind fun _ => .pure _
  · exact h.relation.bind fun _ => (echoes_expect rfl).bind fun _ => firm_tableAlias.map

theorem tracks_namedFactor : Tracks e u (namedFactor inner) (namedFactor inner') := by
  refine firm_dottedName.bind fun _ => .accept rfl ?_ ?_
  · exact (tracks_callArgsBeforeParen h).bind fun _ => (echoes_expect rfl).bind fun _ =>
      firm_tableAlias.bind fun _ => .pure _
  · exact (tracks_tableSample h).bind fun _ => firm_tableAlias.bind fun _ => .pure _

theorem tracks_tableFactor : Tracks e u (tableFactor inner) (tableFactor inner') := by
  refine .accept rfl (echoes_parenFactor h) ((firm_isWord _).bind fun _ => .ite ?_ (tracks_namedFactor h))
  exact (tracks_valuesRows h).bind fun _ => firm_tableAlias.bind fun _ => .pure _

theorem tracks_joinConstraint : Tracks e u (joinConstraint inner) (joinConstraint inner') :=
  (firm_acceptWord _).bind fun _ => .ite h.expression.map <|
    (firm_acceptWord _).bind fun _ => .ite firm_identifierList.map (.pure _)

theorem tracks_join : Tracks e u (join inner) (join inner') := by
  refine (firm_acceptWord _).bind fun _ => (firm_choose _).bind fun kind => ?_
  cases kind with
  | none => exact .ite (echoes_expected _ _) (.pure _)
  | some kind =>
    exact (tracks_tableFactor h).bind fun _ => (tracks_joinConstraint h).bind fun _ => .pure _

theorem tracks_relationOf : Tracks e u (relationOf inner) (relationOf inner') :=
  (tracks_tableFactor h).bind fun _ => (tracks_join h).many.bind fun _ => .pure _

theorem tracks_lateralView : Tracks e u (lateralView inner) (lateralView inner') := by
  refine (firm_expectWords _).bind fun _ => (firm_acceptWord _).bind fun _ => ?_
  refine firm_dottedName.bind fun _ => (echoes_expect rfl).bind fun _ => ?_
  refine (tracks_expressionsBeforeParen h).bind fun _ => (echoes_expect rfl).bind fun _ => ?_
  refine (Echoes.maybe firm_mayBeAlias firm_identifier).bind fun _ => ?_
  exact (firm_acceptWord _).bind fun _ => (firm_lateralColumns _).bind fun _ => .pure _

theorem tracks_pivot : Tracks e u (pivot inner) (pivot inner') := by
  refine (firm_expectWord _).bind fun _ => (echoes_expect rfl).bind fun _ => ?_
  refine (tracks_selectItems h).bind fun _ => (firm_expectWord _).bind fun _ => ?_
  refine firm_pivotColumns.bind fun _ => (firm_expectWord _).bind fun _ => ?_
  refine (echoes_expect rfl).bind fun _ => (tracks_selectItems h).bind fun _ => ?_
  exact (echoes_expect rfl).bind fun _ => (echoes_expect rfl).bind fun _ => .pure _

theorem tracks_fromClause : Tracks e u (fromClause inner) (fromClause inner') := by
  refine (firm_expectWord _).bind fun _ => (tracks_relationOf h).commaSeparated.bind fun _ => ?_
  refine (Echoes.many (.maybe (firm_isWords _) (tracks_lateralView h))).bind fun _ => ?_
  exact (Echoes.maybe firm_isPivot (tracks_pivot h)).bind fun _ => .pure _

/-! ## `GROUP BY`

A set of a grouping is followed by a look at the token behind its parentheses, so it has to stand in parentheses
itself. -/

theorem tracks_groupingSet : Tracks e (.rparen :: u) (groupingSet inner) (groupingSet inner') := by
  refine .rewinding ((echoes_expect rfl).bind fun _ => .accept rfl (.pure _) ?_)
  refine (tracks_expressions h).bind fun _ => .accept rfl ?_ ?_
  · exact (firm_isClosing _).bind fun _ => (firm_isClosing _).bind fun _ => .ite (.pure _) (.pure _)
  · exact (firm_isClosing _).bind fun _ => (firm_isClosing _).bind fun _ => .abandon

theorem tracks_groupingElement :
    Tracks e (.rparen :: u) (groupingElement inner) (groupingElement inner') := by
  refine (firm_isSymbol _ (by decide)).bind fun _ => firm_isQueryStart.bind fun _ => ?_
  refine .ite ((tracks_groupingSet h).bind fun members => ?_) h.expression.map
  cases members with
  | none => exact h.expression.map
  | some members => exact .pure _

omit h in
theorem firm_groupingKind : Firm e u groupingKind := by
  refine (firm_acceptWords _).bind fun _ => .ite (.pure _) fun pos hat => ?_
  have hchoose : Firm e u (choose [(["ROLLUP"], GroupingKind.rollup), (["CUBE"], .cube)]) := firm_choose _
  -- Where neither word stands the look at the second token does not matter.
  by_cases hword : (e.left.tokenAt pos).isKeyword "ROLLUP" ∨ (e.left.tokenAt pos).isKeyword "CUBE"
  · have hnext : e.At u (pos + 1) := by
      rcases hword with hword | hword <;> exact (hat.before_of_isKeyword hword).next_isKeyword hword
    exact .peekSymbol hnext nofun (.ite (fun _ => .of hat (.pure _)) fun _ => .of hat hchoose)
  · have hnone {i : Input} {pos : Nat}
        (hno : ¬ ((i.tokenAt pos).isKeyword "ROLLUP" ∨ (i.tokenAt pos).isKeyword "CUBE")) :
        choose [(["ROLLUP"], GroupingKind.rollup), (["CUBE"], .cube)] i pos = (.ok none, pos) := by
      rw [not_or] at hno
      refine Runs.bind (runs_acceptWords_false fun hwords => hno.1 hwords.1) ?_
      exact Runs.bind (runs_acceptWords_false fun hwords => hno.2 hwords.1) rfl
    have hright : ¬ ((e.right.tokenAt (pos + e.shift)).isKeyword "ROLLUP" ∨
        (e.right.tokenAt (pos + e.shift)).isKeyword "CUBE") := by
      rwa [hat.isKeyword_eq, hat.isKeyword_eq]
    refine .ignore (.peekSymbol _ _) fun b b' => ?_
    refine .of_ok (a := none) ?_ ?_ fun _ => hat
    · cases b with
      | true => exact hnone hword
      | false => rfl
    · cases b' with
      | true => exact hnone hright
      | false => rfl

theorem tracks_groupingItem : Tracks e u (groupingItem inner) (groupingItem inner') := by
  refine firm_groupingKind.bind fun kind => ?_
  cases kind with
  | none => exact h.expression.map
  | some kind =>
    exact (echoes_expect rfl).bind fun _ => (tracks_groupingElement h).commaSeparated.bind fun _ =>
      (echoes_expect rfl).bind fun _ => .pure _

theorem tracks_groupBy : Tracks e u (groupBy inner) (groupBy inner') :=
  (tracks_groupingItem h).commaSeparated.bind fun _ => (firm_choose _).bind fun _ => .pure _

/-! ## `SELECT` -/

theorem tracks_hintArgs : Tracks e u (hintArgs inner) (hintArgs inner') := by
  refine .accept rfl (Echoes.map ?_) (.pure none)
  exact (tracks_expressionsBeforeParen h).bind fun _ => (echoes_expect rfl).bind fun _ => .pure _

theorem tracks_hintFunction : Tracks e u (hintFunction inner) (hintFunction inner') :=
  firm_identifier.bind fun _ => (tracks_hintArgs h).map

theorem tracks_nextHintFunction : Tracks e u (nextHintFunction inner) (nextHintFunction inner') :=
  .maybe (firm_isSymbol _ (by decide)).map <| (firm_accept _ rfl).bind fun _ => tracks_hintFunction h

theorem tracks_hintFunctions : Tracks e u (hintFunctions inner) (hintFunctions inner') :=
  (firm_isSymbol _ (by decide)).bind fun _ => .ite (.pure _) <| (tracks_hintFunction h).bind fun _ =>
    (tracks_nextHintFunction h).many.map

theorem tracks_hint : Tracks e u (hint inner) (hint inner') :=
  .maybe (firm_accept _ rfl) <| (tracks_hintFunctions h).bind fun _ =>
    (echoes_expect rfl).bind fun _ => .pure _

theorem tracks_namedWindow : Tracks e u (namedWindow inner) (namedWindow inner') :=
  firm_identifier.bind fun _ => (firm_expectWord _).bind fun _ => (tracks_window h).map

theorem tracks_select (allowFrom : Bool) : Tracks e u (select inner allowFrom) (select inner' allowFrom) := by
  refine (firm_expectWord _).bind fun _ => (tracks_hint h).many.bind fun _ => ?_
  refine (firm_choose _).bind fun _ => (tracks_selectItems h).bind fun _ => ?_
  have hfrom : Firm e u (do return allowFrom && (← isWord "FROM")) := (firm_isWord _).bind fun _ => .pure _
  refine (Echoes.maybe hfrom (tracks_fromClause h)).bind fun _ => ?_
  refine (Echoes.maybe (firm_acceptWord _) h.expression).bind fun _ => ?_
  refine (Echoes.maybe (firm_acceptWords _) (tracks_groupBy h)).bind fun _ => ?_
  refine (Echoes.maybe (firm_acceptWord _) h.expression).bind fun _ => ?_
  refine (Echoes.maybeList (firm_acceptWord _) (tracks_namedWindow h).commaSeparated).bind fun _ => ?_
  exact .pure _

/-! ## Bodies and queries -/

theorem tracks_limitOf : Tracks e u (limitOf inner) (limitOf inner') :=
  (firm_acceptWord _).bind fun _ => .ite (.pure _) h.expression.map

theorem tracks_organization : Tracks e u (organization inner) (organization inner') := by
  refine (Echoes.maybeList (firm_acceptWords _) (tracks_orderItems h)).bind fun _ => ?_
  refine (Echoes.maybeList (firm_acceptWords _) (tracks_expressions h)).bind fun _ => ?_
  refine (Echoes.maybeList (firm_acceptWords _) (tracks_expressions h)).bind fun _ => ?_
  refine (Echoes.maybeList (firm_acceptWords _) (tracks_orderItems h)).bind fun _ => ?_
  refine (Echoes.maybe (firm_acceptWord _) (tracks_limitOf h)).bind fun _ => ?_
  exact (Echoes.maybe (firm_acceptWord _) h.expression).bind fun _ => .pure _

theorem tracks_fromBody : Tracks e u (fromBody inner) (fromBody inner') :=
  .maybe (firm_isWord _) <| (tracks_select h false).bind fun _ => (tracks_organization h).map

theorem tracks_fromBodies (source : FromClause) :
    Tracks e u (fromBodies inner source) (fromBodies inner' source) :=
  (tracks_fromBody h).many.bind fun _ => .ite (echoes_expected _ _) (.pure _)

theorem tracks_bodyPrimary : Tracks e u (bodyPrimary inner) (bodyPrimary inner') := by
  refine (firm_isWord _).bind fun _ => .ite (tracks_select h true).map ?_
  refine (firm_isWord _).bind fun _ => .ite ?_ ((firm_acceptWord _).bind fun _ => ?_)
  · exact (tracks_valuesRows h).bind fun _ => firm_tableAlias.bind fun _ => .pure _
  refine .ite firm_dottedName.map ((firm_isWord _).bind fun _ => ?_)
  refine .ite ((tracks_fromClause h).bind fun _ => tracks_fromBodies h _) ?_
  refine .accept rfl ?_ (echoes_expected _ _)
  exact h.query.bind fun _ => (echoes_expect rfl).bind fun _ => .pure _

omit h in
theorem tracks_setChain {operators : List (List String × SetOp)} {operand operand' : Parse QueryBody}
    (h : Tracks e u operand operand') : Tracks e u (setChain operators operand) (setChain operators operand') := by
  refine h.bind fun first => .iterate (fun left => (firm_choose _).bind fun op => ?_) first
  cases op with
  | none => exact .pure _
  | some op => exact (firm_choose _).bind fun _ => h.map

theorem tracks_queryBody : Tracks e u (queryBody inner) (queryBody inner') :=
  tracks_setChain (tracks_setChain (tracks_bodyPrimary h))

theorem tracks_commonTable : Tracks e u (commonTable inner) (commonTable inner') :=
  firm_identifier.bind fun _ => firm_optionalIdentifierList.bind fun _ =>
    (firm_acceptWord _).bind fun _ => (echoes_expect rfl).bind fun _ => h.query.bind fun _ =>
      (echoes_expect rfl).bind fun _ => .pure _

theorem tracks_withClause : Tracks e u (withClause inner) (withClause inner') :=
  (firm_expectWord _).bind fun _ => (tracks_commonTable h).commaSeparated.map

theorem tracks_queryOf : Tracks e u (queryOf inner) (queryOf inner') :=
  (Echoes.maybe (firm_isWord _) (tracks_withClause h)).bind fun _ => (tracks_queryBody h).bind fun _ =>
    (tracks_organization h).bind fun _ => .pure _

end

/-! ## All levels -/

/-- More levels of nesting read the same, unless the fewer do not end. -/
theorem tracks_level {n m : Nat} (h : n ≤ m) : (Inner.level n).Tracks e (Inner.level m) := by
  induction n generalizing m with
  | zero =>
    exact ⟨echoes_endless _, echoes_endless _, echoes_endless _, echoes_endless _, echoes_endless _⟩
  | succ n ih =>
    obtain ⟨m, rfl⟩ : ∃ k, m = k + 1 := ⟨m - 1, by omega⟩
    have ih := ih (Nat.le_of_succ_le_succ h)
    exact ⟨tracks_expressionOf ih, tracks_negationExpr ih, tracks_unaryExpr ih, tracks_queryOf ih,
      tracks_relationOf ih⟩

theorem firm_within {α : Type} {rule : Inner → Parse α}
    (h : ∀ inner inner' : Inner, inner.Tracks e inner' → Tracks e u (rule inner) (rule inner')) :
    Firm e u (within rule) := by
  intro pos hat
  have hrule := h _ _ (tracks_level (Nat.add_le_add_right (e.remaining_le pos) 1)) pos hat
  unfold EchoesAt at hrule ⊢
  rw [within_apply, within_apply]
  exact hrule

theorem firm_expression : Firm e u expression := firm_within fun _ _ h => h.expression

theorem firm_query : Firm e u query := firm_within fun _ _ h => h.query

theorem firm_relation : Firm e u relation := firm_within fun _ _ h => h.relation

end Grammar

end SqlTidy
