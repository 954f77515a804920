import SqlTidy.Proofs.Walk.Expr

/-!
# Queries walk

The rules of the `FROM` clause and of queries, and with them all levels of the grammar.

**Theorem (`Inner.walks_level`).** The rules for `n` levels of nesting are good for positions with fewer than
`n` tokens left. A level is entered only behind a token that has been taken, so by induction over the levels
none of the rules is ever asked for a level that is not there.
-/

namespace SqlTidy

open Parse

namespace Grammar

variable {n : Nat} {inner : Inner} (h : inner.Walks n)

include h

/-! ## Table factors -/

omit h in
theorem passes_tableAlias : Passes n [] tableAlias :=
  .bind (tests_acceptWord _) fun _ => .look looks_mayBeAlias fun _ => .ite (.done _)
    (.bind takes_identifier fun _ => .mapPasses passes_optionalIdentifierList)

theorem passes_bucketSample : Passes n [] (bucketSample inner) :=
  .bind takes_number fun _ => .bind (passes_expectWords _) fun _ => .bind takes_number fun _ =>
    .mapPasses (steps_maybe (tests_acceptWord _) h.expression.passes).passes

theorem passes_amountSample : Passes n [] (amountSample inner) :=
  .bind h.expression fun _ => .ifTake (tests_acceptWord _) (.done _)
    (.ifTake (tests_acceptWord _) (.done _) (walks_expected _))

theorem steps_tableSample : Steps n [] (tableSample inner) := by
  have hsample : Passes n [] (do
      if ← acceptWord "BUCKET" then bucketSample inner else amountSample inner : Parse Sample) :=
    .ifTake (tests_acceptWord _) (passes_bucketSample h) (passes_amountSample h)
  exact steps_maybe (tests_acceptWord _) <| .expect rfl <| .bind hsample fun _ => .expect rfl (.done _)

theorem takes_valuesRows : Takes (n + 1) [] (valuesRows inner) :=
  .first (takes_expectWord _) fun _ => (takes_expressions h).passes

/-- Behind the opening parenthesis. -/
theorem passes_parenFactor : Passes n [.rparen] (parenFactor inner) := by
  refine .look looks_isQueryStart fun _ => .ite ?_ ?_
  · exact .bind h.query fun _ => .expect rfl <| .bind (steps_tableSample h) fun _ =>
      .mapPasses passes_tableAlias
  · exact .bind h.relation fun _ => .expect rfl (.mapPasses passes_tableAlias)

theorem takes_namedFactor : Takes (n + 1) [] (namedFactor inner) := by
  refine .first takes_dottedName fun _ => .accept rfl ?_ ?_
  · exact .bind (passes_callArgsBeforeParen h) fun _ => .expect rfl (.mapPasses passes_tableAlias)
  · exact .bind (steps_tableSample h) fun _ => .mapPasses passes_tableAlias

theorem takes_tableFactor : Takes (n + 1) [] (tableFactor inner) := by
  refine .acceptFirst rfl (passes_parenFactor h) <| .look (.isWord _) fun _ => .ite ?_ ?_
  · exact .first (takes_valuesRows h) fun _ => .mapPasses passes_tableAlias
  · exact takes_namedFactor h

/-! ## Joins -/

theorem steps_joinConstraint : Steps n [] (joinConstraint inner) :=
  .ifTake (tests_acceptWord _) (.map h.expression)
    (.ifTake (tests_acceptWord _) (.map takes_identifierList) .decline)

theorem steps_join : Steps n [] (join inner) := by
  refine .bind (tests_acceptWord _) fun _ => .matchTake (steps_choose rfl) (fun _ => ?_) ?_
  · exact .bind (takes_tableFactor h).mono fun _ => .mapPasses (steps_joinConstraint h).passes
  · exact .ite (walks_expected _) .decline

theorem takes_relationOf : Takes (n + 1) [] (relationOf inner) :=
  .first (takes_tableFactor h) fun _ => .mapPasses (passes_many (steps_join h))

/-! ## Lateral views and pivots -/

omit h in
theorem passes_lateralColumns (explicitAs : Bool) : Passes n [] (lateralColumns explicitAs) :=
  .ite (takes_commaSeparated takes_identifier).passes
    (passes_maybeList looks_mayBeAlias.passes (takes_commaSeparated takes_identifier).passes)

theorem takes_lateralView : Takes n [] (lateralView inner) := by
  refine .take (takes_expectWords _ _) fun _ => .bind (tests_acceptWord _) fun _ => ?_
  refine .bind takes_dottedName fun _ => .expect rfl <| .bind (passes_expressionsBeforeParen h) fun _ => ?_
  refine .expect rfl <| .bind (steps_maybeIf looks_mayBeAlias.passes takes_identifier) fun _ => ?_
  exact .bind (tests_acceptWord _) fun _ => .mapPasses (passes_lateralColumns _)

omit h in
theorem takes_pivotColumns : Takes n [] pivotColumns :=
  .accept rfl (.bind (takes_commaSeparated takes_dottedName) fun _ => .expect rfl (.done _))
    (.map takes_dottedName)

theorem takes_pivot : Takes n [] (pivot inner) := by
  refine .take (takes_expectWord _) fun _ => .expect rfl <| .bind (takes_selectItems h) fun _ => ?_
  refine .bind (takes_expectWord _) fun _ => .bind takes_pivotColumns fun _ => ?_
  refine .bind (takes_expectWord _) fun _ => .expect rfl <| .bind (takes_selectItems h) fun _ => ?_
  exact .expect rfl (.expect rfl (.done _))

omit h in
theorem looks_isPivot : Looks isPivot :=
  .bind (.isWord _) fun _ => .ite (.peekSymbol _ _) (.pure _)

theorem takes_fromClause : Takes (n + 1) [] (fromClause inner) := by
  refine .first (takes_expectWord _) fun _ => ?_
  refine .bind (takes_commaSeparated (takes_relationOf h).mono) fun _ => ?_
  refine .bind (passes_many (steps_maybeIf (Looks.isWords _).passes (takes_lateralView h))) fun _ => ?_
  exact .mapPasses (steps_maybeIf looks_isPivot.passes (takes_pivot h)).passes

/-! ## `GROUP BY` -/

/-- Whether the parenthesis has been closed shows only in the test behind it. -/
theorem steps_groupingSet : Steps n [] (groupingSet inner) := by
  have hend (members : List Expr) (closed : Bool) (s : List Symbol) (hs : closed = true → s = []) :
      Walks n (fun _ => False) (fun a => a.isSome = true) s (do
        if closed && ((← isSymbol .comma) || (← isSymbol .rparen)) then
          return some members
        else
          return none : Parse (Option (List Expr))) := by
    refine .look (.isSymbol _) fun _ => .look (.isSymbol _) fun _ i pos hpos => ?_
    refine .ite (fun hboth => ?_) fun _ => .of hpos (.abandon id)
    rw [Bool.and_eq_true] at hboth
    exact .pure hpos.le_last id fun _ => hs hboth.1
  refine steps_rewinding <| .expect rfl <| .accept rfl (.done _) ?_
  refine .bind (takes_expressions h) fun members => ?_
  exact .acceptThen (Nat.le_succ n) rfl (hend members true [] fun _ => rfl) (hend members false _ nofun)

theorem takes_groupingElement : Takes n [] (groupingElement inner) :=
  .look (.isSymbol _) fun _ => .look looks_isQueryStart fun _ => .ite
    (.matchTake (steps_groupingSet h) (fun _ => .done _) (.map h.expression)) (.map h.expression)

omit h in
theorem steps_groupingKind : Steps n [] groupingKind :=
  .ifTake (tests_acceptWords rfl) (.done _) <| .look (.peekSymbol _ _) fun _ =>
    .ite .decline (steps_choose rfl)

theorem takes_groupingItem : Takes n [] (groupingItem inner) := by
  refine .matchTake steps_groupingKind (fun _ => ?_) (.map h.expression)
  exact .expect rfl <| .bind (takes_commaSeparated (takes_groupingElement h)) fun _ =>
    .expect rfl (.done _)

theorem takes_groupBy : Takes n [] (groupBy inner) :=
  .take (takes_commaSeparated (takes_groupingItem h)) fun _ => .mapPasses (steps_choose rfl).passes

/-! ## `SELECT` -/

theorem steps_hintArgs : Steps n [] (hintArgs inner) :=
  steps_maybeOpen rfl <| .bind (passes_expressionsBeforeParen h) fun _ => .expect rfl (.done _)

theorem takes_hintFunction : Takes n [] (hintFunction inner) :=
  .take takes_identifier fun _ => .mapPasses (steps_hintArgs h).passes

theorem steps_nextHintFunction : Steps n [] (nextHintFunction inner) :=
  steps_maybeIf (Looks.isSymbol _).not.passes <| .bind (tests_accept rfl) fun _ =>
    takes_hintFunction h

theorem passes_hintFunctions : Passes n [] (hintFunctions inner) :=
  .look (.isSymbol _) fun _ => .ite (.done _) <| .bind (takes_hintFunction h) fun _ =>
    .mapPasses (passes_many (steps_nextHintFunction h))

theorem steps_hint : Steps n [] (hint inner) :=
  steps_maybe (tests_accept rfl) <| .bind (passes_hintFunctions h) fun _ => .expect rfl (.done _)

theorem takes_namedWindow : Takes n [] (namedWindow inner) :=
  .take takes_identifier fun _ => .bind (takes_expectWord _) fun _ => .map (takes_window h).mono

theorem takes_select (allowFrom : Bool) : Takes (n + 1) [] (select inner allowFrom) := by
  have hfrom : Looks (do return allowFrom && (← isWord "FROM") : Parse Bool) :=
    .bind (.isWord _) fun _ => .pure _
  refine .first (takes_expectWord _) fun _ => .bind (passes_many (steps_hint h)) fun _ => ?_
  refine .bind (steps_choose rfl) fun _ => .bind (takes_selectItems h) fun _ => ?_
  refine .bind (steps_maybeIf hfrom.passes (takes_fromClause h).mono) fun _ => ?_
  refine .bind (steps_maybe (tests_acceptWord _) h.expression.passes) fun _ => ?_
  refine .bind (steps_maybe (tests_acceptWords rfl) (takes_groupBy h).passes) fun _ => ?_
  refine .bind (steps_maybe (tests_acceptWord _) h.expression.passes) fun _ => .mapPasses ?_
  exact passes_maybeList (tests_acceptWord _) (takes_commaSeparated (takes_namedWindow h)).passes

/-! ## The clauses after a body -/

theorem passes_limitOf : Passes n [] (limitOf inner) :=
  .ifTake (tests_acceptWord _) (.done _) (.map h.expression)

theorem passes_organization : Passes n [] (organization inner) := by
  have horder := (takes_orderItems h).passes
  have hlist := (takes_expressions h).passes
  refine .bind (passes_maybeList (tests_acceptWords rfl) horder) fun _ => ?_
  refine .bind (passes_maybeList (tests_acceptWords rfl) hlist) fun _ => ?_
  refine .bind (passes_maybeList (tests_acceptWords rfl) hlist) fun _ => ?_
  refine .bind (passes_maybeList (tests_acceptWords rfl) horder) fun _ => ?_
  refine .bind (steps_maybe (tests_acceptWord _) (passes_limitOf h)) fun _ => .mapPasses ?_
  exact (steps_maybe (tests_acceptWord _) h.expression.passes).passes

/-! ## Bodies -/

theorem steps_fromBody : Steps n [] (fromBody inner) :=
  steps_maybeIf (Looks.isWord _).passes <| .take (takes_select h _).mono fun _ =>
    .mapPasses (passes_organization h)

theorem passes_fromBodies (source : FromClause) : Passes n [] (fromBodies inner source) :=
  .bind (passes_many (steps_fromBody h)) fun _ => .ite (walks_expected _) (.done _)

theorem takes_bodyPrimary : Takes (n + 1) [] (bodyPrimary inner) := by
  refine .look (.isWord _) fun _ => .ite (.map (takes_select h _)) ?_
  refine .look (.isWord _) fun _ => .ite ?_ (.ifFirst (tests_acceptWord _) (.map takes_dottedName) ?_)
  · exact .first (takes_valuesRows h) fun _ => .mapPasses passes_tableAlias
  · refine .look (.isWord _) fun _ => .ite (.first (takes_fromClause h) (passes_fromBodies h)) ?_
    exact .acceptFirst rfl (.bind h.query fun _ => .expect rfl (.done _)) (walks_expected _)

omit h in
theorem takes_setChain {operators : List (List String × SetOp)} {operand : Parse QueryBody}
    (hop : phrasesTake operators = true) (hoperand : Takes n [] operand) :
    Takes n [] (setChain operators operand) := by
  refine .take hoperand fun first => passes_iterate (fun left => ?_) first
  exact .matchTake (steps_choose hop) (fun _ => .bind (steps_choose rfl) fun _ => .map hoperand) .decline

theorem takes_queryBody : Takes (n + 1) [] (queryBody inner) :=
  takes_setChain rfl (takes_setChain rfl (takes_bodyPrimary h))

/-! ## Queries -/

theorem takes_commonTable : Takes n [] (commonTable inner) :=
  .take takes_identifier fun _ => .bind passes_optionalIdentifierList fun _ =>
    .bind (tests_acceptWord _) fun _ => .expect rfl <| .bind h.query fun _ => .expect rfl (.done _)

theorem takes_withClause : Takes (n + 1) [] (withClause inner) :=
  .first (takes_expectWord _) fun _ => .map (takes_commaSeparated (takes_commonTable h))

theorem takes_queryAfterWith (tables : Option WithClause) :
    Takes (n + 1) [] (queryAfterWith inner tables) :=
  .first (takes_queryBody h) fun _ => .mapPasses (passes_organization h)

theorem takes_queryOf : Takes (n + 1) [] (queryOf inner) :=
  .bind (steps_maybeIf (Looks.isWord _).passes (takes_withClause h)) fun tables =>
    takes_queryAfterWith h tables

end Grammar

open Grammar

/-! ## All levels -/

/-- The rules for `n` levels are good for fewer than `n` tokens. -/
theorem Inner.walks_level (n : Nat) : (Inner.level n).Walks n := by
  induction n with
  | zero =>
    have hnone {α : Type} (p : Parse α) : Takes 0 [] p :=
      fun _ _ hpos => absurd hpos.lt (Nat.not_lt_zero _)
    exact ⟨hnone _, hnone _, hnone _, hnone _, hnone _⟩
  | succ n ih =>
    exact ⟨takes_expressionOf ih, takes_negationExpr ih, takes_unaryExpr ih, takes_queryOf ih,
      takes_relationOf ih⟩

namespace Grammar

variable {n : Nat}

/-- There are more levels than tokens. -/
theorem walks_within {α : Type} {advances closes : α → Prop} {s : List Symbol}
    {rule : Inner → Parse α}
    (h : ∀ (m : Nat) (inner : Inner), inner.Walks m → Walks m advances closes s (rule inner)) :
    Walks n advances closes s (within rule) := by
  intro i pos hpos
  have hlevel := h (i.remaining pos + 1) _ (Inner.walks_level _) i pos
    ⟨hpos.capped, hpos.le_last, by rw [hpos.capped.remaining_eq hpos.le_last]; omega⟩
  exact hlevel.congr rfl

theorem takes_expression : Takes n [] expression := walks_within fun _ _ h => h.expression

theorem takes_query : Takes n [] query := walks_within fun _ _ h => h.query

theorem takes_relation : Takes n [] relation := walks_within fun _ _ h => h.relation

end Grammar

end SqlTidy
