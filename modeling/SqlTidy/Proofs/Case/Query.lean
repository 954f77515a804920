import SqlTidy.Grammar.Nesting
import SqlTidy.Proofs.Case.Expr

/-!
# Queries do not see letter case

The rules of the `FROM` clause and of queries, and then all levels of nesting by induction
(`blind_level`): what holds of the rules one level further in has just been shown to hold here.
-/

namespace SqlTidy

open Text Parse

namespace Grammar

/-! ## The `FROM` clause -/

theorem mirrors_tableAlias : Mirrors (Option.map TableAlias.foldCase) tableAlias tableAlias :=
  (steady_acceptWord _).andThen fun _ => steady_mayBeAlias.andThen fun _ => .ite (.pure rfl) <|
    mirrors_identifier.bind fun _ => mirrors_optionalIdentifierList.map fun _ => rfl

theorem mirrors_lateralColumns (explicitAs : Bool) :
    Mirrors (List.map Ident.foldCase) (lateralColumns explicitAs) (lateralColumns explicitAs) :=
  .ite mirrors_identifier.commaSeparated
    (.maybeList steady_mayBeAlias mirrors_identifier.commaSeparated)

theorem mirrors_pivotColumns : Mirrors (List.map DottedName.foldCase) pivotColumns pivotColumns :=
  (steady_accept _).andThen fun _ => .ite
    (mirrors_dottedName.commaSeparated.bind fun _ => (steady_expect _).andThen fun _ => .pure rfl)
    (mirrors_dottedName.map fun _ => rfl)

theorem steady_isPivot : Steady isPivot :=
  (steady_isWord _).andThen fun _ => .ite (steady_peekSymbol _ _) (.pure rfl)

section

variable {inner : Inner} (h : inner.Blind)

include h

theorem blind_bucketSample : Blind (bucketSample inner) :=
  steady_number.andThen fun _ => (steady_expectWords _).andThen fun _ =>
    steady_number.andThen fun _ => (Mirrors.maybe (steady_acceptWord _) h.expression).bind fun _ =>
      .pure (by rw [← Tree.foldCase_ofOption]; rfl)

theorem blind_amountSample : Blind (amountSample inner) :=
  h.expression.bind fun _ => (steady_acceptWord _).andThen fun _ => .ite (.pure rfl) <|
    (steady_acceptWord _).andThen fun _ => .ite (.pure rfl) (mirrors_expected _)

theorem mirrors_tableSample :
    Mirrors (Option.map Tree.foldCase) (tableSample inner) (tableSample inner) := by
  refine .maybe (steady_acceptWord _) ((steady_expect _).andThen fun _ => ?_)
  refine Mirrors.bind (f := Tree.foldCase) ?_ fun _ => (steady_expect _).andThen fun _ => .pure rfl
  exact (steady_acceptWord _).andThen fun _ => .ite (blind_bucketSample h) (blind_amountSample h)

theorem mirrors_valuesRows :
    Mirrors (List.map Tree.foldCase) (valuesRows inner) (valuesRows inner) :=
  (steady_expectWord _).andThen fun _ => mirrors_expressions h

theorem blind_parenFactor : Blind (parenFactor inner) := by
  refine steady_isQueryStart.andThen fun _ => .ite ?_ ?_
  · exact h.query.bind fun _ => (steady_expect _).andThen fun _ => (mirrors_tableSample h).bind fun _ =>
      mirrors_tableAlias.bind fun _ => .pure (by rw [← Tree.foldCase_ofOption]; rfl)
  · exact h.relation.bind fun _ => (steady_expect _).andThen fun _ =>
      mirrors_tableAlias.map fun _ => rfl

theorem blind_namedFactor : Blind (namedFactor inner) := by
  refine mirrors_dottedName.bind fun _ => (steady_accept _).andThen fun _ => .ite ?_ ?_
  · exact (mirrors_callArgsBeforeParen h).bind fun _ => (steady_expect _).andThen fun _ =>
      mirrors_tableAlias.bind fun _ => .pure (by rw [← Tree.foldCase_ofList]; rfl)
  · exact (mirrors_tableSample h).bind fun _ => mirrors_tableAlias.bind fun _ =>
      .pure (by rw [← Tree.foldCase_ofOption]; rfl)

theorem blind_tableFactor : Blind (tableFactor inner) := by
  refine (steady_accept _).andThen fun _ => .ite (blind_parenFactor h) ?_
  refine (steady_isWord _).andThen fun _ => .ite ?_ (blind_namedFactor h)
  exact (mirrors_valuesRows h).bind fun _ => mirrors_tableAlias.bind fun _ =>
    .pure (by rw [← Tree.foldCase_ofList]; rfl)

theorem mirrors_joinConstraint :
    Mirrors (Option.map Tree.foldCase) (joinConstraint inner) (joinConstraint inner) :=
  (steady_acceptWord _).andThen fun _ => .ite (h.expression.map fun _ => rfl) <|
    (steady_acceptWord _).andThen fun _ => .ite (mirrors_identifierList.map fun _ => rfl)
      (.pure rfl)

theorem mirrors_join : Mirrors (Option.map Tree.foldCase) (join inner) (join inner) := by
  refine (steady_acceptWord _).andThen fun _ => (steady_choose _).andThen fun kind => ?_
  cases kind with
  | none => exact .ite (mirrors_expected _) (.pure rfl)
  | some kind =>
    exact (blind_tableFactor h).bind fun _ => (mirrors_joinConstraint h).bind fun _ =>
      .pure (by rw [← Tree.foldCase_ofOption]; rfl)

theorem blind_relationOf : Blind (relationOf inner) :=
  (blind_tableFactor h).bind fun _ => (mirrors_join h).many.bind fun _ =>
    .pure (by rw [← Tree.foldCase_ofList]; rfl)

theorem blind_lateralView : Blind (lateralView inner) := by
  refine (steady_expectWords _).andThen fun _ => (steady_acceptWord _).andThen fun _ => ?_
  refine mirrors_dottedName.bind fun _ => (steady_expect _).andThen fun _ => ?_
  refine (mirrors_expressionsBeforeParen h).bind fun _ => (steady_expect _).andThen fun _ => ?_
  refine (Mirrors.maybe steady_mayBeAlias mirrors_identifier).bind fun _ => ?_
  refine (steady_acceptWord _).andThen fun _ => (mirrors_lateralColumns _).bind fun _ => ?_
  exact .pure (by rw [← Tree.foldCase_ofList]; rfl)

theorem blind_pivot : Blind (pivot inner) := by
  refine (steady_expectWord _).andThen fun _ => (steady_expect _).andThen fun _ => ?_
  refine (mirrors_selectItems h).bind fun _ => (steady_expectWord _).andThen fun _ => ?_
  refine mirrors_pivotColumns.bind fun _ => (steady_expectWord _).andThen fun _ => ?_
  refine (steady_expect _).andThen fun _ => (mirrors_selectItems h).bind fun _ => ?_
  exact (steady_expect _).andThen fun _ => (steady_expect _).andThen fun _ =>
    .pure (by simp only [← Tree.foldCase_ofList]; rfl)

theorem blind_fromClause : Blind (fromClause inner) := by
  refine (steady_expectWord _).andThen fun _ => (blind_relationOf h).commaSeparated.bind fun _ => ?_
  refine (Mirrors.many (.maybe (steady_isWords _) (blind_lateralView h))).bind fun _ => ?_
  exact (Mirrors.maybe steady_isPivot (blind_pivot h)).bind fun _ =>
    .pure (by simp only [← Tree.foldCase_ofList, ← Tree.foldCase_ofOption]; rfl)

/-! ## `GROUP BY` -/

theorem mirrors_groupingSet :
    Mirrors (Option.map (List.map Tree.foldCase)) (groupingSet inner) (groupingSet inner) := by
  refine .rewinding ((steady_expect _).andThen fun _ => (steady_accept _).andThen fun _ => ?_)
  refine .ite (.pure rfl) ((mirrors_expressions h).bind fun _ => (steady_accept _).andThen fun _ => ?_)
  exact (steady_isSymbol _).andThen fun _ => (steady_isSymbol _).andThen fun _ =>
    .ite (.pure rfl) (.pure rfl)

theorem blind_groupingElement : Blind (groupingElement inner) := by
  refine (steady_isSymbol _).andThen fun _ => steady_isQueryStart.andThen fun _ => ?_
  refine .ite ((mirrors_groupingSet h).bind fun members => ?_) (h.expression.map fun _ => rfl)
  cases members with
  | none => exact h.expression.map fun _ => rfl
  | some members => exact .pure (by rw [← Tree.foldCase_ofList]; rfl)

omit h in
theorem steady_groupingKind : Steady groupingKind :=
  (steady_acceptWords _).andThen fun _ => .ite (.pure rfl) <|
    (steady_peekSymbol _ _).andThen fun _ => .ite (.pure rfl) (steady_choose _)

theorem blind_groupingItem : Blind (groupingItem inner) := by
  refine steady_groupingKind.andThen fun kind => ?_
  cases kind with
  | none => exact h.expression.map fun _ => rfl
  | some kind =>
    exact (steady_expect _).andThen fun _ => (blind_groupingElement h).commaSeparated.bind fun _ =>
      (steady_expect _).andThen fun _ => .pure (by rw [← Tree.foldCase_ofList]; rfl)

theorem blind_groupBy : Blind (groupBy inner) :=
  (blind_groupingItem h).commaSeparated.bind fun _ => (steady_choose _).andThen fun _ =>
    .pure (by rw [← Tree.foldCase_ofList]; rfl)

/-! ## `SELECT` -/

theorem mirrors_hintArgs :
    Mirrors (Option.map (List.map Tree.foldCase)) (hintArgs inner) (hintArgs inner) :=
  .maybe (steady_accept _) <| (mirrors_expressionsBeforeParen h).bind fun _ =>
    (steady_expect _).andThen fun _ => .pure rfl

theorem blind_hintFunction : Blind (hintFunction inner) := by
  refine mirrors_identifier.bind fun _ => (mirrors_hintArgs h).bind fun args => .pure ?_
  cases args with
  | none => rfl
  | some args => exact congrArg (fun es => Tree.hintFunction _ (.some es)) (Tree.foldCase_ofList args).symm

theorem mirrors_nextHintFunction :
    Mirrors (Option.map Tree.foldCase) (nextHintFunction inner) (nextHintFunction inner) :=
  .maybe (steady_not (steady_isSymbol _)) <| (steady_accept _).andThen fun _ => blind_hintFunction h

theorem mirrors_hintFunctions :
    Mirrors (List.map Tree.foldCase) (hintFunctions inner) (hintFunctions inner) :=
  (steady_isSymbol _).andThen fun _ => .ite (.pure rfl) <| (blind_hintFunction h).bind fun _ =>
    (mirrors_nextHintFunction h).many.map fun _ => rfl

theorem mirrors_hint : Mirrors (Option.map Tree.foldCase) (hint inner) (hint inner) :=
  .maybe (steady_accept _) <| (mirrors_hintFunctions h).bind fun _ =>
    (steady_expect _).andThen fun _ => .pure (by rw [← Tree.foldCase_ofList]; rfl)

theorem blind_namedWindow : Blind (namedWindow inner) :=
  mirrors_identifier.bind fun _ => (steady_expectWord _).andThen fun _ =>
    (blind_window h).map fun _ => rfl

theorem blind_select (allowFrom : Bool) : Blind (select inner allowFrom) := by
  refine (steady_expectWord _).andThen fun _ => (mirrors_hint h).many.bind fun _ => ?_
  refine (steady_choose _).andThen fun _ => (mirrors_selectItems h).bind fun _ => ?_
  have hfrom : Steady (do return allowFrom && (← isWord "FROM")) :=
    (steady_isWord _).andThen fun _ => .pure rfl
  refine (Mirrors.maybe hfrom (blind_fromClause h)).bind fun _ => ?_
  refine (Mirrors.maybe (steady_acceptWord _) h.expression).bind fun _ => ?_
  refine (Mirrors.maybe (steady_acceptWords _) (blind_groupBy h)).bind fun _ => ?_
  refine (Mirrors.maybe (steady_acceptWord _) h.expression).bind fun _ => ?_
  refine (Mirrors.maybeList (steady_acceptWord _) (blind_namedWindow h).commaSeparated).bind fun _ => ?_
  exact .pure (by simp only [← Tree.foldCase_ofList, ← Tree.foldCase_ofOption]; rfl)

/-! ## Bodies and queries -/

theorem blind_limitOf : Blind (limitOf inner) :=
  (steady_acceptWord _).andThen fun _ => .ite (.pure rfl) (h.expression.map fun _ => rfl)

theorem blind_organization : Blind (organization inner) := by
  refine (Mirrors.maybeList (steady_acceptWords _) (mirrors_orderItems h)).bind fun _ => ?_
  refine (Mirrors.maybeList (steady_acceptWords _) (mirrors_expressions h)).bind fun _ => ?_
  refine (Mirrors.maybeList (steady_acceptWords _) (mirrors_expressions h)).bind fun _ => ?_
  refine (Mirrors.maybeList (steady_acceptWords _) (mirrors_orderItems h)).bind fun _ => ?_
  refine (Mirrors.maybe (steady_acceptWord _) (blind_limitOf h)).bind fun _ => ?_
  refine (Mirrors.maybe (steady_acceptWord _) h.expression).bind fun _ => ?_
  exact .pure (by simp only [← Tree.foldCase_ofList, ← Tree.foldCase_ofOption]; rfl)

theorem mirrors_fromBody : Mirrors (Option.map Tree.foldCase) (fromBody inner) (fromBody inner) :=
  .maybe (steady_isWord _) <| (blind_select h false).bind fun _ =>
    (blind_organization h).map fun _ => rfl

theorem mirrors_fromBodies (source : FromClause) :
    Mirrors Tree.foldCase (fromBodies inner source) (fromBodies inner source.foldCase) := by
  refine (mirrors_fromBody h).many.bind fun bodies => ?_
  rw [List.isEmpty_map]
  exact .ite (mirrors_expected _) (.pure (by rw [← Tree.foldCase_ofList]; rfl))

theorem blind_bodyPrimary : Blind (bodyPrimary inner) := by
  refine (steady_isWord _).andThen fun _ => .ite ((blind_select h true).map fun _ => rfl) ?_
  refine (steady_isWord _).andThen fun _ => .ite ?_ ((steady_acceptWord _).andThen fun _ => ?_)
  · exact (mirrors_valuesRows h).bind fun _ => mirrors_tableAlias.bind fun _ =>
      .pure (by rw [← Tree.foldCase_ofList]; rfl)
  refine .ite (mirrors_dottedName.map fun _ => rfl) ((steady_isWord _).andThen fun _ => ?_)
  refine .ite ((blind_fromClause h).bind fun _ => mirrors_fromBodies h _) ?_
  refine (steady_accept _).andThen fun _ => .ite ?_ (mirrors_expected _)
  exact h.query.bind fun _ => (steady_expect _).andThen fun _ => .pure rfl

omit h in
theorem blind_setChain {operators : List (List String × SetOp)} {operand : Parse QueryBody}
    (h : operand.Blind) : Blind (setChain operators operand) := by
  refine h.bind fun first => .iterate (fun left => (steady_choose _).andThen fun op => ?_) first
  cases op with
  | none => exact .pure rfl
  | some op => exact (steady_choose _).andThen fun _ => h.map fun _ => rfl

theorem blind_queryBody : Blind (queryBody inner) :=
  blind_setChain (blind_setChain (blind_bodyPrimary h))

theorem blind_commonTable : Blind (commonTable inner) :=
  mirrors_identifier.bind fun _ => mirrors_optionalIdentifierList.bind fun _ =>
    (steady_acceptWord _).andThen fun _ => (steady_expect _).andThen fun _ => h.query.bind fun _ =>
      (steady_expect _).andThen fun _ => .pure rfl

theorem blind_withClause : Blind (withClause inner) :=
  (steady_expectWord _).andThen fun _ => (blind_commonTable h).commaSeparated.map fun _ => by
    rw [← Tree.foldCase_ofList]
    rfl

theorem mirrors_queryAfterWith (tables : Option WithClause) :
    Mirrors Tree.foldCase (queryAfterWith inner tables)
      (queryAfterWith inner (tables.map Tree.foldCase)) :=
  (blind_queryBody h).bind fun _ => (blind_organization h).bind fun _ =>
    .pure (by rw [← Tree.foldCase_ofOption]; rfl)

theorem blind_queryOf : Blind (queryOf inner) :=
  (Mirrors.maybe (steady_isWord _) (blind_withClause h)).bind fun tables =>
    mirrors_queryAfterWith h tables

end

/-! ## All levels -/

theorem blind_level (n : Nat) : (Inner.level n).Blind := by
  induction n with
  | zero =>
    exact ⟨mirrors_fail rfl, mirrors_fail rfl, mirrors_fail rfl, mirrors_fail rfl,
      mirrors_fail rfl⟩
  | succ n ih =>
    exact ⟨blind_expressionOf ih, blind_negationExpr ih, blind_unaryExpr ih, blind_queryOf ih,
      blind_relationOf ih⟩

theorem mirrors_within {α β : Type} {f : α → β} {rule : Inner → Parse α}
    {rule' : Inner → Parse β} (h : ∀ inner : Inner, inner.Blind → Mirrors f (rule inner) (rule' inner)) :
    Mirrors f (within rule) (within rule') := by
  intro i hi pos
  simp only [within, Input.remaining_foldCase]
  exact h _ (blind_level _) hi pos

theorem blind_expression : Blind expression := mirrors_within fun _ h => h.expression

theorem blind_query : Blind query := mirrors_within fun _ h => h.query

end Grammar

end SqlTidy
