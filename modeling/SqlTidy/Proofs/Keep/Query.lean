import SqlTidy.Grammar.Nesting
import SqlTidy.Proofs.Keep.Expr

/-!
# Queries keep their literals

The rules of relations and queries, and with them the induction over the levels of nesting: the rules of
level 0 fail, and those of the next level keep literals if those of the level before do. So the rules of
every level keep literals (`Inner.keeping_level`), and with them `expression`, `query` and `relation`.
-/

namespace SqlTidy

open Parse

namespace Grammar

variable {lost : Input → Nat → Prop} {inner : Inner} (h : inner.Keeping lost)

include h

/-! ## Table factors -/

omit h in
theorem keeps_tableAlias : Keeps lost [] tableAlias :=
  .step (.acceptWord _) fun _ => .step quiet_mayBeAlias fun _ => .ite (.empty _) <|
    .bind keeps_identifier fun _ => .bind keeps_optionalIdentifierList fun _ => .wrap rfl

theorem keeps_bucketSample : Keeps lost [] (bucketSample inner) :=
  .bind keeps_number fun _ => .step (.expectWords _) fun _ => .bind keeps_number fun _ =>
    .bind (keeps_maybe (.acceptWord _) h.expression) fun _ => .build rfl (by simp)

theorem keeps_amountSample : Keeps lost [] (amountSample inner) :=
  .bind h.expression fun _ => .step (.acceptWord _) fun _ => .ite (.wrap rfl) <|
    .step (.acceptWord _) fun _ => .ite (.wrap rfl) (saves_expected _)

theorem keeps_tableSample : Keeps lost [] (tableSample inner) := by
  refine keeps_maybe (.acceptWord _) (.step (.expect _) fun _ => .bind ?_ fun _ =>
    .step (.expect _) fun _ => .wrap rfl)
  exact .step (.acceptWord _) fun _ => .ite (keeps_bucketSample h) (keeps_amountSample h)

theorem keeps_valuesRows : Keeps lost [] (valuesRows inner) :=
  .step (.expectWord _) fun _ => keeps_expressions h

theorem keeps_parenFactor : Keeps lost [] (parenFactor inner) := by
  refine .step quiet_isQueryStart fun _ => .ite ?_ ?_
  · exact .bind h.query fun _ => .step (.expect _) fun _ => .bind (keeps_tableSample h) fun _ =>
      .bind keeps_tableAlias fun _ => .build rfl (by simp)
  · exact .bind h.relation fun _ => .step (.expect _) fun _ => .bind keeps_tableAlias fun _ =>
      .build rfl (by simp)

theorem keeps_namedFactor : Keeps lost [] (namedFactor inner) := by
  refine .bind keeps_dottedName fun _ => .step (.accept _) fun _ => .ite ?_ ?_
  · exact .bind (keeps_callArgsBeforeParen h) fun _ => .step (.expect _) fun _ =>
      .bind keeps_tableAlias fun _ => .build rfl (by simp)
  · exact .bind (keeps_tableSample h) fun _ => .bind keeps_tableAlias fun _ => .build rfl (by simp)

theorem keeps_tableFactor : Keeps lost [] (tableFactor inner) := by
  refine .step (.accept _) fun _ => .ite (keeps_parenFactor h) (.step (.isWord _) fun _ => .ite ?_ ?_)
  · exact .bind (keeps_valuesRows h) fun _ => .bind keeps_tableAlias fun _ => .build rfl (by simp)
  · exact keeps_namedFactor h

/-! ## Joins, lateral views and pivots -/

theorem keeps_joinConstraint : Keeps lost [] (joinConstraint inner) :=
  .step (.acceptWord _) fun _ => .ite (.map h.expression fun _ => rfl) <|
    .step (.acceptWord _) fun _ => .ite (.map keeps_identifierList fun _ => rfl) (.empty _)

theorem keeps_join : Keeps lost [] (join inner) := by
  refine .step (.acceptWord _) fun natural => .step (.choose _) fun kind => ?_
  cases kind with
  | none => exact .ite (saves_expected _) (.empty _)
  | some kind =>
    refine .bind (keeps_tableFactor h) fun factor => .bind (keeps_joinConstraint h) fun constraint => ?_
    exact .buildSome rfl (by simp)

theorem keeps_relationOf : Keeps lost [] (relationOf inner) :=
  .bind (keeps_tableFactor h) fun _ => .bind (keeps_many (keeps_join h)) fun _ => .build rfl (by simp)

omit h in
theorem keeps_lateralColumns (explicitAs : Bool) : Keeps lost [] (lateralColumns explicitAs) :=
  .ite (keeps_commaSeparated keeps_identifier)
    (keeps_maybeList quiet_mayBeAlias (keeps_commaSeparated keeps_identifier))

theorem keeps_lateralView : Keeps lost [] (lateralView inner) := by
  refine .step (.expectWords _) fun _ => .step (.acceptWord _) fun _ => .bind keeps_dottedName fun _ => ?_
  refine .step (.expect _) fun _ => .bind (keeps_expressionsBeforeParen h) fun _ => ?_
  refine .step (.expect _) fun _ => .bind (keeps_maybe quiet_mayBeAlias keeps_identifier) fun _ => ?_
  exact .step (.acceptWord _) fun _ => .bind (keeps_lateralColumns _) fun _ => .build rfl (by simp)

omit h in
theorem keeps_pivotColumns : Keeps lost [] pivotColumns := by
  refine .step (.accept _) fun _ => .ite ?_ ?_
  · exact .bind (keeps_commaSeparated keeps_dottedName) fun _ => .step (.expect _) fun _ => .wrap rfl
  · exact .bind keeps_dottedName fun _ => .wrap (List.append_nil _)

theorem keeps_pivot : Keeps lost [] (pivot inner) := by
  refine .step (.expectWord _) fun _ => .step (.expect _) fun _ => .bind (keeps_selectItems h) fun _ => ?_
  refine .step (.expectWord _) fun _ => .bind keeps_pivotColumns fun _ => .step (.expectWord _) fun _ => ?_
  refine .step (.expect _) fun _ => .bind (keeps_selectItems h) fun _ => .step (.expect _) fun _ => ?_
  exact .step (.expect _) fun _ => .build rfl (by simp)

omit h in
theorem quiet_isPivot : Quiet isPivot :=
  .bind (.isWord _) fun _ => .ite (.peekSymbol _ _) (.pure _)

theorem keeps_fromClause : Keeps lost [] (fromClause inner) := by
  refine .step (.expectWord _) fun _ => .bind (keeps_commaSeparated (keeps_relationOf h)) fun _ => ?_
  refine .bind (keeps_many (keeps_maybe (.isWords _) (keeps_lateralView h))) fun _ => ?_
  exact .bind (keeps_maybe quiet_isPivot (keeps_pivot h)) fun _ => .build rfl (by simp)

/-! ## `GROUP BY` -/

/-- What looks like a set of expressions and is none is given back. -/
theorem keeps_groupingSet : Keeps lost [] (groupingSet inner) := by
  have hoffer (members : List Expr) : KeepsSome lost (stored members) (pure (some members)) := by
    refine .result fun _ _ hheld x hx => ?_
    cases hx
    exact hheld
  refine keeps_rewinding (.step (.expect _) fun _ => .step (.accept _) fun _ => .ite ?_ ?_)
  · exact hoffer []
  · refine .pass (keeps_expressions h) fun members => .step (.accept _) fun _ => ?_
    exact .step (.isSymbol _) fun _ => .step (.isSymbol _) fun _ => .ite (hoffer members) .decline

theorem keeps_groupingElement : Keeps lost [] (groupingElement inner) := by
  have hexpr : Keeps lost [] (do return .elementExpr (← inner.expression) : Parse GroupingElement) :=
    .map h.expression fun _ => rfl
  refine .step (.isSymbol _) fun _ => .step quiet_isQueryStart fun _ => .ite ?_ hexpr
  refine .bind (keeps_groupingSet h) fun members => ?_
  cases members with
  | none => exact hexpr
  | some members => exact .wrap (Tree.strings_ofList members)

omit h in
theorem quiet_groupingKind : Quiet groupingKind :=
  .bind (.acceptWords _) fun _ => .ite (.pure _) <| .bind (.peekSymbol _ _) fun _ =>
    .ite (.pure _) (.choose _)

theorem keeps_groupingItem : Keeps lost [] (groupingItem inner) := by
  refine .step quiet_groupingKind fun kind => ?_
  cases kind with
  | none => exact .map h.expression fun _ => rfl
  | some kind =>
    refine .step (.expect _) fun _ => .bind (keeps_commaSeparated (keeps_groupingElement h)) fun _ => ?_
    exact .step (.expect _) fun _ => .wrap (Tree.strings_ofList _)

theorem keeps_groupBy : Keeps lost [] (groupBy inner) :=
  .bind (keeps_commaSeparated (keeps_groupingItem h)) fun _ => .step (.choose _) fun _ =>
    .wrap (Tree.strings_ofList _)

/-! ## `SELECT` -/

theorem keeps_hintArgs : Keeps lost [] (hintArgs inner) :=
  keeps_maybe (.accept _) <| .bind (keeps_expressionsBeforeParen h) fun _ =>
    .step (.expect _) fun _ => .wrap rfl

theorem keeps_hintFunction : Keeps lost [] (hintFunction inner) := by
  refine .bind keeps_identifier fun name => .bind (keeps_hintArgs h) fun args => ?_
  cases args with
  | none => exact .build rfl (by simp)
  | some args => exact .build rfl (by simp)

theorem keeps_nextHintFunction : Keeps lost [] (nextHintFunction inner) :=
  keeps_maybe (.bind (.isSymbol _) fun _ => .pure _) <| .step (.accept _) fun _ => keeps_hintFunction h

theorem keeps_hintFunctions : Keeps lost [] (hintFunctions inner) :=
  .step (.isSymbol _) fun _ => .ite (.empty _) <| .bind (keeps_hintFunction h) fun _ =>
    .bind (keeps_many (keeps_nextHintFunction h)) fun _ => .wrap rfl

theorem keeps_hint : Keeps lost [] (hint inner) :=
  keeps_maybe (.accept _) <| .bind (keeps_hintFunctions h) fun _ => .step (.expect _) fun _ =>
    .wrap (Tree.strings_ofList _)

theorem keeps_namedWindow : Keeps lost [] (namedWindow inner) :=
  .bind keeps_identifier fun _ => .step (.expectWord _) fun _ => .bind (keeps_window h) fun _ =>
    .build rfl (by simp)

theorem keeps_select (allowFrom : Bool) : Keeps lost [] (select inner allowFrom) := by
  refine .step (.expectWord _) fun _ => .bind (keeps_many (keeps_hint h)) fun _ => ?_
  refine .step (.choose _) fun _ => .bind (keeps_selectItems h) fun _ => ?_
  refine .bind (keeps_maybe (.bind (.isWord _) fun _ => .pure _) (keeps_fromClause h)) fun _ => ?_
  refine .bind (keeps_maybe (.acceptWord _) h.expression) fun _ => ?_
  refine .bind (keeps_maybe (.acceptWords _) (keeps_groupBy h)) fun _ => ?_
  refine .bind (keeps_maybe (.acceptWord _) h.expression) fun _ => ?_
  refine .bind (keeps_maybeList (.acceptWord _) (keeps_commaSeparated (keeps_namedWindow h))) fun _ => ?_
  exact .build rfl (by simp)

theorem keeps_limitOf : Keeps lost [] (limitOf inner) :=
  .step (.acceptWord _) fun _ => .ite (.empty _) (.map h.expression fun _ => rfl)

theorem keeps_organization : Keeps lost [] (organization inner) := by
  refine .bind (keeps_maybeList (.acceptWords _) (keeps_orderItems h)) fun _ => ?_
  refine .bind (keeps_maybeList (.acceptWords _) (keeps_expressions h)) fun _ => ?_
  refine .bind (keeps_maybeList (.acceptWords _) (keeps_expressions h)) fun _ => ?_
  refine .bind (keeps_maybeList (.acceptWords _) (keeps_orderItems h)) fun _ => ?_
  refine .bind (keeps_maybe (.acceptWord _) (keeps_limitOf h)) fun _ => ?_
  exact .bind (keeps_maybe (.acceptWord _) h.expression) fun _ => .build rfl (by simp)

/-! ## Bodies and queries -/

theorem keeps_fromBody : Keeps lost [] (fromBody inner) :=
  keeps_maybe (.isWord _) <| .bind (keeps_select h false) fun _ => .bind (keeps_organization h) fun _ =>
    .build rfl (by simp)

theorem keeps_fromBodies (source : FromClause) :
    Keeps lost (stored source) (fromBodies inner source) :=
  .bind (keeps_many (keeps_fromBody h)) fun _ => .ite (saves_expected _) (.build rfl (by simp))

theorem keeps_bodyPrimary : Keeps lost [] (bodyPrimary inner) := by
  refine .step (.isWord _) fun _ => .ite (.map (keeps_select h true) fun _ => rfl) ?_
  refine .step (.isWord _) fun _ => .ite ?_ (.step (.acceptWord _) fun _ => .ite ?_ ?_)
  · exact .bind (keeps_valuesRows h) fun _ => .bind keeps_tableAlias fun _ => .build rfl (by simp)
  · exact .map keeps_dottedName fun _ => rfl
  refine .step (.isWord _) fun _ => .ite ?_ (.step (.accept _) fun _ => .ite ?_ (saves_expected _))
  · exact .pass (keeps_fromClause h) (keeps_fromBodies h)
  · exact .bind h.query fun _ => .step (.expect _) fun _ => .wrap rfl

omit h in
theorem keeps_setChain {operators : List (List String × SetOp)} {operand : Parse QueryBody}
    (hoperand : Keeps lost [] operand) : Keeps lost [] (setChain operators operand) := by
  refine .bind hoperand fun first => keeps_iterate (fun left => ?_) first
  refine .step (.choose _) fun op => ?_
  cases op with
  | none => exact .stop
  | some op => exact .step (.choose _) fun _ => .bind hoperand fun _ => .extend rfl (by simp)

theorem keeps_queryBody : Keeps lost [] (queryBody inner) :=
  keeps_setChain (keeps_setChain (keeps_bodyPrimary h))

theorem keeps_commonTable : Keeps lost [] (commonTable inner) := by
  refine .bind keeps_identifier fun _ => .bind keeps_optionalIdentifierList fun _ => ?_
  refine .step (.acceptWord _) fun _ => .step (.expect _) fun _ => .bind h.query fun _ => ?_
  exact .step (.expect _) fun _ => .build rfl (by simp)

theorem keeps_withClause : Keeps lost [] (withClause inner) :=
  .step (.expectWord _) fun _ => .bind (keeps_commaSeparated (keeps_commonTable h)) fun _ =>
    .wrap (Tree.strings_ofList _)

theorem keeps_queryAfterWith (tables : Option WithClause) :
    Keeps lost (stored tables) (queryAfterWith inner tables) :=
  .bind (keeps_queryBody h) fun _ => .bind (keeps_organization h) fun _ => .build rfl (by simp)

theorem keeps_queryOf : Keeps lost [] (queryOf inner) :=
  .pass (keeps_maybe (.isWord _) (keeps_withClause h)) (keeps_queryAfterWith h)

end Grammar

/-! ## All levels of nesting -/

variable {lost : Input → Nat → Prop}

theorem Inner.keeping_level (n : Nat) : (level n).Keeping lost := by
  induction n with
  | zero =>
    exact ⟨saves_fail _, saves_fail _, saves_fail _, saves_fail _, saves_fail _⟩
  | succ n ih =>
    exact ⟨Grammar.keeps_expressionOf ih, Grammar.keeps_negationExpr ih, Grammar.keeps_unaryExpr ih,
      Grammar.keeps_queryOf ih, Grammar.keeps_relationOf ih⟩

namespace Grammar

theorem keeps_within {α : Type} [Stored α] {given : List String} {rule : Inner → Parse α}
    (h : ∀ inner : Inner, inner.Keeping lost → Keeps lost given (rule inner)) :
    Keeps lost given (within rule) := by
  intro i hi start mid hgiven a next hrun
  rw [within] at hrun
  exact h _ (Inner.keeping_level (i.remaining mid + 1)) i hi start mid hgiven a next hrun

theorem keeps_expression : Keeps lost [] expression := keeps_within fun _ h => h.expression

theorem keeps_query : Keeps lost [] query := keeps_within fun _ h => h.query

theorem keeps_relation : Keeps lost [] relation := keeps_within fun _ h => h.relation

end Grammar

end SqlTidy
