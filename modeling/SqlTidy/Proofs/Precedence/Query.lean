import SqlTidy.Proofs.Precedence.Expr

/-!
# Precedence in queries

Queries add one more place where operands bind: the set operators between their bodies. They are two chains,
`INTERSECT` below the others, and the argument is the one for binary operators. All other rules only collect
what the rules for expressions give them.

The rules call each other through `Inner`. Every level of it is normal (`Inner.normal_level`), by induction on
the level, so the rules are normal at whatever depth the input needs.
-/

namespace SqlTidy

namespace Grammar

open Parse SqlTidy.Tree

variable {inner : Inner} (h : inner.Normal)

include h

/-! ## The `FROM` clause -/

theorem yields_bucketSample : Yields Normal (bucketSample inner) := by
  refine .andThen fun _ => .andThen fun _ => .andThen fun _ => ?_
  exact h.expression.maybe.bind fun key hkey => .pure ⟨trivial, every_ofOption hkey⟩

theorem yields_amountSample : Yields Normal (amountSample inner) := by
  refine h.expression.bind fun amount hamount => .andThen fun _ => ?_
  refine .ite (.pure ⟨trivial, hamount⟩) (.andThen fun _ => ?_)
  exact .ite (.pure ⟨trivial, hamount⟩) (yields_expected _)

theorem yields_tableSample : Yields Normal (tableSample inner) := by
  have hsample : Yields Normal (do
      if ← acceptWord "BUCKET" then bucketSample inner else amountSample inner : Parse Sample) :=
    .andThen fun _ => .ite (yields_bucketSample h) (yields_amountSample h)
  refine .maybe (.andThen fun _ => hsample.bind fun sample hsample => ?_)
  exact .andThen fun _ => .pure hsample

theorem yields_valuesRows : Yields Normal (valuesRows inner) :=
  .andThen fun _ => yields_expressions h

theorem yields_parenFactor : Yields Normal (parenFactor inner) := by
  refine .andThen fun _ => .ite ?_ ?_
  · refine h.query.bind fun query hquery => .andThen fun _ => ?_
    refine (yields_tableSample h).bind fun sample hsample => .andThen fun _ => .pure ?_
    exact ⟨trivial, hquery, every_ofOption hsample⟩
  · refine h.relation.bind fun relation hrelation => .andThen fun _ => ?_
    exact .andThen fun _ => .pure ⟨trivial, hrelation⟩

theorem yields_namedFactor : Yields Normal (namedFactor inner) := by
  refine .andThen fun _ => .andThen fun _ => .ite ?_ ?_
  · refine (yields_callArgsBeforeParen h).bind fun args hargs => .andThen fun _ => ?_
    exact .andThen fun _ => .pure ⟨trivial, every_ofList hargs⟩
  · refine (yields_tableSample h).bind fun sample hsample => ?_
    exact .andThen fun _ => .pure ⟨trivial, every_ofOption hsample⟩

theorem yields_tableFactor : Yields Normal (tableFactor inner) := by
  refine .andThen fun _ => .ite (yields_parenFactor h) (.andThen fun _ => .ite ?_ ?_)
  · refine (yields_valuesRows h).bind fun rows hrows => ?_
    exact .andThen fun _ => .pure ⟨trivial, every_ofList hrows⟩
  · exact yields_namedFactor h

theorem yields_joinConstraint : Yields Normal (joinConstraint inner) := by
  refine .andThen fun _ => .ite ?_ (.andThen fun _ => .ite ?_ yields_none)
  · refine h.expression.bind fun condition hcondition => Yields.toSome (.pure ?_)
    exact ⟨trivial, hcondition⟩
  · exact .andThen fun _ => Yields.toSome (.pure trivial)

theorem yields_join : Yields Normal (join inner) := by
  refine .andThen fun _ => .andThen fun kind => ?_
  cases kind with
  | none => exact .ite (yields_expected _) yields_none
  | some kind =>
    refine (yields_tableFactor h).bind fun factor hfactor => ?_
    refine (yields_joinConstraint h).bind fun constraint hconstraint => Yields.toSome (.pure ?_)
    exact ⟨trivial, hfactor, every_ofOption hconstraint⟩

theorem yields_relationOf : Yields Normal (relationOf inner) := by
  refine (yields_tableFactor h).bind fun first hfirst => ?_
  exact (Yields.many (yields_join h)).bind fun joins hjoins =>
    .pure ⟨trivial, hfirst, every_ofList hjoins⟩

theorem yields_lateralView : Yields Normal (lateralView inner) := by
  refine .andThen fun _ => .andThen fun _ => .andThen fun _ => .andThen fun _ => ?_
  refine (yields_expressionsBeforeParen h).bind fun args hargs => ?_
  refine .andThen fun _ => .andThen fun _ => .andThen fun _ => .andThen fun _ => .pure ?_
  exact ⟨trivial, every_ofList hargs⟩

theorem yields_pivot : Yields Normal (pivot inner) := by
  refine .andThen fun _ => .andThen fun _ => ?_
  refine (yields_selectItems h).bind fun aggregates haggregates => ?_
  refine .andThen fun _ => .andThen fun _ => .andThen fun _ => .andThen fun _ => ?_
  refine (yields_selectItems h).bind fun values hvalues => .andThen fun _ => .andThen fun _ => .pure ?_
  exact ⟨trivial, every_ofList haggregates, every_ofList hvalues⟩

theorem yields_fromClause : Yields Normal (fromClause inner) := by
  refine .andThen fun _ => (yields_relationOf h).commaSeparated.bind fun relations hrelations => ?_
  refine (Yields.many (yields_lateralView h).maybe).bind fun views hviews => ?_
  refine (yields_pivot h).maybe.bind fun pivot hpivot => .pure ?_
  exact ⟨trivial, every_ofList hrelations, every_ofList hviews, every_ofOption hpivot⟩

/-! ## `GROUP BY` -/

theorem yields_groupingSet : Yields Normal (groupingSet inner) := by
  refine .rewinding (.andThen fun _ => .andThen fun _ => .ite ?_ ?_)
  · exact .pure (Trees.every_some Trees.every_nil)
  · refine (yields_expressions h).bind fun members hmembers => .andThen fun _ => ?_
    refine .andThen fun _ => .andThen fun _ => .ite ?_ yields_none
    exact .pure (Trees.every_some hmembers)

theorem yields_groupingElement : Yields Normal (groupingElement inner) := by
  have hexpr : Yields Normal (do return .elementExpr (← inner.expression) : Parse GroupingElement) :=
    h.expression.bind fun value hvalue => .pure ⟨trivial, hvalue⟩
  refine .andThen fun _ => .andThen fun _ => .ite ?_ hexpr
  refine (yields_groupingSet h).bind fun members hmembers => ?_
  cases members with
  | none => exact hexpr
  | some members => exact .pure ⟨trivial, every_ofList (hmembers members rfl)⟩

theorem yields_groupingItem : Yields Normal (groupingItem inner) := by
  refine .andThen fun kind => ?_
  cases kind with
  | none => exact h.expression.bind fun value hvalue => .pure ⟨trivial, hvalue⟩
  | some kind =>
    refine .andThen fun _ => (yields_groupingElement h).commaSeparated.bind fun elements helements => ?_
    exact .andThen fun _ => .pure ⟨trivial, every_ofList helements⟩

theorem yields_groupBy : Yields Normal (groupBy inner) := by
  refine (yields_groupingItem h).commaSeparated.bind fun items hitems => ?_
  exact .andThen fun _ => .pure ⟨trivial, every_ofList hitems⟩

/-! ## `SELECT` -/

theorem yields_hintArgs : Yields Normal (hintArgs inner) := by
  refine .maybe ((yields_expressionsBeforeParen h).bind fun args hargs => ?_)
  exact .andThen fun _ => .pure hargs

theorem yields_hintFunction : Yields Normal (hintFunction inner) := by
  refine .andThen fun name => (yields_hintArgs h).bind fun args hargs => .pure ?_
  cases args with
  | none => exact ⟨trivial, trivial⟩
  | some args => exact ⟨trivial, every_ofList (hargs args rfl)⟩

theorem yields_hintFunctions : Yields Normal (hintFunctions inner) := by
  have hnext : Yields Normal (nextHintFunction inner) :=
    .maybe (.andThen fun _ => yields_hintFunction h)
  refine .andThen fun _ => .ite yields_nil ?_
  refine (yields_hintFunction h).bind fun first hfirst => ?_
  exact (Yields.many hnext).bind fun rest hrest => .pure (Trees.every_cons hfirst hrest)

theorem yields_hint : Yields Normal (hint inner) := by
  refine .maybe ((yields_hintFunctions h).bind fun functions hfunctions => ?_)
  exact .andThen fun _ => .pure ⟨trivial, every_ofList hfunctions⟩

theorem yields_namedWindow : Yields Normal (namedWindow inner) := by
  refine .andThen fun _ => .andThen fun _ => ?_
  exact (yields_window h).bind fun window hwindow => .pure ⟨trivial, hwindow⟩

theorem yields_select (allowFrom : Bool) : Yields Normal (select inner allowFrom) := by
  refine .andThen fun _ => (Yields.many (yields_hint h)).bind fun hints hhints => .andThen fun _ => ?_
  refine (yields_selectItems h).bind fun items hitems => ?_
  refine (yields_fromClause h).maybe.bind fun source hsource => ?_
  refine h.expression.maybe.bind fun condition hcondition => ?_
  refine (yields_groupBy h).maybe.bind fun grouping hgrouping => ?_
  refine h.expression.maybe.bind fun having hhaving => ?_
  refine (yields_namedWindow h).commaSeparated.maybeList.bind fun windows hwindows => .pure ?_
  exact ⟨trivial, every_ofList hhints, every_ofList hitems, every_ofOption hsource,
    every_ofOption hcondition, every_ofOption hgrouping, every_ofOption hhaving,
    every_ofList hwindows⟩

/-! ## Bodies -/

theorem yields_limitOf : Yields Normal (limitOf inner) := by
  refine .andThen fun _ => .ite (.pure trivial) ?_
  exact h.expression.bind fun count hcount => .pure ⟨trivial, hcount⟩

theorem yields_organization : Yields Normal (organization inner) := by
  refine (yields_orderItems h).maybeList.bind fun orderBy horderBy => ?_
  refine (yields_expressions h).maybeList.bind fun clusterBy hclusterBy => ?_
  refine (yields_expressions h).maybeList.bind fun distributeBy hdistributeBy => ?_
  refine (yields_orderItems h).maybeList.bind fun sortBy hsortBy => ?_
  refine (yields_limitOf h).maybe.bind fun limit hlimit => ?_
  refine h.expression.maybe.bind fun offset hoffset => .pure ?_
  exact ⟨trivial, every_ofList horderBy, every_ofList hclusterBy, every_ofList hdistributeBy,
    every_ofList hsortBy, every_ofOption hlimit, every_ofOption hoffset⟩

theorem yields_fromBody : Yields Normal (fromBody inner) := by
  refine .maybe ((yields_select h false).bind fun body hbody => ?_)
  exact (yields_organization h).bind fun clauses hclauses => .pure ⟨trivial, hbody, hclauses⟩

theorem yields_fromBodies {source : FromClause} (hsource : Normal source) :
    Yields (Above 13) (fromBodies inner source) := by
  refine (Yields.many (yields_fromBody h)).bind fun bodies hbodies => .ite (yields_expected _) ?_
  exact .pure ⟨⟨trivial, hsource, every_ofList hbodies⟩, Nat.le_refl _⟩

theorem yields_bodyPrimary : Yields (Above 13) (bodyPrimary inner) := by
  refine .andThen fun _ => .ite ?select (.andThen fun _ => .ite ?values (.andThen fun _ => ?_))
  case select =>
    exact (yields_select h true).bind fun body hbody => .pure ⟨⟨trivial, hbody⟩, Nat.le_refl _⟩
  case values =>
    refine (yields_valuesRows h).bind fun rows hrows => .andThen fun _ => .pure ?_
    exact ⟨⟨trivial, every_ofList hrows⟩, Nat.le_refl _⟩
  refine .ite (.andThen fun _ => .pure ⟨trivial, Nat.le_refl _⟩) (.andThen fun _ => .ite ?_ ?_)
  · exact (yields_fromClause h).bind fun source hsource => yields_fromBodies h hsource
  · refine .andThen fun _ => .ite ?_ (yields_expected _)
    refine h.query.bind fun query hquery => .andThen fun _ => .pure ?_
    exact ⟨⟨trivial, hquery⟩, Nat.le_refl _⟩

omit h in
/-- One level of set operators over the next tighter one. -/
theorem yields_setChain {k : Nat} {operators : List (List String × SetOp)} {operand : Parse QueryBody}
    (hop : ∀ r ∈ operators, r.2.level = k) (hoperand : Yields (Above (k + 1)) operand) :
    Yields (Above k) (setChain operators operand) := by
  refine hoperand.bind fun first hfirst => ?_
  refine Yields.iterate (fun left hleft => ?_) first (hfirst.mono (Nat.le_succ k))
  refine (yields_choose (Q := (·.level = k)) hop).bind fun op hlevel => ?_
  cases op with
  | none => exact .pure nofun
  | some op =>
    obtain rfl := hlevel op rfl
    refine .andThen fun quantifier => hoperand.bind fun right hright => Yields.toSome (.pure ?_)
    have hfits : Fits (.setOperation left op quantifier right) :=
      ⟨hleft.le_level, hright.le_level⟩
    exact ⟨⟨hfits, hleft.normal, hright.normal⟩, Nat.le_refl _⟩

theorem yields_queryBody : Yields Normal (queryBody inner) := by
  have hprimary : Yields (Above 3) (bodyPrimary inner) :=
    (yields_bodyPrimary h).imp fun _ hbody => hbody.mono (by decide)
  have hbody : Yields (Above 1) (queryBody inner) :=
    yields_setChain (by decide) (yields_setChain (by decide) hprimary)
  exact hbody.imp fun _ hbody => hbody.normal

/-! ## Queries -/

theorem yields_commonTable : Yields Normal (commonTable inner) := by
  refine .andThen fun _ => .andThen fun _ => .andThen fun _ => .andThen fun _ => ?_
  exact h.query.bind fun query hquery => .andThen fun _ => .pure ⟨trivial, hquery⟩

theorem yields_withClause : Yields Normal (withClause inner) := by
  refine .andThen fun _ => (yields_commonTable h).commaSeparated.bind fun tables htables => ?_
  exact .pure ⟨trivial, every_ofList htables⟩

theorem yields_queryAfterWith {tables : Option WithClause} (htables : Normal tables) :
    Yields Normal (queryAfterWith inner tables) := by
  refine (yields_queryBody h).bind fun body hbody => ?_
  refine (yields_organization h).bind fun clauses hclauses => .pure ?_
  exact ⟨trivial, every_ofOption htables, hbody, hclauses⟩

theorem yields_queryOf : Yields Normal (queryOf inner) :=
  (yields_withClause h).maybe.bind fun _ htables => yields_queryAfterWith h htables

end Grammar

/-! ## All levels of nesting -/

open Grammar in
/-- The rules are normal at every depth: those of a level are made of those one level further in. -/
theorem Inner.normal_level (n : Nat) : (Inner.level n).Normal := by
  induction n with
  | zero =>
    exact ⟨Parse.yields_fail _, Parse.yields_fail _, Parse.yields_fail _, Parse.yields_fail _,
      Parse.yields_fail _⟩
  | succ n ih =>
    exact
      { expression := yields_expressionOf ih
        negation := yields_negationExpr ih
        unary := yields_unaryExpr ih
        query := yields_queryOf ih
        relation := yields_relationOf ih }

namespace Grammar

open Parse

theorem yields_within_normal {α : Type} {Q : α → Prop} {rule : Inner → Parse α}
    (h : ∀ inner : Inner, inner.Normal → Yields Q (rule inner)) : Yields Q (within rule) :=
  yields_within fun n => h _ (Inner.normal_level n)

theorem yields_expression : Yields Normal expression :=
  yields_within_normal fun _ h => h.expression

theorem yields_query : Yields Normal query := yields_within_normal fun _ h => h.query

end Grammar

end SqlTidy
