import SqlTidy.Proofs.Filled.Expr

/-!
# What the rules for queries fill

The lists of `WITH`, `SELECT`, `FROM`, `VALUES` and `GROUP BY` are written with commas, and the bodies behind a
leading `FROM` clause are counted by their own rule. A `SELECT` that may not have a `FROM` clause has none,
even if the word stands behind it: that is what tells it apart from a query of its own (`fills_select`).
-/

namespace SqlTidy

namespace Grammar

open Parse SqlTidy.Tree

variable {inner : Inner} (h : inner.Filled)

include h

/-! ## The `FROM` clause -/

theorem fills_bucketSample : Yields filled (bucketSample inner) := by
  refine .andThen fun _ => .andThen fun _ => .andThen fun _ => ?_
  exact h.expression.maybe.bind fun key hkey => .pure ⟨trivial, filled_ofOption hkey⟩

theorem fills_amountSample : Yields filled (amountSample inner) := by
  refine h.expression.bind fun amount hamount => .andThen fun _ => ?_
  refine .ite (.pure ⟨trivial, hamount⟩) (.andThen fun _ => ?_)
  exact .ite (.pure ⟨trivial, hamount⟩) (yields_expected _)

theorem fills_tableSample : Yields filled (tableSample inner) := by
  have hsample : Yields filled (do
      if ← acceptWord "BUCKET" then bucketSample inner else amountSample inner : Parse Sample) :=
    .andThen fun _ => .ite (fills_bucketSample h) (fills_amountSample h)
  refine .maybe (.andThen fun _ => hsample.bind fun sample hsample => ?_)
  exact .andThen fun _ => .pure hsample

theorem fills_valuesRows : Yields Stocked (valuesRows inner) :=
  .andThen fun _ => fills_expressions h

theorem fills_parenFactor : Yields filled (parenFactor inner) := by
  refine .andThen fun _ => .ite ?_ ?_
  · refine h.query.bind fun query hquery => .andThen fun _ => ?_
    refine (fills_tableSample h).bind fun sample hsample => .andThen fun _ => .pure ?_
    exact ⟨trivial, hquery, filled_ofOption hsample⟩
  · refine h.relation.bind fun relation hrelation => .andThen fun _ => ?_
    exact .andThen fun _ => .pure ⟨trivial, hrelation⟩

theorem fills_namedFactor : Yields filled (namedFactor inner) := by
  refine fills_dottedName.bind fun name hname => .andThen fun _ => .ite ?_ ?_
  · refine (fills_callArgsBeforeParen h).bind fun args hargs => .andThen fun _ => ?_
    exact .andThen fun _ => .pure ⟨hname, filled_ofList hargs⟩
  · refine (fills_tableSample h).bind fun sample hsample => ?_
    exact .andThen fun _ => .pure ⟨hname, filled_ofOption hsample⟩

theorem fills_tableFactor : Yields filled (tableFactor inner) := by
  refine .andThen fun _ => .ite (fills_parenFactor h) (.andThen fun _ => .ite ?_ ?_)
  · refine (fills_valuesRows h).bind fun rows hrows => .andThen fun _ => .pure ?_
    exact ⟨ofList_ne_nil hrows.ne_nil, filled_ofList hrows.filled⟩
  · exact fills_namedFactor h

theorem fills_joinConstraint : Yields filled (joinConstraint inner) := by
  refine .andThen fun _ => .ite ?_ (.andThen fun _ => .ite ?_ yields_none)
  · refine h.expression.bind fun condition hcondition => Yields.toSome (.pure ?_)
    exact ⟨trivial, hcondition⟩
  · exact .andThen fun _ => Yields.toSome (.pure trivial)

theorem fills_join : Yields filled (join inner) := by
  refine .andThen fun _ => .andThen fun kind => ?_
  cases kind with
  | none => exact .ite (yields_expected _) yields_none
  | some kind =>
    refine (fills_tableFactor h).bind fun factor hfactor => ?_
    refine (fills_joinConstraint h).bind fun constraint hconstraint => Yields.toSome (.pure ?_)
    exact ⟨trivial, hfactor, filled_ofOption hconstraint⟩

theorem fills_relationOf : Yields filled (relationOf inner) := by
  refine (fills_tableFactor h).bind fun first hfirst => ?_
  exact (Yields.many (fills_join h)).bind fun joins hjoins =>
    .pure ⟨trivial, hfirst, filled_ofList hjoins⟩

theorem fills_lateralView : Yields filled (lateralView inner) := by
  refine .andThen fun _ => .andThen fun _ => fills_dottedName.bind fun name hname => ?_
  refine .andThen fun _ => (fills_expressionsBeforeParen h).bind fun args hargs => ?_
  refine .andThen fun _ => .andThen fun _ => .andThen fun _ => .andThen fun _ => .pure ?_
  exact ⟨hname, filled_ofList hargs⟩

omit h in
theorem fills_pivotColumns : Yields filled pivotColumns := by
  refine .andThen fun _ => .ite ?_ ?_
  · exact fills_dottedName.stocked.bind fun names hnames => .andThen fun _ => .pure hnames.filled
  · exact fills_dottedName.bind fun name hname => .pure (Parts.filled_cons hname Parts.filled_nil)

theorem fills_pivot : Yields filled (pivot inner) := by
  refine .andThen fun _ => .andThen fun _ => ?_
  refine (fills_selectItems h).bind fun aggregates haggregates => ?_
  refine .andThen fun _ => fills_pivotColumns.bind fun columns hcolumns => ?_
  refine .andThen fun _ => .andThen fun _ => ?_
  refine (fills_selectItems h).bind fun values hvalues => .andThen fun _ => .andThen fun _ => .pure ?_
  exact ⟨hcolumns, filled_ofList haggregates.filled, filled_ofList hvalues.filled⟩

theorem fills_fromClause : Yields filled (fromClause inner) := by
  refine .andThen fun _ => (fills_relationOf h).stocked.bind fun relations hrelations => ?_
  refine (Yields.many (fills_lateralView h).maybe).bind fun views hviews => ?_
  refine (fills_pivot h).maybe.bind fun pivot hpivot => .pure ?_
  exact ⟨ofList_ne_nil hrelations.ne_nil, filled_ofList hrelations.filled, filled_ofList hviews,
    filled_ofOption hpivot⟩

/-! ## `GROUP BY` -/

/-- A set of a grouping may be empty, and is no list of elements. -/
theorem fills_groupingSet : Yields filled (groupingSet inner) := by
  refine .rewinding (.andThen fun _ => .andThen fun _ => .ite ?_ ?_)
  · exact .pure (Parts.filled_some Parts.filled_nil)
  · refine (fills_expressions h).bind fun members hmembers => .andThen fun _ => ?_
    refine .andThen fun _ => .andThen fun _ => .ite ?_ yields_none
    exact .pure (Parts.filled_some hmembers.filled)

theorem fills_groupingElement : Yields filled (groupingElement inner) := by
  have hexpr : Yields filled (do return .elementExpr (← inner.expression) : Parse GroupingElement) :=
    h.expression.bind fun value hvalue => .pure ⟨trivial, hvalue⟩
  refine .andThen fun _ => .andThen fun _ => .ite ?_ hexpr
  refine (fills_groupingSet h).bind fun members hmembers => ?_
  cases members with
  | none => exact hexpr
  | some members => exact .pure ⟨trivial, filled_ofList (hmembers members rfl)⟩

theorem fills_groupingItem : Yields filled (groupingItem inner) := by
  refine .andThen fun kind => ?_
  cases kind with
  | none => exact h.expression.bind fun value hvalue => .pure ⟨trivial, hvalue⟩
  | some kind =>
    refine .andThen fun _ => (fills_groupingElement h).stocked.bind fun elements helements => ?_
    refine .andThen fun _ => .pure ?_
    exact ⟨ofList_ne_nil helements.ne_nil, filled_ofList helements.filled⟩

theorem fills_groupBy : Yields filled (groupBy inner) := by
  refine (fills_groupingItem h).stocked.bind fun items hitems => .andThen fun _ => .pure ?_
  exact ⟨ofList_ne_nil hitems.ne_nil, filled_ofList hitems.filled⟩

/-! ## `SELECT` -/

theorem fills_hintArgs : Yields filled (hintArgs inner) := by
  refine .maybe ((fills_expressionsBeforeParen h).bind fun args hargs => ?_)
  exact .andThen fun _ => .pure hargs

theorem fills_hintFunction : Yields filled (hintFunction inner) := by
  refine .andThen fun name => (fills_hintArgs h).bind fun args hargs => .pure ?_
  cases args with
  | none => exact ⟨trivial, trivial⟩
  | some args => exact ⟨trivial, filled_ofList (hargs args rfl)⟩

theorem fills_hintFunctions : Yields filled (hintFunctions inner) := by
  have hnext : Yields filled (nextHintFunction inner) :=
    .maybe (.andThen fun _ => fills_hintFunction h)
  refine .andThen fun _ => .ite yields_nil ?_
  refine (fills_hintFunction h).bind fun first hfirst => ?_
  exact (Yields.many hnext).bind fun rest hrest => .pure (Parts.filled_cons hfirst hrest)

theorem fills_hint : Yields filled (hint inner) := by
  refine .maybe ((fills_hintFunctions h).bind fun functions hfunctions => ?_)
  exact .andThen fun _ => .pure ⟨trivial, filled_ofList hfunctions⟩

theorem fills_namedWindow : Yields filled (namedWindow inner) := by
  refine .andThen fun _ => .andThen fun _ => ?_
  exact (fills_window h).bind fun window hwindow => .pure ⟨trivial, hwindow⟩

/-- Where no `FROM` clause is allowed none is read. -/
theorem fills_source (allowFrom : Bool) :
    Yields (fun source => filled source ∧ (allowFrom = false → source = Option.none))
      (maybe (do return allowFrom && (← isWord "FROM")) (fromClause inner)) := by
  refine Yields.bind (P := fun test => allowFrom = false → test = false) ?_ fun test htest => ?_
  · exact .andThen fun word => .pure (by rintro rfl; rfl)
  · cases test with
    | false => exact .pure ⟨Parts.filled_none, fun _ => rfl⟩
    | true =>
      refine (fills_fromClause h).bind fun source hsource => .pure ?_
      exact ⟨Parts.filled_some hsource, fun hno => absurd (htest hno) (by decide)⟩

theorem fills_select (allowFrom : Bool) :
    Yields (fun body => filled body ∧ (allowFrom = false → body.fromOf = .none))
      (select inner allowFrom) := by
  refine .andThen fun _ => (Yields.many (fills_hint h)).bind fun hints hhints => .andThen fun _ => ?_
  refine (fills_selectItems h).bind fun items hitems => ?_
  refine (fills_source h allowFrom).bind fun source hsource => ?_
  refine h.expression.maybe.bind fun condition hcondition => ?_
  refine (fills_groupBy h).maybe.bind fun grouping hgrouping => ?_
  refine h.expression.maybe.bind fun having hhaving => ?_
  refine (fills_namedWindow h).stocked.unstocked.maybeList.bind fun windows hwindows => .pure ⟨?_, ?_⟩
  · exact ⟨ofList_ne_nil hitems.ne_nil, filled_ofList hhints, filled_ofList hitems.filled,
      filled_ofOption hsource.1, filled_ofOption hcondition, filled_ofOption hgrouping,
      filled_ofOption hhaving, filled_ofList hwindows⟩
  · intro hno
    rw [hsource.2 hno]
    rfl

/-! ## Bodies -/

theorem fills_limitOf : Yields filled (limitOf inner) := by
  refine .andThen fun _ => .ite (.pure trivial) ?_
  exact h.expression.bind fun count hcount => .pure ⟨trivial, hcount⟩

theorem fills_organization : Yields filled (organization inner) := by
  refine (fills_orderItems h).unstocked.maybeList.bind fun orderBy horderBy => ?_
  refine (fills_expressions h).unstocked.maybeList.bind fun clusterBy hclusterBy => ?_
  refine (fills_expressions h).unstocked.maybeList.bind fun distributeBy hdistributeBy => ?_
  refine (fills_orderItems h).unstocked.maybeList.bind fun sortBy hsortBy => ?_
  refine (fills_limitOf h).maybe.bind fun limit hlimit => ?_
  refine h.expression.maybe.bind fun offset hoffset => .pure ?_
  exact ⟨trivial, filled_ofList horderBy, filled_ofList hclusterBy, filled_ofList hdistributeBy,
    filled_ofList hsortBy, filled_ofOption hlimit, filled_ofOption hoffset⟩

theorem fills_fromBody : Yields filled (fromBody inner) := by
  refine .maybe ((fills_select h false).bind fun body hbody => ?_)
  exact (fills_organization h).bind fun clauses hclauses => .pure ⟨hbody.2 rfl, hbody.1, hclauses⟩

theorem fills_fromBodies {source : FromClause} (hsource : filled source) :
    Yields filled (fromBodies inner source) := by
  refine (fills_fromBody h).stockedOrFail fun bodies hbodies => .pure ?_
  exact ⟨ofList_ne_nil hbodies.ne_nil, hsource, filled_ofList hbodies.filled⟩

theorem fills_bodyPrimary : Yields filled (bodyPrimary inner) := by
  refine .andThen fun _ => .ite ?select (.andThen fun _ => .ite ?values (.andThen fun _ => ?_))
  case select => exact (fills_select h true).bind fun body hbody => .pure ⟨trivial, hbody.1⟩
  case values =>
    refine (fills_valuesRows h).bind fun rows hrows => .andThen fun _ => .pure ?_
    exact ⟨ofList_ne_nil hrows.ne_nil, filled_ofList hrows.filled⟩
  refine .ite ?table (.andThen fun _ => .ite ?source (.andThen fun _ => .ite ?nested ?_))
  case table => exact fills_dottedName.bind fun name hname => .pure hname
  case source => exact (fills_fromClause h).bind fun source hsource => fills_fromBodies h hsource
  case nested =>
    exact h.query.bind fun query hquery => .andThen fun _ => .pure ⟨trivial, hquery⟩
  exact yields_expected _

omit h in
theorem fills_setChain {operators : List (List String × SetOp)} {operand : Parse QueryBody}
    (hoperand : Yields filled operand) : Yields filled (setChain operators operand) := by
  refine hoperand.bind fun first hfirst => Yields.iterate (fun left hleft => ?_) first hfirst
  refine .andThen fun op => ?_
  cases op with
  | none => exact yields_none
  | some op =>
    refine .andThen fun _ => hoperand.bind fun right hright => Yields.toSome (.pure ?_)
    exact ⟨trivial, hleft, hright⟩

theorem fills_queryBody : Yields filled (queryBody inner) :=
  fills_setChain (fills_setChain (fills_bodyPrimary h))

/-! ## Queries -/

theorem fills_commonTable : Yields filled (commonTable inner) := by
  refine .andThen fun _ => .andThen fun _ => .andThen fun _ => .andThen fun _ => ?_
  exact h.query.bind fun query hquery => .andThen fun _ => .pure ⟨trivial, hquery⟩

theorem fills_withClause : Yields filled (withClause inner) := by
  refine .andThen fun _ => (fills_commonTable h).stocked.bind fun tables htables => .pure ?_
  exact ⟨ofList_ne_nil htables.ne_nil, filled_ofList htables.filled⟩

theorem fills_queryAfterWith {tables : Option WithClause} (htables : filled tables) :
    Yields filled (queryAfterWith inner tables) := by
  refine (fills_queryBody h).bind fun body hbody => ?_
  refine (fills_organization h).bind fun clauses hclauses => .pure ?_
  exact ⟨trivial, filled_ofOption htables, hbody, hclauses⟩

theorem fills_queryOf : Yields filled (queryOf inner) :=
  (fills_withClause h).maybe.bind fun _ htables => fills_queryAfterWith h htables

end Grammar

/-! ## All levels of nesting -/

open Grammar in
/-- The rules of a level are made of those one level further in. -/
theorem Inner.filled_level (n : Nat) : (Inner.level n).Filled := by
  induction n with
  | zero =>
    exact ⟨Parse.yields_fail _, Parse.yields_fail _, Parse.yields_fail _, Parse.yields_fail _,
      Parse.yields_fail _⟩
  | succ n ih =>
    exact
      { expression := fills_expressionOf ih
        negation := fills_negationExpr ih
        unary := fills_unaryExpr ih
        query := fills_queryOf ih
        relation := fills_relationOf ih }

namespace Grammar

open Parse

theorem yields_within_filled {α : Type} {Q : α → Prop} {rule : Inner → Parse α}
    (h : ∀ inner : Inner, inner.Filled → Yields Q (rule inner)) : Yields Q (within rule) :=
  yields_within fun n => h _ (Inner.filled_level n)

theorem fills_expression : Yields filled expression := yields_within_filled fun _ h => h.expression

theorem fills_query : Yields filled query := yields_within_filled fun _ h => h.query

end Grammar

end SqlTidy
