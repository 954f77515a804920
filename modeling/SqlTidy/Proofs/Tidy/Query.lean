import SqlTidy.Proofs.Tidy.Expr

/-!
# Queries that are read from unbroken tokens are tidy

A `WITH` clause is the only list here that must not be empty, and its tables are read with commas between them. At the end
of the file the rules are tied together: what a level of nesting gives back is tidy if what is one level further in is.
-/

namespace SqlTidy

namespace Grammar

open Parse Tidy SqlTidy.Tree SqlTidy.Layout

variable {inner : Inner} {i : Input} (hi : i.Unbroken) (h : inner.Tidies i)

/-! ## The `FROM` clause -/

include hi

theorem tidies_tableAlias : Gives i tidy tableAlias := by
  refine .andThen fun explicitAs => .andThen fun _ => .ite gives_none ?_
  refine (tidies_identifier hi).bind fun name hname => ?_
  refine (tidies_optionalIdentifierList hi).bind fun columns hcolumns => .pure ?_
  exact tidy_some (tidy_tableAlias explicitAs hname hcolumns)

include h

theorem tidies_bucketSample : Gives i tidy (bucketSample inner) := by
  refine (tidies_number hi).bind fun numerator hnumerator => .andThen fun _ => ?_
  refine (tidies_number hi).bind fun denominator hdenominator => h.expression.maybe.bind fun key hkey => .pure ?_
  exact tidy_sampleBucket hnumerator hdenominator (tidy_ofOption hkey)

omit hi

theorem tidies_amountSample : Gives i tidy (amountSample inner) := by
  refine h.expression.bind fun amount hamount => .andThen fun _ => ?_
  refine .ite (.pure (tidy_samplePercent hamount)) (.andThen fun _ => ?_)
  exact .ite (.pure (tidy_sampleRows hamount)) (gives_expected _)

include hi

theorem tidies_tableSample : Gives i tidy (tableSample inner) := by
  have hsample : Gives i tidy (do
      if ← acceptWord "BUCKET" then bucketSample inner else amountSample inner : Parse Sample) :=
    .andThen fun _ => .ite (tidies_bucketSample hi h) (tidies_amountSample h)
  exact .maybe (.andThen fun _ => hsample.bind fun sample hsample => .andThen fun _ => .pure hsample)

omit hi

theorem tidies_valuesRows : Gives i tidy (valuesRows inner) := .andThen fun _ => tidies_expressions h

include hi

theorem tidies_parenFactor : Gives i tidy (parenFactor inner) := by
  refine .andThen fun _ => .ite ?_ ?_
  · refine h.query.bind fun query hquery => .andThen fun _ => (tidies_tableSample hi h).bind fun sample hsample => ?_
    exact (tidies_tableAlias hi).bind fun asName hname => .pure (tidy_derived hquery (tidy_ofOption hsample) hname)
  · refine h.relation.bind fun relation hrelation => .andThen fun _ => ?_
    exact (tidies_tableAlias hi).bind fun asName hname => .pure (tidy_nestedRelation hrelation hname)

theorem tidies_namedFactor : Gives i tidy (namedFactor inner) := by
  refine (tidies_dottedName hi).bind fun name hname => .andThen fun _ => .ite ?_ ?_
  · refine (tidies_callArgsBeforeParen hi h).bind fun args hargs => .andThen fun _ => ?_
    exact (tidies_tableAlias hi).bind fun asName has => .pure (tidy_tableFunction hname (tidy_ofList hargs) has)
  · refine (tidies_tableSample hi h).bind fun sample hsample => ?_
    exact (tidies_tableAlias hi).bind fun asName has => .pure (tidy_table hname (tidy_ofOption hsample) has)

theorem tidies_tableFactor : Gives i tidy (tableFactor inner) := by
  refine .andThen fun _ => .ite (tidies_parenFactor hi h) (.andThen fun _ => .ite ?_ (tidies_namedFactor hi h))
  refine (tidies_valuesRows h).bind fun rows hrows => (tidies_tableAlias hi).bind fun asName hname => .pure ?_
  exact tidy_valuesTable (tidy_ofList hrows) hname

theorem tidies_joinConstraint : Gives i tidy (joinConstraint inner) := by
  refine .andThen fun _ => .ite ?_ (.andThen fun _ => .ite ?_ gives_none)
  · exact h.expression.bind fun condition hcondition => .pure (tidy_some (tidy_on hcondition))
  · exact (tidies_identifierList hi).bind fun columns hcolumns => .pure (tidy_some (tidy_using hcolumns))

theorem tidies_join : Gives i tidy (join inner) := by
  refine .andThen fun natural => .andThen fun kind => ?_
  cases kind with
  | none => exact .ite (gives_expected _) gives_none
  | some kind =>
    refine (tidies_tableFactor hi h).bind fun factor hfactor => ?_
    refine (tidies_joinConstraint hi h).bind fun constraint hconstraint => .pure ?_
    exact tidy_some (tidy_join natural kind hfactor (tidy_ofOption hconstraint))

theorem tidies_relationOf : Gives i tidy (relationOf inner) :=
  (tidies_tableFactor hi h).bind fun _ hfirst => (tidies_join hi h).many.bind fun _ hjoins =>
    .pure (tidy_relation hfirst (tidy_ofList hjoins))

omit h

theorem tidies_lateralColumns (explicitAs : Bool) : Gives i tidy (lateralColumns explicitAs) :=
  .ite (tidies_identifier hi).commaSeparated (tidies_identifier hi).commaSeparated.maybeList

include h

theorem tidies_lateralView : Gives i tidy (lateralView inner) := by
  refine .andThen fun _ => .andThen fun outer => (tidies_dottedName hi).bind fun name hname => .andThen fun _ => ?_
  refine (tidies_expressionsBeforeParen h).bind fun args hargs => .andThen fun _ => ?_
  refine (tidies_identifier hi).maybe.bind fun view hview => .andThen fun explicitAs => ?_
  refine (tidies_lateralColumns hi explicitAs).bind fun columns hcolumns => .pure ?_
  exact tidy_lateralView outer explicitAs hname (tidy_ofList hargs) hview hcolumns

omit h

theorem tidies_pivotColumns : Gives i tidy pivotColumns := by
  refine .andThen fun _ => .ite ?_ ?_
  · exact (tidies_dottedName hi).commaSeparated.bind fun names hnames => .andThen fun _ => .pure hnames
  · exact (tidies_dottedName hi).bind fun name hname => .pure (tidy_cons hname tidy_nil)

include h

theorem tidies_pivot : Gives i tidy (pivot inner) := by
  refine .andThen fun _ => .andThen fun _ => (tidies_selectItems hi h).bind fun aggregates haggregates => ?_
  refine .andThen fun _ => (tidies_pivotColumns hi).bind fun columns hcolumns => .andThen fun _ => .andThen fun _ => ?_
  refine (tidies_selectItems hi h).bind fun values hvalues => .andThen fun _ => .andThen fun _ => .pure ?_
  exact tidy_pivot (tidy_ofList haggregates) hcolumns (tidy_ofList hvalues)

theorem tidies_fromClause : Gives i tidy (fromClause inner) := by
  refine .andThen fun _ => (tidies_relationOf hi h).commaSeparated.bind fun relations hrelations => ?_
  refine (tidies_lateralView hi h).maybe.many.bind fun views hviews => ?_
  refine (tidies_pivot hi h).maybe.bind fun pivoting hpivoting => .pure ?_
  exact tidy_fromClause (tidy_ofList hrelations) (tidy_ofList hviews) (tidy_ofOption hpivoting)

/-! ## `GROUP BY` -/

omit hi

theorem tidies_groupingSet : Gives i tidy (groupingSet inner) := by
  refine .rewinding (.andThen fun _ => .andThen fun _ => .ite (.pure (tidy_some tidy_nil)) ?_)
  refine (tidies_expressions h).bind fun members hmembers => .andThen fun _ => ?_
  exact .andThen fun _ => .andThen fun _ => .ite (.pure (tidy_some hmembers)) gives_none

theorem tidies_groupingElement : Gives i tidy (groupingElement inner) := by
  have hexpr : Gives i tidy (do return .elementExpr (← inner.expression) : Parse GroupingElement) :=
    h.expression.bind fun value hvalue => .pure (tidy_elementExpr hvalue)
  refine .andThen fun _ => .andThen fun _ => .ite ?_ hexpr
  refine (tidies_groupingSet h).bind fun members hmembers => ?_
  cases members with
  | none => exact hexpr
  | some members => exact .pure (tidy_elementSet (tidy_ofList (hmembers members rfl)))

theorem tidies_groupingItem : Gives i tidy (groupingItem inner) := by
  refine .andThen fun kind => ?_
  cases kind with
  | none => exact h.expression.bind fun value hvalue => .pure (tidy_groupingExpr hvalue)
  | some kind =>
    refine .andThen fun _ => (tidies_groupingElement h).commaSeparated.bind fun elements helements => ?_
    exact .andThen fun _ => .pure (tidy_analytics kind (tidy_ofList helements))

theorem tidies_groupBy : Gives i tidy (groupBy inner) :=
  (tidies_groupingItem h).commaSeparated.bind fun _ hitems => .andThen fun modifier =>
    .pure (tidy_groupBy modifier (tidy_ofList hitems))

/-! ## `SELECT` -/

theorem tidies_hintArgs : Gives i tidy (hintArgs inner) :=
  .maybe ((tidies_expressionsBeforeParen h).bind fun _ hargs => .andThen fun _ => .pure hargs)

include hi

theorem tidies_hintFunction : Gives i tidy (hintFunction inner) := by
  refine (tidies_identifier hi).bind fun name hname => (tidies_hintArgs h).bind fun args hargs => .pure ?_
  cases args with
  | none => exact tidy_hintFunction hname (tidy_ofOption tidy_none)
  | some args => exact tidy_hintFunction hname (tidy_ofOption (tidy_some (tidy_ofList (hargs args rfl))))

theorem tidies_hintFunctions : Gives i tidy (hintFunctions inner) := by
  have hnext : Gives i tidy (nextHintFunction inner) := .maybe (.andThen fun _ => tidies_hintFunction hi h)
  refine .andThen fun _ => .ite gives_nil ?_
  exact (tidies_hintFunction hi h).bind fun first hfirst => hnext.many.bind fun rest hrest => .pure (tidy_cons hfirst hrest)

theorem tidies_hint : Gives i tidy (hint inner) :=
  .maybe ((tidies_hintFunctions hi h).bind fun _ hfunctions => .andThen fun _ =>
    .pure (tidy_hint (tidy_ofList hfunctions)))

theorem tidies_namedWindow : Gives i tidy (namedWindow inner) :=
  (tidies_identifier hi).bind fun _ hname => .andThen fun _ => (tidies_window hi h).bind fun _ hwindow =>
    .pure (tidy_namedWindow hname hwindow)

theorem tidies_select (allowFrom : Bool) : Gives i tidy (select inner allowFrom) := by
  refine .andThen fun _ => (tidies_hint hi h).many.bind fun hints hhints => .andThen fun quantifier => ?_
  refine (tidies_selectItems hi h).bind fun items hitems => ?_
  refine (tidies_fromClause hi h).maybe.bind fun source hsource => ?_
  refine h.expression.maybe.bind fun condition hcondition => ?_
  refine (tidies_groupBy h).maybe.bind fun grouping hgrouping => ?_
  refine h.expression.maybe.bind fun having hhaving => ?_
  refine (tidies_namedWindow hi h).commaSeparated.maybeList.bind fun windows hwindows => .pure ?_
  exact tidy_select quantifier (tidy_ofList hhints) (tidy_ofList hitems) (tidy_ofOption hsource) hcondition
    (tidy_ofOption hgrouping) hhaving (tidy_ofList hwindows)

/-! ## Bodies -/

omit hi

theorem tidies_limitOf : Gives i tidy (limitOf inner) :=
  .andThen fun _ => .ite (.pure tidy_limitAll) (h.expression.bind fun _ hcount => .pure (tidy_limitCount hcount))

theorem tidies_organization : Gives i tidy (organization inner) := by
  refine (tidies_orderItems h).maybeList.bind fun orderBy horderBy => ?_
  refine (tidies_expressions h).maybeList.bind fun clusterBy hclusterBy => ?_
  refine (tidies_expressions h).maybeList.bind fun distributeBy hdistributeBy => ?_
  refine (tidies_orderItems h).maybeList.bind fun sortBy hsortBy => ?_
  refine (tidies_limitOf h).maybe.bind fun limit hlimit => ?_
  refine h.expression.maybe.bind fun offset hoffset => .pure ?_
  exact tidy_organization (tidy_ofList horderBy) (tidy_ofList hclusterBy) (tidy_ofList hdistributeBy)
    (tidy_ofList hsortBy) (tidy_ofOption hlimit) (tidy_ofOption hoffset)

include hi

theorem tidies_fromBody : Gives i tidy (fromBody inner) := by
  refine .maybe ((tidies_select hi h false).bind fun body hbody => ?_)
  exact (tidies_organization h).bind fun clauses hclauses => .pure (tidy_fromBody hbody hclauses)

theorem tidies_fromBodies {source : FromClause} (hsource : tidy source) : Gives i tidy (fromBodies inner source) :=
  (tidies_fromBody hi h).many.bind fun _ hbodies =>
    .ite (gives_expected _) (.pure (tidy_fromFirst hsource (tidy_ofList hbodies)))

theorem tidies_bodyPrimary : Gives i tidy (bodyPrimary inner) := by
  refine .andThen fun _ => .ite ?select (.andThen fun _ => .ite ?values (.andThen fun _ => ?_))
  case select => exact (tidies_select hi h true).bind fun body hbody => .pure (tidy_selectBody hbody)
  case values =>
    refine (tidies_valuesRows h).bind fun rows hrows => (tidies_tableAlias hi).bind fun asName hname => .pure ?_
    exact tidy_valuesBody (tidy_ofList hrows) hname
  refine .ite ?table (.andThen fun _ => .ite ?source (.andThen fun _ => .ite ?nested (gives_expected _)))
  case table => exact (tidies_dottedName hi).bind fun name hname => .pure (tidy_tableBody hname)
  case source => exact (tidies_fromClause hi h).bind fun source hsource => tidies_fromBodies hi h hsource
  case nested => exact h.query.bind fun query hquery => .andThen fun _ => .pure (tidy_nestedQuery hquery)

omit hi h in
theorem tidies_setChain {operators : List (List String × SetOp)} {operand : Parse QueryBody}
    (hoperand : Gives i tidy operand) : Gives i tidy (setChain operators operand) := by
  refine hoperand.bind fun first hfirst => Gives.iterate (fun left hleft => ?_) first hfirst
  refine .andThen fun op => ?_
  cases op with
  | none => exact gives_none
  | some op =>
    refine .andThen fun quantifier => hoperand.bind fun right hright => .pure ?_
    exact tidy_some (tidy_setOperation op quantifier hleft hright)

theorem tidies_queryBody : Gives i tidy (queryBody inner) :=
  tidies_setChain (tidies_setChain (tidies_bodyPrimary hi h))

/-! ## Queries -/

theorem tidies_commonTable : Gives i tidy (commonTable inner) := by
  refine (tidies_identifier hi).bind fun name hname => (tidies_optionalIdentifierList hi).bind fun columns hcolumns => ?_
  refine .andThen fun _ => .andThen fun _ => h.query.bind fun query hquery => .andThen fun _ => .pure ?_
  exact tidy_commonTable hname hcolumns hquery

theorem tidies_withClause : Gives i tidy (withClause inner) :=
  .andThen fun _ => (tidies_commonTable hi h).commas.bind fun _ htables =>
    .pure (tidy_withClause htables.1 htables.2)

theorem tidies_queryAfterWith {tables : Option WithClause} (htables : tidy tables) :
    Gives i tidy (queryAfterWith inner tables) :=
  (tidies_queryBody hi h).bind fun _ hbody => (tidies_organization h).bind fun _ hclauses =>
    .pure (tidy_query (tidy_ofOption htables) hbody hclauses)

theorem tidies_queryOf : Gives i tidy (queryOf inner) :=
  (tidies_withClause hi h).maybe.bind fun _ htables => tidies_queryAfterWith hi h htables

end Grammar

/-! ## All levels of nesting -/

open Grammar Parse in
/-- The rules of a level are made of those one level further in. -/
theorem Inner.tidies_level {i : Input} (hi : i.Unbroken) (n : Nat) : (Inner.level n).Tidies i := by
  induction n with
  | zero => exact ⟨gives_fail _, gives_fail _, gives_fail _, gives_fail _, gives_fail _⟩
  | succ n ih =>
    exact
      { expression := tidies_expressionOf hi ih
        negation := tidies_negationExpr hi ih
        unary := tidies_unaryExpr hi ih
        query := tidies_queryOf hi ih
        relation := tidies_relationOf hi ih }

namespace Grammar

open Parse

variable {i : Input} (hi : i.Unbroken)

include hi

theorem gives_within {α : Type} {Q : α → Prop} {rule : Inner → Parse α}
    (h : ∀ inner : Inner, inner.Tidies i → Gives i Q (rule inner)) : Gives i Q (within rule) :=
  fun pos a next hrun => h (.level (i.remaining pos + 1)) (Inner.tidies_level hi _) pos a next hrun

theorem tidies_expression : Gives i tidy expression := gives_within hi fun _ h => h.expression

theorem tidies_query : Gives i tidy query := gives_within hi fun _ h => h.query

end Grammar

end SqlTidy
