import SqlTidy.Proofs.Filled.Shape

/-!
# What the rules for expressions fill

One lemma for each rule. Most lists come from `commaSeparated`, which cannot give back an empty one. The others
are not empty because of where the rule stands: the pieces of a string are read only where a string stands,
parameters and names start with an identifier, and `CASE` and intervals check their lists themselves.

A row is told apart from an expression in parentheses by the token behind its first item. If that token is no
closing parenthesis and there is no comma either, then the closing parenthesis is missed later, so a row of one
item without an alias is never given back (`fills_rowOrParen`).
-/

namespace SqlTidy

/-- The rules one level further in give back filled trees. -/
structure Inner.Filled (inner : Inner) : Prop where
  expression : Parse.Yields filled inner.expression
  negation : Parse.Yields filled inner.negation
  unary : Parse.Yields filled inner.unary
  query : Parse.Yields filled inner.query
  relation : Parse.Yields filled inner.relation

namespace Grammar

open Parse SqlTidy.Tree

/-! ## Names -/

/-- A name has a first part. -/
theorem fills_dottedName : Yields filled dottedName :=
  .andThen fun first => .andThen fun rest => .pure (List.cons_ne_nil first rest)

theorem yields_identifierList_ne_nil : Yields (· ≠ []) identifierList := by
  refine .andThen fun _ => Yields.bind (P := (· ≠ [])) ?_ fun names hnames => ?_
  · exact .andThen fun first => .andThen fun rest => .pure (List.cons_ne_nil first rest)
  · exact .andThen fun _ => .pure hnames

/-! ## Lists of expressions -/

variable {inner : Inner} (h : inner.Filled)

include h

theorem fills_expressions : Yields Stocked (expressions inner) := h.expression.stocked

theorem fills_expressionsBeforeParen : Yields filled (expressionsBeforeParen inner) :=
  .andThen fun _ => .ite yields_nil (fills_expressions h).unstocked

theorem fills_selectItem : Yields filled (selectItem inner) := by
  refine h.expression.bind fun value hvalue => ?_
  exact .andThen fun _ => .pure ⟨trivial, hvalue⟩

theorem fills_selectItems : Yields Stocked (selectItems inner) := (fills_selectItem h).stocked

theorem fills_orderItem : Yields filled (orderItem inner) := by
  refine h.expression.bind fun key hkey => ?_
  exact .andThen fun _ => .andThen fun _ => .pure ⟨trivial, hkey⟩

theorem fills_orderItems : Yields Stocked (orderItems inner) := (fills_orderItem h).stocked

omit h

/-! ## Chains of binary operators -/

theorem fills_chain {operators : Token → Option BinaryOp} {operand : Parse Expr}
    (hoperand : Yields filled operand) : Yields filled (chain operators operand) := by
  refine hoperand.bind fun first hfirst => Yields.iterate (fun left hleft => ?_) first hfirst
  refine .andThen fun op => ?_
  cases op with
  | none => exact yields_none
  | some op =>
    exact hoperand.bind fun right hright => Yields.toSome (.pure ⟨trivial, hleft, hright⟩)

theorem fills_additive {unary : Parse Expr} (hunary : Yields filled unary) :
    Yields filled (additive unary) :=
  fills_chain (fills_chain hunary)

theorem fills_comparison {unary : Parse Expr} (hunary : Yields filled unary) :
    Yields filled (comparison unary) :=
  fills_chain (fills_chain (fills_chain (fills_chain (fills_additive hunary))))

/-! ## Calls and windows -/

include h

theorem fills_callArg : Yields filled (callArg inner) := by
  refine .andThen fun _ => .andThen fun _ => .ite ?_ ?_
  · refine .andThen fun _ => .andThen fun _ => h.expression.bind fun value hvalue => ?_
    exact .pure ⟨trivial, hvalue⟩
  · exact h.expression.bind fun value hvalue => .pure ⟨trivial, hvalue⟩

theorem fills_callArgs : Yields filled (callArgs inner) := (fills_callArg h).stocked.unstocked

theorem fills_callArgsBeforeParen : Yields filled (callArgsBeforeParen inner) :=
  .andThen fun _ => .ite yields_nil (fills_callArgs h)

theorem fills_frameBound : Yields filled (frameBound inner) := by
  have hwords : ∀ r ∈ [(["UNBOUNDED", "PRECEDING"], (Tree.unboundedPreceding : FrameBound)),
      (["UNBOUNDED", "FOLLOWING"], .unboundedFollowing), (["CURRENT", "ROW"], .currentRow)],
      filled r.2 := by
    simp only [List.forall_mem_cons, List.not_mem_nil, false_implies, implies_true, and_true]
    exact ⟨trivial, trivial, trivial⟩
  refine (yields_choose hwords).bind fun bound hbound => ?_
  cases bound with
  | some bound => exact .pure (hbound bound rfl)
  | none =>
    refine (fills_additive h.unary).bind fun distance hdistance => ?_
    refine .andThen fun _ => .ite (.pure ⟨trivial, hdistance⟩) (.andThen fun _ => ?_)
    exact .ite (.pure ⟨trivial, hdistance⟩) (yields_expected _)

theorem fills_frameOf (unit : FrameUnit) : Yields filled (frameOf inner unit) := by
  refine .andThen fun _ => .ite ?_ ?_
  · refine (fills_frameBound h).bind fun start hstart => .andThen fun _ => ?_
    exact (fills_frameBound h).bind fun stop hstop => .pure ⟨trivial, hstart, hstop⟩
  · exact (fills_frameBound h).bind fun start hstart => .pure ⟨trivial, hstart, trivial⟩

theorem fills_optionalFrame : Yields filled (optionalFrame inner) := by
  refine .andThen fun unit => ?_
  cases unit with
  | none => exact yields_none
  | some unit => exact (fills_frameOf h unit).toSome

/-- Behind `DISTRIBUTE BY` there are keys. -/
theorem fills_windowPartition :
    Yields (fun (keys, distribute) => filled keys ∧ (distribute → keys ≠ []))
      (windowPartition inner) := by
  refine .andThen fun distribute => ?_
  cases distribute with
  | none => exact .pure ⟨Parts.filled_nil, nofun⟩
  | some distribute =>
    exact (fills_expressions h).bind fun keys hkeys => .pure ⟨hkeys.filled, fun _ => hkeys.ne_nil⟩

/-- Behind `SORT BY` there are keys, and a window is ordered in one way at most. -/
theorem fills_windowOrder :
    Yields (fun (items, sort, clusters) =>
        filled items ∧ filled clusters ∧ (sort → items ≠ []) ∧ (items = [] ∨ clusters = []))
      (windowOrder inner) := by
  refine .andThen fun ordering => ?_
  cases ordering with
  | none => exact .pure ⟨Parts.filled_nil, Parts.filled_nil, nofun, .inl rfl⟩
  | some ordering =>
    cases ordering with
    | order =>
      refine (fills_orderItems h).bind fun items hitems => .pure ?_
      exact ⟨hitems.filled, Parts.filled_nil, nofun, .inr rfl⟩
    | sort =>
      refine (fills_orderItems h).bind fun items hitems => .pure ?_
      exact ⟨hitems.filled, Parts.filled_nil, fun _ => hitems.ne_nil, .inr rfl⟩
    | cluster =>
      refine (fills_expressions h).bind fun keys hkeys => .pure ?_
      exact ⟨Parts.filled_nil, hkeys.filled, nofun, .inl rfl⟩

theorem fills_windowDefinition : Yields filled (windowDefinition inner) := by
  refine .andThen fun _ => ?_
  refine (fills_windowPartition h).bind fun (keys, distribute) ⟨hkeys, hdistribute⟩ => ?_
  refine (fills_windowOrder h).bind fun (items, sort, clusters) ⟨hitems, hclusters, hsort, hone⟩ => ?_
  refine (fills_optionalFrame h).bind fun bounds hbounds => .andThen fun _ => .pure ?_
  have hnode : Filled (.windowDefinition (.ofList keys) distribute (.ofList items) sort
      (.ofList clusters) (.ofOption bounds)) := by
    refine ⟨fun hd => ofList_ne_nil (hdistribute hd), fun hs => ofList_ne_nil (hsort hs), ?_⟩
    rcases hone with rfl | rfl
    · exact .inl rfl
    · exact .inr rfl
  exact ⟨hnode, filled_ofList hkeys, filled_ofList hitems, filled_ofList hclusters,
    filled_ofOption hbounds⟩

theorem fills_window : Yields filled (window inner) := by
  refine .andThen fun _ => .ite (.andThen fun _ => .pure trivial) ?_
  refine .andThen fun _ => .andThen fun _ => .ite ?_ ?_
  · exact .andThen fun _ => .andThen fun _ => .andThen fun _ => .pure trivial
  · exact (fills_windowDefinition h).bind fun definition hdefinition =>
      .pure ⟨trivial, hdefinition⟩

theorem fills_withinGroup : Yields filled (withinGroup inner) := by
  refine .maybeList (.andThen fun _ => .andThen fun _ => ?_)
  exact (fills_orderItems h).bind fun items hitems => .andThen fun _ => .pure hitems.filled

theorem fills_callFilter : Yields filled (callFilter inner) := by
  refine .maybe (.andThen fun _ => .andThen fun _ => ?_)
  exact h.expression.bind fun condition hcondition => .andThen fun _ => .pure hcondition

theorem fills_callOf {name : DottedName} (hname : filled name) : Yields filled (callOf inner name) := by
  have hargs : Yields filled (do
      if ← isSymbol .rparen then
        return (none, [])
      else
        let quantifier ← callQuantifier
        return (quantifier, ← callArgs inner) : Parse (Option Quantifier × List CallArg)) := by
    refine .andThen fun _ => .ite (.pure ⟨Parts.filled_none, Parts.filled_nil⟩) (.andThen fun _ => ?_)
    exact (fills_callArgs h).bind fun args hargs => .pure ⟨fun _ _ => trivial, hargs⟩
  refine .andThen fun _ => hargs.bind fun (quantifier, args) ⟨_, hargs⟩ => .andThen fun _ => ?_
  refine (fills_withinGroup h).bind fun group hgroup => ?_
  refine (fills_callFilter h).bind fun filter hfilter => .andThen fun _ => ?_
  refine (fills_window h).maybe.bind fun overWindow hwindow => .pure ?_
  exact ⟨hname, filled_ofList hargs, filled_ofList hgroup, filled_ofOption hfilter,
    filled_ofOption hwindow⟩

/-! ## Functions with a grammar of their own -/

omit h in
theorem fills_interval : Yields filled interval := by
  refine .andThen fun _ => .andThen fun parts => ?_
  cases parts with
  | nil => exact yields_expected _
  | cons part parts => exact .andThen fun _ => .pure (List.cons_ne_nil part parts)

theorem fills_caseBranch : Yields filled (caseBranch inner) := by
  refine .maybe (h.expression.bind fun condition hcondition => .andThen fun _ => ?_)
  exact h.expression.bind fun result hresult => .pure ⟨trivial, hcondition, hresult⟩

theorem fills_caseExpr : Yields filled (caseExpr inner) := by
  refine .andThen fun _ => h.expression.maybe.bind fun operand hoperand => ?_
  refine (fills_caseBranch h).stockedOrFail fun branches hbranches => ?_
  refine h.expression.maybe.bind fun otherwise hotherwise => .andThen fun _ => .pure ?_
  exact ⟨ofList_ne_nil hbranches.ne_nil, filled_ofOption hoperand, filled_ofList hbranches.filled,
    filled_ofOption hotherwise⟩

theorem fills_castExpr (form : CastForm) : Yields filled (castExpr inner form) := by
  refine .andThen fun _ => .andThen fun _ => h.expression.bind fun operand hoperand => ?_
  exact .andThen fun _ => .andThen fun type => .andThen fun _ => .pure ⟨trivial, hoperand⟩

theorem fills_extractExpr : Yields filled (extractExpr inner) := by
  refine .andThen fun _ => .andThen fun _ => .andThen fun _ => .andThen fun _ => ?_
  exact h.expression.bind fun source hsource => .andThen fun _ => .pure ⟨trivial, hsource⟩

omit h in
theorem fills_unlessSuffix {e : Expr} (he : filled e) : Yields filled (unlessSuffix e) :=
  .andThen fun _ => .ite yields_none (Yields.toSome (.pure he))

theorem fills_substringRange : Yields filled (substringRange inner) := by
  have hrange (test : Parse Bool) (keywordForm : Bool) : Yields filled (do
      let start ← inner.expression
      let length ← maybe test inner.expression
      return some (start, length, keywordForm) : Parse (Option (Expr × Option Expr × Bool))) := by
    refine h.expression.bind fun start hstart => ?_
    refine h.expression.maybe.bind fun length hlength => .pure ?_
    exact Parts.filled_some ⟨hstart, hlength, trivial⟩
  refine .andThen fun _ => .ite (hrange _ true) (.andThen fun _ => ?_)
  exact .ite (hrange _ false) yields_none

theorem fills_substringForm (name : String) : Yields filled (substringForm inner name) := by
  refine .andThen fun _ => .andThen fun _ => h.expression.bind fun source hsource => ?_
  refine (fills_substringRange h).bind fun range hrange => ?_
  cases range with
  | none => exact yields_none
  | some range =>
    obtain ⟨hstart, hlength, -⟩ := hrange range rfl
    refine .andThen fun _ => fills_unlessSuffix ?_
    exact ⟨trivial, hsource, hstart, filled_ofOption hlength⟩

theorem fills_trimOperands (side : Option TrimSide) : Yields filled (trimOperands inner side) := by
  refine .andThen fun _ => .ite ?_ ?_
  · refine h.expression.bind fun source hsource => .pure ?_
    exact Parts.filled_some ⟨Parts.filled_none, hsource⟩
  · refine h.expression.bind fun first hfirst => .andThen fun _ => .ite ?_ (.ite yields_none ?_)
    · refine h.expression.bind fun source hsource => .pure ?_
      exact Parts.filled_some ⟨Parts.filled_some hfirst, hsource⟩
    · exact .pure (Parts.filled_some ⟨Parts.filled_none, hfirst⟩)

theorem fills_trimForm : Yields filled (trimForm inner) := by
  refine .andThen fun _ => .andThen fun _ => .andThen fun side => ?_
  refine (fills_trimOperands h side).bind fun operands hoperands => ?_
  cases operands with
  | none => exact yields_none
  | some operands =>
    obtain ⟨hcharacters, hsource⟩ := hoperands operands rfl
    refine .andThen fun _ => Yields.toSome (.pure ?_)
    exact ⟨trivial, filled_ofOption hcharacters, hsource⟩

theorem fills_positionForm : Yields filled (positionForm inner) := by
  refine .andThen fun _ => .andThen fun _ => (fills_comparison h.unary).bind fun needle hneedle => ?_
  refine .andThen fun _ => .ite ?_ yields_none
  refine h.expression.bind fun haystack hhaystack => .andThen fun _ => Yields.toSome (.pure ?_)
  exact ⟨trivial, hneedle, hhaystack⟩

theorem fills_overlayForm : Yields filled (overlayForm inner) := by
  refine .andThen fun _ => .andThen fun _ => h.expression.bind fun target htarget => ?_
  refine .andThen fun _ => .ite ?_ yields_none
  refine h.expression.bind fun placing hplacing => .andThen fun _ => ?_
  refine h.expression.bind fun start hstart => ?_
  refine h.expression.maybe.bind fun length hlength => .andThen fun _ => Yields.toSome (.pure ?_)
  exact ⟨trivial, htarget, hplacing, hstart, filled_ofOption hlength⟩

theorem fills_firstLastForm (last : Bool) : Yields filled (firstLastForm inner last) := by
  refine .andThen fun _ => .andThen fun _ => h.expression.bind fun operand hoperand => ?_
  refine .andThen fun _ => .ite (.andThen fun _ => fills_unlessSuffix ?_) yields_none
  exact ⟨trivial, hoperand⟩

theorem fills_datetimeForm (name : String) : Yields filled (datetimeForm inner name) := by
  refine .andThen fun _ => .andThen fun _ => .andThen fun unit => ?_
  cases unit with
  | none => exact yields_none
  | some unit =>
    refine (fills_expressions h).bind fun args hargs => .andThen fun _ => fills_unlessSuffix ?_
    exact ⟨trivial, filled_ofList hargs.filled⟩

theorem fills_specialForm (word : String) : Yields filled (specialForm inner word) := by
  unfold specialForm
  split
  · exact (fills_substringForm h _).attempt
  · exact (fills_substringForm h _).attempt
  · exact (fills_trimForm h).attempt
  · exact (fills_positionForm h).attempt
  · exact (fills_overlayForm h).attempt
  · exact (fills_firstLastForm h false).attempt
  · exact (fills_firstLastForm h true).attempt
  · exact .ite (fills_datetimeForm h _).attempt yields_none

/-! ## Primary expressions -/

omit h in
/-- A name keeps its first part while it grows. -/
theorem yields_extendName {path : NamePath} (hpath : path.parts ≠ []) :
    Yields (fun o => ∀ longer ∈ o, NamePath.parts longer ≠ []) (extendName path) := by
  refine .ite yields_none (.andThen fun step => ?_)
  cases step with
  | none => exact yields_none
  | some step =>
    cases step with
    | star =>
      refine .pure ?_
      rintro _ ⟨⟩
      exact hpath
    | part name =>
      refine .pure ?_
      rintro _ ⟨⟩
      exact List.append_ne_nil_of_left_ne_nil hpath [name]

/-- A name of one part is no compound name. -/
theorem fills_bareName {parts : List Ident} (hparts : parts ≠ []) :
    Yields filled (bareName inner parts) := by
  unfold bareName
  split
  · refine .andThen fun _ => .ite ?_ (.pure trivial)
    exact h.expression.bind fun body hbody => .pure ⟨List.cons_ne_nil _ _, hbody⟩
  · rename_i hsingle
    refine .pure ?_
    show 2 ≤ parts.length
    rcases parts with _ | ⟨first, _ | ⟨second, rest⟩⟩
    · contradiction
    · exact absurd rfl (hsingle first)
    · simp

theorem fills_nameExpr : Yields filled (nameExpr inner) := by
  refine .andThen fun first => ?_
  refine (Yields.iterate (fun _ => yields_extendName) ⟨[first], false⟩
    (List.cons_ne_nil first [])).bind fun path hpath => ?_
  refine .ite (.pure hpath) (.andThen fun _ => .ite ?_ (fills_bareName h hpath))
  exact (fills_callOf h hpath).bind fun call hcall => .pure ⟨trivial, hcall⟩

theorem fills_parenQuery : Yields filled (parenQuery inner) :=
  .andThen fun _ => h.query.bind fun _ hquery => .andThen fun _ => .pure hquery

theorem fills_plainWord (word : String) (called : Bool) :
    Yields filled (plainWord inner word called) := by
  refine .ite ?_ (.ite (yields_expected _) (fills_nameExpr h))
  refine (fills_specialForm h word).bind fun form hform => ?_
  cases form with
  | none => exact fills_nameExpr h
  | some e => exact .pure (hform e rfl)

theorem fills_structExpr : Yields filled (structExpr inner) := by
  refine .andThen fun _ => (fills_selectItems h).unstocked.maybeList.bind fun fields hfields => ?_
  exact .andThen fun _ => .pure ⟨trivial, filled_ofList hfields⟩

omit h in
theorem fills_takeFor {e : Expr} (he : filled e) : Yields filled (takeFor e) :=
  .andThen fun _ => .pure he

theorem fills_keywordExpr (word : String) (called : Bool) :
    Yields filled (keywordExpr inner word called) := by
  unfold keywordExpr
  split
  · exact fills_takeFor trivial
  · exact fills_takeFor trivial
  · exact fills_takeFor trivial
  · exact fills_takeFor trivial
  · exact fills_takeFor trivial
  · exact fills_takeFor trivial
  · exact .andThen fun _ => .ite fills_interval (fills_plainWord h word _)
  · exact fills_caseExpr h
  · exact fills_castExpr h .cast
  · exact fills_castExpr h .tryCast
  · exact fills_extractExpr h
  · refine .andThen fun _ => .ite (.andThen fun _ => ?_) (fills_plainWord h word _)
    exact (fills_parenQuery h).bind fun query hquery => .pure ⟨trivial, hquery⟩
  · exact fills_structExpr h
  · exact fills_plainWord h word _

theorem fills_wordExpr (word : String) : Yields filled (wordExpr inner word) := by
  refine .andThen fun next => ?_
  split
  · exact .ite (.andThen fun _ => .pure trivial) (fills_keywordExpr h word false)
  · exact fills_keywordExpr h word _

omit h in
/-- Where no comma comes next there are no further items, and the cursor has not moved. -/
theorem ends_many_comma {α : Type} {p : Parse α} {i : Input} {pos : Nat} :
    Ends (many (maybe (accept .comma) p)) i pos fun rest next => rest = [] → next = pos := by
  refine Ends.many (fun _ => rfl) fun rest mid hrest => ?_
  refine .maybe (.accept ⟨fun _ => ⟨fun _ => hrest, nofun⟩, nofun⟩ fun _ => ⟨nofun, fun _ => ?_⟩)
  intro a next _
  exact ⟨nofun, fun _ _ hnil => absurd hnil (by simp)⟩

theorem fills_rowOrParen : Yields filled (rowOrParen inner) := by
  refine .andThen fun _ => h.expression.bind fun value hvalue => .andThen fun asName => ?_
  refine yields_iff_ends.2 fun i hi pos => Ends.isSymbol_bind ?_
  have hparen : Yields filled (takeFor (.paren value)) := fills_takeFor ⟨trivial, hvalue⟩
  refine .ite (fun _ => yields_iff_ends.1 hparen i hi pos) fun hopen => ?_
  have hitems : Yields filled (many (maybe (accept .comma) (selectItem inner))) :=
    Yields.many (fills_selectItem h).maybe
  refine ((yields_iff_ends.1 hitems i hi pos).and ends_many_comma).bind fun rest mid hrest => ?_
  obtain ⟨hrest, hmid⟩ := hrest
  refine Ends.bind (P := fun _ _ => i.tokenAt mid = .symbol .rparen) (.expect id) fun _ _ hclosed => ?_
  refine .pure ⟨fun single hsingle => ?_, ⟨trivial, hvalue⟩, filled_ofList hrest⟩
  -- One item without an alias: then the closing parenthesis stands right behind it.
  cases rest with
  | nil =>
    rw [hmid rfl] at hclosed
    cases hsingle
    simp [hclosed] at hopen
  | cons item rest => cases hsingle

theorem fills_lambdaOrRow : Yields filled (lambdaOrRow inner) := by
  have hparams : Yields (fun o => ∀ params ∈ o, params ≠ []) lambdaParams :=
    yields_identifierList_ne_nil.bind fun params hparams => .andThen fun _ => .pure (by
      rintro _ ⟨⟩
      exact hparams)
  refine hparams.attempt.bind fun params hparams => ?_
  cases params with
  | none => exact fills_rowOrParen h
  | some params => exact h.expression.bind fun body hbody => .pure ⟨hparams params rfl, hbody⟩

theorem fills_parenExpr : Yields filled (parenExpr inner) := by
  refine .andThen fun _ => .ite (fills_lambdaOrRow h) (.andThen fun _ => .ite ?_ ?_)
  · refine (fills_parenQuery h).toSome.attempt.bind fun query hquery => ?_
    cases query with
    | none => exact fills_lambdaOrRow h
    | some query => exact .pure ⟨trivial, hquery query rfl⟩
  · exact (fills_parenQuery h).bind fun query hquery => .pure ⟨trivial, hquery⟩

theorem fills_primary : Yields filled (primary inner) := by
  refine yields_iff_ends.2 fun i hi pos => Ends.current_bind ?_
  have yields {p : Parse Expr} (hp : Yields filled p) : Ends p i pos fun e _ => filled e :=
    yields_iff_ends.1 hp i hi pos
  split
  · exact yields (fills_takeFor trivial)
  · -- The first piece is the token that has been looked at.
    rename_i s hs
    have hpiece : Ends stringPiece i pos fun piece _ => piece ≠ Option.none :=
      .acceptIf (fun hnone => by simp [hs] at hnone) fun _ _ _ => nofun
    exact (ends_many_ne_nil hpiece).bind fun pieces _ hpieces => .pure hpieces
  · exact yields (fills_takeFor trivial)
  · exact yields (fills_parenExpr h)
  · exact yields (fills_nameExpr h)
  · exact yields (fills_wordExpr h _)
  · exact ends_expected _ _

/-! ## The levels above them -/

theorem fills_postfixStep {base : Expr} (hbase : filled base) :
    Yields filled (postfixStep inner base) := by
  refine .andThen fun _ => .ite ?_ (.andThen fun _ => .ite ?_ (.andThen fun name => ?_))
  · refine h.expression.bind fun index hindex => .andThen fun _ => Yields.toSome (.pure ?_)
    exact ⟨trivial, hbase, hindex⟩
  · exact .andThen fun type => Yields.toSome (.pure ⟨trivial, hbase⟩)
  · cases name with
    | none => exact yields_none
    | some name => exact Yields.toSome (.pure ⟨trivial, hbase⟩)

theorem fills_postfixExpr : Yields filled (postfixExpr inner) :=
  (fills_primary h).bind fun base hbase => Yields.iterate (fun _ => fills_postfixStep h) base hbase

theorem fills_unaryExpr : Yields filled (unaryExpr inner) := by
  refine .andThen fun op => ?_
  cases op with
  | none => exact fills_postfixExpr h
  | some op => exact h.unary.bind fun operand hoperand => .pure ⟨trivial, hoperand⟩

theorem fills_comparisonExpr : Yields filled (comparisonExpr inner) :=
  fills_comparison (fills_unaryExpr h)

theorem fills_predicateAfter {tested : Expr} (htested : filled tested) (negated : Bool)
    (word : PredicateWord) : Yields filled (predicateAfter inner tested negated word) := by
  cases word with
  | between =>
    refine (fills_comparisonExpr h).bind fun low hlow => .andThen fun _ => ?_
    exact (fills_comparisonExpr h).bind fun high hhigh => .pure ⟨trivial, htested, hlow, hhigh⟩
  | inside =>
    refine .andThen fun _ => .andThen fun _ => .ite ?_ ?_
    · refine h.query.bind fun query hquery => .andThen fun _ => .pure ?_
      exact ⟨trivial, htested, hquery⟩
    · refine (fills_expressions h).bind fun items hitems => .andThen fun _ => .pure ?_
      exact ⟨ofList_ne_nil hitems.ne_nil, htested, filled_ofList hitems.filled⟩
  | like op =>
    refine (fills_comparisonExpr h).bind fun pattern hpattern => .andThen fun escape => .pure ?_
    exact ⟨trivial, htested, hpattern⟩

theorem fills_predicateAfterIs {tested : Expr} (htested : filled tested) :
    Yields filled (predicateAfterIs inner tested) := by
  refine .andThen fun negated => .andThen fun _ => .ite ?_ (.andThen fun test => ?_)
  · exact (fills_comparisonExpr h).bind fun other hother => .pure ⟨trivial, htested, hother⟩
  · cases test with
    | none => exact yields_expected _
    | some test => exact .pure ⟨trivial, htested⟩

theorem fills_predicateStep {tested : Expr} (htested : filled tested) :
    Yields filled (predicateStep inner tested) := by
  refine .andThen fun head => ?_
  cases head with
  | none => exact (fills_predicateAfterIs h htested).maybe
  | some head =>
    obtain ⟨negated, word⟩ := head
    exact (fills_predicateAfter h htested negated word).toSome

theorem fills_predicate : Yields filled (predicate inner) :=
  (fills_comparisonExpr h).bind fun tested htested =>
    Yields.iterate (fun _ => fills_predicateStep h) tested htested

theorem fills_negationExpr : Yields filled (negationExpr inner) := by
  refine .andThen fun _ => .ite ?_ (fills_predicate h)
  exact h.negation.bind fun operand hoperand => .pure ⟨trivial, hoperand⟩

theorem fills_expressionOf : Yields filled (expressionOf inner) :=
  fills_chain (fills_chain (fills_negationExpr h))

end Grammar

end SqlTidy
