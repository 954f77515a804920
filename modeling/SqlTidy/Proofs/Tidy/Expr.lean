import SqlTidy.Proofs.Tidy.Word

/-!
# Expressions that are read from unbroken tokens are tidy

One lemma for each rule. Four lists must not be empty for their node to be tidy. The rule for names starts with a first
part and only adds to it, the one for strings stands at a string, and parameters are read one by one with commas between
them.
-/

namespace SqlTidy

/-- The rules one level further in give back tidy trees. -/
structure Inner.Tidies (inner : Inner) (i : Input) : Prop where
  expression : Parse.Gives i tidy inner.expression
  negation : Parse.Gives i tidy inner.negation
  unary : Parse.Gives i tidy inner.unary
  query : Parse.Gives i tidy inner.query
  relation : Parse.Gives i tidy inner.relation

namespace Grammar

open Parse Tidy SqlTidy.Tree SqlTidy.Layout

variable {inner : Inner} {i : Input} (hi : i.Unbroken) (h : inner.Tidies i)

/-! ## Lists of expressions -/

include h

theorem tidies_expressions : Gives i tidy (expressions inner) := h.expression.commaSeparated

theorem tidies_expressionsBeforeParen : Gives i tidy (expressionsBeforeParen inner) :=
  .andThen fun _ => .ite gives_nil (tidies_expressions h)

omit h
include hi

theorem tidies_selectAlias : Gives i tidy selectAlias := by
  have hname : Gives i (fun name => ∀ explicitAs, tidy (Alias.mk explicitAs name)) aliasName := by
    refine .andThen fun _ => .ite ?_ ?_
    · exact (tidies_identifierList hi).bind fun names hnames => .pure fun explicitAs => tidy_aliasNames explicitAs hnames
    · exact (tidies_identifier hi).bind fun name hname => .pure fun explicitAs => tidy_aliasName explicitAs hname
  refine .andThen fun _ => .ite ?_ (.andThen fun _ => .ite ?_ gives_none)
  · exact hname.bind fun name hname => .pure (tidy_some (hname true))
  · exact (tidies_identifier hi).bind fun name hname => .pure (tidy_some (tidy_aliasName false hname))

include h

theorem tidies_selectItem : Gives i tidy (selectItem inner) :=
  h.expression.bind fun _ hvalue => (tidies_selectAlias hi).bind fun _ hname => .pure (tidy_selectItem hvalue hname)

theorem tidies_selectItems : Gives i tidy (selectItems inner) := (tidies_selectItem hi h).commaSeparated

omit hi

theorem tidies_orderItem : Gives i tidy (orderItem inner) :=
  h.expression.bind fun _ hkey => .andThen fun direction => .andThen fun nulls =>
    .pure (tidy_orderItem direction nulls hkey)

theorem tidies_orderItems : Gives i tidy (orderItems inner) := (tidies_orderItem h).commaSeparated

omit h

/-! ## Chains of binary operators -/

theorem tidies_chain {operators : Token → Option BinaryOp} {operand : Parse Expr}
    (hoperand : Gives i tidy operand) : Gives i tidy (chain operators operand) := by
  refine hoperand.bind fun first hfirst => Gives.iterate (fun left hleft => ?_) first hfirst
  refine .andThen fun op => ?_
  cases op with
  | none => exact gives_none
  | some op => exact hoperand.bind fun right hright => .pure (tidy_some (tidy_binary op hleft hright))

theorem tidies_additive {unary : Parse Expr} (hunary : Gives i tidy unary) : Gives i tidy (additive unary) :=
  tidies_chain (tidies_chain hunary)

theorem tidies_comparison {unary : Parse Expr} (hunary : Gives i tidy unary) :
    Gives i tidy (comparison unary) :=
  tidies_chain (tidies_chain (tidies_chain (tidies_chain (tidies_additive hunary))))

/-! ## Calls and windows -/

include hi h

theorem tidies_callArg : Gives i tidy (callArg inner) := by
  refine .andThen fun _ => .andThen fun _ => .ite ?_ ?_
  · refine (tidies_identifier hi).bind fun name hname => .andThen fun _ => ?_
    exact h.expression.bind fun value hvalue => .pure (tidy_named hname hvalue)
  · exact h.expression.bind fun value hvalue => .pure (tidy_positional hvalue)

theorem tidies_callArgs : Gives i tidy (callArgs inner) := (tidies_callArg hi h).commaSeparated

theorem tidies_callArgsBeforeParen : Gives i tidy (callArgsBeforeParen inner) :=
  .andThen fun _ => .ite gives_nil (tidies_callArgs hi h)

omit hi

theorem tidies_frameBound : Gives i tidy (frameBound inner) := by
  have hwords : ∀ r ∈ [(["UNBOUNDED", "PRECEDING"], (Tree.unboundedPreceding : FrameBound)),
      (["UNBOUNDED", "FOLLOWING"], .unboundedFollowing), (["CURRENT", "ROW"], .currentRow)],
      tidy r.2 := by
    simp only [List.forall_mem_cons, List.not_mem_nil, false_implies, implies_true, and_true]
    exact ⟨tidy_unboundedPreceding, tidy_unboundedFollowing, tidy_currentRow⟩
  refine (gives_choose hwords).bind fun bound hbound => ?_
  cases bound with
  | some bound => exact .pure (hbound bound rfl)
  | none =>
    refine (tidies_additive h.unary).bind fun distance hdistance => .andThen fun _ => .ite ?_ (.andThen fun _ => ?_)
    · exact .pure (tidy_preceding hdistance)
    · exact .ite (.pure (tidy_following hdistance)) (gives_expected _)

theorem tidies_frameOf (unit : FrameUnit) : Gives i tidy (frameOf inner unit) := by
  refine .andThen fun _ => .ite ?_ ?_
  · refine (tidies_frameBound h).bind fun start hstart => .andThen fun _ => ?_
    exact (tidies_frameBound h).bind fun stop hstop => .pure (tidy_frame unit hstart (tidy_ofOption (tidy_some hstop)))
  · exact (tidies_frameBound h).bind fun start hstart => .pure (tidy_frame unit hstart (tidy_ofOption tidy_none))

theorem tidies_optionalFrame : Gives i tidy (optionalFrame inner) := by
  refine .andThen fun unit => ?_
  cases unit with
  | none => exact gives_none
  | some unit => exact (tidies_frameOf h unit).toSome

theorem tidies_windowPartition : Gives i (fun part => tidy part.1) (windowPartition inner) := by
  refine .andThen fun distribute => ?_
  cases distribute with
  | none => exact .pure tidy_nil
  | some distribute => exact (tidies_expressions h).bind fun keys hkeys => .pure hkeys

theorem tidies_windowOrder : Gives i (fun part => tidy part.1 ∧ tidy part.2.2) (windowOrder inner) := by
  refine .andThen fun ordering => ?_
  cases ordering with
  | none => exact .pure ⟨tidy_nil, tidy_nil⟩
  | some ordering =>
    cases ordering with
    | order => exact (tidies_orderItems h).bind fun items hitems => .pure ⟨hitems, tidy_nil⟩
    | sort => exact (tidies_orderItems h).bind fun items hitems => .pure ⟨hitems, tidy_nil⟩
    | cluster => exact (tidies_expressions h).bind fun keys hkeys => .pure ⟨tidy_nil, hkeys⟩

theorem tidies_windowDefinition : Gives i tidy (windowDefinition inner) := by
  refine .andThen fun _ => (tidies_windowPartition h).bind fun part hkeys => ?_
  refine (tidies_windowOrder h).bind fun order horder => ?_
  refine (tidies_optionalFrame h).bind fun bounds hbounds => .andThen fun _ => .pure ?_
  exact tidy_windowDefinition part.2 order.2.1 (tidy_ofList hkeys) (tidy_ofList horder.1) (tidy_ofList horder.2)
    (tidy_ofOption hbounds)

include hi

theorem tidies_window : Gives i tidy (window inner) := by
  refine .andThen fun _ => .ite ?_ (.andThen fun _ => .andThen fun _ => .ite (.andThen fun _ => ?_) ?_)
  · exact (tidies_identifier hi).bind fun name hname => .pure (tidy_windowName hname)
  · exact (tidies_identifier hi).bind fun name hname => .andThen fun _ => .pure (tidy_windowNameParen hname)
  · exact (tidies_windowDefinition h).bind fun definition hdefinition => .pure (tidy_windowInline hdefinition)

omit hi

theorem tidies_withinGroup : Gives i tidy (withinGroup inner) := by
  refine .maybeList (.andThen fun _ => .andThen fun _ => ?_)
  exact (tidies_orderItems h).bind fun items hitems => .andThen fun _ => .pure hitems

theorem tidies_callFilter : Gives i tidy (callFilter inner) := by
  refine .maybe (.andThen fun _ => .andThen fun _ => ?_)
  exact h.expression.bind fun condition hcondition => .andThen fun _ => .pure hcondition

include hi

theorem tidies_callOf {name : DottedName} (hname : tidy name) : Gives i tidy (callOf inner name) := by
  have hargs : Gives i (fun part => tidy part.2) (do
      if ← isSymbol .rparen then
        return (none, [])
      else
        let quantifier ← callQuantifier
        return (quantifier, ← callArgs inner) : Parse (Option Quantifier × List CallArg)) := by
    refine .andThen fun _ => .ite (.pure tidy_nil) (.andThen fun _ => ?_)
    exact (tidies_callArgs hi h).bind fun args hargs => .pure hargs
  refine .andThen fun _ => hargs.bind fun part hargs => .andThen fun _ => ?_
  refine (tidies_withinGroup h).bind fun group hgroup => ?_
  refine (tidies_callFilter h).bind fun filter hfilter => .andThen fun nulls => ?_
  refine (tidies_window hi h).maybe.bind fun overWindow hwindow => .pure ?_
  exact tidy_call part.1 nulls hname (tidy_ofList hargs) (tidy_ofList hgroup) hfilter (tidy_ofOption hwindow)

/-! ## Functions with a grammar of their own -/

omit h

/-- A minus in front of a number belongs to the value. -/
theorem tidies_intervalValue : Gives i tidy intervalValue := by
  refine .current hi fun t ht => .peek hi fun t' ht' => ?_
  split
  · exact .andThen fun _ => .pure (tidy_some (Text.tidy_minus ht'.tidy_number))
  · refine gives_acceptIf hi fun t ht s hs => ?_
    cases t with
    | string =>
      cases hs
      exact ht.tidy_string
    | number =>
      cases hs
      exact ht.tidy_number
    | _ => contradiction

theorem tidies_intervalPart : Gives i tidy intervalPart := by
  refine (tidies_intervalValue hi).bind fun value hvalue => ?_
  cases value with
  | none => exact gives_none
  | some value =>
    refine (gives_acceptIf hi fun t ht => tidy_capitalsAmong ht).bind fun unit hunit => .pure (tidy_some ?_)
    exact Layout.tidy_intervalPart (hvalue value rfl) hunit

theorem tidies_interval : Gives i tidy interval := by
  refine .andThen fun _ => (tidies_intervalPart hi).many.bind fun parts hparts => .ite (gives_expected _) ?_
  refine (gives_expectIf hi fun t ht => tidy_capitalsAmong ht).maybe.bind fun upTo hupTo => ?_
  exact .pure (Tree.tidy_interval hparts hupTo)

include h
omit hi

theorem tidies_caseBranch : Gives i tidy (caseBranch inner) := by
  refine .maybe (h.expression.bind fun condition hcondition => .andThen fun _ => ?_)
  exact h.expression.bind fun result hresult => .pure (tidy_branch hcondition hresult)

theorem tidies_caseExpr : Gives i tidy (caseExpr inner) := by
  refine .andThen fun _ => h.expression.maybe.bind fun operand hoperand => ?_
  refine (tidies_caseBranch h).many.bind fun branches hbranches => .ite (gives_expected _) ?_
  refine h.expression.maybe.bind fun otherwise hotherwise => .andThen fun _ => .pure ?_
  exact tidy_case (tidy_ofOption hoperand) (tidy_ofList hbranches) (tidy_ofOption hotherwise)

include hi

theorem tidies_castExpr (form : CastForm) : Gives i tidy (castExpr inner form) := by
  refine .andThen fun _ => .andThen fun _ => h.expression.bind fun operand hoperand => .andThen fun _ => ?_
  exact (tidies_dataType hi).bind fun type htype => .andThen fun _ => .pure (tidy_cast form hoperand htype)

theorem tidies_extractExpr : Gives i tidy (extractExpr inner) := by
  refine .andThen fun _ => .andThen fun _ => (gives_expectIf hi fun t ht => tidy_capitals ht).bind fun part hpart => ?_
  refine .andThen fun _ => h.expression.bind fun source hsource => .andThen fun _ => ?_
  exact .pure (tidy_extract hpart hsource)

omit hi h in
theorem tidies_unlessSuffix {e : Expr} (he : tidy e) : Gives i tidy (unlessSuffix e) :=
  .andThen fun _ => .ite gives_none (.pure (tidy_some he))

omit hi

theorem tidies_substringRange :
    Gives i (fun o => ∀ range ∈ o, tidy range.1 ∧ tidy range.2.1) (substringRange inner) := by
  have hrange (test : Parse Bool) (keywordForm : Bool) :
      Gives i (fun o => ∀ range ∈ o, tidy range.1 ∧ tidy range.2.1) (do
        let start ← inner.expression
        let length ← maybe test inner.expression
        return some (start, length, keywordForm) : Parse (Option (Expr × Option Expr × Bool))) := by
    refine h.expression.bind fun start hstart => h.expression.maybe.bind fun length hlength => .pure ?_
    rintro _ ⟨⟩
    exact ⟨hstart, hlength⟩
  exact .andThen fun _ => .ite (hrange _ true) (.andThen fun _ => .ite (hrange _ false) gives_none)

theorem tidies_substringForm {name : String} (hname : tidy name) : Gives i tidy (substringForm inner name) := by
  refine .andThen fun _ => .andThen fun _ => h.expression.bind fun source hsource => ?_
  refine (tidies_substringRange h).bind fun range hrange => ?_
  cases range with
  | none => exact gives_none
  | some range =>
    obtain ⟨hstart, hlength⟩ := hrange range rfl
    refine .andThen fun _ => tidies_unlessSuffix ?_
    exact tidy_substring range.2.2 hname hsource hstart (tidy_ofOption hlength)

theorem tidies_trimOperands (side : Option TrimSide) : Gives i tidy (trimOperands inner side) := by
  refine .andThen fun _ => .ite ?_ ?_
  · exact h.expression.bind fun source hsource => .pure (tidy_some ⟨tidy_none, hsource⟩)
  · refine h.expression.bind fun first hfirst => .andThen fun _ => .ite ?_ (.ite gives_none ?_)
    · exact h.expression.bind fun source hsource => .pure (tidy_some ⟨tidy_some hfirst, hsource⟩)
    · exact .pure (tidy_some ⟨tidy_none, hfirst⟩)

theorem tidies_trimForm : Gives i tidy (trimForm inner) := by
  refine .andThen fun _ => .andThen fun _ => .andThen fun side => ?_
  refine (tidies_trimOperands h side).bind fun operands hoperands => ?_
  cases operands with
  | none => exact gives_none
  | some operands =>
    obtain ⟨hcharacters, hsource⟩ := hoperands operands rfl
    exact .andThen fun _ => .pure (tidy_some (tidy_trim side (tidy_ofOption hcharacters) hsource))

theorem tidies_positionForm : Gives i tidy (positionForm inner) := by
  refine .andThen fun _ => .andThen fun _ => (tidies_comparison h.unary).bind fun needle hneedle => ?_
  refine .andThen fun _ => .ite ?_ gives_none
  refine h.expression.bind fun haystack hhaystack => .andThen fun _ => .pure ?_
  exact tidy_some (tidy_position hneedle hhaystack)

theorem tidies_overlayForm : Gives i tidy (overlayForm inner) := by
  refine .andThen fun _ => .andThen fun _ => h.expression.bind fun target htarget => ?_
  refine .andThen fun _ => .ite ?_ gives_none
  refine h.expression.bind fun placing hplacing => .andThen fun _ => h.expression.bind fun start hstart => ?_
  refine h.expression.maybe.bind fun length hlength => .andThen fun _ => .pure ?_
  exact tidy_some (tidy_overlay htarget hplacing hstart (tidy_ofOption hlength))

theorem tidies_firstLastForm (last : Bool) : Gives i tidy (firstLastForm inner last) := by
  refine .andThen fun _ => .andThen fun _ => h.expression.bind fun operand hoperand => ?_
  refine .andThen fun _ => .ite (.andThen fun _ => tidies_unlessSuffix ?_) gives_none
  exact tidy_firstLast last true hoperand

omit h
include hi

theorem tidies_datetimeUnit : Gives i tidy datetimeUnit := by
  have hword : Gives i tidy currentWord := by
    refine .current hi fun t ht => ?_
    split
    · exact .pure (tidy_some ht.tidy_upper)
    · exact gives_none
  refine hword.bind fun word hword => ?_
  cases word with
  | none => exact gives_none
  | some word =>
    exact .andThen fun _ => .ite (.andThen fun _ => .pure (tidy_some (hword word rfl))) gives_none

include h

theorem tidies_datetimeForm {name : String} (hname : tidy name) : Gives i tidy (datetimeForm inner name) := by
  refine .andThen fun _ => .andThen fun _ => (tidies_datetimeUnit hi).bind fun unit hunit => ?_
  cases unit with
  | none => exact gives_none
  | some unit =>
    refine (tidies_expressions h).bind fun args hargs => .andThen fun _ => tidies_unlessSuffix ?_
    exact tidy_datetime hname (hunit unit rfl) (tidy_ofList hargs)

theorem tidies_specialForm {word : String} (hword : tidy (Text.lower word)) :
    Gives i tidy (specialForm inner word) := by
  unfold specialForm
  split
  · exact (tidies_substringForm h hword).attempt
  · exact (tidies_substringForm h hword).attempt
  · exact (tidies_trimForm h).attempt
  · exact (tidies_positionForm h).attempt
  · exact (tidies_overlayForm h).attempt
  · exact (tidies_firstLastForm h false).attempt
  · exact (tidies_firstLastForm h true).attempt
  · exact .ite (tidies_datetimeForm hi h hword).attempt gives_none

/-! ## Primary expressions -/

omit h

/-- A name keeps its first part while it grows. -/
theorem tidies_extendName {path : NamePath} (hne : path.parts ≠ []) (hpath : tidy path.parts) :
    Gives i (fun o => ∀ longer ∈ o, NamePath.parts longer ≠ [] ∧ tidy longer.parts) (extendName path) := by
  have hstep : Gives i (fun o => ∀ name, o = some (NameStep.part name) → tidy name) nameStep := by
    refine .andThen fun _ => .ite (.andThen fun t => ?_) (.pure nofun)
    split
    · exact .andThen fun _ => .pure nofun
    · refine .ite (.andThen fun _ => (tidies_identifier hi).bind fun name hname => .pure ?_) (.pure nofun)
      rintro _ ⟨⟩
      exact hname
  refine .ite gives_none (hstep.bind fun step hstep => ?_)
  cases step with
  | none => exact gives_none
  | some step =>
    cases step with
    | star =>
      refine .pure ?_
      rintro _ ⟨⟩
      exact ⟨hne, hpath⟩
    | part name =>
      refine .pure ?_
      rintro _ ⟨⟩
      refine ⟨List.append_ne_nil_of_left_ne_nil hne [name], List.forall_mem_append.2 ⟨hpath, ?_⟩⟩
      exact tidy_cons (hstep name rfl) tidy_nil

include h
omit hi

theorem tidies_bareName {parts : List Ident} (hne : parts ≠ []) (hparts : tidy parts) :
    Gives i tidy (bareName inner parts) := by
  unfold bareName
  split
  · have hname := hparts _ List.mem_cons_self
    refine .andThen fun _ => .ite ?_ (.pure (tidy_ident hname))
    exact h.expression.bind fun body hbody => .pure (tidy_lambda false hne hparts hbody)
  · exact .pure (tidy_compound hne hparts)

include hi

theorem tidies_nameExpr : Gives i tidy (nameExpr inner) := by
  refine (tidies_identifier hi).bind fun first hfirst => ?_
  have hpath := Gives.iterate (fun path hpath => tidies_extendName hi hpath.1 hpath.2) ⟨[first], false⟩
    ⟨List.cons_ne_nil first [], tidy_cons hfirst tidy_nil⟩
  refine hpath.bind fun path hpath => ?_
  obtain ⟨hne, hparts⟩ := hpath
  have hname : tidy (DottedName.mk path.parts) := by
    obtain ⟨head, rest, heq⟩ := List.exists_cons_of_ne_nil hne
    rw [heq] at hparts ⊢
    exact DottedName.tidy_of (hparts head List.mem_cons_self) fun name hmem => hparts name (List.mem_cons_of_mem _ hmem)
  refine .ite (.pure (tidy_qualifiedWildcard hname)) (.andThen fun _ => .ite ?_ (tidies_bareName h hne hparts))
  exact (tidies_callOf hi h hname).bind fun call hcall => .pure (tidy_function hcall)

omit hi in
theorem tidies_parenQuery : Gives i tidy (parenQuery inner) :=
  .andThen fun _ => h.query.bind fun _ hquery => .andThen fun _ => .pure hquery

theorem tidies_plainWord {word : String} (hword : tidy (Text.lower word)) (called : Bool) :
    Gives i tidy (plainWord inner word called) := by
  refine .ite ?_ (.ite (gives_expected _) (tidies_nameExpr hi h))
  refine (tidies_specialForm hi h hword).bind fun form hform => ?_
  cases form with
  | none => exact tidies_nameExpr hi h
  | some e => exact .pure (hform e rfl)

theorem tidies_structExpr : Gives i tidy (structExpr inner) := by
  refine .andThen fun _ => (tidies_selectItems hi h).maybeList.bind fun fields hfields => ?_
  exact .andThen fun _ => .pure (Tree.tidy_struct (tidy_ofList hfields))

omit hi h in
theorem tidies_takeFor {e : Expr} (he : tidy e) : Gives i tidy (takeFor e) := .andThen fun _ => .pure he

theorem tidies_keywordExpr {word : String} (hword : tidy (Text.lower word)) (called : Bool) :
    Gives i tidy (keywordExpr inner word called) := by
  unfold keywordExpr
  split
  · exact tidies_takeFor (tidy_literal (Doc.Lands.text rfl))
  · exact tidies_takeFor (tidy_literal (Doc.Lands.text rfl))
  · exact tidies_takeFor (tidy_literal (Doc.Lands.text rfl))
  · exact tidies_takeFor (tidy_currentValue hword)
  · exact tidies_takeFor (tidy_currentValue hword)
  · exact tidies_takeFor (tidy_currentValue hword)
  · exact .andThen fun _ => .ite (tidies_interval hi) (tidies_plainWord hi h hword _)
  · exact tidies_caseExpr h
  · exact tidies_castExpr hi h .cast
  · exact tidies_castExpr hi h .tryCast
  · exact tidies_extractExpr hi h
  · refine .andThen fun _ => .ite (.andThen fun _ => ?_) (tidies_plainWord hi h hword _)
    exact (tidies_parenQuery h).bind fun query hquery => .pure (tidy_existsQuery hquery)
  · exact tidies_structExpr hi h
  · exact tidies_plainWord hi h hword _

theorem tidies_wordExpr {word : String} (hword : (Token.word word).Unbroken) : Gives i tidy (wordExpr inner word) := by
  refine .peek hi fun next hnext => ?_
  split
  · refine .ite (.andThen fun _ => .pure ?_) (tidies_keywordExpr hi h hword.tidy_lower false)
    exact tidy_typedLiteral hword.tidy_upper hnext.tidy_string
  · exact tidies_keywordExpr hi h hword.tidy_lower _

theorem tidies_rowOrParen : Gives i tidy (rowOrParen inner) := by
  refine .andThen fun _ => h.expression.bind fun value hvalue => ?_
  refine (tidies_selectAlias hi).bind fun asName hname => .andThen fun _ => .ite ?_ ?_
  · exact tidies_takeFor (tidy_paren hvalue)
  · refine (tidies_selectItem hi h).maybe.many.bind fun rest hrest => .andThen fun _ => .pure ?_
    exact tidy_row (tidy_ofList (tidy_cons (tidy_selectItem hvalue hname) hrest))

theorem tidies_lambdaOrRow : Gives i tidy (lambdaOrRow inner) := by
  have hparams : Gives i (fun o => ∀ params ∈ o, params ≠ [] ∧ tidy params) lambdaParams :=
    (gives_identifierList hi).bind fun params hparams => .andThen fun _ => .pure (by
      rintro _ ⟨⟩
      exact hparams)
  refine hparams.attempt.bind fun params hparams => ?_
  cases params with
  | none => exact tidies_rowOrParen hi h
  | some params =>
    obtain ⟨hne, hparams⟩ := hparams params rfl
    exact h.expression.bind fun body hbody => .pure (tidy_lambda true hne hparams hbody)

theorem tidies_parenExpr : Gives i tidy (parenExpr inner) := by
  refine .andThen fun _ => .ite (tidies_lambdaOrRow hi h) (.andThen fun _ => .ite ?_ ?_)
  · refine (tidies_parenQuery h).toSome.attempt.bind fun query hquery => ?_
    cases query with
    | none => exact tidies_lambdaOrRow hi h
    | some query => exact .pure (tidy_subquery (hquery query rfl))
  · exact (tidies_parenQuery h).bind fun query hquery => .pure (tidy_subquery hquery)

omit h

theorem tidies_stringPiece : Gives i tidy stringPiece := by
  refine gives_acceptIf hi fun t ht s hs => ?_
  cases t with
  | string =>
    cases hs
    exact ht.tidy_string
  | _ => contradiction

include h

theorem tidies_primary : Gives i tidy (primary inner) := by
  refine fun pos => Ends.current_bind ?_
  have htoken := hi.tokenAt pos
  split
  · rename_i n hn
    rw [hn] at htoken
    have hnumber : tidy (Literal.number n) := Doc.Lands.text htoken.tidy_number
    exact tidies_takeFor (tidy_literal hnumber) pos
  · -- The first piece is the token that has been looked at.
    rename_i s hs
    have hpiece : Ends stringPiece i pos fun piece _ => piece ≠ Option.none :=
      .acceptIf (fun hnone => by simp [hs] at hnone) fun _ _ _ => by simp
    have hpieces := (ends_many_ne_nil hpiece).and ((tidies_stringPiece hi).many pos)
    exact hpieces.bind fun pieces _ hpieces => .pure (tidy_literal (tidy_stringPieces hpieces.1 hpieces.2))
  · exact tidies_takeFor tidy_wildcard pos
  · exact tidies_parenExpr hi h pos
  · exact tidies_nameExpr hi h pos
  · rename_i word hword
    rw [hword] at htoken
    exact tidies_wordExpr hi h htoken pos
  · exact ends_expected _ _

/-! ## The levels above them -/

theorem tidies_postfixStep {base : Expr} (hbase : tidy base) : Gives i tidy (postfixStep inner base) := by
  refine .andThen fun _ => .ite ?_ (.andThen fun _ => .ite ?_ ?_)
  · refine h.expression.bind fun index hindex => .andThen fun _ => .pure ?_
    exact tidy_some (tidy_subscript hbase hindex)
  · exact (tidies_dataType hi).bind fun type htype => .pure (tidy_some (tidy_cast .shorthand hbase htype))
  · refine (tidies_dottedPart hi).bind fun name hname => ?_
    cases name with
    | none => exact gives_none
    | some name => exact .pure (tidy_some (Tree.tidy_field hbase (hname name rfl)))

theorem tidies_postfixExpr : Gives i tidy (postfixExpr inner) :=
  (tidies_primary hi h).bind fun base hbase => Gives.iterate (fun _ => tidies_postfixStep hi h) base hbase

theorem tidies_unaryExpr : Gives i tidy (unaryExpr inner) := by
  refine .andThen fun op => ?_
  cases op with
  | none => exact tidies_postfixExpr hi h
  | some op => exact h.unary.bind fun operand hoperand => .pure (tidy_unary op hoperand)

theorem tidies_comparisonExpr : Gives i tidy (comparisonExpr inner) := tidies_comparison (tidies_unaryExpr hi h)

theorem tidies_predicateAfter {tested : Expr} (htested : tidy tested) (negated : Bool) (word : PredicateWord) :
    Gives i tidy (predicateAfter inner tested negated word) := by
  cases word with
  | between =>
    refine (tidies_comparisonExpr hi h).bind fun low hlow => .andThen fun _ => ?_
    exact (tidies_comparisonExpr hi h).bind fun high hhigh => .pure (tidy_between negated htested hlow hhigh)
  | inside =>
    refine .andThen fun _ => .andThen fun _ => .ite ?_ ?_
    · refine h.query.bind fun query hquery => .andThen fun _ => .pure ?_
      exact tidy_inQuery negated htested hquery
    · refine (tidies_expressions h).bind fun items hitems => .andThen fun _ => .pure ?_
      exact tidy_inList negated htested (tidy_ofList hitems)
  | like op =>
    refine (tidies_comparisonExpr hi h).bind fun pattern hpattern => ?_
    refine (tidies_optionalString hi _).bind fun escape hescape => .pure ?_
    exact tidy_like negated op htested hpattern hescape

theorem tidies_predicateAfterIs {tested : Expr} (htested : tidy tested) :
    Gives i tidy (predicateAfterIs inner tested) := by
  refine .andThen fun negated => .andThen fun _ => .ite ?_ (.andThen fun test => ?_)
  · exact (tidies_comparisonExpr hi h).bind fun other hother => .pure (tidy_distinctFrom negated htested hother)
  · cases test with
    | none => exact gives_expected _
    | some test => exact .pure (tidy_is negated test htested)

theorem tidies_predicateStep {tested : Expr} (htested : tidy tested) :
    Gives i tidy (predicateStep inner tested) := by
  refine .andThen fun head => ?_
  cases head with
  | none => exact (tidies_predicateAfterIs hi h htested).maybe
  | some head =>
    obtain ⟨negated, word⟩ := head
    exact (tidies_predicateAfter hi h htested negated word).toSome

theorem tidies_predicate : Gives i tidy (predicate inner) :=
  (tidies_comparisonExpr hi h).bind fun tested htested =>
    Gives.iterate (fun _ => tidies_predicateStep hi h) tested htested

theorem tidies_negationExpr : Gives i tidy (negationExpr inner) := by
  refine .andThen fun _ => .ite ?_ (tidies_predicate hi h)
  exact h.negation.bind fun operand hoperand => .pure (tidy_unary .not hoperand)

theorem tidies_expressionOf : Gives i tidy (expressionOf inner) :=
  tidies_chain (tidies_chain (tidies_negationExpr hi h))

end Grammar

end SqlTidy
