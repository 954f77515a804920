import SqlTidy.Grammar.Nesting
import SqlTidy.Proofs.Spell

/-!
# Rules take the tokens of what they build

**Theorem (`faithful_expression`).** Where the rule for expressions gives a plain expression, the tokens
that it has taken are the tokens of that expression.

One lemma per rule, all under the assumption that the rules one level further in are faithful
(`Inner.Faithful`). The rules for special forms give no plain expression at all, so nothing has to be said
about their tokens.
-/

namespace SqlTidy

open Parse Piece

/-- A rule whose plain results are made of the tokens that it takes. -/
def Parse.Faithful (p : Parse Expr) : Prop :=
  ∀ i pos, Ends p i pos fun e next => e.Plain → Spelled i pos e next

/-- A rule that gives no plain expression. -/
def Parse.Special (p : Parse Expr) : Prop := ∀ i pos, Ends p i pos fun e _ => ¬ e.Plain

/-- An expression that starts with a minus sign only if it is a negative. -/
def Tree.Signed (e : Expr) : Prop :=
  e.pieces.head? = Option.some (symbol .minus) → ∃ x, e = .unary .minus x

/-- Rules for what is nested inside that take the tokens of what they build. -/
structure Inner.Faithful (inner : Inner) : Prop where
  expression : inner.expression.Faithful
  negation : inner.negation.Faithful
  unary : inner.unary.Faithful
  signed : ∀ i pos, Ends inner.unary i pos fun e _ => e.Plain → e.Signed

theorem Parse.Special.faithful {p : Parse Expr} (h : p.Special) : p.Faithful := fun i pos =>
  (h i pos).mono fun _ _ hspecial hplain => absurd hplain hspecial

namespace Grammar

/-! ## Binary operators -/

theorem faithful_chain {operators : Token → Option BinaryOp} {operand : Parse Expr}
    (hop : ∀ t op, operators t = some op → op.piece.Fits t) (h : operand.Faithful) :
    (chain operators operand).Faithful := by
  intro i pos
  refine (h i pos).bind fun first mid hfirst => ?_
  refine Ends.iterate (I := fun e next => e.Plain → Spelled i pos e next) hfirst
    fun left mid hleft => ?_
  refine Ends.bind (P := fun op next => (op = none → next = mid) ∧ ∀ o, op = some o →
    next = mid + 1 ∧ Spells i mid [o.piece] (mid + 1)) ?_ fun op next hnext => ?_
  · refine .acceptIf (fun _ => ⟨fun _ => rfl, nofun⟩) fun op heof hmeaning => ⟨nofun, ?_⟩
    rintro _ ⟨⟩
    exact ⟨rfl, .token heof (hop _ _ hmeaning) .nil⟩
  · cases op with
    | none =>
      obtain rfl := hnext.1 rfl
      exact .pure ⟨fun _ => hleft, nofun⟩
    | some op =>
      obtain ⟨rfl, hspells⟩ := hnext.2 op rfl
      refine (h i (mid + 1)).bind fun right next hright => .pure ⟨nofun, ?_⟩
      rintro _ ⟨⟩ hplain
      cases hplain with
      | binary _ hl hr => exact (hleft hl).binary hspells (hright hr)

/-- Each operator is printed as the token that it was read from. -/
theorem fits_multiplicativeOp (t : Token) (op : BinaryOp) (h : multiplicativeOp t = some op) :
    op.piece.Fits t := by
  unfold multiplicativeOp at h
  split at h
  · cases h
    rfl
  · cases h
    rfl
  · cases h
    rfl
  · rw [Option.ite_none_right_eq_some] at h
    obtain ⟨hword, ⟨⟩⟩ := h
    exact .inl hword

theorem fits_additiveOp (t : Token) (op : BinaryOp) (h : additiveOp t = some op) :
    op.piece.Fits t := by
  unfold additiveOp at h
  split at h <;> cases h <;> rfl

theorem fits_comparisonOp (t : Token) (op : BinaryOp) (h : comparisonOp t = some op) :
    op.piece.Fits t := by
  unfold comparisonOp at h
  split at h <;> cases h <;> rfl

theorem faithful_additive {unary : Parse Expr} (h : unary.Faithful) : (additive unary).Faithful :=
  faithful_chain fits_additiveOp (faithful_chain fits_multiplicativeOp h)

theorem faithful_comparison {unary : Parse Expr} (h : unary.Faithful) :
    (comparison unary).Faithful := by
  refine faithful_chain fits_comparisonOp (faithful_chain ?_ (faithful_chain ?_ (faithful_chain ?_
    (faithful_additive h))))
  · intro t op h
    unfold bitOrOp at h
    split at h <;> cases h
    rfl
  · intro t op h
    unfold bitXorOp at h
    split at h <;> cases h
    rfl
  · intro t op h
    unfold bitAndOp at h
    split at h <;> cases h
    rfl

variable {i : Input} {pos mid : Nat}

/-! ## Looking ahead -/

theorem stays_queryAhead (n : Nat) : Stays (queryAhead n) i pos := by
  have hparens : Stays (parensAhead n) i pos := by
    rintro _ _ ⟨⟩
    rfl
  exact hparens.bind fun _ => .peek_bind (.pure rfl)

theorem stays_isQueryStart : Stays isQueryStart i pos :=
  (stays_queryAhead 0).bind fun _ => .ite (fun _ => .pure rfl) fun _ => stays_isWord _

theorem stays_mayBeAlias : Stays mayBeAlias i pos := by
  refine .current_bind ?_
  split
  · exact .pure rfl
  · exact .pure rfl
  · exact .pure rfl

/-! ## Names -/

theorem ends_identifier :
    Ends identifier i pos fun name next => i.tokenAt pos = name.token ∧ next = pos + 1 := by
  refine .expectIf fun name _ hname => ⟨?_, rfl⟩
  split at hname
  · rename_i w hw
    cases hname
    exact hw
  · rename_i w hw
    cases hname
    exact hw
  · contradiction

/-- What has been read of a name. -/
structure NamePath.Read (i : Input) (pos : Nat) (path : NamePath) (next : Nat) : Prop where
  ne_nil : path.parts ≠ []
  bare : path.starred = false → Spells i pos (Ident.dotted path.parts) next
  starred : path.starred = true → Spelled i pos (.qualifiedWildcard ⟨path.parts⟩) next

theorem ne_eof_of_isIdentifier {t : Token} (h : isIdentifier t) : t ≠ .eof := by
  rintro rfl
  contradiction

/-- A dot and what follows it. -/
theorem ends_nameStep :
    Ends nameStep i pos fun step next => (step = none → next = pos) ∧
      (step = some .star → i.tokenAt pos = .symbol .dot ∧ i.tokenAt (pos + 1) = .symbol .star ∧
        next = pos + 2) ∧
      ∀ name, step = some (.part name) →
        i.tokenAt pos = .symbol .dot ∧ i.tokenAt (pos + 1) = name.token ∧ next = pos + 2 := by
  refine Ends.isSymbol_bind (.ite (fun hdot => .peek_bind ?_) fun _ => .pure ⟨fun _ => rfl, nofun, nofun⟩)
  rw [decide_eq_true_eq] at hdot
  have hpos : i.tokenAt pos ≠ .eof := by simp [hdot]
  split
  · rename_i hstar
    have hnext : i.tokenAt (pos + 1) ≠ .eof := by simp [hstar]
    refine (ends_skipBy_two hpos hnext).bind fun _ mid hmid => .pure ?_
    exact ⟨nofun, fun _ => ⟨hdot, hstar, hmid⟩, nofun⟩
  · refine .ite (fun hname => .skip_bind hpos ?_) fun _ => .pure ⟨fun _ => rfl, nofun, nofun⟩
    refine ends_identifier.bind fun name next hread => .pure ⟨nofun, nofun, ?_⟩
    rintro _ ⟨⟩
    exact ⟨hdot, hread.1, hread.2⟩

theorem ends_extendName {path : NamePath} (h : path.Read i pos mid) :
    Ends (extendName path) i mid fun b next =>
      (b = none → path.Read i pos next) ∧ ∀ path', b = some path' → path'.Read i pos next := by
  refine .ite (fun _ => .pure ⟨fun _ => h, nofun⟩) fun hstarred => ?_
  have hbare := h.bare (Bool.eq_false_iff.2 hstarred)
  refine ends_nameStep.bind fun step next hstep => ?_
  obtain ⟨hnone, hstar, hpart⟩ := hstep
  match step with
  | none =>
    obtain rfl := hnone rfl
    exact .pure ⟨fun _ => h, nofun⟩
  | some .star =>
    obtain ⟨hdot, hstar', rfl⟩ := hstar rfl
    refine .pure ⟨nofun, ?_⟩
    rintro _ ⟨⟩
    exact ⟨h.ne_nil, nofun, fun _ => .qualifiedWildcard h.ne_nil hbare hdot hstar'⟩
  | some (.part name) =>
    obtain ⟨hdot, hname, rfl⟩ := hpart name rfl
    refine .pure ⟨nofun, ?_⟩
    rintro _ ⟨⟩
    refine ⟨by simp, fun _ => ?_, fun htrue => absurd htrue hstarred⟩
    show Spells i pos (Ident.dotted (path.parts ++ [name])) (mid + 2)
    rw [Ident.dotted_concat h.ne_nil]
    exact hbare.append ((Spells.symbol hdot).append (Spells.ident hname))

theorem ends_dottedPart : Ends dottedPart i pos fun name next => name = none → next = pos :=
  .isSymbol_bind (.peek_bind (.ite (fun _ => .step fun _ _ => .step fun _ _ => .pure nofun)
    fun _ => .pure fun _ => rfl))

/-! ## Lists and calls -/

section

variable {inner : Inner} (h : inner.Faithful)

include h

theorem ends_expressions :
    Ends (expressions inner) i pos fun es next =>
      es ≠ [] ∧ ((∀ e ∈ es, e.Plain) → SpelledList i pos es next) := by
  refine .commaSeparated ?_ fun es mid hes hcomma => ?_
  · refine (h.expression i pos).mono fun e next he => ⟨by simp, fun hplain => ?_⟩
    exact .singleton (he (hplain e (by simp)))
  · refine (h.expression i (mid + 1)).mono fun e next he => ⟨by simp, fun hplain => ?_⟩
    simp only [List.mem_append, List.mem_singleton] at hplain
    exact (hes.2 fun e he => hplain e (.inl he)).concat hes.1 hcomma (he (hplain e (.inr rfl)))

theorem ends_callArg :
    Ends (callArg inner) i pos fun a next => ∀ e, a = .positional e → e.Plain → Spelled i pos e next := by
  refine .current_bind ((stays_peekSymbol _ _).bind fun arrow => .ite (fun _ => ?_) fun _ => ?_)
  · exact .step fun _ _ => .step fun _ _ => .step fun _ _ => .pure nofun
  · refine (h.expression i pos).bind fun e next he => .pure ?_
    rintro _ ⟨⟩
    exact he

theorem ends_callArgs :
    Ends (callArgs inner) i pos fun as next => as ≠ [] ∧
      ∀ es : List Expr, as = es.map .positional → (∀ e ∈ es, e.Plain) → SpelledList i pos es next := by
  refine .commaSeparated ?_ fun as mid has hcomma => ?_
  · refine (ends_callArg h).mono fun a next ha => ⟨by simp, fun es hes hplain => ?_⟩
    obtain ⟨e, es, rfl, rfl, hnil⟩ := List.map_eq_cons_iff.1 hes.symm
    obtain rfl := List.map_eq_nil_iff.1 hnil
    exact .singleton (ha e rfl (hplain e (by simp)))
  · refine (ends_callArg h).mono fun a next ha => ⟨by simp, fun es hes hplain => ?_⟩
    obtain ⟨es', rest, rfl, rfl, hrest⟩ := List.map_eq_append_iff.1 hes.symm
    obtain ⟨e, es, rfl, rfl, hnil⟩ := List.map_eq_cons_iff.1 hrest
    obtain rfl := List.map_eq_nil_iff.1 hnil
    simp only [List.mem_append, List.mem_singleton] at hplain
    have hne : es' ≠ [] := fun hnil => has.1 (by rw [hnil]; rfl)
    exact (has.2 es' rfl fun e he => hplain e (.inl he)).concat hne hcomma
      (ha e rfl (hplain e (.inr rfl)))

omit h in
theorem ends_callQuantifier :
    Ends callQuantifier i pos fun quantifier next => quantifier = none → next = pos := by
  refine (ends_acceptWord "DISTINCT").bind fun found mid hmid => .ite (fun _ => .pure nofun) ?_
  intro hfalse
  obtain rfl := hmid (Bool.eq_false_iff.2 hfalse)
  refine (stays_isWord "ALL").bind fun found => .ite (fun _ => .peek_bind ?_) fun _ => .pure fun _ => rfl
  split
  · exact .pure fun _ => rfl
  · exact .pure fun _ => rfl
  · exact .step fun _ _ => .pure nofun

omit h in
theorem ends_withinGroup :
    Ends (withinGroup inner) i pos fun group next => group = [] → next = pos := by
  refine Ends.bind (P := fun found mid => found = false → mid = pos) ?_ fun found mid hmid => ?_
  · exact .acceptWords (fun _ => rfl) nofun
  · refine .ite (fun _ => ?_) fun hfalse => .pure fun _ => hmid (Bool.eq_false_iff.2 hfalse)
    refine .step fun _ _ => .step fun _ _ => Ends.bind (P := fun items _ => items ≠ []) ?_ ?_
    · exact .step fun first _ => .step fun rest _ => .pure (by simp)
    · exact fun items mid hitems => .step fun _ _ => .pure fun hnil => absurd hnil hitems

omit h in
theorem ends_isFilter : Ends isFilter i pos fun found next => found = false → next = pos := by
  refine (stays_isWord "FILTER").bind fun found => .ite (fun _ => ?_) fun _ => .pure fun _ => rfl
  exact (stays_peekSymbol 1 _).mono fun _ _ hnext _ => hnext

omit h in
/-- A plain call carries nothing behind its closing parenthesis. -/
theorem plain_call {name : DottedName} {quantifier : Option Quantifier} {args : List CallArg}
    {group : List OrderItem} {filter : Option Expr} {nulls : Option NullTreatment}
    {overWindow : Option Window}
    (hplain : Tree.Plain (.function (.call name quantifier (.ofList args) (.ofList group)
      (.ofOption filter) nulls (.ofOption overWindow)))) :
    quantifier = none ∧ group = [] ∧ filter = none ∧ nulls = none ∧ overWindow = none ∧
      ∃ es : List Expr, args = es.map .positional ∧ ∀ e ∈ es, e.Plain := by
  cases hplain with
  | @function name' _ es hf hes =>
    obtain ⟨-, hquantifier, hargs, hgroup, hfilter, hnulls, hover⟩ := Tree.call.inj hf
    refine ⟨hquantifier, ?_, ?_, hnulls, ?_, es, ?_, hes⟩
    · simpa using congrArg Tree.toList hgroup
    · exact (Tree.toOption_ofOption filter).symm.trans (congrArg Tree.toOption hfilter)
    · exact (Tree.toOption_ofOption overWindow).symm.trans (congrArg Tree.toOption hover)
    · simpa using congrArg Tree.toList hargs

theorem ends_callOf {name : DottedName} (hname : name.parts ≠ [])
    (hread : Spells i pos (Ident.dotted name.parts) mid) :
    Ends (callOf inner name) i mid fun f next =>
      Tree.Plain (.function f) → Spelled i pos (.function f) next := by
  refine Ends.bind (P := fun _ next => next = mid + 1 ∧ i.tokenAt mid = .symbol .lparen)
    (.expect fun hopen => ⟨rfl, hopen⟩) fun _ start hstart => ?_
  obtain ⟨rfl, hopen⟩ := hstart
  refine Ends.bind (P := fun r next => ∀ es : List Expr, r.1 = none → r.2 = es.map .positional →
    (∀ e ∈ es, e.Plain) → SpelledList i (mid + 1) es next) ?_ fun r close hargs => ?_
  · refine .isSymbol_bind (.ite (fun _ => .pure ?_) fun _ => ?_)
    · intro es _ hes _
      obtain rfl := List.map_eq_nil_iff.1 hes.symm
      exact .nil
    · refine ends_callQuantifier.bind fun quantifier next hnext => ?_
      refine (ends_callArgs h).bind fun args close hargs => .pure fun es hnone hes hplain => ?_
      obtain rfl := hnext hnone
      exact hargs.2 es hes hplain
  refine Ends.bind (P := fun _ next => next = close + 1 ∧ i.tokenAt close = .symbol .rparen)
    (.expect fun hclose => ⟨rfl, hclose⟩) fun _ last hlast => ?_
  obtain ⟨rfl, hclose⟩ := hlast
  refine ends_withinGroup.bind fun group next₁ hgroup => ?_
  refine (ends_maybe_none ends_isFilter).bind fun filter next₂ hfilter => ?_
  refine (ends_choose _).bind fun nulls next₃ hnulls => ?_
  refine (ends_maybe_none (ends_acceptWord "OVER")).bind fun overWindow next₄ hover => .pure ?_
  intro hplain
  obtain ⟨hquantifier, rfl, rfl, rfl, rfl, es, hes, hplain⟩ := plain_call hplain
  obtain rfl := hgroup rfl
  obtain rfl := hfilter rfl
  obtain rfl := hnulls rfl
  obtain rfl := hover rfl
  rw [hquantifier, hes]
  exact .function hname hread hopen (hargs es hquantifier hes hplain) hclose

theorem faithful_nameExpr : (nameExpr inner).Faithful := by
  intro i pos
  refine ends_identifier.bind fun first mid hfirst => ?_
  obtain ⟨hfirst, rfl⟩ := hfirst
  refine Ends.bind (P := fun path next => path.Read i pos next) ?_ fun path mid hpath => ?_
  · refine .iterate ?_ fun path mid hpath => ends_extendName hpath
    exact ⟨by simp, fun _ => Spells.ident hfirst, nofun⟩
  refine .ite (fun hstarred => .pure fun _ => hpath.starred hstarred) fun hbare => ?_
  have hread := hpath.bare (Bool.eq_false_iff.2 hbare)
  refine .isSymbol_bind (.ite (fun _ => ?_) fun _ => ?_)
  · exact (ends_callOf h hpath.ne_nil hread).bind fun f next hf => .pure hf
  · unfold bareName
    split
    · rename_i name hparts
      rw [hparts] at hread
      refine Ends.bind (P := fun found next => found = false → next = mid) ?_ fun found next hnext => ?_
      · exact .accept (fun _ => rfl) nofun
      · refine .ite (fun _ => .step fun _ _ => .pure nofun) fun hfalse => .pure fun _ => ?_
        obtain rfl := hnext (Bool.eq_false_iff.2 hfalse)
        exact ⟨hread, name.framed_piece⟩
    · exact .pure fun _ => .compound hpath.ne_nil hread

end

/-! ## Special forms

None of them gives a plain expression. -/

/-- A form that may decline and gives no plain expression. -/
def Declines (p : Parse (Option Expr)) : Prop := ∀ i pos, Ends p i pos fun a _ => ∀ e ∈ a, ¬ e.Plain

theorem declines_unlessSuffix {e : Expr} (he : ¬ e.Plain) : Declines (unlessSuffix e) := by
  refine fun i pos => .step fun _ _ => .ite (fun _ => .pure nofun) fun _ => .pure ?_
  rintro _ ⟨⟩
  exact he

section

variable (inner : Inner)

theorem declines_substringForm (name : String) : Declines (substringForm inner name) := by
  refine fun i pos => .step fun _ _ => .step fun _ _ => .step fun _ _ => .step fun range _ => ?_
  cases range with
  | none => exact .pure nofun
  | some range =>
    refine .step fun _ _ => declines_unlessSuffix ?_ _ _
    exact nofun

theorem declines_trimForm : Declines (trimForm inner) := by
  refine fun i pos => .step fun _ _ => .step fun _ _ => .step fun _ _ => .step fun operands _ => ?_
  cases operands with
  | none => exact .pure nofun
  | some operands => exact .step fun _ _ => .pure (by rintro _ ⟨⟩ ⟨⟩)

theorem declines_positionForm : Declines (positionForm inner) := by
  refine fun i pos => .step fun _ _ => .step fun _ _ => .step fun _ _ => .step fun _ _ => ?_
  refine .ite (fun _ => .step fun _ _ => .step fun _ _ => .pure ?_) fun _ => .pure nofun
  rintro _ ⟨⟩ ⟨⟩

theorem declines_overlayForm : Declines (overlayForm inner) := by
  refine fun i pos => .step fun _ _ => .step fun _ _ => .step fun _ _ => .step fun _ _ => ?_
  refine .ite (fun _ => ?_) fun _ => .pure nofun
  refine .step fun _ _ => .step fun _ _ => .step fun _ _ => .step fun _ _ => .step fun _ _ => .pure ?_
  rintro _ ⟨⟩ ⟨⟩

theorem declines_firstLastForm (last : Bool) : Declines (firstLastForm inner last) := by
  refine fun i pos => .step fun _ _ => .step fun _ _ => .step fun _ _ => .step fun _ _ => ?_
  refine .ite (fun _ => .step fun _ _ => declines_unlessSuffix ?_ _ _) fun _ => .pure nofun
  exact nofun

theorem declines_datetimeForm (name : String) : Declines (datetimeForm inner name) := by
  refine fun i pos => .step fun _ _ => .step fun _ _ => .step fun unit _ => ?_
  cases unit with
  | none => exact .pure nofun
  | some unit =>
    refine .step fun _ _ => .step fun _ _ => declines_unlessSuffix ?_ _ _
    exact nofun

/-- A special form goes back when it declines. -/
theorem ends_specialForm (word : String) :
    Ends (specialForm inner word) i pos fun a next =>
      (a = none → next = pos) ∧ ∀ e ∈ a, ¬ Tree.Plain e := by
  have attempted {p : Parse (Option Expr)} (h : Declines p) :
      Ends (attempt p) i pos fun a next => (a = none → next = pos) ∧ ∀ e ∈ a, ¬ Tree.Plain e := by
    refine .attempt ⟨fun _ => rfl, nofun⟩ ((h i pos).mono fun a next ha hsome => ⟨?_, ha⟩)
    rintro rfl
    contradiction
  unfold specialForm
  split
  · exact attempted (declines_substringForm inner _)
  · exact attempted (declines_substringForm inner _)
  · exact attempted (declines_trimForm inner)
  · exact attempted (declines_positionForm inner)
  · exact attempted (declines_overlayForm inner)
  · exact attempted (declines_firstLastForm inner _)
  · exact attempted (declines_firstLastForm inner _)
  · exact .ite (fun _ => attempted (declines_datetimeForm inner _)) fun _ =>
      .pure ⟨fun _ => rfl, nofun⟩

theorem special_interval : interval.Special := by
  refine fun i pos => .step fun _ _ => .step fun parts _ => .ite (fun _ => ?_) fun _ => ?_
  · exact ends_expected _ _
  · exact .step fun _ _ => .pure nofun

theorem special_caseExpr : (caseExpr inner).Special := by
  refine fun i pos => .step fun _ _ => .step fun _ _ => .step fun branches _ => .ite (fun _ => ?_) ?_
  · exact ends_expected _ _
  · exact fun _ => .step fun _ _ => .step fun _ _ => .pure nofun

theorem special_castExpr (form : CastForm) : (castExpr inner form).Special := fun _ _ =>
  .step fun _ _ => .step fun _ _ => .step fun _ _ => .step fun _ _ => .step fun _ _ =>
    .step fun _ _ => .pure nofun

theorem special_extractExpr : (extractExpr inner).Special := fun _ _ =>
  .step fun _ _ => .step fun _ _ => .step fun _ _ => .step fun _ _ => .step fun _ _ =>
    .step fun _ _ => .pure nofun

theorem special_structExpr : (structExpr inner).Special := fun _ _ =>
  .step fun _ _ => .step fun _ _ => .step fun _ _ => .pure nofun

end

/-! ## Words -/

section

variable {inner : Inner} (h : inner.Faithful)

include h

theorem faithful_plainWord (word : String) (called : Bool) :
    (plainWord inner word called).Faithful := by
  intro i pos
  refine .ite (fun _ => ?_) fun _ => .ite (fun _ => ends_expected _ _) fun _ => ?_
  · refine (ends_specialForm inner word).bind fun form next hform => ?_
    cases form with
    | none =>
      obtain rfl := hform.1 rfl
      exact faithful_nameExpr h i next
    | some e => exact .pure fun hplain => absurd hplain (hform.2 e rfl)
  · exact faithful_nameExpr h i pos

omit h in
theorem ends_takeFor {e : Expr} (hpos : i.tokenAt pos ≠ .eof) :
    Ends (takeFor e) i pos fun e' next => e' = e ∧ next = pos + 1 :=
  .skip_bind hpos (.pure ⟨rfl, rfl⟩)

omit h in
/-- A token that is taken for an expression. -/
theorem ends_takeFor_spelled {e : Expr} (hpos : i.tokenAt pos ≠ .eof)
    (he : Spelled i pos e (pos + 1)) :
    Ends (takeFor e) i pos fun e next => e.Plain → Spelled i pos e next := by
  refine (ends_takeFor hpos).mono ?_
  rintro _ _ ⟨rfl, rfl⟩ _
  exact he

theorem ends_keywordExpr {word : String} (hword : i.tokenAt pos = .word word) (called : Bool) :
    Ends (keywordExpr inner word called) i pos fun e next => e.Plain → Spelled i pos e next := by
  have hpos : i.tokenAt pos ≠ .eof := by simp [hword]
  have hkeyword {k : String} (hk : Text.upper word = Text.upper k) :
      (i.tokenAt pos).isKeyword k := by simpa [hword, Token.isKeyword] using hk
  unfold keywordExpr
  split
  · exact ends_takeFor_spelled hpos (.null (hkeyword ‹_›))
  · exact ends_takeFor_spelled hpos (.boolean (hkeyword ‹_›))
  · exact ends_takeFor_spelled hpos (.boolean (hkeyword ‹_›))
  · exact (ends_takeFor hpos).mono (by rintro _ _ ⟨rfl, -⟩ ⟨⟩)
  · exact (ends_takeFor hpos).mono (by rintro _ _ ⟨rfl, -⟩ ⟨⟩)
  · exact (ends_takeFor hpos).mono (by rintro _ _ ⟨rfl, -⟩ ⟨⟩)
  · refine .peek_bind (.ite (fun _ => ?_) fun _ => faithful_plainWord h word _ i pos)
    exact special_interval.faithful i pos
  · exact (special_caseExpr inner).faithful i pos
  · exact (special_castExpr inner _).faithful i pos
  · exact (special_castExpr inner _).faithful i pos
  · exact (special_extractExpr inner).faithful i pos
  · refine (stays_queryAhead 1).bind fun _ => .ite (fun _ => ?_) fun _ => ?_
    · exact .step fun _ _ => .step fun _ _ => .pure nofun
    · exact faithful_plainWord h word true i pos
  · exact (special_structExpr inner).faithful i pos
  · exact faithful_plainWord h word _ i pos

theorem ends_wordExpr {word : String} (hword : i.tokenAt pos = .word word) :
    Ends (wordExpr inner word) i pos fun e next => e.Plain → Spelled i pos e next := by
  refine .peek_bind ?_
  split
  · refine .ite (fun _ => .step fun _ _ => .pure nofun) fun _ => ends_keywordExpr h hword false
  · exact ends_keywordExpr h hword _

/-! ## Parentheses -/

omit h in
/-- Without an alias nothing is taken. -/
theorem ends_selectAlias : Ends selectAlias i pos fun a next => a = none → next = pos := by
  refine (ends_acceptWord "AS").bind fun found mid hmid => .ite (fun _ => .step fun _ _ => .pure nofun) ?_
  intro hfalse
  obtain rfl := hmid (Bool.eq_false_iff.2 hfalse)
  refine stays_mayBeAlias.bind fun _ => .ite (fun _ => .step fun _ _ => .pure nofun) fun _ => ?_
  exact .pure fun _ => rfl

theorem faithful_rowOrParen : (rowOrParen inner).Faithful := by
  intro i pos
  refine Ends.bind (P := fun _ next => next = pos + 1 ∧ i.tokenAt pos = .symbol .lparen)
    (.expect fun hopen => ⟨rfl, hopen⟩) fun _ start hstart => ?_
  obtain ⟨rfl, hopen⟩ := hstart
  refine (h.expression i (pos + 1)).bind fun value close hvalue => ?_
  refine ends_selectAlias.bind fun asName next hnext => .isSymbol_bind (.ite (fun hclose => ?_) ?_)
  · simp only [Bool.and_eq_true, Option.isNone_iff_eq_none, decide_eq_true_eq] at hclose
    obtain ⟨hnone, hclose⟩ := hclose
    obtain rfl := hnext hnone
    refine (ends_takeFor (by simp [hclose])).mono ?_
    rintro _ _ ⟨rfl, rfl⟩ hplain
    cases hplain with
    | paren hplain => exact .paren hopen (hvalue hplain) hclose
  · exact fun _ => .step fun _ _ => .step fun _ _ => .pure nofun

theorem faithful_lambdaOrRow : (lambdaOrRow inner).Faithful := by
  intro i pos
  refine Ends.bind (P := fun params next => params = none → next = pos)
    (.attempt (fun _ => rfl) fun params next _ hsome hnone => by simp [hnone] at hsome)
    fun params next hnext => ?_
  cases params with
  | none =>
    obtain rfl := hnext rfl
    exact faithful_rowOrParen h i next
  | some params => exact .step fun _ _ => .pure nofun

theorem faithful_parenExpr : (parenExpr inner).Faithful := by
  intro i pos
  refine (stays_queryAhead 1).bind fun _ => .ite (fun _ => faithful_lambdaOrRow h i pos) fun _ => ?_
  refine (stays_peekSymbol 1 _).bind fun _ => .ite (fun _ => ?_) fun _ => .step fun _ _ => .pure nofun
  refine Ends.bind (P := fun query next => query = none → next = pos)
    (.attempt (fun _ => rfl) fun query next _ hsome hnone => by simp [hnone] at hsome)
    fun query next hnext => ?_
  cases query with
  | none =>
    obtain rfl := hnext rfl
    exact faithful_lambdaOrRow h i next
  | some query => exact .pure nofun

/-! ## Primary expressions -/

omit h in
theorem ends_stringPiece :
    Ends stringPiece i pos fun a next => (a = none → next = pos) ∧ ∀ s, a = some s →
      i.tokenAt pos = .string s ∧ next = pos + 1 := by
  refine .acceptIf (fun _ => ⟨fun _ => rfl, nofun⟩) fun s _ hs => ⟨nofun, ?_⟩
  rintro _ ⟨⟩
  split at hs
  · rename_i s' hs'
    cases hs
    exact ⟨hs', rfl⟩
  · contradiction

omit h in
/-- Adjacent string literals. -/
theorem ends_strings {s : String} (hs : i.tokenAt pos = .string s) :
    Ends (many stringPiece) i pos fun texts next => Spelled i pos (.literal (.string texts)) next := by
  have hne : Ends (many stringPiece) i pos fun texts _ => texts ≠ [] := by
    refine ends_many_ne_nil (.acceptIf (fun hnone => ?_) fun _ _ _ => nofun)
    simp [hs] at hnone
  have hspells : Ends (many stringPiece) i pos fun texts next =>
      Spells i pos (Literal.string texts).pieces next := by
    refine .many .nil fun texts mid htexts => ends_stringPiece.mono fun a next ha => ⟨?_, ?_⟩
    · rintro rfl
      obtain rfl := ha.1 rfl
      exact htexts
    · rintro s rfl
      obtain ⟨hs, rfl⟩ := ha.2 s rfl
      have hstring : Spells i mid [.token (.string s)] (mid + 1) := .token (by simp [hs]) hs .nil
      cases texts with
      | nil =>
        cases htexts
        exact hstring
      | cons text texts =>
        have hconcat : (Literal.string (text :: texts ++ [s])).pieces =
            (Literal.string (text :: texts)).pieces ++ ([.gap] ++ [.token (.string s)]) := by
          rw [Literal.pieces, List.map_append]
          exact sepBy_concat (by simp) _
        rw [hconcat]
        exact htexts.append (.gap hstring)
  exact (hne.and hspells).mono fun texts next htexts => .string htexts.1 htexts.2

theorem faithful_primary : (primary inner).Faithful := by
  intro i pos
  refine .current_bind ?_
  split
  · rename_i n hn
    exact ends_takeFor_spelled (by simp [hn]) (.number hn)
  · rename_i s hs
    exact (ends_strings hs).bind fun texts next htexts => .pure fun _ => htexts
  · rename_i hstar
    exact ends_takeFor_spelled (by simp [hstar]) (.wildcard hstar)
  · exact faithful_parenExpr h i pos
  · exact faithful_nameExpr h i pos
  · rename_i w hw
    exact ends_wordExpr h hw
  · exact ends_expected _ _

/-! ## Postfix forms and unary operators -/

theorem ends_postfixStep {base : Expr} (hbase : base.Plain → Spelled i pos base mid) :
    Ends (postfixStep inner base) i mid fun b next =>
      (b = none → base.Plain → Spelled i pos base next) ∧
        ∀ e, b = some e → e.Plain → Spelled i pos e next := by
  refine Ends.bind (P := fun found next => (found = false → next = mid) ∧ (found = true →
    next = mid + 1 ∧ i.tokenAt mid = .symbol .lbracket)) ?_ fun found next hfound => ?_
  · exact .accept ⟨fun _ => rfl, nofun⟩ fun hopen => ⟨nofun, fun _ => ⟨rfl, hopen⟩⟩
  refine .ite (fun htrue => ?_) fun hfalse => ?_
  · obtain ⟨rfl, hopen⟩ := hfound.2 htrue
    refine (h.expression i (mid + 1)).bind fun index close hindex => ?_
    refine Ends.bind (P := fun _ next => next = close + 1 ∧ i.tokenAt close = .symbol .rbracket)
      (.expect fun hclose => ⟨rfl, hclose⟩) fun _ next hnext => .pure ⟨nofun, ?_⟩
    obtain ⟨rfl, hclose⟩ := hnext
    rintro _ ⟨⟩ hplain
    cases hplain with
    | subscript hb hi => exact .subscript (hbase hb) hopen (hindex hi) hclose
  · obtain rfl := hfound.1 (Bool.eq_false_iff.2 hfalse)
    refine Ends.bind (P := fun found next' => found = false → next' = next)
      (.accept (fun _ => rfl) nofun) fun found next' hnext => .ite (fun _ => ?_) fun hfalse => ?_
    · exact .step fun _ _ => .pure ⟨nofun, by rintro _ ⟨⟩ ⟨⟩⟩
    · obtain rfl := hnext (Bool.eq_false_iff.2 hfalse)
      refine ends_dottedPart.bind fun name last hlast => ?_
      cases name with
      | none =>
        obtain rfl := hlast rfl
        exact .pure ⟨fun _ => hbase, nofun⟩
      | some name => exact .pure ⟨nofun, by rintro _ ⟨⟩ ⟨⟩⟩

theorem faithful_postfixExpr : (postfixExpr inner).Faithful := by
  intro i pos
  refine (faithful_primary h i pos).bind fun base mid hbase => ?_
  exact .iterate hbase fun base mid hbase => ends_postfixStep h hbase

omit h in
theorem spells_unaryOp {op : UnaryOp} (hop : unaryOp (i.tokenAt pos) = some op) :
    op ≠ .not ∧ Spells i pos op.pieces (pos + 1) := by
  unfold unaryOp at hop
  split at hop <;> cases hop
  · exact ⟨nofun, .symbol ‹_›⟩
  · exact ⟨nofun, .symbol ‹_›⟩
  · exact ⟨nofun, .symbol ‹_›⟩

/-- An operator is a sign or stands in front of none: what starts with a minus sign is a negative. -/
theorem ends_unaryExpr :
    Ends (unaryExpr inner) i pos fun e next => e.Plain → Spelled i pos e next ∧ e.Signed := by
  refine Ends.bind (P := fun op next =>
    (op = none → next = pos ∧ i.tokenAt pos ≠ .symbol .minus) ∧
      ∀ o, op = some o → next = pos + 1 ∧ o ≠ .not ∧ Spells i pos o.pieces (pos + 1)) ?_
    fun op next hop => ?_
  · refine .acceptIf (fun hnone => ⟨fun _ => ⟨rfl, fun hminus => ?_⟩, nofun⟩) fun op _ hop => ⟨nofun, ?_⟩
    · simp [hminus, unaryOp] at hnone
    · rintro _ ⟨⟩
      exact ⟨rfl, spells_unaryOp hop⟩
  cases op with
  | none =>
    obtain ⟨rfl, hminus⟩ := hop.1 rfl
    refine (faithful_postfixExpr h i next).mono fun e last he hplain => ⟨he hplain, fun hhead => ?_⟩
    have hspells := (he hplain).spells
    match hpieces : e.pieces with
    | [] => simp [hpieces] at hhead
    | p :: ps =>
      rw [hpieces] at hhead hspells
      cases hhead
      exact absurd (hspells.fits_head nofun) hminus
  | some op =>
    obtain ⟨rfl, hnot, hspells⟩ := hop.2 op rfl
    refine ((h.unary i (pos + 1)).and (h.signed i (pos + 1))).bind fun e next he => .pure ?_
    intro hplain
    cases hplain with
    | unary _ hplain =>
      refine ⟨.sign hnot hspells (he.1 hplain) (he.2 hplain), fun hhead => ?_⟩
      cases op with
      | not => contradiction
      | minus => exact ⟨e, rfl⟩
      | plus => cases hhead
      | bitNot => cases hhead

theorem faithful_unaryExpr : (unaryExpr inner).Faithful := fun _ _ =>
  (ends_unaryExpr h).mono fun _ _ he hplain => (he hplain).1

theorem faithful_comparisonExpr : (comparisonExpr inner).Faithful :=
  faithful_comparison (faithful_unaryExpr h)

/-! ## Predicates -/

omit h in
/-- The keyword of a predicate. -/
def PredicateWord.keyword : PredicateWord → String
  | .between => "BETWEEN"
  | .inside => "IN"
  | .like op => op.spelling

omit h in
theorem predicateWords_keyword :
    ∀ p ∈ predicateWords, p.1 = [p.2.keyword] := by
  simp [predicateWords, PredicateWord.keyword, LikeOp.spelling]

omit h in
/-- The word of a predicate and `NOT` in front of it. -/
theorem ends_predicateHead :
    Ends predicateHead i pos fun found next => (found = none → next = pos) ∧
      ∀ negated word, found = some (negated, word) → ∃ head,
        Spells i pos (notWord negated) head ∧ next = head + 1 ∧
          (i.tokenAt head).isKeyword word.keyword := by
  refine .rewinding ⟨fun _ => rfl, nofun⟩ ?_
  refine Ends.bind (P := fun negated head => Spells i pos (notWord negated) head)
    (.acceptWord .nil fun hnot => .append (.keyword hnot) (.gap .nil)) fun negated head hnot => ?_
  refine (ends_choose_word PredicateWord.keyword predicateWords_keyword).bind fun word next hnext => ?_
  cases word with
  | none => exact .pure (by simp)
  | some word =>
    obtain ⟨rfl, hword⟩ := hnext word rfl
    refine .pure fun _ => ⟨nofun, ?_⟩
    rintro _ _ ⟨⟩
    exact ⟨head, hnot, rfl, hword⟩

/-- The rest of a predicate behind its word. -/
theorem ends_predicateAfter {tested : Expr} {negated : Bool} {word : PredicateWord} {head : Nat}
    (htested : tested.Plain → Spelled i pos tested mid)
    (hnot : Spells i mid (notWord negated) head)
    (hword : (i.tokenAt head).isKeyword word.keyword) :
    Ends (predicateAfter inner tested negated word) i (head + 1) fun e next =>
      e.Plain → Spelled i pos e next := by
  cases word with
  | between =>
    refine (faithful_comparisonExpr h i _).bind fun low conj hlow => ?_
    refine Ends.bind (P := fun _ next => next = conj + 1 ∧ (i.tokenAt conj).isKeyword "AND")
      (.expectWord fun hand => ⟨rfl, hand⟩) fun _ next hnext => ?_
    obtain ⟨rfl, hand⟩ := hnext
    refine (faithful_comparisonExpr h i _).bind fun high next hhigh => .pure fun hplain => ?_
    cases hplain with
    | between _ ht hl hh => exact .between (htested ht) hnot hword (hlow hl) hand (hhigh hh)
  | inside =>
    refine Ends.bind (P := fun _ next => next = head + 2 ∧ i.tokenAt (head + 1) = .symbol .lparen)
      (.expect fun hopen => ⟨rfl, hopen⟩) fun _ start hstart => ?_
    obtain ⟨rfl, hopen⟩ := hstart
    refine stays_isQueryStart.bind fun _ => .ite (fun _ => ?_) fun _ => ?_
    · exact .step fun _ _ => .step fun _ _ => .pure nofun
    refine (ends_expressions h).bind fun items close hitems => ?_
    refine Ends.bind (P := fun _ next => next = close + 1 ∧ i.tokenAt close = .symbol .rparen)
      (.expect fun hclose => ⟨rfl, hclose⟩) fun _ next hnext => .pure fun hplain => ?_
    obtain ⟨rfl, hclose⟩ := hnext
    cases hplain with
    | inList _ ht hi =>
      rw [Tree.toList_ofList] at hi
      exact .inList (htested ht) hnot hword hopen (hitems.2 hi) hclose
  | like op =>
    refine (faithful_comparisonExpr h i _).bind fun pattern last hpattern => ?_
    refine Ends.bind (P := fun escape next => Spells i last (Piece.escape escape) next) ?_
      fun escape next hescape => .pure fun hplain => ?_
    · refine .maybe (.acceptWord ⟨fun _ => .nil, nofun⟩ fun hescape => ⟨nofun, fun _ => ?_⟩)
      refine .expectIf fun s hpos hs => ?_
      split at hs
      · rename_i s' hs'
        cases hs
        exact .gap (.append (.keyword hescape) (.gap (.token hpos hs' .nil)))
      · contradiction
    · cases hplain with
      | like _ _ _ ht hp => exact .like (htested ht) hnot hword (hpattern hp) hescape

/-- The rest of a predicate behind `IS`. -/
theorem ends_predicateAfterIs {tested : Expr} (htested : tested.Plain → Spelled i pos tested mid)
    (hword : (i.tokenAt mid).isKeyword "IS") :
    Ends (predicateAfterIs inner tested) i (mid + 1) fun e next => e.Plain → Spelled i pos e next := by
  refine Ends.bind (P := fun negated head => Spells i (mid + 1) (notWord negated) head)
    (.acceptWord .nil fun hnot => .append (.keyword hnot) (.gap .nil)) fun negated head hnot => ?_
  refine Ends.bind (P := fun found next => (found = false → next = head) ∧ (found = true →
    next = head + 2 ∧ i.HasWords head ["DISTINCT", "FROM"])) ?_ fun found next hfound => ?_
  · exact .acceptWords ⟨fun _ => rfl, nofun⟩ fun hwords => ⟨nofun, fun _ => ⟨rfl, hwords⟩⟩
  refine .ite (fun htrue => ?_) fun hfalse => ?_
  · obtain ⟨rfl, hwords⟩ := hfound.2 htrue
    refine (faithful_comparisonExpr h i _).bind fun other next hother => .pure fun hplain => ?_
    cases hplain with
    | distinctFrom _ ht ho => exact .distinctFrom (htested ht) hword hnot hwords (hother ho)
  · obtain rfl := hfound.1 (Bool.eq_false_iff.2 hfalse)
    refine Ends.bind (ends_choose_word IsTest.spelling (by simp [IsTest.spelling]))
      fun test last hlast => ?_
    cases test with
    | none => exact ends_expected _ _
    | some test =>
      obtain ⟨rfl, htest⟩ := hlast test rfl
      refine .pure fun hplain => ?_
      cases hplain with
      | is _ _ ht => exact .is (htested ht) hword hnot htest

theorem ends_predicateStep {tested : Expr} (htested : tested.Plain → Spelled i pos tested mid) :
    Ends (predicateStep inner tested) i mid fun b next =>
      (b = none → tested.Plain → Spelled i pos tested next) ∧
        ∀ e, b = some e → e.Plain → Spelled i pos e next := by
  refine ends_predicateHead.bind fun found next hfound => ?_
  match found with
  | none =>
    obtain rfl := hfound.1 rfl
    refine .maybe (.acceptWord ⟨fun _ => ⟨fun _ => htested, nofun⟩, nofun⟩ fun hword => ⟨nofun, ?_⟩)
    refine fun _ => (ends_predicateAfterIs h htested hword).mono fun e next he => ⟨nofun, ?_⟩
    rintro _ ⟨⟩
    exact he
  | some (negated, word) =>
    obtain ⟨head, hnot, rfl, hword⟩ := hfound.2 negated word rfl
    refine (ends_predicateAfter h htested hnot hword).bind fun e next he => .pure ⟨nofun, ?_⟩
    rintro _ ⟨⟩
    exact he

theorem faithful_predicate : (predicate inner).Faithful := by
  intro i pos
  refine (faithful_comparisonExpr h i pos).bind fun tested mid htested => ?_
  exact .iterate htested fun tested mid htested => ends_predicateStep h htested

/-! ## Connectives -/

omit h in
theorem ends_acceptNot :
    Ends acceptNot i pos fun found next => (found = false → next = pos) ∧
      (found = true → next = pos + 1 ∧ Spells i pos [.keyword "NOT"] (pos + 1)) := by
  refine Ends.bind (P := fun found next => (found = false → next = pos) ∧ (found = true →
    next = pos + 1 ∧ Spells i pos [.keyword "NOT"] (pos + 1))) ?_ fun found next hfound => ?_
  · exact .acceptWord ⟨fun _ => rfl, nofun⟩ fun hnot => ⟨nofun, fun _ => ⟨rfl, .keyword hnot⟩⟩
  refine .ite (fun htrue => .pure ⟨nofun, fun _ => hfound.2 htrue⟩) fun hfalse => ?_
  obtain rfl := hfound.1 (Bool.eq_false_iff.2 hfalse)
  refine .accept ⟨fun _ => rfl, nofun⟩ fun hbang => ⟨nofun, fun _ => ⟨rfl, ?_⟩⟩
  exact .token (by simp [hbang]) (.inr ⟨rfl, hbang⟩) .nil

theorem faithful_negationExpr : (negationExpr inner).Faithful := by
  intro i pos
  refine ends_acceptNot.bind fun found next hfound => .ite (fun htrue => ?_) fun hfalse => ?_
  · obtain ⟨rfl, hnot⟩ := hfound.2 htrue
    refine (h.negation i _).bind fun e next he => .pure fun hplain => ?_
    cases hplain with
    | unary _ hplain => exact .negation hnot (he hplain)
  · obtain rfl := hfound.1 (Bool.eq_false_iff.2 hfalse)
    exact faithful_predicate h i next

theorem faithful_expressionOf : (expressionOf inner).Faithful := by
  refine faithful_chain ?_ (faithful_chain ?_ (faithful_negationExpr h))
  · intro t op hop
    rw [orOp, Option.ite_none_right_eq_some] at hop
    obtain ⟨hword, ⟨⟩⟩ := hop
    exact .inl hword
  · intro t op hop
    rw [andOp, Option.ite_none_right_eq_some] at hop
    obtain ⟨hword, ⟨⟩⟩ := hop
    exact .inl hword

end

/-! ## All levels -/

theorem faithful_level (n : Nat) : (Inner.level n).Faithful := by
  induction n with
  | zero =>
    exact ⟨fun _ _ => ends_fail _ _, fun _ _ => ends_fail _ _, fun _ _ => ends_fail _ _,
      fun _ _ => ends_fail _ _⟩
  | succ n ih =>
    refine ⟨faithful_expressionOf ih, faithful_negationExpr ih, faithful_unaryExpr ih, ?_⟩
    exact fun i pos => (ends_unaryExpr ih).mono fun _ _ he hplain => (he hplain).2

/-- The tokens that an expression is read from are the tokens of its pieces. -/
theorem faithful_expression : expression.Faithful := by
  intro i pos e next hrun
  rw [expression, within] at hrun
  exact (faithful_level (i.remaining pos + 1)).expression i pos e next hrun

end Grammar

end SqlTidy
