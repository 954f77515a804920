import SqlTidy.Proofs.Fence.Basic

/-!
# Names, data types and expressions up to a fence

One lemma per rule of the grammar. A rule is compared with itself over two records of inner rules that track each
other (`Inner.Tracks`). Behind an opening bracket the rule stands before the fence, so there it may ask for the closing
one; elsewhere no rule asks for it.
-/

namespace SqlTidy

open Parse

/-- The rules for what is nested inside read the same up to the fence. -/
structure Inner.Tracks (e : Fence) (inner inner' : Inner) : Prop where
  expression {u : List Symbol} : Parse.Tracks e u inner.expression inner'.expression
  negation {u : List Symbol} : Parse.Tracks e u inner.negation inner'.negation
  unary {u : List Symbol} : Parse.Tracks e u inner.unary inner'.unary
  query {u : List Symbol} : Parse.Tracks e u inner.query inner'.query
  relation {u : List Symbol} : Parse.Tracks e u inner.relation inner'.relation

namespace Grammar

variable {e : Fence} {u : List Symbol} {pos : Nat}

/-! ## Names and literals -/

theorem firm_mayBeAlias : Firm e u mayBeAlias := by
  intro pos hat
  refine .current ?_
  rcases hat.before_or with hbefore | ⟨-, hleft | hleft, hright | hright⟩
  · rw [hbefore.tokenAt_eq]
    split <;> exact .of hat (.pure _)
  all_goals
    rw [hleft, hright]
    exact .of hat (.pure _)

theorem firm_identifier : Firm e u identifier := firm_expectIf (nest_of_meaning fun _ => rfl)

theorem before_of_isIdentifier (hat : e.At u pos) (h : isIdentifier (e.left.tokenAt pos)) : e.Before u pos := by
  refine hat.before_of_not fun hfence => ?_
  rcases hfence with heq | heq <;> simp [heq, isIdentifier] at h

theorem nest_of_isIdentifier {t : Token} (h : isIdentifier t) (u : List Symbol) : t.nest u = some u := by
  cases t with
  | word | quoted => rfl
  | _ => contradiction

/-- An identifier takes one token. -/
theorem echoesAt_identifier {α : Type} {closes : α → Prop} {v : List Symbol} {k k' : Ident → Parse α}
    (hat : e.At u pos) (h : isIdentifier (e.left.tokenAt pos))
    (hk : ∀ name, e.At u (pos + 1) → EchoesAt e closes v (k name) (k' name) (pos + 1)) :
    EchoesAt e closes v (identifier >>= k) (identifier >>= k') pos := by
  have hbefore := before_of_isIdentifier hat h
  have hrun : ∃ name, ∀ i pos', i.tokenAt pos' = e.left.tokenAt pos → identifier i pos' = (.ok name, pos' + 1) := by
    cases ht : e.left.tokenAt pos with
    | word w =>
      refine ⟨⟨w, false⟩, fun i pos' ht => ?_⟩
      simp only [identifier, expectIf, Bind.bind, acceptIf_of_ne_eof (show i.tokenAt pos' ≠ .eof by simp [ht]), ht]
      rfl
    | quoted w =>
      refine ⟨⟨w, true⟩, fun i pos' ht => ?_⟩
      simp only [identifier, expectIf, Bind.bind, acceptIf_of_ne_eof (show i.tokenAt pos' ≠ .eof by simp [ht]), ht]
      rfl
    | _ =>
      rw [ht] at h
      contradiction
  obtain ⟨name, hrun⟩ := hrun
  exact .token (hrun _ _ rfl) (hrun _ _ hbefore.tokenAt_eq) (hk name (hbefore.next u (nest_of_isIdentifier h u)))

theorem firm_dottedPart : Firm e u dottedPart := by
  intro pos hat
  refine .isSymbol hat nofun ?_
  by_cases hdot : e.left.tokenAt pos = .symbol .dot
  · have hbefore := hat.before_of_symbol hdot nofun
    have hnext : e.At u (pos + 1) := hbefore.next u (by rw [hdot]; rfl)
    refine .peek ?_
    rw [hnext.ask_eq isIdentifier rfl]
    refine .ite (fun _ => ?_) fun _ => .of hat (.pure none)
    exact .skip hbefore hdot rfl fun hat => .of hat firm_identifier.map
  · rw [decide_eq_false hdot]
    exact .peek (.of hat (.pure none))

theorem firm_dottedName : Firm e u dottedName := firm_identifier.bind fun _ => firm_dottedPart.many.map

theorem firm_identifierList : Firm e u identifierList :=
  (echoes_expect rfl).bind fun _ => firm_identifier.commaSeparated.bind fun _ => (echoes_expect rfl).bind fun _ => .pure _

theorem firm_optionalIdentifierList : Firm e u optionalIdentifierList :=
  .maybeList (firm_isSymbol _ (by decide)) firm_identifierList

theorem firm_stringLiteral : Firm e u stringLiteral := firm_expectIf (nest_of_meaning fun _ => rfl)

theorem firm_optionalString (keyword : String) : Firm e u (optionalString keyword) :=
  .maybe (firm_acceptWord keyword) firm_stringLiteral

theorem firm_number : Firm e u number := firm_expectIf (nest_of_meaning fun _ => rfl)

theorem firm_capitals (what : String) : Firm e u (expectIf what capitals) :=
  firm_expectIf (nest_of_meaning fun _ => rfl)

theorem firm_capitalsAmong (what : String) (words : List String) : Firm e u (expectIf what (capitalsAmong words)) :=
  firm_expectIf (nest_of_meaning fun _ => rfl)

/-! ## Data types -/

theorem firm_typeParameter : Firm e u typeParameter := firm_expectIf (nest_of_meaning fun _ => rfl)

theorem firm_primitiveType (name : String) : Firm e u (primitiveType name) :=
  .accept rfl
    (firm_typeParameter.commaSeparated.bind fun _ => (echoes_expect rfl).bind fun _ => .pure _)
    (.pure _)

theorem firm_intervalType : Firm e u intervalType :=
  (firm_capitalsAmong _ _).bind fun _ => (Echoes.maybe (firm_acceptWord _) (firm_capitals _)).map

section

variable {inner inner' : Parse DataType} (h : ∀ u, Tracks e u inner inner')

include h

theorem tracks_structField : Tracks e u (structField inner) (structField inner') :=
  firm_identifier.bind fun _ => (firm_accept _ rfl).bind fun _ => (h u).bind fun _ =>
    (firm_acceptWords _).bind fun _ => (firm_optionalString _).bind fun _ => .pure _

theorem tracks_typeAfter (name : String) : Tracks e u (typeAfter inner name) (typeAfter inner' name) := by
  intro pos hat
  refine .isSymbol hat nofun ?_
  split
  · rename_i hbracket
    rw [decide_eq_true_eq] at hbracket
    refine .skip (hat.before_of_symbol hbracket nofun) hbracket rfl fun hat => .of hat ?_
    exact (h u).bind fun _ => (echoes_expect rfl).bind fun _ => .pure _
  · rename_i hbracket
    rw [decide_eq_true_eq] at hbracket
    refine .skip (hat.before_of_symbol hbracket nofun) hbracket rfl fun hat => .of hat ?_
    exact (h u).bind fun _ => (echoes_expect rfl).bind fun _ => (h u).bind fun _ => (echoes_expect rfl).bind fun _ => .pure _
  · rename_i hbracket
    rw [decide_eq_true_eq] at hbracket
    refine .skip (hat.before_of_symbol hbracket nofun) hbracket rfl fun hat => .of hat ?_
    exact (tracks_structField h).commaSeparated.bind fun _ => (echoes_expect rfl).bind fun _ => .pure _
  · exact .of hat ((firm_accept _ rfl).bind fun _ => .ite (.pure _) (firm_primitiveType name))
  · exact .of hat firm_intervalType
  · exact .of hat (firm_primitiveType name)

end

theorem firm_dataType : Firm e u dataType :=
  firm_fix fun _ _ h _ => (firm_expectIf (nest_of_meaning fun _ => rfl)).bind fun name => tracks_typeAfter h name

/-! ## Looking ahead for a query -/

/-- Both inputs have the same number of opening parentheses here, and behind them both are before the fence or at it. -/
theorem parenRun_of_at {bound bound' : Nat} (hat : e.At u pos) (hbound : e.left.remaining pos ≤ bound)
    (hbound' : e.right.remaining (pos + e.shift) ≤ bound') :
    parenRun e.right bound' (pos + e.shift) = parenRun e.left bound pos ∧
      ∃ v, e.At v (pos + parenRun e.left bound pos) := by
  induction bound generalizing pos u bound' with
  | zero =>
    have heof : e.left.tokenAt pos = .eof := by
      unfold Input.remaining at hbound
      simp [Input.tokenAt, Array.getElem?_eq_none (show e.left.tokens.size ≤ pos by omega)]
    refine ⟨parenRun_of_ne (fun hparen => ?_) bound', u, hat⟩
    have hask := hat.isSymbol_eq .lparen (by decide)
    simp [heof, hparen] at hask
  | succ bound ih =>
    by_cases hparen : e.left.tokenAt pos = .symbol .lparen
    · have hbefore := hat.before_of_symbol hparen (by decide)
      have hright := hbefore.tokenAt_eq.trans hparen
      have hlt : pos + e.shift < e.right.tokens.size := by
        refine Nat.lt_of_not_le fun hle => ?_
        simp [Input.tokenAt, Array.getElem?_eq_none hle] at hright
      unfold Input.remaining at hbound hbound' ih
      obtain ⟨bound', rfl⟩ : ∃ k, bound' = k + 1 := ⟨bound' - 1, by omega⟩
      obtain ⟨heq, v, hv⟩ := ih (hbefore.next_open hparen) (by omega) (show _ ≤ bound' by omega)
      rw [Nat.add_right_comm] at heq
      rw [parenRun, if_pos hright, parenRun, if_pos hparen, heq]
      refine ⟨rfl, v, ?_⟩
      rwa [Nat.add_assoc, Nat.add_comm 1] at hv
    · rw [parenRun_of_ne hparen]
      refine ⟨parenRun_of_ne (fun hright => hparen ?_) bound', u, hat⟩
      have hask := hat.isSymbol_eq .lparen (by decide)
      simpa [hright] using hask

/-- Whether a query starts a few tokens ahead. -/
theorem exists_queryAhead {d : Nat} (hat : e.At u (pos + d)) :
    ∃ b, queryAhead d e.left pos = (.ok b, pos) ∧
      queryAhead d e.right (pos + e.shift) = (.ok b, pos + e.shift) := by
  refine ⟨_, rfl, ?_⟩
  obtain ⟨heq, v, hv⟩ := parenRun_of_at hat (Nat.le_refl _) (Nat.le_refl _)
  have hask := hv.ask_eq (fun t => ["SELECT", "WITH", "FROM", "VALUES"].any t.isKeyword) rfl
  show ((.ok (["SELECT", "WITH", "FROM", "VALUES"].any (e.right.tokenAt (pos + e.shift + (d +
    parenRun e.right (e.right.remaining (pos + e.shift + d)) (pos + e.shift + d)))).isKeyword), pos + e.shift) :
    Except Error Bool × Nat) = _
  rw [Nat.add_right_comm pos e.shift d, heq, ← Nat.add_assoc, Nat.add_right_comm pos e.shift d,
    Nat.add_right_comm _ e.shift, hask, Nat.add_assoc pos d]

theorem firm_isQueryStart : Firm e u isQueryStart := by
  intro pos hat
  obtain ⟨b, hleft, hright⟩ := exists_queryAhead (d := 0) hat
  exact .look hleft hright (.of hat (.ite (.pure true) (firm_isWord _)))

/-! ## Items of lists -/

section

variable {inner inner' : Inner} (h : inner.Tracks e inner')

include h

theorem tracks_expressions : Tracks e u (expressions inner) (expressions inner') := h.expression.commaSeparated

/-- Behind an opening parenthesis. -/
theorem tracks_expressionsBeforeParen :
    Tracks e (.rparen :: u) (expressionsBeforeParen inner) (expressionsBeforeParen inner') :=
  (firm_isClosing _).bind fun _ => .ite (.pure []) (tracks_expressions h)

omit h in
theorem firm_aliasName : Firm e u aliasName :=
  (firm_isSymbol _ (by decide)).bind fun _ => .ite firm_identifierList.map firm_identifier.map

omit h in
theorem firm_selectAlias : Firm e u selectAlias :=
  (firm_acceptWord _).bind fun _ => .ite firm_aliasName.map <|
    firm_mayBeAlias.bind fun _ => .ite firm_identifier.map (.pure none)

theorem tracks_selectItem : Tracks e u (selectItem inner) (selectItem inner') :=
  h.expression.bind fun _ => firm_selectAlias.map

theorem tracks_selectItems : Tracks e u (selectItems inner) (selectItems inner') :=
  (tracks_selectItem h).commaSeparated

theorem tracks_orderItem : Tracks e u (orderItem inner) (orderItem inner') :=
  h.expression.bind fun _ => (firm_choose _).bind fun _ => (firm_choose _).bind fun _ => .pure _

theorem tracks_orderItems : Tracks e u (orderItems inner) (orderItems inner') :=
  (tracks_orderItem h).commaSeparated

end

/-! ## Binary operators -/

theorem tracks_chain {operators : Token → Option BinaryOp} {operand operand' : Parse Expr}
    (hop : ∀ t op, operators t = some op → t.nest [] = some []) (h : Tracks e u operand operand') :
    Tracks e u (chain operators operand) (chain operators operand') := by
  refine h.bind fun first => .iterate (fun left => ?_) first
  refine (firm_acceptIf hop).bind fun op => ?_
  cases op with
  | none => exact .pure none
  | some op => exact h.map

theorem tracks_additive {unary unary' : Parse Expr} (h : Tracks e u unary unary') :
    Tracks e u (additive unary) (additive unary') := by
  refine tracks_chain ?_ (tracks_chain ?_ h)
  all_goals exact fun t op hop => nest_of_operator t op (by simp [hop])

theorem tracks_comparison {unary unary' : Parse Expr} (h : Tracks e u unary unary') :
    Tracks e u (comparison unary) (comparison unary') := by
  refine tracks_chain ?_ (tracks_chain ?_ (tracks_chain ?_ (tracks_chain ?_ (tracks_additive h))))
  all_goals exact fun t op hop => nest_of_operator t op (by simp [hop])

/-! ## Calls and windows -/

section

variable {inner inner' : Inner} (h : inner.Tracks e inner')

include h

theorem tracks_callArg : Tracks e u (callArg inner) (callArg inner') := by
  intro pos hat
  refine .current ?_
  rw [hat.ask_eq isIdentifier rfl]
  by_cases hname : isIdentifier (e.left.tokenAt pos)
  · have hnext := (before_of_isIdentifier hat hname).next u (nest_of_isIdentifier hname u)
    refine .peekSymbol hnext nofun (.ite (fun hnamed => ?_) fun _ => .of hat h.expression.map)
    rw [Bool.and_eq_true, decide_eq_true_eq] at hnamed
    refine echoesAt_identifier hat hname fun name hat => ?_
    exact .skip (hat.before_of_symbol hnamed.2 nofun) hnamed.2 rfl fun hat => .of hat h.expression.map
  · rw [Bool.not_eq_true] at hname
    rw [hname]
    exact .ignore (.peekSymbol _ _) fun _ _ => .of hat h.expression.map

theorem tracks_callArgs : Tracks e u (callArgs inner) (callArgs inner') := (tracks_callArg h).commaSeparated

/-- Behind an opening parenthesis. -/
theorem tracks_callArgsBeforeParen :
    Tracks e (.rparen :: u) (callArgsBeforeParen inner) (callArgsBeforeParen inner') :=
  (firm_isClosing _).bind fun _ => .ite (.pure []) (tracks_callArgs h)

omit h in
/-- Behind an opening parenthesis. -/
theorem firm_callQuantifier : Firm e (.rparen :: u) callQuantifier := by
  refine (firm_acceptWord _).bind fun _ => .ite (.pure _) fun pos hat => ?_
  refine .isWord hat (.ite (fun hall => .peek ?_) fun _ => .of hat (.pure none))
  have hbefore := hat.before_of_isKeyword hall
  rw [(hbefore.next_isKeyword hall).before_of_cons.tokenAt_eq]
  split
  · exact .of hat (.pure none)
  · exact .of hat (.pure none)
  · exact .skip hbefore rfl (Token.nest_of_isKeyword hall _) fun hat => .of hat (.pure _)

theorem tracks_frameBound : Tracks e u (frameBound inner) (frameBound inner') := by
  refine (firm_choose _).bind fun bound => ?_
  cases bound with
  | some bound => exact .pure bound
  | none =>
    refine (tracks_additive h.unary).bind fun _ => (firm_acceptWord _).bind fun _ => ?_
    exact .ite (.pure _) ((firm_acceptWord _).bind fun _ => .ite (.pure _) (echoes_expected _ _))

theorem tracks_frameOf (unit : FrameUnit) : Tracks e u (frameOf inner unit) (frameOf inner' unit) :=
  (firm_acceptWord _).bind fun _ => .ite
    ((tracks_frameBound h).bind fun _ => (firm_expectWord _).bind fun _ => (tracks_frameBound h).map)
    (tracks_frameBound h).map

theorem tracks_optionalFrame : Tracks e u (optionalFrame inner) (optionalFrame inner') := by
  refine (firm_choose _).bind fun unit => ?_
  cases unit with
  | none => exact .pure none
  | some unit => exact (tracks_frameOf h unit).map

theorem tracks_windowPartition : Tracks e u (windowPartition inner) (windowPartition inner') := by
  refine (firm_choose _).bind fun distribute => ?_
  cases distribute with
  | none => exact .pure _
  | some distribute => exact (tracks_expressions h).map

theorem tracks_windowOrder : Tracks e u (windowOrder inner) (windowOrder inner') := by
  refine (firm_choose _).bind fun ordering => ?_
  match ordering with
  | none => exact .pure _
  | some .order => exact (tracks_orderItems h).map
  | some .sort => exact (tracks_orderItems h).map
  | some .cluster => exact (tracks_expressions h).map

theorem tracks_windowDefinition : Tracks e u (windowDefinition inner) (windowDefinition inner') :=
  (echoes_expect rfl).bind fun _ => (tracks_windowPartition h).bind fun _ =>
    (tracks_windowOrder h).bind fun _ => (tracks_optionalFrame h).bind fun _ =>
      (echoes_expect rfl).bind fun _ => .pure _

theorem tracks_window : Tracks e u (window inner) (window inner') := by
  intro pos hat
  refine .isSymbol hat nofun (.ite (fun _ => .of hat firm_identifier.map) fun hopen => ?_)
  simp only [Bool.not_eq_true', decide_eq_false_iff_not, Decidable.not_not] at hopen
  have hbefore := hat.before_of_symbol hopen nofun
  have hfirst := hbefore.next_open hopen
  refine .peek ?_
  rw [hfirst.before_of_cons.tokenAt_eq]
  by_cases hname : isIdentifier (e.left.tokenAt (pos + 1))
  · have hsecond : e.At (.rparen :: u) (pos + 2) :=
      hfirst.before_of_cons.next _ (nest_of_isIdentifier hname _)
    have hclosing : e.right.tokenAt (pos + e.shift + 2) = e.left.tokenAt (pos + 2) := by
      rw [← hsecond.before_of_cons.tokenAt_eq, Nat.add_right_comm]
    refine .ask rfl rfl (by rw [hclosing]) (.ite (fun hclose => ?_) fun _ => .of hat (tracks_windowDefinition h).map)
    rw [Bool.and_eq_true, decide_eq_true_eq] at hclose
    refine .skip hbefore hopen rfl fun hat => echoesAt_identifier hat hname fun name hat => ?_
    exact .skip hat.before_of_cons hclose.2 rfl fun hat => .of hat (.pure _)
  · rw [Bool.not_eq_true] at hname
    rw [hname]
    exact .ignore (.peekSymbol _ _) fun _ _ => .of hat (tracks_windowDefinition h).map

theorem tracks_withinGroup : Tracks e u (withinGroup inner) (withinGroup inner') :=
  .maybeList (firm_acceptWords _) <|
    (echoes_expect rfl).bind fun _ => (firm_expectWords _).bind fun _ =>
      (tracks_orderItems h).bind fun _ => (echoes_expect rfl).bind fun _ => .pure _

omit h in
theorem firm_isFilter : Firm e u isFilter := by
  intro pos hat
  refine .isWord hat (.ite (fun hword => ?_) fun _ => .of hat (.pure false))
  rw [← bind_pure (peekSymbol 1 .lparen)]
  exact .peekSymbol ((hat.before_of_isKeyword hword).next_isKeyword hword) nofun (.of hat (.pure _))

theorem tracks_callFilter : Tracks e u (callFilter inner) (callFilter inner') := by
  intro pos hat
  obtain ⟨found, hleft, hright⟩ := firm_isFilter.look_eq looks_isFilter hat
  refine .look hleft hright (.ite (fun htrue => .map ?_) fun _ => .of hat (.pure none))
  obtain ⟨hword, hopen⟩ := (ends_isFilter_seen found pos hleft).2 htrue
  have hbefore := hat.before_of_isKeyword hword
  refine .skipTwo hbefore rfl (Token.nest_of_isKeyword hword u)
    ((hbefore.next_isKeyword hword).before_of_symbol hopen nofun) hopen rfl fun hat => .of hat ?_
  exact (firm_expectWord _).bind fun _ => h.expression.bind fun _ => (echoes_expect rfl).bind fun _ => .pure _

omit h in
theorem firm_isCallSuffix : Firm e u isCallSuffix :=
  (firm_isWord _).bind fun _ => .ite (.pure true) <|
    (firm_isWords _).bind fun _ => .ite (.pure true) firm_isFilter

theorem tracks_callOf (name : DottedName) : Tracks e u (callOf inner name) (callOf inner' name) := by
  refine (echoes_expect rfl).bind fun _ => Echoes.bind (v := .rparen :: u) ?_ fun args => ?_
  · refine (firm_isClosing _).bind fun _ => .ite (.pure _) ?_
    exact firm_callQuantifier.bind fun _ => (tracks_callArgs h).map
  · refine (echoes_expect rfl).bind fun _ => (tracks_withinGroup h).bind fun _ => ?_
    refine (tracks_callFilter h).bind fun _ => (firm_choose _).bind fun _ => ?_
    exact (Echoes.maybe (firm_acceptWord _) (tracks_window h)).map

end

/-! ## Functions with a grammar of their own -/

theorem firm_intervalValue : Firm e u intervalValue := by
  intro pos hat
  have hpiece {meaning : Token → Option String} (hmeaning : ∀ t a, meaning t = some a → t.nest [] = some []) :
      EchoesAt e (fun _ => True) u (acceptIf meaning) (acceptIf meaning) pos := .of hat (firm_acceptIf hmeaning)
  refine .current (.peek ?_)
  by_cases hminus : e.left.tokenAt pos = .symbol .minus
  · have hbefore := hat.before_of_symbol hminus (by decide)
    have hnext : e.At u (pos + 1) := hbefore.next u (by rw [hminus]; rfl)
    rw [hbefore.tokenAt_eq]
    rcases hnext.before_or with hbefore' | ⟨-, hleft, hright⟩
    · rw [hbefore'.tokenAt_eq]
      split
      · rename_i hnumber
        exact .skipTwo hbefore hminus rfl hbefore' hnumber rfl fun hat => .of hat (.pure _)
      · exact hpiece (nest_of_meaning fun _ => rfl)
    · have hne {t : Token} (ht : t.IsFence) (n : String) : t ≠ .number n := by
        rcases ht with rfl | rfl <;> simp
      split
      · exact absurd ‹_› (hne hleft _)
      · split
        · exact absurd ‹_› (hne hright _)
        · exact hpiece (nest_of_meaning fun _ => rfl)
  · have hright : e.right.tokenAt (pos + e.shift) ≠ .symbol .minus := fun hright => hminus <| by
      simpa [hright] using hat.isSymbol_eq .minus (by decide)
    split
    · contradiction
    · split
      · contradiction
      · exact hpiece (nest_of_meaning fun _ => rfl)

theorem firm_intervalPart : Firm e u intervalPart := by
  refine firm_intervalValue.bind fun value => ?_
  cases value with
  | none => exact .pure none
  | some value => exact Echoes.map (firm_acceptIf (nest_of_meaning fun _ => rfl))

theorem firm_interval : Firm e u interval := by
  refine (firm_expectWord _).bind fun _ => firm_intervalPart.many.bind fun _ => ?_
  exact .ite (echoes_expected _ _) (Echoes.maybe (firm_acceptWord _) (firm_capitalsAmong _ _)).map

section

variable {inner inner' : Inner} (h : inner.Tracks e inner')

include h

theorem tracks_caseBranch : Tracks e u (caseBranch inner) (caseBranch inner') :=
  .maybe (firm_acceptWord _) <| h.expression.bind fun _ => (firm_expectWord _).bind fun _ =>
    h.expression.map

theorem tracks_caseExpr : Tracks e u (caseExpr inner) (caseExpr inner') := by
  refine (firm_expectWord _).bind fun _ => ?_
  refine (Echoes.maybe (firm_isWord _).map h.expression).bind fun _ => ?_
  refine (tracks_caseBranch h).many.bind fun _ => .ite (echoes_expected _ _) ?_
  refine (Echoes.maybe (firm_acceptWord _) h.expression).bind fun _ => ?_
  exact (firm_expectWord _).bind fun _ => .pure _

variable {word : String} (hat : e.At u pos) (hword : e.left.tokenAt pos = .word word)

include hat hword

omit h in
/-- Everything that starts with the name of a function and a parenthesis. -/
theorem echoesAt_named {α : Type} {closes : α → Prop} {p q : Parse α}
    (hp : Echoes e closes (.rparen :: u) u p q) :
    EchoesAt e closes u (skip >>= fun _ => expect .lparen >>= fun _ => p)
      (skip >>= fun _ => expect .lparen >>= fun _ => q) pos :=
  .skip (hat.before_of_word hword) hword rfl fun hat => .of hat ((echoes_expect rfl).bind fun _ => hp)

theorem echoesAt_castExpr (form : CastForm) :
    EchoesAt e (fun _ => True) u (castExpr inner form) (castExpr inner' form) pos :=
  echoesAt_named hat hword <| h.expression.bind fun _ => (firm_expectWord _).bind fun _ =>
    firm_dataType.bind fun _ => (echoes_expect rfl).bind fun _ => .pure _

theorem echoesAt_extractExpr : EchoesAt e (fun _ => True) u (extractExpr inner) (extractExpr inner') pos :=
  echoesAt_named hat hword <| (firm_capitals _).bind fun _ => (firm_expectWord _).bind fun _ =>
    h.expression.bind fun _ => (echoes_expect rfl).bind fun _ => .pure _

omit h hat hword in
theorem echoes_unlessSuffix {closes : Option Expr → Prop} (value : Expr) :
    Echoes e closes u u (unlessSuffix value) (unlessSuffix value) :=
  firm_isCallSuffix.bind fun _ => .ite (.pure none) (.pure _)

omit hat hword in
theorem tracks_substringRange : Tracks e u (substringRange inner) (substringRange inner') := by
  refine (firm_acceptWord _).bind fun _ => .ite ?_ ?_
  · exact h.expression.bind fun _ => (Echoes.maybe (firm_acceptWord _) h.expression).map
  · refine (firm_accept _ rfl).bind fun _ => .ite ?_ (.pure none)
    exact h.expression.bind fun _ => (Echoes.maybe (firm_accept _ rfl) h.expression).map

theorem echoesAt_substringForm (name : String) :
    EchoesAt e (fun a => a.isSome = true) u (substringForm inner name) (substringForm inner' name) pos := by
  refine echoesAt_named hat hword <| h.expression.bind fun _ => (tracks_substringRange h).bind fun range => ?_
  cases range with
  | none => exact .abandon
  | some range => exact (echoes_expect rfl).bind fun _ => echoes_unlessSuffix _

omit hat hword in
theorem tracks_trimOperands (side : Option TrimSide) :
    Tracks e u (trimOperands inner side) (trimOperands inner' side) := by
  refine (firm_acceptWord _).bind fun _ => .ite h.expression.map ?_
  refine h.expression.bind fun _ => (firm_acceptWord _).bind fun _ => ?_
  exact .ite h.expression.map (.ite (.pure none) (.pure _))

theorem echoesAt_trimForm :
    EchoesAt e (fun a => a.isSome = true) u (trimForm inner) (trimForm inner') pos := by
  refine echoesAt_named hat hword <| (firm_choose _).bind fun side => ?_
  refine (tracks_trimOperands h side).bind fun operands => ?_
  cases operands with
  | none => exact .abandon
  | some operands => exact (echoes_expect rfl).bind fun _ => .pure _

theorem echoesAt_positionForm :
    EchoesAt e (fun a => a.isSome = true) u (positionForm inner) (positionForm inner') pos := by
  refine echoesAt_named hat hword <| (tracks_comparison h.unary).bind fun _ => (firm_acceptWord _).bind fun _ => ?_
  exact .ite (h.expression.bind fun _ => (echoes_expect rfl).bind fun _ => .pure _) .abandon

theorem echoesAt_overlayForm :
    EchoesAt e (fun a => a.isSome = true) u (overlayForm inner) (overlayForm inner') pos := by
  refine echoesAt_named hat hword <| h.expression.bind fun _ => (firm_acceptWord _).bind fun _ => .ite ?_ .abandon
  refine h.expression.bind fun _ => (firm_expectWord _).bind fun _ => ?_
  refine h.expression.bind fun _ => (Echoes.maybe (firm_acceptWord _) h.expression).bind fun _ => ?_
  exact (echoes_expect rfl).bind fun _ => .pure _

theorem echoesAt_firstLastForm (last : Bool) :
    EchoesAt e (fun a => a.isSome = true) u (firstLastForm inner last) (firstLastForm inner' last) pos := by
  refine echoesAt_named hat hword <| h.expression.bind fun _ => (firm_acceptWords _).bind fun _ => .ite ?_ .abandon
  exact (echoes_expect rfl).bind fun _ => echoes_unlessSuffix _

omit h hat hword in
theorem firm_datetimeUnit : Firm e u datetimeUnit := by
  intro pos hat
  obtain ⟨w, hleft, hright⟩ := firm_currentWord.look_eq Looks.currentWord hat
  refine .look hleft hright ?_
  cases w with
  | none => exact .of hat (.pure none)
  | some w =>
    obtain ⟨word, hword⟩ := (ends_currentWord _ _ hleft).2 rfl
    have hbefore := hat.before_of_word hword
    have hnext := hbefore.next_word hword
    refine .peekSymbol hnext nofun (.ite (fun hunit => ?_) fun _ => .of hat (.pure none))
    rw [Bool.and_eq_true, decide_eq_true_eq, decide_eq_true_eq] at hunit
    exact .skipTwo hbefore hword rfl (hnext.before_of_symbol hunit.2 nofun) hunit.2 rfl fun hat => .of hat (.pure _)

theorem echoesAt_datetimeForm (name : String) :
    EchoesAt e (fun a => a.isSome = true) u (datetimeForm inner name) (datetimeForm inner' name) pos := by
  refine echoesAt_named hat hword <| firm_datetimeUnit.bind fun unit => ?_
  cases unit with
  | none => exact .abandon
  | some unit => exact (tracks_expressions h).bind fun _ => (echoes_expect rfl).bind fun _ => echoes_unlessSuffix _

theorem echoesAt_specialForm :
    EchoesAt e (fun _ => True) u (specialForm inner word) (specialForm inner' word) pos := by
  unfold specialForm
  split
  · exact (echoesAt_substringForm h hat hword _).attempt hat
  · exact (echoesAt_substringForm h hat hword _).attempt hat
  · exact (echoesAt_trimForm h hat hword).attempt hat
  · exact (echoesAt_positionForm h hat hword).attempt hat
  · exact (echoesAt_overlayForm h hat hword).attempt hat
  · exact (echoesAt_firstLastForm h hat hword false).attempt hat
  · exact (echoesAt_firstLastForm h hat hword true).attempt hat
  · exact .ite (fun _ => (echoesAt_datetimeForm h hat hword _).attempt hat) fun _ => .of hat (.pure none)

/-! ## Names -/

omit h hat hword in
theorem firm_nameStep : Firm e u nameStep := by
  intro pos hat
  refine .isSymbol hat nofun (.ite (fun hdot => .peek ?_) fun _ => .of hat (.pure none))
  rw [decide_eq_true_eq] at hdot
  have hbefore := hat.before_of_symbol hdot nofun
  have hnext : e.At u (pos + 1) := hbefore.next u (by rw [hdot]; rfl)
  rcases hnext.before_or with hbefore' | ⟨-, hleft | hleft, hright | hright⟩
  · rw [hbefore'.tokenAt_eq]
    split
    · rename_i hstar
      exact .skipTwo hbefore hdot rfl hbefore' hstar rfl fun hat => .of hat (.pure _)
    · refine .ite (fun _ => ?_) fun _ => .of hat (.pure none)
      exact .skip hbefore hdot rfl fun hat => .of hat firm_identifier.map
  all_goals
    rw [hleft, hright]
    exact .of hat (.pure none)

omit h hat hword in
theorem firm_extendName (path : NamePath) : Firm e u (extendName path) := by
  refine .ite (.pure none) (firm_nameStep.bind fun step => ?_)
  match step with
  | none => exact .pure none
  | some .star => exact .pure _
  | some (.part name) => exact .pure _

omit hat hword in
theorem tracks_bareName (parts : List Ident) : Tracks e u (bareName inner parts) (bareName inner' parts) := by
  match parts with
  | [] => exact .pure _
  | [name] => exact (firm_accept _ rfl).bind fun _ => .ite h.expression.map (.pure _)
  | _ :: _ :: _ => exact .pure _

omit hat hword in
theorem tracks_nameExpr : Tracks e u (nameExpr inner) (nameExpr inner') := by
  refine firm_identifier.bind fun first => ?_
  refine (Echoes.iterate firm_extendName ⟨[first], false⟩).bind fun path => ?_
  refine .ite (.pure _) ((firm_isSymbol _ (by decide)).bind fun _ => .ite ?_ (tracks_bareName h _))
  exact (tracks_callOf h _).map

/-! ## Words -/

omit hword in
theorem echoesAt_parenQuery (hopen : e.left.tokenAt pos = .symbol .lparen) :
    EchoesAt e (fun _ => True) u (parenQuery inner) (parenQuery inner') pos :=
  .skip (hat.before_of_symbol hopen nofun) hopen rfl fun hat => .of hat <|
    h.query.bind fun _ => (echoes_expect rfl).bind fun _ => .pure _

theorem echoesAt_plainWord (called : Bool) :
    EchoesAt e (fun _ => True) u (plainWord inner word called) (plainWord inner' word called) pos := by
  refine .ite (fun _ => ?_) fun _ => .of hat (.ite (echoes_expected _ _) (tracks_nameExpr h))
  refine (echoesAt_specialForm h hat hword).bind fun form => ?_
  cases form with
  | none => exact tracks_nameExpr h
  | some value => exact .pure value

omit h hat hword in
theorem echoesAt_takeFor {t : Token} {v : List Symbol} (hbefore : e.Before u pos) (ht : e.left.tokenAt pos = t)
    (hnest : t.nest u = some v) (value : Expr) :
    EchoesAt e (fun _ => True) v (takeFor value) (takeFor value) pos :=
  .skip hbefore ht hnest fun hat => .of hat (.pure value)

theorem echoesAt_keywordExpr (called : Bool) (hcalled : called → e.left.tokenAt (pos + 1) = .symbol .lparen) :
    EchoesAt e (fun _ => True) u (keywordExpr inner word called) (keywordExpr inner' word called) pos := by
  have hbefore := hat.before_of_word hword
  have hnext := hbefore.next_word hword
  have htake := echoesAt_takeFor hbefore hword rfl
  unfold keywordExpr
  split
  · exact htake _
  · exact htake _
  · exact htake _
  · exact htake _
  · exact htake _
  · exact htake _
  · refine .peek ?_
    rw [hnext.ask_eq startsInterval rfl]
    exact .ite (fun _ => .of hat firm_interval) fun _ => echoesAt_plainWord h hat hword _
  · exact .of hat (tracks_caseExpr h)
  · exact echoesAt_castExpr h hat hword _
  · exact echoesAt_castExpr h hat hword _
  · exact echoesAt_extractExpr h hat hword
  · obtain ⟨b, hleft, hright⟩ := exists_queryAhead hnext
    refine .look hleft hright (.ite (fun _ => ?_) fun _ => echoesAt_plainWord h hat hword _)
    exact .skip hbefore hword rfl fun hat => .map (echoesAt_parenQuery h hat (hcalled rfl))
  · refine .skipTwo hbefore hword rfl (hnext.before_of_symbol (hcalled rfl) nofun) (hcalled rfl) rfl fun hat => .of hat ?_
    refine (Echoes.maybeList (firm_isClosing _).map (tracks_selectItems h)).bind fun _ => ?_
    exact (echoes_expect rfl).bind fun _ => .pure _
  · exact echoesAt_plainWord h hat hword _

theorem echoesAt_wordExpr : EchoesAt e (fun _ => True) u (wordExpr inner word) (wordExpr inner' word) pos := by
  have hbefore := hat.before_of_word hword
  have hnext := hbefore.next_word hword
  refine .peek ?_
  rcases hnext.before_or with hbefore' | ⟨-, hleft | hleft, hright | hright⟩
  · rw [hbefore'.tokenAt_eq]
    split
    · rename_i value hvalue
      refine .ite (fun _ => ?_) fun _ => echoesAt_keywordExpr h hat hword false (by simp)
      exact .skipTwo hbefore hword rfl hbefore' hvalue rfl fun hat => .of hat (.pure _)
    · exact echoesAt_keywordExpr h hat hword _ fun hcalled => of_decide_eq_true hcalled
  all_goals
    rw [hleft, hright]
    exact echoesAt_keywordExpr h hat hword false (by simp)

/-! ## Parentheses -/

omit h hat hword in
theorem echoes_lambdaParams : Echoes e (fun a => a.isSome = true) u u lambdaParams lambdaParams :=
  firm_identifierList.bind fun _ => (echoes_expect rfl).bind fun _ => .pure _

omit hat hword in
theorem tracks_rowOrParen : Tracks e u (rowOrParen inner) (rowOrParen inner') := by
  refine (echoes_expect rfl).bind fun _ => h.expression.bind fun value => firm_selectAlias.bind fun asName => ?_
  intro pos hat
  refine .isClosing hat (.ite (fun hclose => ?_) fun _ => .of hat ?_)
  · rw [Bool.and_eq_true, decide_eq_true_eq] at hclose
    exact echoesAt_takeFor hat.before_of_cons hclose.2 rfl _
  · refine (Echoes.many (.maybe (firm_accept _ rfl) (tracks_selectItem h))).bind fun _ => ?_
    exact (echoes_expect rfl).bind fun _ => .pure _

omit hat hword in
theorem tracks_lambdaOrRow : Tracks e u (lambdaOrRow inner) (lambdaOrRow inner') := by
  refine echoes_lambdaParams.attempt.bind fun params => ?_
  cases params with
  | none => exact tracks_rowOrParen h
  | some params => exact h.expression.map

omit hword in
theorem echoesAt_parenExpr (hopen : e.left.tokenAt pos = .symbol .lparen) :
    EchoesAt e (fun _ => True) u (parenExpr inner) (parenExpr inner') pos := by
  have hnext := (hat.before_of_symbol hopen nofun).next_open hopen
  have hquery := echoesAt_parenQuery h hat hopen
  obtain ⟨b, hleft, hright⟩ := exists_queryAhead hnext
  refine .look hleft hright (.ite (fun _ => .of hat (tracks_lambdaOrRow h)) fun _ => ?_)
  refine .peekSymbol hnext nofun (.ite (fun _ => ?_) fun _ => .map hquery)
  refine (EchoesAt.attempt hat (.map ?_)).bind fun query => ?_
  · exact hquery.imp fun _ _ => trivial
  cases query with
  | none => exact tracks_lambdaOrRow h
  | some query => exact .pure _

/-! ## Primary expressions -/

omit h hat hword in
theorem firm_stringPiece : Firm e u stringPiece := firm_acceptIf (nest_of_meaning fun _ => rfl)

omit hat hword in
theorem tracks_primary : Tracks e u (primary inner) (primary inner') := by
  intro pos hat
  refine .current ?_
  rcases hat.before_or with hbefore | ⟨-, hleft | hleft, hright | hright⟩
  · rw [hbefore.tokenAt_eq]
    split
    · rename_i ht
      exact echoesAt_takeFor hbefore ht rfl _
    · exact .of hat firm_stringPiece.many.map
    · rename_i ht
      exact echoesAt_takeFor hbefore ht rfl _
    · rename_i hopen
      exact echoesAt_parenExpr h hat hopen
    · exact .of hat (tracks_nameExpr h)
    · rename_i hword
      exact echoesAt_wordExpr h hat hword
    · exact .of hat (echoes_expected _ _)
  all_goals
    rw [hleft, hright]
    exact .of hat (echoes_expected _ _)

/-! ## Operators and predicates -/

omit hat hword in
theorem tracks_postfixStep (base : Expr) : Tracks e u (postfixStep inner base) (postfixStep inner' base) := by
  refine .accept rfl ?_ ((firm_accept _ rfl).bind fun _ => .ite ?_ ?_)
  · exact h.expression.bind fun _ => (echoes_expect rfl).bind fun _ => .pure _
  · exact firm_dataType.map
  · refine firm_dottedPart.bind fun name => ?_
    cases name with
    | none => exact .pure none
    | some name => exact .pure _

omit hat hword in
theorem tracks_postfixExpr : Tracks e u (postfixExpr inner) (postfixExpr inner') :=
  (tracks_primary h).bind fun base => .iterate (tracks_postfixStep h) base

omit hat hword in
theorem tracks_unaryExpr : Tracks e u (unaryExpr inner) (unaryExpr inner') := by
  refine (firm_acceptIf nest_of_unaryOp).bind fun op => ?_
  cases op with
  | none => exact tracks_postfixExpr h
  | some op => exact h.unary.map

omit hat hword in
theorem tracks_comparisonExpr : Tracks e u (comparisonExpr inner) (comparisonExpr inner') :=
  tracks_comparison (tracks_unaryExpr h)

omit hat hword in
theorem tracks_predicateAfter (tested : Expr) (negated : Bool) (word : PredicateWord) :
    Tracks e u (predicateAfter inner tested negated word) (predicateAfter inner' tested negated word) := by
  cases word with
  | between =>
    exact (tracks_comparisonExpr h).bind fun _ => (firm_expectWord _).bind fun _ =>
      (tracks_comparisonExpr h).map
  | inside =>
    refine (echoes_expect rfl).bind fun _ => firm_isQueryStart.bind fun _ => .ite ?_ ?_
    · exact h.query.bind fun _ => (echoes_expect rfl).bind fun _ => .pure _
    · exact (tracks_expressions h).bind fun _ => (echoes_expect rfl).bind fun _ => .pure _
  | like op =>
    exact (tracks_comparisonExpr h).bind fun _ => (firm_optionalString _).bind fun _ => .pure _

omit hat hword in
theorem tracks_predicateAfterIs (tested : Expr) :
    Tracks e u (predicateAfterIs inner tested) (predicateAfterIs inner' tested) := by
  refine (firm_acceptWord _).bind fun _ => (firm_acceptWords _).bind fun _ => ?_
  refine .ite (tracks_comparisonExpr h).map ((firm_choose _).bind fun test => ?_)
  cases test with
  | none => exact echoes_expected _ _
  | some test => exact .pure _

omit h hat hword in
theorem firm_predicateHead : Firm e u predicateHead := by
  refine Echoes.rewinding ((firm_acceptWord _).bind fun _ => (firm_choose _).bind fun word => ?_)
  cases word with
  | none => exact .pure none
  | some word => exact .pure _

omit hat hword in
theorem tracks_predicateStep (tested : Expr) :
    Tracks e u (predicateStep inner tested) (predicateStep inner' tested) := by
  refine firm_predicateHead.bind fun head => ?_
  cases head with
  | none => exact .maybe (firm_acceptWord _) (tracks_predicateAfterIs h tested)
  | some head => exact (tracks_predicateAfter h tested head.1 head.2).map

omit hat hword in
theorem tracks_predicate : Tracks e u (predicate inner) (predicate inner') :=
  (tracks_comparisonExpr h).bind fun tested => .iterate (tracks_predicateStep h) tested

omit h hat hword in
theorem firm_acceptNot : Firm e u acceptNot :=
  (firm_acceptWord _).bind fun _ => .ite (.pure true) (firm_accept _ rfl)

omit hat hword in
theorem tracks_negationExpr : Tracks e u (negationExpr inner) (negationExpr inner') :=
  firm_acceptNot.bind fun _ => .ite h.negation.map (tracks_predicate h)

omit hat hword in
theorem tracks_expressionOf : Tracks e u (expressionOf inner) (expressionOf inner') := by
  refine tracks_chain ?_ (tracks_chain ?_ (tracks_negationExpr h))
  all_goals exact fun t op hop => nest_of_operator t op (by simp [hop])

end

end Grammar

end SqlTidy
