import SqlTidy.Proofs.Runs

/-!
# From a primary expression to a whole one

An expression is read by a ladder of rules, one for each level of precedence, and each of them reads an operand by the
next tighter one first. At the foot of the ladder stands `primary`.

**Up** (`runs_comparisonExpr`, `runs_expressionOf`). A primary expression that no operator follows is an operand of every
level, so at the end of the input it is a whole expression.

**Down** (`exists_runs_primary`, `runs_primary_of_isCall`). Where an expression is read a primary one is read first, unless an
operator stands in front, and a whole expression that is a call is that primary one.
-/

namespace SqlTidy

open Parse

namespace Parse

variable {α : Type} {i : Input} {pos next : Nat}

theorem runs_acceptIf_none {meaning : Token → Option α} (h : i.tokenAt pos = .eof ∨ meaning (i.tokenAt pos) = none) :
    Runs (acceptIf meaning) i pos none pos := by
  unfold Runs
  by_cases heof : i.tokenAt pos = .eof
  · exact acceptIf_of_eof heof meaning
  · rw [acceptIf_of_ne_eof heof, h.resolve_left heof]
    rfl

/-- A loop whose first round declines. -/
theorem runs_iterate_none {step : α → Parse (Option α)} {a : α} (h : Runs (step a) i pos none next) :
    Runs (iterate step a) i pos a next :=
  Runs.bind (p := step a) h rfl

/-- A loop with one round. -/
theorem runs_iterate_one {step : α → Parse (Option α)} {a b : α} {mid : Nat} (h : Runs (step a) i pos (some b) mid)
    (hend : Runs (step b) i mid none next) (hpos : i.tokenAt pos ≠ .eof) : Runs (iterate step a) i pos b next := by
  have hlt : pos < i.tokens.size := by
    refine Nat.lt_of_not_le fun hle => hpos ?_
    simp [Input.tokenAt, Array.getElem?_eq_none hle]
  obtain ⟨n, hn⟩ : ∃ n, i.remaining pos = n + 1 := ⟨i.tokens.size - pos - 1, by unfold Input.remaining; omega⟩
  show Runs (iterateUpTo step (i.remaining pos + 1) a) i pos b next
  rw [hn]
  exact Runs.bind (p := step a) h (Runs.bind (p := step b) hend rfl)

/-- The first round of a loop. -/
theorem Runs.exists_of_iterate {step : α → Parse (Option α)} {a b : α} (h : Runs (iterate step a) i pos b next) :
    ∃ c mid, Runs (step a) i pos c mid := by
  obtain ⟨c, mid, hstep, -⟩ := Runs.exists_of_bind (p := step a) h
  exact ⟨c, mid, hstep⟩

theorem runs_choose_none {phrases : List (List String × α)} (h : ∀ p ∈ phrases, ¬ i.HasWords pos p.1) :
    Runs (choose phrases) i pos none pos := by
  induction phrases with
  | nil => exact runs_pure i pos none
  | cons phrase rest ih =>
    rw [List.forall_mem_cons] at h
    exact (runs_acceptWords_false h.1).bind (ih h.2)

theorem runs_rewinding_none {p : Parse (Option α)} (h : Runs p i pos none next) : Runs (rewinding p) i pos none pos := by
  unfold Runs at h ⊢
  simp [rewinding, h]

theorem runs_rewinding_some {p : Parse (Option α)} {a : α} (h : Runs p i pos (some a) next) :
    Runs (rewinding p) i pos (some a) next := by
  unfold Runs at h ⊢
  simp [rewinding, h]

end Parse

/-- Calls that a window may follow, and those of a grammar of their own that look like them. -/
def Tree.isCall : Expr → Bool
  | .function _ | .substring .. | .firstLast .. | .datetime .. => true
  | _ => false

namespace Grammar

variable {inner : Inner} {i : Input} {pos next : Nat} {e : Expr}

-- Named, because compared by unfolding the levels of nesting would be opened.
theorem expression_apply (i : Input) (pos : Nat) :
    expression i pos = expressionOf (.level (i.remaining pos)) i pos := rfl

/-- No negation and no sign stands in front of an operand that starts with this token. -/
structure StartsOperand (t : Token) : Prop where
  unaryOp : unaryOp t = none
  not_word : t.isKeyword "NOT" = false
  not_bang : t ≠ .symbol .bang

/-- Neither an operator nor a predicate starts with this token. -/
def EndsExpression (t : Token) : Prop := t = .eof ∨ t = .symbol .comma ∨ t = .symbol .fatArrow

/-- No operator between operands starts with this token. -/
def EndsOperand (t : Token) : Prop := EndsExpression t ∨ ∃ w, t = .word w ∧ t.isKeyword "DIV" = false

theorem EndsExpression.not_isKeyword {t : Token} (h : EndsExpression t) (keyword : String) : ¬ t.isKeyword keyword := by
  rcases h with rfl | rfl | rfl <;> exact Bool.false_ne_true

theorem EndsOperand.ne_symbol {t : Token} (h : EndsOperand t) (sym : Symbol) (hcomma : sym ≠ .comma)
    (harrow : sym ≠ .fatArrow) : t ≠ .symbol sym := by
  rcases h with (rfl | rfl | rfl) | ⟨w, rfl, -⟩
  · nofun
  · exact fun h => hcomma (Token.symbol.inj h).symm
  · exact fun h => harrow (Token.symbol.inj h).symm
  · nofun

theorem EndsOperand.operator_eq_none {t : Token} (h : EndsOperand t) :
    multiplicativeOp t = none ∧ additiveOp t = none ∧ bitAndOp t = none ∧ bitXorOp t = none ∧ bitOrOp t = none ∧
      comparisonOp t = none := by
  rcases h with (rfl | rfl | rfl) | ⟨w, rfl, hdiv⟩
  · exact ⟨rfl, rfl, rfl, rfl, rfl, rfl⟩
  · exact ⟨rfl, rfl, rfl, rfl, rfl, rfl⟩
  · exact ⟨rfl, rfl, rfl, rfl, rfl, rfl⟩
  · exact ⟨by simp [multiplicativeOp, hdiv], rfl, rfl, rfl, rfl, rfl⟩

theorem StartsOperand.runs_acceptNot (h : StartsOperand (i.tokenAt pos)) : Runs acceptNot i pos false pos := by
  refine (runs_acceptWord_false (by simp [h.not_word])).bind ?_
  rw [if_neg Bool.false_ne_true]
  exact runs_accept_false h.not_bang

/-! ## Up -/

theorem runs_chain {operators : Token → Option BinaryOp} {operand : Parse Expr} (h : Runs operand i pos e next)
    (hend : operators (i.tokenAt next) = none) : Runs (chain operators operand) i pos e next :=
  h.bind (runs_iterate_none ((runs_acceptIf_none (.inr hend)).bind (runs_pure i next none)))

theorem runs_dottedPart_none (h : i.tokenAt pos ≠ .symbol .dot) : Runs dottedPart i pos none pos := by
  refine (runs_isSymbol i pos .dot).bind ((runs_peek i pos 1).bind ?_)
  rw [decide_eq_false h]
  exact runs_pure i pos none

theorem runs_postfixExpr (h : Runs (primary inner) i pos e next) (hend : EndsOperand (i.tokenAt next)) :
    Runs (postfixExpr inner) i pos e next := by
  refine h.bind (runs_iterate_none ?_)
  refine (runs_accept_false (hend.ne_symbol .lbracket nofun nofun)).bind ?_
  refine Runs.bind (runs_accept_false (hend.ne_symbol .doubleColon nofun nofun)) ?_
  exact Runs.bind (runs_dottedPart_none (hend.ne_symbol .dot nofun nofun)) (runs_pure i next none)

theorem runs_comparisonExpr (h : Runs (primary inner) i pos e next) (hstart : unaryOp (i.tokenAt pos) = none)
    (hend : EndsOperand (i.tokenAt next)) : Runs (comparisonExpr inner) i pos e next := by
  have hunary : Runs (unaryExpr inner) i pos e next :=
    (runs_acceptIf_none (.inr hstart)).bind (runs_postfixExpr h hend)
  obtain ⟨hmultiplicative, hadditive, hand, hxor, hor, hcomparison⟩ := hend.operator_eq_none
  exact runs_chain (runs_chain (runs_chain (runs_chain (runs_chain (runs_chain hunary hmultiplicative) hadditive) hand)
    hxor) hor) hcomparison

theorem runs_predicateStep_none {tested : Expr} (hend : EndsExpression (i.tokenAt pos)) :
    Runs (predicateStep inner tested) i pos none pos := by
  have hchoose : Runs (choose predicateWords) i pos none pos :=
    runs_choose_none (by simp [predicateWords, Input.HasWords, hend.not_isKeyword])
  have hhead : Runs predicateHead i pos none pos :=
    runs_rewinding_none ((runs_acceptWord_false (hend.not_isKeyword _)).bind (hchoose.bind (runs_pure i pos none)))
  exact hhead.bind ((runs_acceptWord_false (hend.not_isKeyword _)).bind (runs_pure i pos none))

/-- A predicate that nothing continues is a whole expression. -/
theorem runs_expressionOf_of_predicate (h : Runs (predicate inner) i pos e next) (hstart : StartsOperand (i.tokenAt pos))
    (hend : EndsExpression (i.tokenAt next)) : Runs (expressionOf inner) i pos e next := by
  have hnegation : Runs (negationExpr inner) i pos e next := hstart.runs_acceptNot.bind h
  have hand : Runs (chain andOp (negationExpr inner)) i pos e next :=
    runs_chain hnegation (if_neg (hend.not_isKeyword _))
  exact runs_chain hand (if_neg (hend.not_isKeyword _))

/-- A primary expression that nothing continues is a whole expression. -/
theorem runs_expressionOf (h : Runs (primary inner) i pos e next) (hstart : StartsOperand (i.tokenAt pos))
    (hend : EndsExpression (i.tokenAt next)) : Runs (expressionOf inner) i pos e next := by
  refine runs_expressionOf_of_predicate ?_ hstart hend
  exact (runs_comparisonExpr h hstart.unaryOp (.inl hend)).bind (runs_iterate_none (runs_predicateStep_none hend))

/-! ### Names -/

/-- The name that an identifier stands for. -/
def nameOf : Token → Option Ident
  | .word w => some ⟨w, false⟩
  | .quoted w => some ⟨w, true⟩
  | _ => none

theorem runs_identifier {name : Ident} (h : nameOf (i.tokenAt pos) = some name) : Runs identifier i pos name (pos + 1) := by
  have hne : i.tokenAt pos ≠ .eof := by
    intro heof
    rw [heof] at h
    contradiction
  have hrun : acceptIf nameOf i pos = (.ok (some name), pos + 1) := by
    rw [acceptIf_of_ne_eof hne, h]
    rfl
  exact Runs.bind (p := acceptIf nameOf) hrun (runs_pure i _ name)

/-- A name that neither a dot, a parenthesis nor an arrow follows is a column. -/
theorem runs_nameExpr_ident {name : Ident} (h : nameOf (i.tokenAt pos) = some name)
    (hend : EndsOperand (i.tokenAt (pos + 1))) : Runs (nameExpr inner) i pos (.ident name) (pos + 1) := by
  have hpath : Runs (iterate extendName ⟨[name], false⟩) i (pos + 1) ⟨[name], false⟩ (pos + 1) := by
    refine runs_iterate_none (Runs.bind (p := nameStep) (a := none) ?_ (runs_pure i _ none))
    refine (runs_isSymbol i (pos + 1) .dot).bind ?_
    rw [decide_eq_false (hend.ne_symbol .dot nofun nofun)]
    exact runs_pure i _ none
  refine (runs_identifier h).bind (hpath.bind (Runs.bind (runs_isSymbol i (pos + 1) .lparen) ?_))
  rw [decide_eq_false (hend.ne_symbol .lparen nofun nofun)]
  exact (runs_accept_false (hend.ne_symbol .arrow nofun nofun)).bind (runs_pure i _ _)

/-- The words that start an expression of their own. -/
def formWords : List String :=
  ["NULL", "TRUE", "FALSE", "CURRENT_DATE", "CURRENT_TIMESTAMP", "CURRENT_USER", "INTERVAL", "CASE", "CAST", "TRY_CAST",
    "EXTRACT", "EXISTS", "STRUCT"]

theorem keywordExpr_eq {word : String} (h : Text.upper word ∉ formWords) (called : Bool) :
    keywordExpr inner word called = plainWord inner word called := by
  unfold keywordExpr
  split <;> first | rfl | simp_all [formWords]

/-- A word without a string literal behind it. -/
theorem wordExpr_apply {word : String} (h : ∀ value, i.tokenAt (pos + 1) ≠ .string value) :
    wordExpr inner word i pos = keywordExpr inner word (i.tokenAt (pos + 1) = .symbol .lparen) i pos := by
  simp only [wordExpr, Bind.bind, peek]

theorem EndsOperand.wordExpr_apply {word : String} (hend : EndsOperand (i.tokenAt (pos + 1))) :
    wordExpr inner word i pos = keywordExpr inner word false i pos := by
  have hnot (value : String) : i.tokenAt (pos + 1) ≠ .string value := by
    rcases hend with (h | h | h) | ⟨_, h, -⟩ <;> simp [h]
  rw [Grammar.wordExpr_apply hnot, decide_eq_false (hend.ne_symbol .lparen nofun nofun)]

theorem runs_primary_ident {word : String} (h : i.tokenAt pos = .word word) (hform : Text.upper word ∉ formWords)
    (hreserved : Text.upper word ∉ reservedInExpr) (hend : EndsOperand (i.tokenAt (pos + 1))) :
    Runs (primary inner) i pos (.ident ⟨word, false⟩) (pos + 1) := by
  refine (runs_peek i pos 0).bind ?_
  rw [Nat.add_zero, h]
  show wordExpr inner word i pos = _
  rw [hend.wordExpr_apply, keywordExpr_eq hform, plainWord, if_neg Bool.false_ne_true, if_neg hreserved]
  exact runs_nameExpr_ident (by rw [h]; rfl) hend

/-! ## Down -/

theorem Runs.exists_of_chain {operators : Token → Option BinaryOp} {operand : Parse Expr}
    (h : Runs (chain operators operand) i pos e next) : ∃ e' mid, Runs operand i pos e' mid := by
  obtain ⟨e', mid, hoperand, -⟩ := h.exists_of_bind
  exact ⟨e', mid, hoperand⟩

theorem exists_runs_predicate (h : Runs (expressionOf inner) i pos e next) (hstart : StartsOperand (i.tokenAt pos)) :
    ∃ e' mid, Runs (predicate inner) i pos e' mid := by
  obtain ⟨_, _, hand⟩ := Runs.exists_of_chain h
  obtain ⟨e', mid, hnegation⟩ := Runs.exists_of_chain hand
  exact ⟨e', mid, hnegation.behind hstart.runs_acceptNot⟩

/-- The first thing that a predicate is about is a primary expression. -/
theorem exists_runs_primary_of_predicate (h : Runs (predicate inner) i pos e next)
    (hstart : unaryOp (i.tokenAt pos) = none) : ∃ e' mid, Runs (primary inner) i pos e' mid := by
  obtain ⟨_, _, hcomparison, -⟩ := h.exists_of_bind
  obtain ⟨_, _, hbitOr⟩ := Runs.exists_of_chain hcomparison
  obtain ⟨_, _, hbitXor⟩ := Runs.exists_of_chain hbitOr
  obtain ⟨_, _, hbitAnd⟩ := Runs.exists_of_chain hbitXor
  obtain ⟨_, _, hadditive⟩ := Runs.exists_of_chain hbitAnd
  obtain ⟨_, _, hmultiplicative⟩ := Runs.exists_of_chain hadditive
  obtain ⟨_, _, hunary⟩ := Runs.exists_of_chain hmultiplicative
  have hpostfix := hunary.behind (runs_acceptIf_none (.inr hstart))
  obtain ⟨e', mid, hprimary, -⟩ := hpostfix.exists_of_bind
  exact ⟨e', mid, hprimary⟩

/-- The first thing that is read is a primary expression. -/
theorem exists_runs_primary (h : Runs (expressionOf inner) i pos e next) (hstart : StartsOperand (i.tokenAt pos)) :
    ∃ e' mid, Runs (primary inner) i pos e' mid := by
  obtain ⟨_, _, hpredicate⟩ := exists_runs_predicate h hstart
  exact exists_runs_primary_of_predicate hpredicate hstart.unaryOp

/-! ### Calls

Every other rule of the ladder makes something that is no call, so a call has come all the way up from the foot. The
property `Q` says where it has been read. -/

section

variable {Q : Expr → Nat → Prop} {base : Expr} {mid : Nat}

/-- What a round of a loop has to keep. -/
def KeepsCalls (Q : Expr → Nat → Prop) (base : Expr) (b : Option Expr) (next : Nat) : Prop :=
  (b = none → base.isCall = true → Q base next) ∧ ∀ c, b = some c → c.isCall = true → Q c next

theorem KeepsCalls.some {c : Expr} (hc : c.isCall = false) : KeepsCalls Q base (some c) next := by
  refine ⟨nofun, fun d hd htrue => ?_⟩
  cases hd
  simp [hc] at htrue

theorem KeepsCalls.none (h : base.isCall = true → Q base mid) (hnext : next = mid) : KeepsCalls Q base none next :=
  ⟨fun _ => hnext ▸ h, nofun⟩

theorem ends_chain_isCall {operators : Token → Option BinaryOp} {operand : Parse Expr}
    (h : Ends operand i pos fun e next => e.isCall = true → Q e next) :
    Ends (chain operators operand) i pos fun e next => e.isCall = true → Q e next := by
  refine h.bind fun first mid hfirst => Ends.iterate hfirst fun left mid hleft => ?_
  refine Ends.bind (P := fun op next => op = none → next = mid) (.acceptIf (fun _ _ => rfl) nofun) fun op next hop => ?_
  cases op with
  | none => exact .pure (KeepsCalls.none hleft (hop rfl))
  | some op => exact .step fun _ _ => .pure (KeepsCalls.some rfl)

theorem ends_postfixExpr_isCall (h : Ends (primary inner) i pos fun e next => e.isCall = true → Q e next) :
    Ends (postfixExpr inner) i pos fun e next => e.isCall = true → Q e next := by
  refine h.bind fun base mid hbase => Ends.iterate hbase fun base mid hbase => ?_
  have haccept (sym : Symbol) (mid : Nat) : Ends (accept sym) i mid fun found next => found = false → next = mid :=
    .accept (fun _ => rfl) nofun
  refine (haccept .lbracket mid).bind fun found next hnext => .ite (fun _ => ?_) fun hno => ?_
  · exact .step fun _ _ => .step fun _ _ => .pure (KeepsCalls.some rfl)
  rw [hnext (Bool.eq_false_iff.2 hno)]
  refine (haccept .doubleColon mid).bind fun found next hnext => .ite (fun _ => ?_) fun hno => ?_
  · exact .step fun _ _ => .pure (KeepsCalls.some rfl)
  rw [hnext (Bool.eq_false_iff.2 hno)]
  refine Ends.bind (P := fun name next => name = none → next = mid) ?_ fun name next hnext => ?_
  · refine .isSymbol_bind (.peek_bind (.ite (fun _ => ?_) fun _ => .pure fun _ => rfl))
    exact .step fun _ _ => .step fun _ _ => .pure nofun
  · cases name with
    | none => exact .pure (KeepsCalls.none hbase (hnext rfl))
    | some name => exact .pure (KeepsCalls.some rfl)

theorem ends_comparisonExpr_isCall
    (h : unaryOp (i.tokenAt pos) = none → Ends (primary inner) i pos fun e next => e.isCall = true → Q e next) :
    Ends (comparisonExpr inner) i pos fun e next => e.isCall = true → Q e next := by
  refine ends_chain_isCall (ends_chain_isCall (ends_chain_isCall (ends_chain_isCall (ends_chain_isCall
    (ends_chain_isCall ?_)))))
  refine Ends.bind (P := fun op next => op = none → next = pos ∧ unaryOp (i.tokenAt pos) = none)
    (.acceptIf (fun hnone _ => ⟨rfl, ?_⟩) nofun) fun op next hop => ?_
  · rcases hnone with heof | hnone
    · rw [heof]
      rfl
    · exact hnone
  cases op with
  | none =>
    obtain ⟨rfl, hstart⟩ := hop rfl
    exact ends_postfixExpr_isCall (h hstart)
  | some op => exact .step fun _ _ => .pure nofun

theorem ends_predicateStep_isCall (h : base.isCall = true → Q base pos) :
    Ends (predicateStep inner base) i pos (KeepsCalls Q base) := by
  refine Ends.bind (P := fun head next => head = none → next = pos) ?_ fun head next hnext => ?_
  · exact .rewinding (fun _ => rfl) fun _ _ _ hsome hnone => by simp [hnone] at hsome
  cases head with
  | some head =>
    refine Ends.bind (P := fun e _ => e.isCall = false) ?_ fun e _ he => .pure (KeepsCalls.some he)
    cases head.2 with
    | between => exact .step fun _ _ => .step fun _ _ => .step fun _ _ => .pure rfl
    | inside =>
      refine .step fun _ _ => .step fun _ _ => .ite (fun _ => ?_) fun _ => ?_
      · exact .step fun _ _ => .step fun _ _ => .pure rfl
      · exact .step fun _ _ => .step fun _ _ => .pure rfl
    | like op => exact .step fun _ _ => .step fun _ _ => .pure rfl
  | none =>
    obtain rfl := hnext rfl
    refine .maybe (.acceptWord ⟨fun _ => KeepsCalls.none h rfl, nofun⟩ fun _ => ⟨nofun, fun _ => ?_⟩)
    refine Ends.mono (P := fun e _ => e.isCall = false) ?_ fun e _ he => KeepsCalls.some he
    refine .step fun _ _ => .step fun _ _ => .ite (fun _ => .step fun _ _ => .pure rfl) fun _ => .step fun test _ => ?_
    cases test with
    | none => exact ends_expected _ _
    | some test => exact .pure rfl

theorem ends_acceptNot_false : Ends acceptNot i pos fun found next => found = false →
    next = pos ∧ (i.tokenAt pos).isKeyword "NOT" = false ∧ i.tokenAt pos ≠ .symbol .bang := by
  intro found next hrun hfalse
  subst hfalse
  by_cases hword : (i.tokenAt pos).isKeyword "NOT"
  · have htaken : Runs acceptNot i pos true (pos + 1) := (runs_acceptWord hword).bind (runs_pure i _ true)
    exact nomatch (htaken.unique hrun).1
  · have hmark : Runs (accept .bang) i pos false next :=
      Runs.behind (k := fun found => if found = true then pure true else accept .bang) hrun (runs_acceptWord_false hword)
    by_cases hbang : i.tokenAt pos = .symbol .bang
    · exact nomatch (hmark.unique (runs_accept hbang)).1
    · exact ⟨(hmark.unique (runs_accept_false hbang)).2, Bool.eq_false_iff.2 hword, hbang⟩

/-- A whole expression that is a call is a primary one. -/
theorem runs_primary_of_isCall (h : Runs (expressionOf inner) i pos e next) (hcall : e.isCall = true) :
    StartsOperand (i.tokenAt pos) ∧ Runs (primary inner) i pos e next := by
  refine ends_chain_isCall (Q := fun e next => StartsOperand (i.tokenAt pos) ∧ Runs (primary inner) i pos e next)
    (ends_chain_isCall ?_) e next h hcall
  refine ends_acceptNot_false.bind fun found start hnot => .ite (fun _ => .step fun _ _ => .pure nofun) fun hno => ?_
  obtain ⟨rfl, hword, hbang⟩ := hnot (Bool.eq_false_iff.2 hno)
  let Q (e : Expr) (next : Nat) : Prop := StartsOperand (i.tokenAt start) ∧ Runs (primary inner) i start e next
  have hcomparison : Ends (comparisonExpr inner) i start fun e next => e.isCall = true → Q e next :=
    ends_comparisonExpr_isCall fun hunary e next hrun _ => ⟨⟨hunary, hword, hbang⟩, hrun⟩
  refine hcomparison.bind fun tested next htested => ?_
  exact Ends.iterate htested fun base mid hbase => ends_predicateStep_isCall (Q := Q) hbase

end

end Grammar

end SqlTidy
