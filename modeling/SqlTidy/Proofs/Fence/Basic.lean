import SqlTidy.Proofs.Abreast.Expr
import SqlTidy.Proofs.Runs

/-!
# Reading up to a fence

What stands between two brackets is read without regard to what stands behind them. To show that, two inputs are
read by the same rules at the same time, like in `SqlTidy.Proofs.Abreast.Basic`, but only up to a position where both
have a token that no rule takes unless it has opened a bracket before: the end mark or a closing parenthesis. Such a
token is a fence. The tokens behind it may be anything.

**Positions** (`Fence.At u pos`). From the position up to the fence the tokens are the same, and they close the
brackets `u` that are awaited. So a rule that stands in front of a bracket of its own, or behind one that it has
opened, stands before the fence, and a rule that stands at the fence awaits no bracket.

**The judgement** (`Parse.Echoes e closes u v p q`). Let `p` run in the first input and `q` in the second, while the
brackets `u` are awaited. If `p` succeeds, `q` gives the same result and has moved as far, and if the result `closes`,
the brackets `v` are awaited behind it. If `p` fails, so does `q`. A run of `p` that goes on for ever says nothing, so
`q` may have larger bounds.

A rule that looks two tokens ahead at the fence itself would see what stands behind it. No rule does: it looks at the
second token only if the first one is a word or an opening bracket.
-/

namespace SqlTidy

/-- The end mark or a closing parenthesis. -/
def Token.IsFence (t : Token) : Prop := t = .eof ∨ t = .symbol .rparen

theorem Token.IsFence.not_isKeyword {t : Token} (h : t.IsFence) (keyword : String) :
    t.isKeyword keyword = false := by
  rcases h with rfl | rfl <;> rfl

/-- A question that both fences answer in the same way. -/
theorem Token.IsFence.ask_eq {β : Type} {ask : Token → β} {t t' : Token} (h : t.IsFence) (h' : t'.IsFence)
    (hask : ask .eof = ask (.symbol .rparen)) : ask t' = ask t := by
  rcases h with rfl | rfl <;> rcases h' with rfl | rfl
  · rfl
  · exact hask.symm
  · exact hask
  · rfl

theorem Input.Nests.le {i : Input} {s t : List Symbol} {pos next : Nat} (h : i.Nests s pos t next) : pos ≤ next := by
  induction h with
  | nil => exact Nat.le_refl _
  | token _ _ _ ih => omega

/-- Two inputs with a fence: at the position `stop` in the first one, and `shift` tokens further in the second. -/
structure Fence where
  left : Input
  right : Input
  shift : Nat
  stop : Nat
  left_stop : (left.tokenAt stop).IsFence
  right_stop : (right.tokenAt (stop + shift)).IsFence
  size : left.tokens.size + shift ≤ right.tokens.size

namespace Fence

variable {e : Fence} {u : List Symbol} {pos : Nat}

/-- Up to the fence the tokens are the same and close the awaited brackets. -/
structure At (e : Fence) (u : List Symbol) (pos : Nat) : Prop where
  same (k : Nat) (hpos : pos ≤ k) (hstop : k < e.stop) : e.right.tokenAt (k + e.shift) = e.left.tokenAt k
  nests : e.left.Nests u pos [] e.stop

theorem remaining_le (e : Fence) (pos : Nat) : e.left.remaining pos ≤ e.right.remaining (pos + e.shift) := by
  have hsize := e.size
  unfold Input.remaining
  omega

/-- A token before the fence: it is the same in both inputs, and the awaited brackets are met behind it. -/
structure Before (e : Fence) (u : List Symbol) (pos : Nat) : Prop where
  lt : pos < e.stop
  ne_eof : e.left.tokenAt pos ≠ .eof
  tokenAt_eq : e.right.tokenAt (pos + e.shift) = e.left.tokenAt pos
  next (u' : List Symbol) (h : (e.left.tokenAt pos).nest u = some u') : e.At u' (pos + 1)

namespace At

/-- At the fence no bracket is awaited. -/
theorem before_or (h : e.At u pos) :
    e.Before u pos ∨ u = [] ∧ (e.left.tokenAt pos).IsFence ∧ (e.right.tokenAt (pos + e.shift)).IsFence := by
  obtain ⟨hsame, hnests⟩ := h
  cases hnests with
  | nil => exact .inr ⟨rfl, e.left_stop, e.right_stop⟩
  | token hne hnest hrest =>
    have hlt : pos < e.stop := hrest.le
    refine .inl ⟨hlt, hne, hsame pos (Nat.le_refl _) hlt, fun u' h' => ?_⟩
    obtain rfl : _ = u' := Option.some.inj (hnest.symm.trans h')
    exact ⟨fun k hk hstop => hsame k (by omega) hstop, hrest⟩

/-- Behind an opening bracket the fence is not yet reached. -/
theorem before_of_cons {closer : Symbol} (h : e.At (closer :: u) pos) : e.Before (closer :: u) pos :=
  h.before_or.resolve_right fun hfence => nomatch hfence.1

/-- What is no fence stands before the fence. -/
theorem before_of_not (h : e.At u pos) (hnot : ¬ (e.left.tokenAt pos).IsFence) : e.Before u pos :=
  h.before_or.resolve_right fun hfence => hnot hfence.2.1

theorem before_of_word {word : String} (h : e.At u pos) (hword : e.left.tokenAt pos = .word word) :
    e.Before u pos :=
  h.before_of_not (by simp [hword, Token.IsFence])

theorem before_of_symbol {sym : Symbol} (h : e.At u pos) (hsym : e.left.tokenAt pos = .symbol sym)
    (hne : sym ≠ .rparen) : e.Before u pos :=
  h.before_of_not (by simp [hsym, Token.IsFence, hne])

theorem before_of_isKeyword {keyword : String} (h : e.At u pos) (hword : (e.left.tokenAt pos).isKeyword keyword) :
    e.Before u pos :=
  h.before_of_not fun hfence => by simp [hfence.not_isKeyword] at hword

/-- A question that does not tell the fences apart has one answer. -/
theorem ask_eq {β : Type} (h : e.At u pos) (ask : Token → β) (hask : ask .eof = ask (.symbol .rparen)) :
    ask (e.right.tokenAt (pos + e.shift)) = ask (e.left.tokenAt pos) := by
  rcases h.before_or with hbefore | ⟨-, hleft, hright⟩
  · rw [hbefore.tokenAt_eq]
  · exact hleft.ask_eq hright hask

theorem isSymbol_eq (h : e.At u pos) (sym : Symbol) (hne : sym ≠ .rparen) :
    decide (e.right.tokenAt (pos + e.shift) = .symbol sym) = decide (e.left.tokenAt pos = .symbol sym) :=
  h.ask_eq (fun t => decide (t = .symbol sym)) (by simp [hne.symm])

theorem isKeyword_eq (h : e.At u pos) (keyword : String) :
    (e.right.tokenAt (pos + e.shift)).isKeyword keyword = (e.left.tokenAt pos).isKeyword keyword :=
  h.ask_eq (Token.isKeyword · keyword) rfl

end At

namespace Before

theorem next_word {word : String} (h : e.Before u pos) (hword : e.left.tokenAt pos = .word word) : e.At u (pos + 1) :=
  h.next u (by rw [hword]; rfl)

theorem next_isKeyword {keyword : String} (h : e.Before u pos) (hword : (e.left.tokenAt pos).isKeyword keyword) :
    e.At u (pos + 1) :=
  h.next u (Token.nest_of_isKeyword hword u)

theorem next_open (h : e.Before u pos) (hopen : e.left.tokenAt pos = .symbol .lparen) :
    e.At (.rparen :: u) (pos + 1) :=
  h.next _ (by rw [hopen]; rfl)

end Before

end Fence

namespace Parse

variable {α β : Type} {e : Fence} {closes : α → Prop} {u v w : List Symbol} {pos : Nat}

/-- From the same place, `q` ends as `p` does, unless `p` does not end. -/
def EchoesAt (e : Fence) (closes : α → Prop) (v : List Symbol) (p q : Parse α) (pos : Nat) : Prop :=
  match p e.left pos with
  | (.ok a, next) => ∃ next', q e.right (pos + e.shift) = (.ok a, next') ∧
      (closes a → next' = next + e.shift ∧ e.At v next)
  | (.error fault, _) => fault.isEndless = true ∨
      ∃ fault' next', q e.right (pos + e.shift) = (.error fault', next') ∧ fault'.isEndless = false

/-- What `p` reads up to the fence in the first input, `q` reads in the second. -/
def Echoes (e : Fence) (closes : α → Prop) (u v : List Symbol) (p q : Parse α) : Prop :=
  ∀ pos, e.At u pos → EchoesAt e closes v p q pos

/-- The awaited brackets are the same behind what is read. -/
abbrev Tracks (e : Fence) (u : List Symbol) (p q : Parse α) : Prop := Echoes e (fun _ => True) u u p q

/-- The same rule reads the same in both inputs. -/
abbrev Firm (e : Fence) (u : List Symbol) (p : Parse α) : Prop := Tracks e u p p

theorem EchoesAt.of {p q : Parse α} (hat : e.At u pos) (h : Echoes e closes u v p q) : EchoesAt e closes v p q pos :=
  h pos hat

/-! ## What is known about the runs -/

/-- A run up to the fence succeeds in the second input too. -/
theorem EchoesAt.runs {p q : Parse α} {a : α} {next : Nat} (h : EchoesAt e (fun _ => True) v p q pos)
    (hp : Runs p e.left pos a next) : Runs q e.right (pos + e.shift) a (next + e.shift) ∧ e.At v next := by
  rw [EchoesAt, hp] at h
  obtain ⟨next', hq, hnext⟩ := h
  obtain ⟨rfl, hat⟩ := hnext trivial
  exact ⟨hq, hat⟩

/-- What succeeds in the second input succeeds in the first one, if it ends there. -/
theorem EchoesAt.exists_runs {p q : Parse α} {a : α} {next' : Nat} (h : EchoesAt e (fun _ => True) v p q pos)
    (hended : ∀ fault next, p e.left pos = (.error fault, next) → fault.isEndless = false)
    (hq : Runs q e.right (pos + e.shift) a next') :
    ∃ next, Runs p e.left pos a next ∧ next' = next + e.shift ∧ e.At v next := by
  rcases hp : p e.left pos with ⟨fault | b, next⟩
  · rw [EchoesAt, hp] at h
    rcases h with hendless | ⟨fault', next'', hfault, -⟩
    · rw [hended fault next hp] at hendless
      contradiction
    · rw [Runs, hfault] at hq
      cases hq
  · obtain ⟨hb, hat⟩ := h.runs hp
    obtain ⟨rfl, hnext⟩ := hb.unique hq
    exact ⟨next, hp, hnext.symm, hat⟩

/-! ## The monad -/

theorem EchoesAt.of_ok {p q : Parse α} {a : α} {next : Nat} (hp : p e.left pos = (.ok a, next))
    (hq : q e.right (pos + e.shift) = (.ok a, next + e.shift)) (h : closes a → e.At v next) :
    EchoesAt e closes v p q pos := by
  rw [EchoesAt, hp]
  exact ⟨next + e.shift, hq, fun ha => ⟨rfl, h ha⟩⟩

theorem EchoesAt.of_error {p q : Parse α} {fault fault' : Error} {next next' : Nat}
    (hp : p e.left pos = (.error fault, next)) (hq : q e.right (pos + e.shift) = (.error fault', next'))
    (hended : fault'.isEndless = false) : EchoesAt e closes v p q pos := by
  rw [EchoesAt, hp]
  exact .inr ⟨fault', next', hq, hended⟩

theorem Echoes.pure (a : α) : Echoes e closes u u (pure a) (pure a) :=
  fun _ hat => .of_ok rfl rfl fun _ => hat

/-- Declining with brackets open. -/
theorem Echoes.abandon : Echoes e (fun a => a.isSome = true) u v (Pure.pure (none : Option α)) (Pure.pure none) :=
  fun _ _ => .of_ok rfl rfl nofun

theorem EchoesAt.imp {closes' : α → Prop} {p q : Parse α} (h : EchoesAt e closes v p q pos)
    (hcloses : ∀ a, closes' a → closes a) : EchoesAt e closes' v p q pos := by
  unfold EchoesAt at h
  split at h
  · rename_i a next ha
    obtain ⟨next', hq, hnext⟩ := h
    rw [EchoesAt, ha]
    exact ⟨next', hq, fun hclose => hnext (hcloses a hclose)⟩
  · rename_i herror
    rw [EchoesAt, herror]
    exact h

theorem EchoesAt.bind {p q : Parse β} {k k' : β → Parse α} (hp : EchoesAt e (fun _ => True) u p q pos)
    (hk : ∀ b, Echoes e closes u v (k b) (k' b)) : EchoesAt e closes v (p >>= k) (q >>= k') pos := by
  unfold EchoesAt at hp ⊢
  simp only [Bind.bind]
  rcases hrun : p e.left pos with ⟨result, next⟩
  cases result with
  | ok b =>
    simp only [hrun] at hp ⊢
    obtain ⟨next', hq, hnext⟩ := hp
    obtain ⟨rfl, hat⟩ := hnext trivial
    rw [hq]
    exact hk b next hat
  | error fault =>
    simp only [hrun] at hp ⊢
    rcases hp with hendless | ⟨fault', next', hfault', hended⟩
    · exact .inl hendless
    · rw [hfault']
      exact .inr ⟨fault', next', rfl, hended⟩

theorem Echoes.bind {p q : Parse β} {k k' : β → Parse α} (hp : Echoes e (fun _ => True) u v p q)
    (hk : ∀ b, Echoes e closes v w (k b) (k' b)) : Echoes e closes u w (p >>= k) (q >>= k') :=
  fun pos hat => (hp pos hat).bind hk

theorem EchoesAt.map {p q : Parse β} {f : β → α} (hp : EchoesAt e (fun b => closes (f b)) v p q pos) :
    EchoesAt e closes v (do return f (← p)) (do return f (← q)) pos := by
  unfold EchoesAt at hp ⊢
  simp only [Bind.bind]
  rcases hrun : p e.left pos with ⟨result, next⟩
  cases result with
  | ok b =>
    simp only [hrun] at hp ⊢
    obtain ⟨next', hq, hnext⟩ := hp
    rw [hq]
    exact ⟨next', rfl, hnext⟩
  | error fault =>
    simp only [hrun] at hp ⊢
    rcases hp with hendless | ⟨fault', next', hfault', hended⟩
    · exact .inl hendless
    · rw [hfault']
      exact .inr ⟨fault', next', rfl, hended⟩

theorem Echoes.map {p q : Parse β} {f : β → α} (hp : Echoes e (fun _ => True) u v p q) :
    Echoes e closes u v (do return f (← p)) (do return f (← q)) :=
  hp.bind fun _ => .pure _

theorem Echoes.ite {c : Prop} [Decidable c] {p p' q q' : Parse α} (hp : Echoes e closes u v p p')
    (hq : Echoes e closes u v q q') : Echoes e closes u v (if c then p else q) (if c then p' else q') := by
  split
  · exact hp
  · exact hq

theorem EchoesAt.ite {c : Prop} [Decidable c] {p p' q q' : Parse α} (hp : c → EchoesAt e closes v p p' pos)
    (hq : ¬ c → EchoesAt e closes v q q' pos) :
    EchoesAt e closes v (if c then p else q) (if c then p' else q') pos := by
  split
  · exact hp ‹_›
  · exact hq ‹_›

/-! ## Failing -/

/-- Where both fail it does not matter how. -/
theorem echoes_expected (what what' : String) : Echoes e closes u v (expected what) (expected what') :=
  fun _ _ => .of_error rfl rfl (isEndless_errorAt nofun)

/-- A run that does not end is echoed by everything. -/
theorem echoes_endless (q : Parse α) : Echoes e closes u v (fail .endless) q := by
  intro pos _
  refine .inl ?_
  unfold Input.errorAt
  split <;> rfl

/-! ## Looking ahead -/

namespace EchoesAt

/-- A step that does not move. -/
theorem look {p q : Parse β} {k k' : β → Parse α} {b : β} (hp : p e.left pos = (.ok b, pos))
    (hq : q e.right (pos + e.shift) = (.ok b, pos + e.shift)) (hk : EchoesAt e closes v (k b) (k' b) pos) :
    EchoesAt e closes v (p >>= k) (q >>= k') pos := by
  unfold EchoesAt at hk ⊢
  simp only [Bind.bind, hp, hq]
  exact hk

/-- A step that takes exactly one token. -/
theorem token {p q : Parse β} {k k' : β → Parse α} {b : β} (hp : p e.left pos = (.ok b, pos + 1))
    (hq : q e.right (pos + e.shift) = (.ok b, pos + e.shift + 1))
    (hk : EchoesAt e closes v (k b) (k' b) (pos + 1)) : EchoesAt e closes v (p >>= k) (q >>= k') pos := by
  unfold EchoesAt at hk ⊢
  simp only [Bind.bind, hp, hq]
  rwa [Nat.add_right_comm] at hk

theorem peek {d : Nat} {k k' : Token → Parse α}
    (hk : EchoesAt e closes v (k (e.left.tokenAt (pos + d))) (k' (e.right.tokenAt (pos + d + e.shift))) pos) :
    EchoesAt e closes v (Parse.peek d >>= k) (Parse.peek d >>= k') pos := by
  rw [Nat.add_right_comm] at hk
  exact hk

theorem current {k k' : Token → Parse α}
    (hk : EchoesAt e closes v (k (e.left.tokenAt pos)) (k' (e.right.tokenAt (pos + e.shift))) pos) :
    EchoesAt e closes v (Parse.current >>= k) (Parse.current >>= k') pos :=
  peek hk

/-- A look at one token gives the same answer. -/
theorem ask {p : Parse β} {k k' : β → Parse α} {b b' : β} (hp : p e.left pos = (.ok b, pos))
    (hq : p e.right (pos + e.shift) = (.ok b', pos + e.shift)) (hb : b' = b)
    (hk : EchoesAt e closes v (k b) (k' b) pos) : EchoesAt e closes v (p >>= k) (p >>= k') pos :=
  look hp (hb ▸ hq) hk

theorem isSymbol {sym : Symbol} {k k' : Bool → Parse α} (hat : e.At u pos) (hne : sym ≠ .rparen)
    (hk : EchoesAt e closes v (k (e.left.tokenAt pos = .symbol sym)) (k' (e.left.tokenAt pos = .symbol sym)) pos) :
    EchoesAt e closes v (Parse.isSymbol sym >>= k) (Parse.isSymbol sym >>= k') pos :=
  ask rfl rfl (hat.isSymbol_eq _ hne) hk

theorem peekSymbol {d : Nat} {sym : Symbol} {k k' : Bool → Parse α} (hat : e.At u (pos + d)) (hne : sym ≠ .rparen)
    (hk : EchoesAt e closes v (k (e.left.tokenAt (pos + d) = .symbol sym))
      (k' (e.left.tokenAt (pos + d) = .symbol sym)) pos) :
    EchoesAt e closes v (Parse.peekSymbol d sym >>= k) (Parse.peekSymbol d sym >>= k') pos := by
  have heq := hat.isSymbol_eq _ hne
  rw [Nat.add_right_comm] at heq
  exact ask rfl rfl heq hk

theorem isWord {keyword : String} {k k' : Bool → Parse α} (hat : e.At u pos)
    (hk : EchoesAt e closes v (k ((e.left.tokenAt pos).isKeyword keyword))
      (k' ((e.left.tokenAt pos).isKeyword keyword)) pos) :
    EchoesAt e closes v (Parse.isWord keyword >>= k) (Parse.isWord keyword >>= k') pos :=
  ask rfl rfl (hat.isKeyword_eq keyword) hk

/-- Inside a bracket the closing one is the same token in both inputs. -/
theorem isClosing {closer sym : Symbol} {k k' : Bool → Parse α} (hat : e.At (closer :: u) pos)
    (hk : EchoesAt e closes v (k (e.left.tokenAt pos = .symbol sym)) (k' (e.left.tokenAt pos = .symbol sym)) pos) :
    EchoesAt e closes v (Parse.isSymbol sym >>= k) (Parse.isSymbol sym >>= k') pos :=
  ask rfl rfl (by rw [Nat.add_zero, hat.before_of_cons.tokenAt_eq, Nat.add_zero]) hk

/-- A look whose answer does not matter. -/
theorem ignore {p : Parse β} {k k' : β → Parse α} (hp : Looks p)
    (hk : ∀ b b', EchoesAt e closes v (k b) (k' b') pos) : EchoesAt e closes v (p >>= k) (p >>= k') pos := by
  obtain ⟨b, hb⟩ := hp e.left pos
  obtain ⟨b', hb'⟩ := hp e.right (pos + e.shift)
  have hrun := hk b b'
  unfold EchoesAt at hrun ⊢
  simp only [Bind.bind, hb, hb']
  exact hrun

/-- Taking a token that has been looked at. -/
theorem skip {k k' : Unit → Parse α} {t : Token} {u' : List Symbol} (h : e.Before u pos)
    (ht : e.left.tokenAt pos = t) (hnest : t.nest u = some u')
    (hk : e.At u' (pos + 1) → EchoesAt e closes v (k ()) (k' ()) (pos + 1)) :
    EchoesAt e closes v (Parse.skip >>= k) (Parse.skip >>= k') pos := by
  have hright : e.right.tokenAt (pos + e.shift) ≠ .eof := h.tokenAt_eq ▸ h.ne_eof
  exact token (skip_of_ne_eof h.ne_eof) (skip_of_ne_eof hright) (hk (h.next u' (ht ▸ hnest)))

/-- Taking two tokens that have been looked at. -/
theorem skipTwo {k k' : Unit → Parse α} {t t' : Token} {u' u'' : List Symbol} (h : e.Before u pos)
    (ht : e.left.tokenAt pos = t) (hnest : t.nest u = some u') (h' : e.Before u' (pos + 1))
    (ht' : e.left.tokenAt (pos + 1) = t') (hnest' : t'.nest u' = some u'')
    (hk : e.At u'' (pos + 2) → EchoesAt e closes v (k ()) (k' ()) (pos + 2)) :
    EchoesAt e closes v (skipBy 2 >>= k) (skipBy 2 >>= k') pos := by
  have hassoc (k : Unit → Parse α) : (skipBy 2 >>= k) = (Parse.skip >>= fun _ => Parse.skip >>= fun _ => k ()) := by
    simp only [skipBy, bind_assoc, pure_bind]
  rw [hassoc, hassoc]
  exact skip h ht hnest fun _ => skip h' ht' hnest' hk

end EchoesAt

/-- What only looks gives the same answer in both inputs. -/
theorem Tracks.look_eq {p : Parse α} (hp : Firm e u p) (hlooks : Looks p) (hat : e.At u pos) :
    ∃ a, p e.left pos = (.ok a, pos) ∧ p e.right (pos + e.shift) = (.ok a, pos + e.shift) := by
  obtain ⟨a, ha⟩ := hlooks e.left pos
  have hrun := hp pos hat
  rw [EchoesAt, ha] at hrun
  obtain ⟨next', hright, hnext⟩ := hrun
  exact ⟨a, ha, (hnext trivial).1 ▸ hright⟩

/-- A question about the current token that does not tell the fences apart. -/
theorem firm_ask {ask : Token → β} (hask : ask .eof = ask (.symbol .rparen)) :
    Firm e u (do return ask (← current)) := by
  intro pos hat
  refine .current ?_
  rw [hat.ask_eq _ hask]
  exact .of hat (.pure _)

theorem firm_isSymbol (sym : Symbol) (h : sym ≠ .rparen) : Firm e u (isSymbol sym) :=
  firm_ask (by simp [h.symm])

theorem firm_isClosing {closer : Symbol} (sym : Symbol) : Firm e (closer :: u) (isSymbol sym) := by
  intro pos hat
  refine .current ?_
  rw [hat.before_of_cons.tokenAt_eq]
  exact .of hat (.pure _)

theorem firm_isWord (keyword : String) : Firm e u (isWord keyword) := firm_ask rfl

theorem firm_currentWord : Firm e u currentWord := by
  intro pos hat
  refine .current ?_
  rcases hat.before_or with hbefore | ⟨-, hleft | hleft, hright | hright⟩
  · rw [hbefore.tokenAt_eq]
    split <;> exact .of hat (.pure _)
  all_goals
    rw [hleft, hright]
    exact .of hat (.pure _)

/-- Whether some keywords come next. None of them is a fence. -/
theorem hasWords_of_at {keywords : List String} (hat : e.At u pos) :
    e.right.HasWords (pos + e.shift) keywords ↔ e.left.HasWords pos keywords := by
  induction keywords generalizing pos with
  | nil => exact Iff.rfl
  | cons keyword rest ih =>
    unfold Input.HasWords
    rw [hat.isKeyword_eq]
    refine and_congr_right fun hword => ?_
    have hnext := (hat.before_of_isKeyword hword).next_isKeyword hword
    rw [Nat.add_right_comm]
    exact ih hnext

theorem firm_isWords (keywords : List String) : Firm e u (isWords keywords) := by
  intro pos hat
  by_cases hwords : e.left.HasWords pos keywords
  · exact .of_ok (runs_peekWords (n := 0) hwords) (runs_peekWords (n := 0) ((hasWords_of_at hat).2 hwords)) fun _ => hat
  · have hright : ¬ e.right.HasWords (pos + e.shift) keywords := fun h => hwords ((hasWords_of_at hat).1 h)
    exact .of_ok (runs_peekWords_false (n := 0) hwords) (runs_peekWords_false (n := 0) hright) fun _ => hat

/-! ## Single tokens -/

/-- A symbol, which may be a bracket. -/
theorem Echoes.accept {sym : Symbol} {k k' : Bool → Parse α} (hnest : (Token.symbol sym).nest u = some v)
    (hyes : Echoes e closes v w (k true) (k' true)) (hno : Echoes e closes u w (k false) (k' false)) :
    Echoes e closes u w (Parse.accept sym >>= k) (Parse.accept sym >>= k') := by
  intro pos hat
  rcases hat.before_or with hbefore | ⟨rfl, hleft, hright⟩
  · by_cases hsym : e.left.tokenAt pos = .symbol sym
    · refine .token (runs_accept hsym) (runs_accept (hbefore.tokenAt_eq.trans hsym)) ?_
      exact hyes _ (hbefore.next v (hsym ▸ hnest))
    · have hright : e.right.tokenAt (pos + e.shift) ≠ .symbol sym := hbefore.tokenAt_eq ▸ hsym
      exact .look (runs_accept_false hsym) (runs_accept_false hright) (hno pos hat)
  · -- At the fence no bracket is awaited, so the symbol is no closing one.
    have hne {t : Token} (ht : t.IsFence) : t ≠ .symbol sym := by
      rintro rfl
      obtain h | h := ht
      · cases h
      · cases h
        contradiction
    exact .look (runs_accept_false (hne hleft)) (runs_accept_false (hne hright)) (hno pos hat)

/-- A symbol that is no bracket. -/
theorem firm_accept (sym : Symbol) (hnest : (Token.symbol sym).nest u = some u) : Firm e u (accept sym) := by
  rw [← bind_pure (accept sym)]
  exact .accept hnest (.pure _) (.pure _)

/-- A symbol that has to come next, which may be a bracket. -/
theorem echoes_expect {closes : Unit → Prop} {sym : Symbol} (hnest : (Token.symbol sym).nest u = some v) :
    Echoes e closes u v (expect sym) (expect sym) := by
  rw [← bind_pure (expect sym), expect_bind]
  exact .accept hnest (.pure _) (echoes_expected _ _)

/-- Taking a token that means something and is no bracket. -/
theorem firm_acceptIf {meaning : Token → Option α} (h : ∀ t a, meaning t = some a → t.nest [] = some []) :
    Firm e u (acceptIf meaning) := by
  intro pos hat
  rcases hat.before_or with hbefore | ⟨-, hleft, hright⟩
  · have hp := acceptIf_of_ne_eof hbefore.ne_eof meaning
    have hq := acceptIf_of_ne_eof (hbefore.tokenAt_eq ▸ hbefore.ne_eof) meaning
    rw [hbefore.tokenAt_eq] at hq
    cases hmeaning : meaning (e.left.tokenAt pos) with
    | none =>
      rw [hmeaning] at hp hq
      exact .of_ok hp hq fun _ => hat
    | some a =>
      rw [hmeaning] at hp hq
      rw [Nat.add_right_comm] at hq
      exact .of_ok hp hq fun _ => hbefore.next u (Token.nest_append (h _ a hmeaning) u)
  · have hnone {i : Input} {pos : Nat} (ht : (i.tokenAt pos).IsFence) : acceptIf meaning i pos = (.ok none, pos) := by
      rcases ht with heof | hparen
      · exact acceptIf_of_eof heof meaning
      · rw [acceptIf_of_ne_eof (by simp [hparen]), hparen]
        cases hmeaning : meaning (.symbol .rparen) with
        | none => rfl
        | some a => nomatch h _ a hmeaning
    exact .of_ok (hnone hleft) (hnone hright) fun _ => hat

theorem firm_expectIf {what : String} {meaning : Token → Option α}
    (h : ∀ t a, meaning t = some a → t.nest [] = some []) : Firm e u (expectIf what meaning) := by
  refine (firm_acceptIf h).bind fun a => ?_
  cases a with
  | none => exact echoes_expected what what
  | some a => exact .pure a

/-! ## Keywords -/

theorem firm_acceptWord (keyword : String) : Firm e u (acceptWord keyword) := by
  refine (firm_acceptIf fun t a ht => ?_).map
  rw [Option.ite_none_right_eq_some] at ht
  exact Token.nest_of_isKeyword ht.1 []

theorem firm_expectWord (keyword : String) : Firm e u (expectWord keyword) :=
  (firm_acceptWord keyword).bind fun _ => .ite (.pure ()) (echoes_expected _ _)

theorem firm_expectWords (keywords : List String) : Firm e u (expectWords keywords) := by
  induction keywords with
  | nil => exact .pure ()
  | cons keyword rest ih => exact (firm_expectWord keyword).bind fun _ => ih

/-- Behind keywords the awaited brackets are the same. -/
theorem at_of_hasWords {keywords : List String} (hat : e.At u pos) (h : e.left.HasWords pos keywords) :
    e.At u (pos + keywords.length) := by
  induction keywords generalizing pos with
  | nil => exact hat
  | cons keyword rest ih =>
    have hrest := ih ((hat.before_of_isKeyword h.1).next_isKeyword h.1) h.2
    rwa [Nat.add_assoc, Nat.add_comm 1] at hrest

theorem firm_acceptWords (keywords : List String) : Firm e u (acceptWords keywords) := by
  intro pos hat
  by_cases hwords : e.left.HasWords pos keywords
  · have hq := runs_acceptWords ((hasWords_of_at hat).2 hwords)
    rw [Nat.add_right_comm] at hq
    exact .of_ok (runs_acceptWords hwords) hq fun _ => at_of_hasWords hat hwords
  · have hright : ¬ e.right.HasWords (pos + e.shift) keywords := fun h => hwords ((hasWords_of_at hat).1 h)
    exact .of_ok (runs_acceptWords_false hwords) (runs_acceptWords_false hright) fun _ => hat

/-! ## Choices -/

theorem firm_choose (phrases : List (List String × α)) : Firm e u (choose phrases) := by
  induction phrases with
  | nil => exact .pure none
  | cons phrase rest ih => exact (firm_acceptWords _).bind fun _ => .ite (.pure _) ih

theorem Echoes.maybe {test test' : Parse Bool} {p q : Parse α} (ht : Tracks e u test test')
    (hp : Tracks e u p q) : Tracks e u (maybe test p) (maybe test' q) :=
  ht.bind fun _ => .ite hp.map (.pure none)

theorem Echoes.maybeList {test test' : Parse Bool} {p q : Parse (List α)}
    (ht : Tracks e u test test') (hp : Tracks e u p q) :
    Tracks e u (maybeList test p) (maybeList test' q) :=
  ht.bind fun _ => .ite hp (.pure [])

theorem EchoesAt.attempt {p q : Parse (Option α)} (hat : e.At u pos)
    (hp : EchoesAt e (fun a => a.isSome = true) u p q pos) :
    EchoesAt e (fun _ => True) u (attempt p) (attempt q) pos := by
  unfold EchoesAt at hp
  split at hp
  · rename_i a next ha
    obtain ⟨next', ha', hnext⟩ := hp
    cases a with
    | none =>
      exact .of_ok (a := none) (by simp [Parse.attempt, ha]) (by simp [Parse.attempt, ha']) fun _ => hat
    | some a =>
      obtain ⟨rfl, hclosed⟩ := hnext rfl
      exact .of_ok (a := some a) (by simp [Parse.attempt, ha]) (by simp [Parse.attempt, ha']) fun _ => hclosed
  · rename_i fault next hfault
    by_cases hendless : fault.isEndless = true
    · rw [EchoesAt, Parse.attempt, hfault]
      simp [hendless]
    · obtain ⟨fault', next', hfault', hended⟩ := hp.resolve_left hendless
      refine .of_ok (a := none) ?_ ?_ fun _ => hat
      · simp [Parse.attempt, hfault, hendless]
      · simp [Parse.attempt, hfault', hended]

/-- A failure is forgotten in both runs. -/
theorem Echoes.attempt {p q : Parse (Option α)} (hp : Echoes e (fun a => a.isSome = true) u u p q) :
    Tracks e u (attempt p) (attempt q) :=
  fun pos hat => (hp pos hat).attempt hat

/-- Going back goes to where both started. -/
theorem Echoes.rewinding {p q : Parse (Option α)} (hp : Echoes e (fun a => a.isSome = true) u u p q) :
    Tracks e u (rewinding p) (rewinding q) := by
  intro pos hat
  have h := hp pos hat
  unfold EchoesAt at h
  split at h
  · rename_i a next ha
    obtain ⟨next', ha', hnext⟩ := h
    cases a with
    | none =>
      exact .of_ok (a := none) (by simp [Parse.rewinding, ha]) (by simp [Parse.rewinding, ha']) fun _ => hat
    | some a =>
      obtain ⟨rfl, hclosed⟩ := hnext rfl
      exact .of_ok (a := some a) (by simp [Parse.rewinding, ha]) (by simp [Parse.rewinding, ha']) fun _ => hclosed
  · rename_i fault next hfault
    rw [EchoesAt, Parse.rewinding, hfault]
    rcases h with hendless | ⟨fault', next', hfault', hended⟩
    · exact .inl hendless
    · exact .inr ⟨fault', next', by simp [Parse.rewinding, hfault'], hended⟩

/-! ## Loops and recursion -/

theorem echoes_manyUpTo {step step' : Parse (Option α)} (h : Tracks e u step step') {n m : Nat}
    (hnm : n ≤ m) : Tracks e u (manyUpTo step n) (manyUpTo step' m) := by
  induction n generalizing m with
  | zero => exact echoes_endless _
  | succ n ih =>
    obtain ⟨m, rfl⟩ : ∃ k, m = k + 1 := ⟨m - 1, by omega⟩
    refine h.bind fun a => ?_
    cases a with
    | none => exact .pure []
    | some a => exact (ih (Nat.le_of_succ_le_succ hnm)).map

theorem Echoes.many {step step' : Parse (Option α)} (h : Tracks e u step step') :
    Tracks e u (many step) (many step') :=
  fun pos hat => echoes_manyUpTo h (Nat.succ_le_succ (e.remaining_le pos)) pos hat

theorem echoes_iterateUpTo {step step' : α → Parse (Option α)}
    (h : ∀ a, Tracks e u (step a) (step' a)) {n m : Nat} (hnm : n ≤ m) (a : α) :
    Tracks e u (iterateUpTo step n a) (iterateUpTo step' m a) := by
  induction n generalizing m a with
  | zero => exact echoes_endless _
  | succ n ih =>
    obtain ⟨m, rfl⟩ : ∃ k, m = k + 1 := ⟨m - 1, by omega⟩
    refine (h a).bind fun b => ?_
    cases b with
    | none => exact .pure a
    | some b => exact ih (Nat.le_of_succ_le_succ hnm) b

theorem Echoes.iterate {step step' : α → Parse (Option α)}
    (h : ∀ a, Tracks e u (step a) (step' a)) (a : α) :
    Tracks e u (iterate step a) (iterate step' a) :=
  fun pos hat => echoes_iterateUpTo h (Nat.succ_le_succ (e.remaining_le pos)) a pos hat

theorem Echoes.commaSeparated {p q : Parse α} (h : Tracks e u p q) :
    Tracks e u (commaSeparated p) (commaSeparated q) :=
  h.bind fun _ => (Echoes.many (.maybe (firm_accept .comma rfl) h)).map

theorem echoes_nested {rule : Parse α → Parse α}
    (h : ∀ p q, (∀ u, Tracks e u p q) → ∀ u, Tracks e u (rule p) (rule q))
    {n m : Nat} (hnm : n ≤ m) (u : List Symbol) : Tracks e u (nested rule n) (nested rule m) := by
  induction n generalizing m u with
  | zero => exact echoes_endless _
  | succ n ih =>
    obtain ⟨m, rfl⟩ : ∃ k, m = k + 1 := ⟨m - 1, by omega⟩
    exact h _ _ (ih (Nat.le_of_succ_le_succ hnm)) u

theorem firm_fix {rule : Parse α → Parse α}
    (h : ∀ p q, (∀ u, Tracks e u p q) → ∀ u, Tracks e u (rule p) (rule q)) :
    Firm e u (fix rule) :=
  fun pos hat => echoes_nested h (Nat.succ_le_succ (e.remaining_le pos)) u pos hat

end Parse

end SqlTidy
