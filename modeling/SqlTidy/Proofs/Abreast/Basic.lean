import SqlTidy.Grammar.Command
import SqlTidy.Proofs.Case.Mirror
import SqlTidy.Proofs.Walk.Statement

/-!
# Two runs abreast

A semicolon behind a statement stands where the rules otherwise see the end of the text, and a semicolon in front
of it moves all tokens by one. To show that neither changes what is read, two inputs are read by the same rules
at the same time. Two positions are abreast if the tokens from there on are alike (`Pair.Abreast`): the same, or the
end mark in the first input and a semicolon in the second. What has been read before does not matter.

`Agrees p q` compares two parsers: from positions abreast, if `p` succeeds then `q` succeeds with the same result,
again abreast, and if `p` fails then `q` fails. Two things in it are less obvious.

**Bounds.** The second input has at least as many tokens left, so its loops and rules have larger bounds. A run of
`p` that runs out of its bound says nothing; all others end before it, and then the larger bound does not matter. So
`q` may be a rule at a higher level of nesting than `p`.

**Taking any token.** `skip` takes the semicolon but not the end mark. The positions stay abreast all the same,
because behind the semicolon the second input has ended too.
-/

namespace SqlTidy

/-- Tokens that hardly any rule tells apart: the same, or the end mark and, if the second text is closed by one, a
semicolon. -/
def Token.Alike (closed : Prop) (t t' : Token) : Prop := t' = t ∨ closed ∧ t = .eof ∧ t' = .symbol .semicolon

theorem Token.Alike.eq_of_ne_eof {closed : Prop} {t t' : Token} (h : Alike closed t t') (hne : t ≠ .eof) :
    t' = t := by
  rcases h with h | ⟨-, heof, -⟩
  · exact h
  · contradiction

/-- Two inputs, where the tokens of the second may stand `shift` bytes further behind, and the second may be closed by
a semicolon where the first ends. -/
structure Pair where
  left : Input
  right : Input
  shift : Nat
  closed : Prop
  scanned_left : left.Scanned
  scanned_right : right.Scanned
  slice (a b : Nat) (h : b ≤ left.source.utf8ByteSize) :
    Text.slice? right.source (a + shift) (b + shift) = Text.slice? left.source a b

namespace Pair

variable {e : Pair} {pos pos' : Nat}

theorem capped_left (e : Pair) : e.left.Capped := e.scanned_left.capped

theorem capped_right (e : Pair) : e.right.Capped := e.scanned_right.capped

/-- The tokens from two positions on are alike, and stand in the same places but for the shift. -/
structure Abreast (e : Pair) (pos pos' : Nat) : Prop where
  alike (n : Nat) : Token.Alike e.closed (e.left.tokenAt (pos + n)) (e.right.tokenAt (pos' + n))
  remaining : e.left.remaining pos ≤ e.right.remaining pos'
  start (n : Nat) (h : e.left.tokenAt (pos + n) ≠ .eof) :
    e.right.startAt (pos' + n) = e.left.startAt (pos + n) + e.shift
  stop (n : Nat) (h : e.left.tokenAt (pos + n) ≠ .eof) :
    e.right.endBefore (pos' + n + 1) = e.left.endBefore (pos + n + 1) + e.shift

namespace Abreast

/-- One token further in both inputs. -/
theorem succ (h : e.Abreast pos pos') : e.Abreast (pos + 1) (pos' + 1) where
  alike n := by
    have halike := h.alike (n + 1)
    rwa [Nat.add_comm n, ← Nat.add_assoc, ← Nat.add_assoc] at halike
  remaining := by
    have hremaining := h.remaining
    unfold Input.remaining at hremaining ⊢
    omega
  start n hn := by
    have hstart := h.start (n + 1)
    rw [Nat.add_comm n, ← Nat.add_assoc, ← Nat.add_assoc] at hstart
    exact hstart hn
  stop n hn := by
    have hstop := h.stop (n + 1)
    rw [Nat.add_comm n, ← Nat.add_assoc, ← Nat.add_assoc] at hstop
    exact hstop hn

theorem add (h : e.Abreast pos pos') (n : Nat) : e.Abreast (pos + n) (pos' + n) := by
  induction n with
  | zero => exact h
  | succ n ih => exact ih.succ

theorem tokenAt_eq (h : e.Abreast pos pos') (hne : e.left.tokenAt pos ≠ .eof) :
    e.right.tokenAt pos' = e.left.tokenAt pos :=
  (h.alike 0).eq_of_ne_eof hne

/-- Behind the semicolon that stands for the end both inputs have ended. -/
theorem pass (h : e.Abreast pos pos') (heof : e.left.tokenAt pos = .eof)
    (hsemicolon : e.right.tokenAt pos' = .symbol .semicolon) : e.Abreast pos (pos' + 1) := by
  have hlast := (e.capped_left.eof_iff pos).1 heof
  have hend (n : Nat) : e.left.tokenAt (pos + n) = .eof :=
    (e.capped_left.eof_iff _).2 (Nat.le_trans hlast (Nat.le_add_right pos n))
  have hlt : pos' < e.right.last := e.capped_right.lt_last (by simp [hsemicolon])
  refine ⟨fun n => ?_, ?_, fun n hn => absurd (hend n) hn, fun n hn => absurd (hend n) hn⟩
  · have halike := h.alike (n + 1)
    rw [hend] at halike ⊢
    rwa [Nat.add_comm n, ← Nat.add_assoc] at halike
  · unfold Input.remaining
    unfold Input.last at hlast hlt
    omega

end Abreast

end Pair

namespace Parse

variable {α β : Type} {e : Pair} {pos pos' : Nat}

/-- From positions abreast, `q` ends as `p` does, unless `p` does not end. -/
def AgreesAt (e : Pair) (p q : Parse α) (pos pos' : Nat) : Prop :=
  match p e.left pos with
  | (.ok a, next) => ∃ next', q e.right pos' = (.ok a, next') ∧ e.Abreast next next'
  | (.error fault, _) => fault.isEndless = true ∨
      ∃ fault' next', q e.right pos' = (.error fault', next') ∧ fault'.isEndless = false

/-- What `p` reads in the first input, `q` reads in the second. -/
def Agrees (e : Pair) (p q : Parse α) : Prop :=
  ∀ ⦃pos pos'⦄, e.Abreast pos pos' → AgreesAt e p q pos pos'

/-- The same rule reads the same in both inputs. -/
abbrev Stable (e : Pair) (p : Parse α) : Prop := Agrees e p p

/-! ## The monad -/

theorem AgreesAt.of_ok {p q : Parse α} {a : α} {next next' : Nat} (hp : p e.left pos = (.ok a, next))
    (hq : q e.right pos' = (.ok a, next')) (h : e.Abreast next next') : AgreesAt e p q pos pos' := by
  rw [AgreesAt, hp]
  exact ⟨next', hq, h⟩

theorem Agrees.pure (a : α) : Stable e (pure a) := fun _ _ h => .of_ok rfl rfl h

theorem AgreesAt.bind {p q : Parse α} {k k' : α → Parse β} (hp : AgreesAt e p q pos pos')
    (hk : ∀ a, Agrees e (k a) (k' a)) : AgreesAt e (p >>= k) (q >>= k') pos pos' := by
  unfold AgreesAt at hp ⊢
  simp only [Bind.bind]
  rcases hrun : p e.left pos with ⟨result, next⟩
  cases result with
  | ok a =>
    simp only [hrun] at hp ⊢
    obtain ⟨next', ha', hnext⟩ := hp
    rw [ha']
    exact hk a hnext
  | error fault =>
    simp only [hrun] at hp ⊢
    rcases hp with hendless | ⟨fault', next', hfault', hended⟩
    · exact .inl hendless
    · rw [hfault']
      exact .inr ⟨fault', next', rfl, hended⟩

theorem Agrees.bind {p q : Parse α} {k k' : α → Parse β} (hp : Agrees e p q)
    (hk : ∀ a, Agrees e (k a) (k' a)) : Agrees e (p >>= k) (q >>= k') :=
  fun _ _ h => (hp h).bind hk

theorem Agrees.map {p q : Parse α} {f : α → β} (hp : Agrees e p q) :
    Agrees e (do return f (← p)) (do return f (← q)) :=
  hp.bind fun _ => .pure _

theorem Agrees.ite {c : Prop} [Decidable c] {p p' q q' : Parse α} (hp : Agrees e p p')
    (hq : Agrees e q q') : Agrees e (if c then p else q) (if c then p' else q') := by
  split
  · exact hp
  · exact hq

/-! ## The cursor and errors -/

/-- A rule that looks at a token goes on in the same way at the end mark and at a semicolon. -/
theorem Agrees.peek {n : Nat} {k k' : Token → Parse α} (h : ∀ t, Agrees e (k t) (k' t))
    (hend : Agrees e (k .eof) (k' (.symbol .semicolon))) :
    Agrees e (Parse.peek n >>= k) (Parse.peek n >>= k') := by
  intro pos pos' habreast
  show AgreesAt e (k (e.left.tokenAt (pos + n))) (k' (e.right.tokenAt (pos' + n))) pos pos'
  rcases habreast.alike n with heq | ⟨-, heof, hsemicolon⟩
  · rw [heq]
    exact h _ habreast
  · rw [heof, hsemicolon]
    exact hend habreast

theorem Agrees.current {k k' : Token → Parse α} (h : ∀ t, Agrees e (k t) (k' t))
    (hend : Agrees e (k .eof) (k' (.symbol .semicolon))) :
    Agrees e (Parse.current >>= k) (Parse.current >>= k') :=
  .peek h hend

/-- A question about a token ahead that the end mark and a semicolon answer in the same way. -/
theorem stable_ask {n : Nat} {ask : Token → β} (h : ask .eof = ask (.symbol .semicolon)) :
    Stable e (do return ask (← peek n)) :=
  .peek (fun t => .pure _) (by rw [h]; exact .pure _)

theorem AgreesAt.of_error {p q : Parse α} {fault fault' : Error} {next next' : Nat}
    (hp : p e.left pos = (.error fault, next)) (hq : q e.right pos' = (.error fault', next'))
    (hended : fault'.isEndless = false) : AgreesAt e p q pos pos' := by
  rw [AgreesAt, hp]
  exact .inr ⟨fault', next', hq, hended⟩

theorem isEndless_errorAt {i : Input} {cause : Cause} (h : cause ≠ .endless) :
    (i.errorAt pos cause).isEndless = false := by
  unfold Input.errorAt
  split <;> simp [Error.ofCause, Error.isEndless, h]

/-- Where both fail it does not matter how. -/
theorem agrees_expected (what what' : String) :
    Agrees e (expected what : Parse α) (expected what') :=
  fun _ _ _ => .of_error rfl rfl (isEndless_errorAt nofun)

theorem agrees_failWith {fault : Error} (h : fault.isEndless = false) :
    Stable e (failWith fault : Parse α) :=
  fun _ _ _ => .of_error rfl rfl h

/-- A run that does not end agrees with everything. -/
theorem agrees_endless (q : Parse α) : Agrees e (fail .endless) q := by
  intro pos pos' _
  refine .inl ?_
  unfold Input.errorAt
  split <;> rfl

/-! ## Single tokens -/

/-- A rule that takes tokens by their meaning, where a semicolon means nothing to it. -/
theorem stable_acceptIf (meaning : Token → Option α)
    (h : meaning (.symbol .semicolon) = none) : Stable e (acceptIf meaning) := by
  intro pos pos' habreast
  by_cases heof : e.left.tokenAt pos = .eof
  · refine .of_ok (acceptIf_of_eof heof _) ?_ habreast
    rcases habreast.alike 0 with heq | ⟨-, -, hsemicolon⟩
    · exact acceptIf_of_eof (heq.trans heof) _
    · have ht : e.right.tokenAt pos' = .symbol .semicolon := hsemicolon
      rw [acceptIf_of_ne_eof (by simp [ht]), ht, h]
      rfl
  · have ht := habreast.tokenAt_eq heof
    have hleft := acceptIf_of_ne_eof heof meaning
    have hright := acceptIf_of_ne_eof (ht ▸ heof) meaning
    rw [ht] at hright
    refine .of_ok hleft hright ?_
    split
    · exact habreast.succ
    · exact habreast

theorem stable_expectIf (what : String) (meaning : Token → Option α)
    (h : meaning (.symbol .semicolon) = none) : Stable e (expectIf what meaning) := by
  refine (stable_acceptIf meaning h).bind fun a => ?_
  cases a with
  | none => exact agrees_expected what what
  | some a => exact .pure a

theorem stable_skip : Stable e skip := by
  intro pos pos' habreast
  by_cases heof : e.left.tokenAt pos = .eof
  · have hleft : skip e.left pos = (.ok (), pos) := by
      simp [skip, Bind.bind, acceptIf_of_eof heof, Pure.pure]
    rcases habreast.alike 0 with heq | ⟨-, -, hsemicolon⟩
    · have hright : skip e.right pos' = (.ok (), pos') := by
        have ht : e.right.tokenAt pos' = .eof := heq.trans heof
        simp [skip, Bind.bind, acceptIf_of_eof ht, Pure.pure]
      exact .of_ok hleft hright habreast
    · have hright : skip e.right pos' = (.ok (), pos' + 1) := by
        have ht : e.right.tokenAt pos' = .symbol .semicolon := hsemicolon
        simp [skip, Bind.bind, acceptIf_of_ne_eof, ht, Pure.pure]
      exact .of_ok hleft hright (habreast.pass heof hsemicolon)
  · have ht := habreast.tokenAt_eq heof
    have hright : skip e.right pos' = (.ok (), pos' + 1) := by
      simp [skip, Bind.bind, acceptIf_of_ne_eof (ht ▸ heof), Pure.pure]
    have hleft : skip e.left pos = (.ok (), pos + 1) := by
      simp [skip, Bind.bind, acceptIf_of_ne_eof heof, Pure.pure]
    exact .of_ok hleft hright habreast.succ

theorem stable_skipBy (n : Nat) : Stable e (skipBy n) := by
  induction n with
  | zero => exact .pure ()
  | succ n ih => exact stable_skip.bind fun _ => ih

/-- A symbol that stands inside a statement and does not end it. -/
class Inside (s : Symbol) : Prop where
  ne_semicolon : s ≠ .semicolon

instance : Inside .comma := ⟨nofun⟩
instance : Inside .dot := ⟨nofun⟩
instance : Inside .eq := ⟨nofun⟩
instance : Inside .notEq := ⟨nofun⟩
instance : Inside .lt := ⟨nofun⟩
instance : Inside .gt := ⟨nofun⟩
instance : Inside .star := ⟨nofun⟩
instance : Inside .colon := ⟨nofun⟩
instance : Inside .doubleColon := ⟨nofun⟩
instance : Inside .arrow := ⟨nofun⟩
instance : Inside .fatArrow := ⟨nofun⟩
instance : Inside .bang := ⟨nofun⟩
instance : Inside .minus := ⟨nofun⟩
instance : Inside .hintStart := ⟨nofun⟩
instance : Inside .hintEnd := ⟨nofun⟩
instance : Inside .lparen := ⟨nofun⟩
instance : Inside .rparen := ⟨nofun⟩
instance : Inside .lbracket := ⟨nofun⟩
instance : Inside .rbracket := ⟨nofun⟩

theorem stable_peekSymbol (n : Nat) (s : Symbol) [h : Inside s] : Stable e (peekSymbol n s) :=
  stable_ask (by simp [h.ne_semicolon.symm])

theorem stable_isSymbol (s : Symbol) [Inside s] : Stable e (isSymbol s) := stable_peekSymbol 0 s

theorem stable_accept (s : Symbol) [h : Inside s] : Stable e (accept s) :=
  (stable_acceptIf _ (by simp [h.ne_semicolon.symm])).map

theorem stable_expect (s : Symbol) [Inside s] : Stable e (expect s) :=
  (stable_accept s).bind fun _ => .ite (.pure ()) (agrees_expected _ _)

/-! ## Keywords -/

theorem stable_peekWord (n : Nat) (keyword : String) : Stable e (peekWord n keyword) :=
  stable_ask rfl

theorem stable_isWord (keyword : String) : Stable e (isWord keyword) := stable_peekWord 0 keyword

theorem stable_peekWords (n : Nat) (keywords : List String) : Stable e (peekWords n keywords) := by
  induction keywords generalizing n with
  | nil => exact .pure true
  | cons keyword rest ih => exact (stable_peekWord n keyword).bind fun _ => .ite (ih (n + 1)) (.pure _)

theorem stable_isWords (keywords : List String) : Stable e (isWords keywords) :=
  stable_peekWords 0 keywords

theorem stable_acceptWord (keyword : String) : Stable e (acceptWord keyword) :=
  (stable_acceptIf _ rfl).map

theorem stable_acceptWords (keywords : List String) : Stable e (acceptWords keywords) :=
  (stable_isWords keywords).bind fun _ => .ite ((stable_skipBy _).bind fun _ => .pure _) (.pure _)

theorem stable_expectWord (keyword : String) : Stable e (expectWord keyword) :=
  (stable_acceptWord keyword).bind fun _ => .ite (.pure ()) (agrees_expected _ _)

theorem stable_expectWords (keywords : List String) : Stable e (expectWords keywords) := by
  induction keywords with
  | nil => exact .pure ()
  | cons keyword rest ih => exact (stable_expectWord keyword).bind fun _ => ih

theorem stable_currentWord : Stable e currentWord :=
  .current (fun t => by cases t <;> exact .pure _) (.pure none)

/-! ## Choices -/

theorem stable_choose (phrases : List (List String × α)) : Stable e (choose phrases) := by
  induction phrases with
  | nil => exact .pure none
  | cons phrase rest ih => exact (stable_acceptWords _).bind fun _ => .ite (.pure _) ih

theorem stable_noRule : Stable e (chooseRule ([] : List (List String × Parse α))) := .pure none

theorem Agrees.rule {phrase : List String} {p q : Parse α} {rules rules' : List (List String × Parse α)}
    (h : Agrees e p q) (hrest : Agrees e (chooseRule rules) (chooseRule rules')) :
    Agrees e (chooseRule ((phrase, p) :: rules)) (chooseRule ((phrase, q) :: rules')) := by
  rw [chooseRule_cons, chooseRule_cons]
  exact (stable_acceptWords phrase).bind fun _ => .ite h.map hrest

theorem Agrees.maybe {test test' : Parse Bool} {p q : Parse α} (ht : Agrees e test test')
    (hp : Agrees e p q) : Agrees e (maybe test p) (maybe test' q) :=
  ht.bind fun _ => .ite hp.map (.pure none)

theorem Agrees.maybeList {test test' : Parse Bool} {p q : Parse (List α)} (ht : Agrees e test test')
    (hp : Agrees e p q) : Agrees e (maybeList test p) (maybeList test' q) :=
  ht.bind fun _ => .ite hp (.pure [])

/-- Going back goes to where both started. -/
theorem Agrees.rewinding {p q : Parse (Option α)} (hp : Agrees e p q) :
    Agrees e (rewinding p) (rewinding q) := by
  intro pos pos' habreast
  have h := hp habreast
  unfold AgreesAt at h
  split at h
  · rename_i a next ha
    obtain ⟨next', ha', hnext⟩ := h
    cases a with
    | none =>
      exact .of_ok (a := none) (by simp [Parse.rewinding, ha]) (by simp [Parse.rewinding, ha']) habreast
    | some a =>
      exact .of_ok (a := some a) (by simp [Parse.rewinding, ha]) (by simp [Parse.rewinding, ha']) hnext
  · rename_i fault next hfault
    rw [AgreesAt, Parse.rewinding, hfault]
    rcases h with hendless | ⟨fault', next', hfault', hended⟩
    · exact .inl hendless
    · exact .inr ⟨fault', next', by simp [Parse.rewinding, hfault'], hended⟩

/-- A failure is forgotten in both runs. -/
theorem Agrees.attempt {p q : Parse (Option α)} (hp : Agrees e p q) :
    Agrees e (attempt p) (attempt q) := by
  intro pos pos' habreast
  have h := hp habreast
  unfold AgreesAt at h
  split at h
  · rename_i a next ha
    obtain ⟨next', ha', hnext⟩ := h
    cases a with
    | none =>
      exact .of_ok (a := none) (by simp [Parse.attempt, ha]) (by simp [Parse.attempt, ha']) habreast
    | some a =>
      exact .of_ok (a := some a) (by simp [Parse.attempt, ha]) (by simp [Parse.attempt, ha']) hnext
  · rename_i fault next hfault
    by_cases hendless : fault.isEndless = true
    · rw [AgreesAt, Parse.attempt, hfault]
      simp [hendless]
    · obtain ⟨fault', next', hfault', hended⟩ := h.resolve_left hendless
      refine .of_ok (a := none) ?_ ?_ habreast
      · simp [Parse.attempt, hfault, hendless]
      · simp [Parse.attempt, hfault', hended]

/-! ## Loops and recursion -/

theorem agrees_manyUpTo {step step' : Parse (Option α)} (h : Agrees e step step') {n m : Nat}
    (hnm : n ≤ m) : Agrees e (manyUpTo step n) (manyUpTo step' m) := by
  induction n generalizing m with
  | zero => exact agrees_endless _
  | succ n ih =>
    obtain ⟨m, rfl⟩ : ∃ k, m = k + 1 := ⟨m - 1, by omega⟩
    refine h.bind fun a => ?_
    cases a with
    | none => exact .pure []
    | some a => exact (ih (Nat.le_of_succ_le_succ hnm)).map

theorem Agrees.many {step step' : Parse (Option α)} (h : Agrees e step step') :
    Agrees e (many step) (many step') :=
  fun _ _ habreast => agrees_manyUpTo h (Nat.succ_le_succ habreast.remaining) habreast

theorem agrees_iterateUpTo {step step' : α → Parse (Option α)} (h : ∀ a, Agrees e (step a) (step' a))
    {n m : Nat} (hnm : n ≤ m) (a : α) : Agrees e (iterateUpTo step n a) (iterateUpTo step' m a) := by
  induction n generalizing m a with
  | zero => exact agrees_endless _
  | succ n ih =>
    obtain ⟨m, rfl⟩ : ∃ k, m = k + 1 := ⟨m - 1, by omega⟩
    refine (h a).bind fun b => ?_
    cases b with
    | none => exact .pure a
    | some b => exact ih (Nat.le_of_succ_le_succ hnm) b

theorem Agrees.iterate {step step' : α → Parse (Option α)} (h : ∀ a, Agrees e (step a) (step' a))
    (a : α) : Agrees e (iterate step a) (iterate step' a) :=
  fun _ _ habreast => agrees_iterateUpTo h (Nat.succ_le_succ habreast.remaining) a habreast

theorem Agrees.commaSeparated {p q : Parse α} (h : Agrees e p q) :
    Agrees e (commaSeparated p) (commaSeparated q) :=
  h.bind fun _ => (Agrees.many (.maybe (stable_accept .comma) h)).map

theorem agrees_nested {rule : Parse α → Parse α}
    (h : ∀ p q, Agrees e p q → Agrees e (rule p) (rule q)) {n m : Nat} (hnm : n ≤ m) :
    Agrees e (nested rule n) (nested rule m) := by
  induction n generalizing m with
  | zero => exact agrees_endless _
  | succ n ih =>
    obtain ⟨m, rfl⟩ : ∃ k, m = k + 1 := ⟨m - 1, by omega⟩
    exact h _ _ (ih (Nat.le_of_succ_le_succ hnm))

theorem stable_fix {rule : Parse α → Parse α}
    (h : ∀ p q, Agrees e p q → Agrees e (rule p) (rule q)) : Stable e (fix rule) :=
  fun _ _ habreast => agrees_nested h (Nat.succ_le_succ habreast.remaining) habreast

end Parse

end SqlTidy
