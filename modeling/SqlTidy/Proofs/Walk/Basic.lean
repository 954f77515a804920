import SqlTidy.Grammar.Nesting
import SqlTidy.Proofs.Case.Mirror
import SqlTidy.Proofs.Walk.Movement

/-!
# How parsers move

**The judgement** (`Parse.Walks n advances closes s p`). Let `p` run in front of fewer than `n` tokens, while
the closing brackets `s` are awaited. If it succeeds, it stands at or before the end mark and has not gone
back; it has taken a token if its result `advances`, and it has met the awaited brackets and closed what it
opened itself if its result `closes`. If it fails, it also stands at or before the end mark, and the fault
lies at a token and is not that a rule went on for ever.

**Recursion.** The number `n` pays for recursion. The rules one level further in are good for `n` tokens, and
a rule that takes a token before it calls them is good for one more. So the lemmas about taking a token come
twice: behind the first token `n` stays what it is, and at the first token it goes from `n + 1` to `n`.

**Loops.** A loop runs at most once more than there are tokens left. A step that takes a token whenever it
does not decline cannot use up that many rounds.

**Forms.** `Takes` asks for a token in any case, `Passes` in none, `Steps` and `Tries` are for rules that may
decline: the former takes a token unless it declines, the latter may also leave brackets open when it
declines, since whoever calls it goes back to where it started.
-/

namespace SqlTidy

namespace Parse

variable {α β : Type} {advances closes : α → Prop} {s s' : List Symbol} {i : Input} {pos m n : Nat}

/-! ## The judgement -/

/-- The parser walks from a position. -/
structure WalksAt (advances closes : α → Prop) (s : List Symbol) (p : Parse α) (i : Input)
    (pos : Nat) : Prop where
  ok : Ends p i pos fun a next => i.Moved s pos next (advances a) (closes a)
  error : ∀ e next, p i pos = (.error e, next) → next ≤ i.last ∧ i.Faults e

/-- The parser walks from every position with fewer than `n` tokens left. -/
def Walks (n : Nat) (advances closes : α → Prop) (s : List Symbol) (p : Parse α) : Prop :=
  ∀ i pos, i.Leaves pos n → WalksAt advances closes s p i pos

/-- The parser takes at least one token. -/
abbrev Takes (n : Nat) (s : List Symbol) (p : Parse α) : Prop :=
  Walks n (fun _ => True) (fun _ => True) s p

/-- The parser may take no token. -/
abbrev Passes (n : Nat) (s : List Symbol) (p : Parse α) : Prop :=
  Walks n (fun _ => False) (fun _ => True) s p

/-- The parser takes a token unless it declines. -/
abbrev Steps (n : Nat) (s : List Symbol) (p : Parse (Option α)) : Prop :=
  Walks n (fun a => a.isSome = true) (fun _ => True) s p

/-- The parser takes a token unless it declines, and then its brackets do not matter. -/
abbrev Tries (n : Nat) (s : List Symbol) (p : Parse (Option α)) : Prop :=
  Walks n (fun a => a.isSome = true) (fun a => a.isSome = true) s p

/-- The parser takes a token if a test succeeds. -/
abbrev Tests (n : Nat) (p : Parse Bool) : Prop :=
  Walks n (fun found => found = true) (fun _ => True) [] p

theorem Walks.mono {p : Parse α} (h : Walks (n + 1) advances closes s p) :
    Walks n advances closes s p :=
  fun i pos hpos => h i pos hpos.succ

theorem WalksAt.imp {advances' closes' : α → Prop} {p : Parse α}
    (h : WalksAt advances closes s p i pos) (hadvances : ∀ a, advances' a → advances a)
    (hcloses : ∀ a, closes' a → closes a) : WalksAt advances' closes' s p i pos where
  ok := h.ok.mono fun a _ hmoved => hmoved.imp (hadvances a) (hcloses a)
  error := h.error

theorem Walks.imp {advances' closes' : α → Prop} {p : Parse α} (h : Walks n advances closes s p)
    (hadvances : ∀ a, advances' a → advances a) (hcloses : ∀ a, closes' a → closes a) :
    Walks n advances' closes' s p :=
  fun i pos hpos => (h i pos hpos).imp hadvances hcloses

/-- Whether a token is taken may be left open. -/
theorem Walks.passes {p : Parse α} (h : Walks n advances (fun _ => True) s p) : Passes n s p :=
  h.imp (fun _ => False.elim) fun _ => id

theorem Takes.walks {p : Parse α} (h : Takes n s p) : Walks n advances closes s p :=
  h.imp (fun _ _ => trivial) fun _ _ => trivial

/-- Only the run from the position matters. -/
theorem WalksAt.congr {p q : Parse α} (h : WalksAt advances closes s q i pos)
    (hrun : p i pos = q i pos) : WalksAt advances closes s p i pos where
  ok a next hp := h.ok a next (hrun ▸ hp)
  error e next hp := h.error e next (hrun ▸ hp)

theorem WalksAt.of_ok {p : Parse α} {a : α} {next : Nat} (hrun : p i pos = (.ok a, next))
    (hmoved : i.Moved s pos next (advances a) (closes a)) : WalksAt advances closes s p i pos where
  ok b mid hp := by
    rw [hrun] at hp
    cases hp
    exact hmoved
  error e mid hp := by
    rw [hrun] at hp
    cases hp

theorem WalksAt.of {p : Parse α} (hpos : i.Leaves pos n) (h : Walks n advances closes s p) :
    WalksAt advances closes s p i pos :=
  h i pos hpos

/-! ## Results and steps -/

theorem WalksAt.pure {a : α} (hpos : pos ≤ i.last) (hadvances : ¬ advances a)
    (hcloses : closes a → s = []) : WalksAt advances closes s (Pure.pure a) i pos :=
  .of_ok rfl (.stay hpos hadvances hcloses)

/-- A step and what follows it. A token that the step takes need not be taken again. -/
theorem WalksAt.bind {C : Prop} {advances' : β → Prop} {p : Parse β} {k : β → Parse α}
    (hcloses : ∀ a, closes a → C) (hp : WalksAt advances' (fun _ => C) [] p i pos)
    (hk : ∀ b mid, pos ≤ mid → mid ≤ i.last → (advances' b → pos < mid) →
      WalksAt (fun a => advances a ∧ ¬ advances' b) closes s (k b) i mid) :
    WalksAt advances closes s (p >>= k) i pos where
  ok := by
    refine hp.ok.bind fun b mid hmid => ?_
    refine (hk b mid hmid.le hmid.le_last hmid.lt).ok.mono fun a next hnext => ?_
    refine (hmid.trans hnext).imp (fun ha => ?_) fun ha => ⟨hcloses a ha, ha⟩
    by_cases hb : advances' b
    · exact .inl hb
    · exact .inr ⟨ha, hb⟩
  error := by
    intro e next hrun
    simp only [Bind.bind] at hrun
    split at hrun
    · rename_i b mid hb
      have hmid := hp.ok b mid hb
      exact (hk b mid hmid.le hmid.le_last hmid.lt).error e next hrun
    · rename_i e' mid he
      cases hrun
      exact hp.error e next he

/-- A step whose tokens do not count. -/
theorem Walks.bind {advances' : β → Prop} {p : Parse β} {k : β → Parse α}
    (hp : Walks n advances' (fun _ => True) [] p) (hk : ∀ b, Walks n advances closes s (k b)) :
    Walks n advances closes s (p >>= k) := fun i pos hpos =>
  .bind (fun _ _ => trivial) (hp i pos hpos) fun b mid hmid hlast _ =>
    (hk b i mid (hpos.ahead hmid hlast)).imp (fun _ => And.left) fun _ => id

theorem Walks.takeThen {p : Parse β} {k : β → Parse α} (hm : m ≤ n + 1) (hp : Takes m [] p)
    (hk : ∀ b, Walks n (fun _ => False) closes s (k b)) :
    Walks m advances closes s (p >>= k) := fun i pos hpos =>
  .bind (fun _ _ => trivial) (hp i pos hpos) fun b mid _ hlast hlt =>
    (hk b i mid (hpos.behind hm (hlt trivial) hlast)).imp (fun _ h => h.2 trivial) fun _ => id

/-- A step that takes a token. -/
theorem Walks.take {p : Parse β} {k : β → Parse α} (hp : Takes n [] p)
    (hk : ∀ b, Walks n (fun _ => False) closes s (k b)) : Walks n advances closes s (p >>= k) :=
  .takeThen (Nat.le_succ n) hp hk

/-- The step that takes the first token. -/
theorem Walks.first {p : Parse β} {k : β → Parse α} (hp : Takes (n + 1) [] p)
    (hk : ∀ b, Walks n (fun _ => False) closes s (k b)) :
    Walks (n + 1) advances closes s (p >>= k) :=
  .takeThen (Nat.le_refl _) hp hk

theorem Walks.ifThen {test : Parse Bool} {p q : Parse α} (hm : m ≤ n + 1) (htest : Tests m test)
    (hp : Walks n (fun _ => False) closes s p) (hq : Walks m advances closes s q) :
    Walks m advances closes s (test >>= fun found => if found = true then p else q) :=
  fun i pos hpos => .bind (fun _ _ => trivial) (htest i pos hpos) fun found mid hmid hlast hlt => by
    cases found with
    | true => exact (hp i mid (hpos.behind hm (hlt rfl) hlast)).imp (fun _ h => h.2 rfl) fun _ => id
    | false => exact (hq i mid (hpos.ahead hmid hlast)).imp (fun _ => And.left) fun _ => id

/-- A test that takes a token if it succeeds. -/
theorem Walks.ifTake {test : Parse Bool} {p q : Parse α} (htest : Tests n test)
    (hp : Walks n (fun _ => False) closes s p) (hq : Walks n advances closes s q) :
    Walks n advances closes s (test >>= fun found => if found = true then p else q) :=
  .ifThen (Nat.le_succ n) htest hp hq

/-- A test that takes the first token if it succeeds. -/
theorem Walks.ifFirst {test : Parse Bool} {p q : Parse α} (htest : Tests (n + 1) test)
    (hp : Walks n (fun _ => False) closes s p) (hq : Walks (n + 1) advances closes s q) :
    Walks (n + 1) advances closes s (test >>= fun found => if found = true then p else q) :=
  .ifThen (Nat.le_refl _) htest hp hq

theorem Walks.matchThen {p : Parse (Option β)} {k : Option β → Parse α} (hm : m ≤ n + 1)
    (hp : Steps m [] p) (hsome : ∀ b, Walks n (fun _ => False) closes s (k (some b)))
    (hnone : Walks m advances closes s (k none)) : Walks m advances closes s (p >>= k) :=
  fun i pos hpos => .bind (fun _ _ => trivial) (hp i pos hpos) fun b mid hmid hlast hlt => by
    cases b with
    | some b =>
      exact (hsome b i mid (hpos.behind hm (hlt rfl) hlast)).imp (fun _ h => h.2 rfl) fun _ => id
    | none => exact (hnone i mid (hpos.ahead hmid hlast)).imp (fun _ => And.left) fun _ => id

/-- A step that takes a token unless it declines. -/
theorem Walks.matchTake {p : Parse (Option β)} {k : Option β → Parse α} (hp : Steps n [] p)
    (hsome : ∀ b, Walks n (fun _ => False) closes s (k (some b)))
    (hnone : Walks n advances closes s (k none)) : Walks n advances closes s (p >>= k) :=
  .matchThen (Nat.le_succ n) hp hsome hnone

/-- A step that takes the first token unless it declines. -/
theorem Walks.matchFirst {p : Parse (Option β)} {k : Option β → Parse α} (hp : Steps (n + 1) [] p)
    (hsome : ∀ b, Walks n (fun _ => False) closes s (k (some b)))
    (hnone : Walks (n + 1) advances closes s (k none)) : Walks (n + 1) advances closes s (p >>= k) :=
  .matchThen (Nat.le_refl _) hp hsome hnone

theorem Walks.ite {c : Prop} [Decidable c] {p q : Parse α} (hp : Walks n advances closes s p)
    (hq : Walks n advances closes s q) : Walks n advances closes s (if c then p else q) := by
  split
  · exact hp
  · exact hq

theorem WalksAt.ite {c : Prop} [Decidable c] {p q : Parse α}
    (hp : c → WalksAt advances closes s p i pos) (hq : ¬ c → WalksAt advances closes s q i pos) :
    WalksAt advances closes s (if c then p else q) i pos := by
  split
  · exact hp ‹_›
  · exact hq ‹_›

/-- A result for which no token is needed. -/
theorem Walks.done (a : α) : Walks n (fun _ => False) closes [] (Pure.pure a) := fun _ _ hpos =>
  .pure hpos.le_last id fun _ => rfl

theorem Walks.decline {closes : Option α → Prop} :
    Walks n (fun a => a.isSome = true) closes [] (Pure.pure none) :=
  fun _ _ hpos => .pure hpos.le_last nofun fun _ => rfl

/-- Declining with brackets open. -/
theorem Walks.abandon {advances : Option α → Prop} (h : ¬ advances none) :
    Walks n advances (fun a => a.isSome = true) s (Pure.pure (none : Option α)) :=
  fun _ _ hpos => .pure hpos.le_last h nofun

/-- A result in another form, from a position. -/
theorem WalksAt.map {p : Parse β} {f : β → α}
    (hp : WalksAt (fun b => advances (f b)) (fun b => closes (f b)) s p i pos) :
    WalksAt advances closes s (p >>= fun b => Pure.pure (f b)) i pos where
  ok := hp.ok.bind fun _ _ hmoved => .pure hmoved
  error := by
    intro e next hrun
    simp only [Bind.bind] at hrun
    split at hrun
    · cases hrun
    · rename_i herror
      cases hrun
      exact hp.error e next herror

/-- A result in another form. -/
theorem Walks.map {p : Parse β} {f : β → α} (hp : Takes n [] p) :
    Walks n advances closes [] (p >>= fun b => Pure.pure (f b)) :=
  .take hp fun _ => .done _

/-- A result in another form, where no token is needed. -/
theorem Walks.mapPasses {p : Parse β} {f : β → α} (hp : Passes n [] p) :
    Passes n [] (p >>= fun b => Pure.pure (f b)) :=
  .bind hp fun _ => .done _

/-! ## Failing -/

theorem WalksAt.fault {p : Parse α} {e : Error} (hpos : pos ≤ i.last) (he : i.Faults e)
    (hrun : p i pos = (.error e, pos)) : WalksAt advances closes s p i pos where
  ok a next h := by
    rw [hrun] at h
    cases h
  error e' next h := by
    rw [hrun] at h
    cases h
    exact ⟨hpos, he⟩

theorem walksAt_fail {cause : Cause} (hpos : pos ≤ i.last) (h : cause ≠ .endless) :
    WalksAt advances closes s (fail cause) i pos :=
  .fault hpos (.here pos cause hpos h) rfl

theorem walks_expected (what : String) : Walks n advances closes s (expected what) :=
  fun i pos hpos =>
    .fault hpos.le_last (.here pos (.expected what (i.tokenAt pos)) hpos.le_last nofun) rfl

theorem walks_unsupported (construct : String) :
    Walks n advances closes s (failWith (.unsupported construct)) :=
  fun _ _ hpos => .fault hpos.le_last (.unsupported construct) rfl

/-! ## Looking ahead -/

/-- A parser that only looks, and does not fail. -/
def Looks (p : Parse α) : Prop := ∀ i pos, ∃ a, p i pos = (.ok a, pos)

namespace Looks

theorem pure (a : α) : Looks (Pure.pure a) := fun _ _ => ⟨a, rfl⟩

theorem bind {p : Parse β} {k : β → Parse α} (hp : Looks p) (hk : ∀ b, Looks (k b)) :
    Looks (p >>= k) := by
  intro i pos
  obtain ⟨b, hb⟩ := hp i pos
  obtain ⟨a, ha⟩ := hk b i pos
  exact ⟨a, by simp only [Bind.bind, hb, ha]⟩

theorem ite {c : Prop} [Decidable c] {p q : Parse α} (hp : Looks p) (hq : Looks q) :
    Looks (if c then p else q) := by
  split
  · exact hp
  · exact hq

theorem peek (n : Nat) : Looks (peek n) := fun _ _ => ⟨_, rfl⟩

theorem current : Looks current := peek 0

theorem peekSymbol (n : Nat) (sym : Symbol) : Looks (peekSymbol n sym) :=
  bind (peek n) fun _ => pure _

theorem isSymbol (sym : Symbol) : Looks (isSymbol sym) := peekSymbol 0 sym

theorem peekWord (n : Nat) (keyword : String) : Looks (peekWord n keyword) :=
  bind (peek n) fun _ => pure _

theorem isWord (keyword : String) : Looks (isWord keyword) := peekWord 0 keyword

theorem peekWords (n : Nat) (keywords : List String) : Looks (peekWords n keywords) := by
  induction keywords generalizing n with
  | nil => exact pure _
  | cons keyword rest ih => exact bind (peekWord n keyword) fun _ => ite (ih (n + 1)) (pure _)

theorem isWords (keywords : List String) : Looks (isWords keywords) := peekWords 0 keywords

theorem currentWord : Looks currentWord := by
  refine bind current fun t => ?_
  split
  · exact pure _
  · exact pure _

theorem not {test : Parse Bool} (h : Looks test) : Looks (do return !(← test)) :=
  bind h fun _ => pure _

theorem passes {p : Parse α} (h : Looks p) : Passes n [] p := by
  intro i pos hpos
  obtain ⟨a, ha⟩ := h i pos
  exact .of_ok ha (.stay hpos.le_last id fun _ => rfl)

end Looks

/-- A look ahead, where what it shows does not matter. -/
theorem Walks.look {p : Parse β} {k : β → Parse α} (hp : Looks p)
    (hk : ∀ b, Walks n advances closes s (k b)) : Walks n advances closes s (p >>= k) :=
  .bind hp.passes hk

theorem skip_of_ne_eof (h : i.tokenAt pos ≠ .eof) : skip i pos = (.ok (), pos + 1) := by
  simp only [skip, Bind.bind, acceptIf_of_ne_eof h]
  rfl

namespace WalksAt

/-- A step that does not move. -/
theorem stay {p : Parse β} {k : β → Parse α} {b : β} (hrun : p i pos = (.ok b, pos))
    (hk : WalksAt advances closes s (k b) i pos) : WalksAt advances closes s (p >>= k) i pos :=
  hk.congr (by simp only [Bind.bind, hrun])

theorem look {p : Parse β} {k : β → Parse α} (hp : Looks p)
    (hk : ∀ b, WalksAt advances closes s (k b) i pos) :
    WalksAt advances closes s (p >>= k) i pos := by
  obtain ⟨b, hb⟩ := hp i pos
  exact stay hb (hk b)

theorem peek {d : Nat} {k : Token → Parse α}
    (hk : WalksAt advances closes s (k (i.tokenAt (pos + d))) i pos) :
    WalksAt advances closes s (Parse.peek d >>= k) i pos :=
  stay rfl hk

theorem current {k : Token → Parse α} (hk : WalksAt advances closes s (k (i.tokenAt pos)) i pos) :
    WalksAt advances closes s (Parse.current >>= k) i pos :=
  stay rfl hk

theorem isSymbol {sym : Symbol} {k : Bool → Parse α}
    (hk : WalksAt advances closes s (k (i.tokenAt pos = .symbol sym)) i pos) :
    WalksAt advances closes s (Parse.isSymbol sym >>= k) i pos :=
  stay rfl hk

theorem peekSymbol {d : Nat} {sym : Symbol} {k : Bool → Parse α}
    (hk : WalksAt advances closes s (k (i.tokenAt (pos + d) = .symbol sym)) i pos) :
    WalksAt advances closes s (Parse.peekSymbol d sym >>= k) i pos :=
  stay rfl hk

theorem isWord {keyword : String} {k : Bool → Parse α}
    (hk : WalksAt advances closes s (k ((i.tokenAt pos).isKeyword keyword)) i pos) :
    WalksAt advances closes s (Parse.isWord keyword >>= k) i pos :=
  stay rfl hk

/-! ## Single tokens -/

/-- A step that takes exactly one token. -/
theorem token {p : Parse β} {k : β → Parse α} {b : β} (hne : i.tokenAt pos ≠ .eof)
    (hnest : (i.tokenAt pos).nest s = some s') (hrun : p i pos = (.ok b, pos + 1))
    (hk : WalksAt (fun _ => False) closes s' (k b) i (pos + 1)) :
    WalksAt advances closes s (p >>= k) i pos := by
  have hbind : (p >>= k) i pos = k b i (pos + 1) := by simp only [Bind.bind, hrun]
  constructor
  · exact fun a next h => .token hne hnest (hk.ok a next (hbind ▸ h))
  · exact fun e next h => hk.error e next (hbind ▸ h)

/-- Taking a token that has been looked at. -/
theorem skip {t : Token} {k : Unit → Parse α} (ht : i.tokenAt pos = t) (hne : t ≠ .eof)
    (hnest : t.nest s = some s') (hk : WalksAt (fun _ => False) closes s' (k ()) i (pos + 1)) :
    WalksAt advances closes s (Parse.skip >>= k) i pos := by
  subst ht
  exact token hne hnest (skip_of_ne_eof hne) hk

/-- Taking the first token, which has been looked at. -/
theorem skipFirst {t : Token} {k : Unit → Parse α} (hpos : i.Leaves pos (n + 1))
    (ht : i.tokenAt pos = t) (hne : t ≠ .eof) (hnest : t.nest s = some s')
    (hk : Walks n (fun _ => False) closes s' (k ())) :
    WalksAt advances closes s (Parse.skip >>= k) i pos := by
  have hlast := hpos.lt_last (ht ▸ hne)
  exact skip ht hne hnest (hk i (pos + 1) (hpos.behind (Nat.le_refl _) (Nat.lt_succ_self pos) hlast))

/-- Taking the first two tokens, which have been looked at. -/
theorem skipTwo {t u : Token} {s'' : List Symbol} {k : Unit → Parse α}
    (hpos : i.Leaves pos (n + 1)) (ht : i.tokenAt pos = t) (hu : i.tokenAt (pos + 1) = u)
    (hne : t ≠ .eof) (hne' : u ≠ .eof) (hnest : t.nest s = some s') (hnest' : u.nest s' = some s'')
    (hk : Walks n (fun _ => False) closes s'' (k ())) :
    WalksAt advances closes s (skipBy 2 >>= k) i pos := by
  have hassoc : (skipBy 2 >>= k) = (Parse.skip >>= fun _ => Parse.skip >>= fun _ => k ()) := by
    simp only [skipBy, bind_assoc, pure_bind]
  rw [hassoc]
  have hlast := hpos.lt_last (ht ▸ hne)
  exact skip ht hne hnest (skipFirst (hpos.ahead (Nat.le_succ pos) hlast) hu hne' hnest' hk)

theorem accept {sym : Symbol} {k : Bool → Parse α} (hnest : (Token.symbol sym).nest s = some s')
    (hyes : i.tokenAt pos = .symbol sym →
      WalksAt (fun _ => False) closes s' (k true) i (pos + 1))
    (hno : WalksAt advances closes s (k false) i pos) :
    WalksAt advances closes s (Parse.accept sym >>= k) i pos := by
  have hrun : Parse.accept sym i pos = (.ok (decide (i.tokenAt pos = .symbol sym)),
      if i.tokenAt pos = .symbol sym then pos + 1 else pos) := by
    by_cases heof : i.tokenAt pos = .eof
    · simp [Parse.accept, Bind.bind, acceptIf_of_eof heof, heof, Pure.pure]
    · by_cases hsym : i.tokenAt pos = .symbol sym <;>
        simp [Parse.accept, Bind.bind, acceptIf_of_ne_eof heof, hsym, Pure.pure]
  by_cases hsym : i.tokenAt pos = .symbol sym
  · rw [if_pos hsym, decide_eq_true hsym] at hrun
    exact token (hsym ▸ nofun) (hsym ▸ hnest) hrun (hyes hsym)
  · rw [if_neg hsym, decide_eq_false hsym] at hrun
    exact stay hrun hno

end WalksAt

theorem Walks.acceptThen {sym : Symbol} {k : Bool → Parse α} (hm : m ≤ n + 1)
    (hnest : (Token.symbol sym).nest s = some s')
    (hyes : Walks n (fun _ => False) closes s' (k true))
    (hno : Walks m advances closes s (k false)) :
    Walks m advances closes s (Parse.accept sym >>= k) := by
  intro i pos hpos
  refine .accept hnest (fun hsym => ?_) (hno i pos hpos)
  have hlast := hpos.lt_last (hsym ▸ nofun : i.tokenAt pos ≠ .eof)
  exact hyes i (pos + 1) (hpos.behind hm (Nat.lt_succ_self pos) hlast)

/-- A symbol, which may be a bracket. -/
theorem Walks.accept {sym : Symbol} {p q : Parse α} (hnest : (Token.symbol sym).nest s = some s')
    (hp : Walks n (fun _ => False) closes s' p) (hq : Walks n advances closes s q) :
    Walks n advances closes s (Parse.accept sym >>= fun found => if found = true then p else q) :=
  .acceptThen (Nat.le_succ n) hnest hp hq

/-- A symbol as the first token. -/
theorem Walks.acceptFirst {sym : Symbol} {p q : Parse α}
    (hnest : (Token.symbol sym).nest s = some s') (hp : Walks n (fun _ => False) closes s' p)
    (hq : Walks (n + 1) advances closes s q) :
    Walks (n + 1) advances closes s
      (Parse.accept sym >>= fun found => if found = true then p else q) :=
  .acceptThen (Nat.le_refl _) hnest hp hq

theorem tests_accept {sym : Symbol} (hnest : (Token.symbol sym).nest [] = some []) :
    Tests n (accept sym) := by
  have hsame : (fun found => if found = true then Pure.pure true else Pure.pure false) =
      (Pure.pure : Bool → Parse Bool) := by
    funext found
    cases found <;> rfl
  rw [← bind_pure (accept sym), ← hsame]
  exact .accept hnest (.done _) fun _ _ hpos => .pure hpos.le_last nofun fun _ => rfl

theorem expect_bind (sym : Symbol) (k : Unit → Parse α) :
    (expect sym >>= k) = (accept sym >>= fun found =>
      if found = true then k () else expected (Token.symbol sym).describe) := by
  funext i pos
  simp only [expect, bind_assoc]
  rcases hrun : accept sym i pos with ⟨_ | found, next⟩
  · simp only [Bind.bind, hrun]
  · simp only [Bind.bind, hrun]
    cases found <;> rfl

/-- A symbol that has to come next, which may be a bracket. -/
theorem Walks.expectFirst {sym : Symbol} {k : Unit → Parse α}
    (hnest : (Token.symbol sym).nest s = some s') (hk : Walks n (fun _ => False) closes s' (k ())) :
    Walks (n + 1) advances closes s (Parse.expect sym >>= k) := by
  rw [expect_bind]
  exact .acceptFirst hnest hk (walks_expected _)

theorem Walks.expect {sym : Symbol} {k : Unit → Parse α}
    (hnest : (Token.symbol sym).nest s = some s') (hk : Walks n (fun _ => False) closes s' (k ())) :
    Walks n advances closes s (Parse.expect sym >>= k) :=
  (Walks.expectFirst hnest hk).mono

/-- Taking a token that means something. -/
theorem steps_acceptIf {meaning : Token → Option α}
    (h : ∀ t a, meaning t = some a → t.nest [] = some []) : Steps n [] (acceptIf meaning) := by
  intro i pos hpos
  constructor
  · refine .acceptIf (fun _ => .stay hpos.le_last nofun fun _ => rfl) fun a hne ha => ?_
    have hlast := hpos.lt_last hne
    exact .token hne (h _ a ha) (.stay hlast not_false fun _ => rfl)
  · intro e next hrun
    unfold acceptIf at hrun
    split at hrun
    · cases hrun
    · split at hrun <;> cases hrun

theorem takes_expectIf {what : String} {meaning : Token → Option α}
    (h : ∀ t a, meaning t = some a → t.nest [] = some []) : Takes n [] (expectIf what meaning) :=
  .matchTake (steps_acceptIf h) (fun _ => .done _) (walks_expected what)

/-! ## Keywords -/

theorem tests_acceptWord (keyword : String) : Tests n (acceptWord keyword) := by
  have hsteps : Steps n [] (acceptIf fun t => if t.isKeyword keyword then some () else none) := by
    refine steps_acceptIf fun t a ht => ?_
    rw [Option.ite_none_right_eq_some] at ht
    exact Token.nest_of_isKeyword ht.1 []
  exact .matchTake hsteps (fun _ => .done _) fun _ _ hpos => .pure hpos.le_last nofun fun _ => rfl

theorem takes_expectWord (keyword : String) : Takes n [] (expectWord keyword) :=
  .ifTake (tests_acceptWord keyword) (.done _) (walks_expected keyword)

theorem passes_expectWords (keywords : List String) : Passes n [] (expectWords keywords) := by
  induction keywords with
  | nil => exact .done _
  | cons keyword rest ih => exact .bind (takes_expectWord keyword) fun _ => ih

theorem takes_expectWords (keyword : String) (keywords : List String) :
    Takes n [] (expectWords (keyword :: keywords)) :=
  .take (takes_expectWord keyword) fun _ => passes_expectWords keywords

theorem skipBy_of_hasWords {keywords : List String} (h : i.HasWords pos keywords) :
    skipBy keywords.length i pos = (.ok (), pos + keywords.length) := by
  induction keywords generalizing pos with
  | nil => rfl
  | cons keyword rest ih =>
    simp only [List.length_cons, skipBy, Bind.bind, skip_of_ne_eof (ne_eof_of_isKeyword h.1),
      ih h.2]
    rw [Nat.add_assoc, Nat.add_comm 1]

/-- Only an empty phrase can be found without taking a token. -/
theorem tests_acceptWords {keywords : List String} (h : keywords.isEmpty = false) :
    Tests n (acceptWords keywords) := by
  intro i pos hpos
  obtain ⟨found, hfound⟩ := Looks.isWords keywords i pos
  refine .stay hfound (.ite (fun htrue => ?_) fun _ => .pure hpos.le_last nofun fun _ => rfl)
  subst htrue
  have hwords : i.HasWords pos keywords := (ends_peekWords 0 keywords true pos hfound).2 rfl
  have hlength : 0 < keywords.length := by
    rw [List.length_pos_iff, Ne, ← List.isEmpty_iff, h]
    exact Bool.false_ne_true
  have hrun : (do skipBy keywords.length; return true : Parse Bool) i pos =
      (.ok true, pos + keywords.length) := by
    simp only [Bind.bind, skipBy_of_hasWords hwords]
    rfl
  exact .of_ok hrun {
    le := Nat.le_add_right _ _
    le_last := hpos.capped.add_le_last hpos.le_last hwords
    lt := fun _ => Nat.lt_add_of_pos_right hlength
    nests := fun _ => hwords.nests [] }

/-- No phrase is empty. -/
def phrasesTake (phrases : List (List String × α)) : Bool := phrases.all fun p => !p.1.isEmpty

theorem steps_choose {phrases : List (List String × α)} (h : phrasesTake phrases = true) :
    Steps n [] (choose phrases) := by
  induction phrases with
  | nil => exact .decline
  | cons phrase rest ih =>
    rw [phrasesTake, List.all_cons, Bool.and_eq_true, Bool.not_eq_true'] at h
    exact .ifTake (tests_acceptWords h.1) (.done _) (ih h.2)

theorem steps_noRule : Steps n [] (chooseRule ([] : List (List String × Parse α))) := .decline

theorem steps_rule {phrase : List String} {p : Parse α} {rules : List (List String × Parse α)}
    (hphrase : phrase.isEmpty = false) (hp : Passes n [] p)
    (hrest : Steps n [] (chooseRule rules)) : Steps n [] (chooseRule ((phrase, p) :: rules)) := by
  rw [chooseRule_cons]
  exact .ifTake (tests_acceptWords hphrase) (.bind hp fun _ => .done _) hrest

/-! ## Choices -/

/-- The test takes a token if it succeeds. -/
theorem steps_maybe {test : Parse Bool} {p : Parse α} (htest : Tests n test) (hp : Passes n [] p) :
    Steps n [] (maybe test p) :=
  .ifTake htest (.mapPasses hp) .decline

/-- The test only looks. -/
theorem steps_maybeIf {test : Parse Bool} {p : Parse α} (htest : Passes n [] test)
    (hp : Takes n [] p) : Steps n [] (maybe test p) :=
  .bind htest fun _ => .ite (.map hp) .decline

/-- The test is for an opening bracket. -/
theorem steps_maybeOpen {sym : Symbol} {p : Parse α} (hnest : (Token.symbol sym).nest [] = some s)
    (hp : Passes n s p) : Steps n [] (maybe (accept sym) p) := by
  have hp : Passes n s (p >>= fun a => Pure.pure (some a)) := fun i pos hpos =>
    (hp i pos hpos).map
  exact .accept hnest hp .decline

theorem passes_maybeList {test : Parse Bool} {p : Parse (List α)} {advances : Bool → Prop}
    (htest : Walks n advances (fun _ => True) [] test) (hp : Passes n [] p) :
    Passes n [] (maybeList test p) :=
  .bind htest fun _ => .ite hp (.done _)

/-- Whoever declines goes back. -/
theorem WalksAt.rewinding {p : Parse (Option α)} (hpos : pos ≤ i.last)
    (hp : WalksAt (fun a => a.isSome = true) (fun a => a.isSome = true) [] p i pos) :
    WalksAt (fun a => a.isSome = true) (fun _ => True) [] (rewinding p) i pos where
  ok := .rewinding (.stay hpos nofun fun _ => rfl)
    (hp.ok.mono fun _ _ hmoved hsome => hmoved.imp id fun _ => hsome)
  error := by
    intro e next hrun
    unfold Parse.rewinding at hrun
    split at hrun
    · cases hrun
    · exact hp.error e next hrun

/-- Whoever declines or fails goes back, since no rule goes on for ever. -/
theorem WalksAt.attempt {p : Parse (Option α)} (hpos : pos ≤ i.last)
    (hp : WalksAt (fun a => a.isSome = true) (fun a => a.isSome = true) [] p i pos) :
    WalksAt (fun a => a.isSome = true) (fun _ => True) [] (attempt p) i pos where
  ok := .attempt (.stay hpos nofun fun _ => rfl)
    (hp.ok.mono fun _ _ hmoved hsome => hmoved.imp id fun _ => hsome)
  error := by
    intro e next hrun
    unfold Parse.attempt at hrun
    split at hrun
    · cases hrun
    · cases hrun
    · rename_i e' next' herror
      rw [(hp.error e' next' herror).2.not_isEndless] at hrun
      cases hrun

theorem steps_rewinding {p : Parse (Option α)} (hp : Tries n [] p) : Steps n [] (rewinding p) :=
  fun i pos hpos => .rewinding hpos.le_last (hp i pos hpos)

theorem steps_attempt {p : Parse (Option α)} (hp : Tries n [] p) : Steps n [] (attempt p) :=
  fun i pos hpos => .attempt hpos.le_last (hp i pos hpos)

/-! ## Loops -/

/-- What a loop has collected shows whether it has moved. -/
theorem walks_many {C : Prop} {step : Parse (Option α)}
    (hstep : Walks n (fun a => a.isSome = true) (fun _ => C) [] step) :
    Walks n (fun as => as ≠ []) (fun _ => C) [] (many step) := by
  intro i pos hpos
  have upTo (m pos : Nat) (hpos : i.Leaves pos n) (hm : i.last - pos < m) :
      WalksAt (fun as => as ≠ []) (fun _ => C) [] (manyUpTo step m) i pos := by
    induction m generalizing pos with
    | zero => omega
    | succ m ih =>
      refine .bind (fun _ => id) (hstep i pos hpos) fun a mid hmid hlast hlt => ?_
      cases a with
      | none => exact .pure hlast (fun h => h.1 rfl) fun _ => rfl
      | some a =>
        have hround := ih mid (hpos.ahead hmid hlast) (by have := hlt rfl; omega)
        refine .bind (fun _ => id) hround fun as next _ hnext _ => ?_
        exact .pure hnext (fun h => h.1.2 rfl) fun _ => rfl
  refine (upTo (i.remaining pos + 1) pos hpos ?_).congr rfl
  rw [hpos.capped.remaining_eq hpos.le_last]
  omega

theorem passes_many {step : Parse (Option α)} (hstep : Steps n [] step) :
    Passes n [] (many step) :=
  (walks_many hstep).passes

theorem passes_iterate {step : α → Parse (Option α)} (hstep : ∀ a, Steps n [] (step a)) (a : α) :
    Passes n [] (iterate step a) := by
  intro i pos hpos
  have upTo (m : Nat) (a : α) (pos : Nat) (hpos : i.Leaves pos n) (hm : i.last - pos < m) :
      WalksAt (fun _ => False) (fun _ => True) [] (iterateUpTo step m a) i pos := by
    induction m generalizing a pos with
    | zero => omega
    | succ m ih =>
      refine .bind (fun _ => id) (hstep a i pos hpos) fun b mid hmid hlast hlt => ?_
      cases b with
      | none => exact .pure hlast (fun h => h.1) fun _ => rfl
      | some b =>
        have hround := ih b mid (hpos.ahead hmid hlast) (by have := hlt rfl; omega)
        exact hround.imp (fun _ => And.left) fun _ => id
  refine (upTo (i.remaining pos + 1) a pos hpos ?_).congr rfl
  rw [hpos.capped.remaining_eq hpos.le_last]
  omega

theorem takes_commaSeparated {p : Parse α} (hp : Takes n [] p) : Takes n [] (commaSeparated p) :=
  .take hp fun _ => .mapPasses (passes_many (steps_maybe (tests_accept rfl) hp.passes))

/-! ## Recursion -/

/-- A rule that is good for one more token than what it calls never runs out of levels. -/
theorem walks_fix {rule : Parse α → Parse α}
    (h : ∀ n p, Walks n advances closes s p → Walks (n + 1) advances closes s (rule p)) :
    Walks n advances closes s (fix rule) := by
  have hnested (m : Nat) : Walks m advances closes s (nested rule m) := by
    induction m with
    | zero => exact fun _ _ hpos => absurd hpos.lt (Nat.not_lt_zero _)
    | succ m ih => exact h m _ ih
  intro i pos hpos
  refine (hnested (i.remaining pos + 1) i pos ⟨hpos.capped, hpos.le_last, ?_⟩).congr rfl
  rw [hpos.capped.remaining_eq hpos.le_last]
  omega

end Parse

open Parse

/-- The rules for what is nested inside walk. -/
structure Inner.Walks (inner : Inner) (n : Nat) : Prop where
  expression : Takes n [] inner.expression
  negation : Takes n [] inner.negation
  unary : Takes n [] inner.unary
  query : Takes n [] inner.query
  relation : Takes n [] inner.relation

end SqlTidy
