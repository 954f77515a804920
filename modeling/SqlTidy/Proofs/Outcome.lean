import SqlTidy.Grammar.Parse

/-!
# Outcomes of parsers

`Ends p i pos Q` says that `p`, run on `i` from `pos`, either fails or ends with a result and a position
that satisfy `Q`. A rule of the grammar is followed through its steps by one lemma per combinator: each
asks for what holds behind the step and offers what is known about the tokens that were taken.

Two uses come up again and again. A parser that only looks ahead does not move (`Stays`), and what a rule
builds is sometimes all that matters, so a step may be passed over (`Ends.step`).
-/

namespace SqlTidy

/-- Some keywords one after the other, from a position on. -/
def Input.HasWords (i : Input) (pos : Nat) : List String → Prop
  | [] => True
  | keyword :: rest => (i.tokenAt pos).isKeyword keyword ∧ HasWords i (pos + 1) rest

namespace Parse

variable {α β : Type} {i : Input} {pos : Nat}

/-- A run that succeeds ends in a result and a position with a property. -/
def Ends (p : Parse α) (i : Input) (pos : Nat) (Q : α → Nat → Prop) : Prop :=
  ∀ a next, p i pos = (.ok a, next) → Q a next

/-- A parser that only looks. -/
abbrev Stays (p : Parse α) (i : Input) (pos : Nat) : Prop := Ends p i pos fun _ next => next = pos

/-! ## The monad -/

theorem Ends.mono {p : Parse α} {P Q : α → Nat → Prop} (h : Ends p i pos P)
    (hPQ : ∀ a next, P a next → Q a next) : Ends p i pos Q :=
  fun a next hrun => hPQ a next (h a next hrun)

theorem Ends.and {p : Parse α} {P Q : α → Nat → Prop} (hP : Ends p i pos P) (hQ : Ends p i pos Q) :
    Ends p i pos fun a next => P a next ∧ Q a next :=
  fun a next hrun => ⟨hP a next hrun, hQ a next hrun⟩

theorem Ends.pure {a : α} {Q : α → Nat → Prop} (h : Q a pos) : Ends (pure a) i pos Q := by
  rintro _ _ ⟨⟩
  exact h

theorem Ends.bind {p : Parse α} {k : α → Parse β} {P : α → Nat → Prop} {Q : β → Nat → Prop}
    (hp : Ends p i pos P) (hk : ∀ a mid, P a mid → Ends (k a) i mid Q) :
    Ends (p >>= k) i pos Q := by
  intro b next hrun
  simp only [Bind.bind] at hrun
  split at hrun
  · rename_i a mid ha
    exact hk a mid (hp a mid ha) b next hrun
  · cases hrun

/-- A step whose result and tokens do not matter. -/
theorem Ends.step {p : Parse α} {k : α → Parse β} {Q : β → Nat → Prop}
    (hk : ∀ a mid, Ends (k a) i mid Q) : Ends (p >>= k) i pos Q :=
  Ends.bind (P := fun _ _ => True) (fun _ _ _ => trivial) fun a mid _ => hk a mid

/-- A step that only looks. -/
theorem Stays.bind {p : Parse α} {k : α → Parse β} {Q : β → Nat → Prop} (hp : Stays p i pos)
    (hk : ∀ a, Ends (k a) i pos Q) : Ends (p >>= k) i pos Q := by
  refine Ends.bind hp fun a mid hmid => ?_
  subst hmid
  exact hk a

theorem Ends.ite {c : Prop} [Decidable c] {p q : Parse α} {Q : α → Nat → Prop}
    (hp : c → Ends p i pos Q) (hq : ¬ c → Ends q i pos Q) :
    Ends (if c then p else q) i pos Q := by
  split
  · exact hp ‹_›
  · exact hq ‹_›

/-! ## The cursor and errors -/

theorem Ends.peek {n : Nat} {Q : Token → Nat → Prop} (h : Q (i.tokenAt (pos + n)) pos) :
    Ends (peek n) i pos Q := by
  rintro _ _ ⟨⟩
  exact h

theorem ends_expected (what : String) (Q : α → Nat → Prop) : Ends (expected what) i pos Q :=
  fun _ _ => nofun

theorem ends_fail (cause : Cause) (Q : α → Nat → Prop) : Ends (fail cause) i pos Q :=
  fun _ _ => nofun

/-! ## Single tokens -/

theorem Ends.acceptIf {meaning : Token → Option α} {Q : Option α → Nat → Prop}
    (hnone : i.tokenAt pos = .eof ∨ meaning (i.tokenAt pos) = none → Q none pos)
    (hsome : ∀ a, i.tokenAt pos ≠ .eof → meaning (i.tokenAt pos) = some a → Q (some a) (pos + 1)) :
    Ends (acceptIf meaning) i pos Q := by
  intro a next hrun
  unfold Parse.acceptIf at hrun
  split at hrun
  · rename_i heof
    cases hrun
    exact hnone (.inl heof)
  · rename_i t heof
    split at hrun
    · rename_i a ha
      cases hrun
      exact hsome a heof ha
    · rename_i ha
      cases hrun
      exact hnone (.inr ha)

theorem Ends.expectIf {what : String} {meaning : Token → Option α} {Q : α → Nat → Prop}
    (h : ∀ a, i.tokenAt pos ≠ .eof → meaning (i.tokenAt pos) = some a → Q a (pos + 1)) :
    Ends (expectIf what meaning) i pos Q := by
  refine Ends.bind (P := fun a mid => ∀ b, a = some b → Q b mid) ?_ fun a mid ha => ?_
  · refine .acceptIf nofun fun a heof ha b hb => ?_
    cases hb
    exact h a heof ha
  · cases a with
    | none => exact ends_expected what Q
    | some a => exact .pure (ha a rfl)

theorem Ends.skip {Q : Unit → Nat → Prop} (hpos : i.tokenAt pos ≠ .eof) (h : Q () (pos + 1)) :
    Ends skip i pos Q := by
  refine Ends.bind (P := fun _ mid => mid = pos + 1) ?_ fun a mid hmid => ?_
  · exact .acceptIf (fun hnone => by simp [hpos] at hnone) fun _ _ _ => rfl
  · subst hmid
    exact .pure h

/-- A token is taken and something follows. -/
theorem Ends.skip_bind {k : Unit → Parse α} {Q : α → Nat → Prop} (hpos : i.tokenAt pos ≠ .eof)
    (hk : Ends (k ()) i (pos + 1) Q) : Ends (Parse.skip >>= k) i pos Q := by
  refine Ends.bind (P := fun _ mid => mid = pos + 1) (.skip hpos rfl) fun _ mid hmid => ?_
  subst hmid
  exact hk

theorem ends_skipBy_two (hpos : i.tokenAt pos ≠ .eof) (hnext : i.tokenAt (pos + 1) ≠ .eof) :
    Ends (skipBy 2) i pos fun _ mid => mid = pos + 2 :=
  .skip_bind hpos (.skip_bind hnext (.pure rfl))

/-- What the parser looks at decides how it goes on. -/
theorem Ends.peek_bind {n : Nat} {k : Token → Parse α} {Q : α → Nat → Prop}
    (hk : Ends (k (i.tokenAt (pos + n))) i pos Q) : Ends (Parse.peek n >>= k) i pos Q :=
  hk

theorem Ends.current_bind {k : Token → Parse α} {Q : α → Nat → Prop}
    (hk : Ends (k (i.tokenAt pos)) i pos Q) : Ends (Parse.current >>= k) i pos Q :=
  hk

theorem stays_peekSymbol (n : Nat) (s : Symbol) : Stays (peekSymbol n s) i pos :=
  .peek_bind (.pure rfl)

theorem stays_isSymbol (s : Symbol) : Stays (isSymbol s) i pos := stays_peekSymbol 0 s

theorem Ends.isSymbol_bind {s : Symbol} {k : Bool → Parse α} {Q : α → Nat → Prop}
    (hk : Ends (k (i.tokenAt pos = .symbol s)) i pos Q) : Ends (Parse.isSymbol s >>= k) i pos Q :=
  hk

theorem Ends.accept {s : Symbol} {Q : Bool → Nat → Prop} (hno : Q false pos)
    (hyes : i.tokenAt pos = .symbol s → Q true (pos + 1)) : Ends (accept s) i pos Q := by
  refine Ends.bind (P := fun a mid => Q a.isSome mid) ?_ fun a mid ha => .pure ha
  refine .acceptIf (fun _ => hno) fun a _ ha => ?_
  rw [Option.ite_none_right_eq_some] at ha
  exact hyes ha.1

theorem Ends.expect {s : Symbol} {Q : Unit → Nat → Prop}
    (h : i.tokenAt pos = .symbol s → Q () (pos + 1)) : Ends (expect s) i pos Q := by
  refine Ends.bind (P := fun a mid => a = true → Q () mid) ?_ fun a mid ha => ?_
  · exact .accept nofun fun ht _ => h ht
  · exact .ite (fun htrue => .pure (ha htrue)) fun _ => ends_expected _ Q

/-! ## Keywords -/

theorem Ends.acceptWord {keyword : String} {Q : Bool → Nat → Prop} (hno : Q false pos)
    (hyes : (i.tokenAt pos).isKeyword keyword → Q true (pos + 1)) :
    Ends (acceptWord keyword) i pos Q := by
  refine Ends.bind (P := fun a mid => Q a.isSome mid) ?_ fun a mid ha => .pure ha
  refine .acceptIf (fun _ => hno) fun a _ ha => ?_
  rw [Option.ite_none_right_eq_some] at ha
  exact hyes ha.1

theorem Ends.expectWord {keyword : String} {Q : Unit → Nat → Prop}
    (h : (i.tokenAt pos).isKeyword keyword → Q () (pos + 1)) :
    Ends (expectWord keyword) i pos Q := by
  refine Ends.bind (P := fun a mid => a = true → Q () mid) ?_ fun a mid ha => ?_
  · exact .acceptWord nofun fun ht _ => h ht
  · exact .ite (fun htrue => .pure (ha htrue)) fun _ => ends_expected _ Q

theorem stays_isWord (keyword : String) : Stays (isWord keyword) i pos := .peek_bind (.pure rfl)

theorem ends_peekWords (n : Nat) (keywords : List String) :
    Ends (peekWords n keywords) i pos fun found mid =>
      mid = pos ∧ (found = true → i.HasWords (pos + n) keywords) := by
  induction keywords generalizing n with
  | nil => exact .pure ⟨rfl, fun _ => trivial⟩
  | cons keyword rest ih =>
    have hpeek : Ends (peekWord n keyword) i pos fun found mid =>
        mid = pos ∧ found = (i.tokenAt (pos + n)).isKeyword keyword :=
      .bind (Ends.peek (Q := fun t mid => mid = pos ∧ t = i.tokenAt (pos + n)) ⟨rfl, rfl⟩)
        fun t mid ht => .pure ⟨ht.1, by rw [ht.2]⟩
    refine hpeek.bind fun found mid hfound => ?_
    obtain ⟨rfl, rfl⟩ := hfound
    refine .ite (fun hword => ?_) fun _ => .pure ⟨rfl, nofun⟩
    exact (ih (n + 1)).mono fun found next h => ⟨h.1, fun htrue => ⟨hword, h.2 htrue⟩⟩

theorem ne_eof_of_isKeyword {t : Token} {keyword : String} (h : t.isKeyword keyword) :
    t ≠ .eof := by
  rintro rfl
  contradiction

theorem ends_skipBy {keywords : List String} (h : i.HasWords pos keywords) :
    Ends (skipBy keywords.length) i pos fun _ mid => mid = pos + keywords.length := by
  induction keywords generalizing pos with
  | nil => exact .pure rfl
  | cons keyword rest ih =>
    have hskip : Ends skip i pos fun _ mid => mid = pos + 1 :=
      .skip (ne_eof_of_isKeyword h.1) rfl
    refine hskip.bind fun _ mid hmid => ?_
    subst hmid
    refine (ih h.2).mono fun _ next hnext => ?_
    rw [hnext, List.length_cons, Nat.add_assoc, Nat.add_comm 1]

theorem Ends.acceptWords {keywords : List String} {Q : Bool → Nat → Prop} (hno : Q false pos)
    (hyes : i.HasWords pos keywords → Q true (pos + keywords.length)) :
    Ends (acceptWords keywords) i pos Q := by
  refine (ends_peekWords 0 keywords).bind fun found mid hfound => ?_
  obtain ⟨rfl, hwords⟩ := hfound
  refine .ite (fun htrue => ?_) fun hfalse => .pure hno
  refine (ends_skipBy (hwords htrue)).bind fun _ mid hmid => ?_
  subst hmid
  exact .pure (hyes (hwords htrue))

theorem Ends.choose {phrases : List (List String × α)} {Q : Option α → Nat → Prop}
    (hno : Q none pos)
    (hyes : ∀ p ∈ phrases, i.HasWords pos p.1 → Q (some p.2) (pos + p.1.length)) :
    Ends (choose phrases) i pos Q := by
  induction phrases with
  | nil => exact .pure hno
  | cons phrase rest ih =>
    obtain ⟨hphrase, hrest⟩ := List.forall_mem_cons.1 hyes
    refine Ends.bind (P := fun found mid =>
      (found = false → mid = pos) ∧ (found = true → Q (some phrase.2) mid)) ?_ fun found mid h => ?_
    · exact .acceptWords ⟨fun _ => rfl, nofun⟩ fun hwords => ⟨nofun, fun _ => hphrase hwords⟩
    · refine .ite (fun htrue => .pure (h.2 htrue)) fun hfalse => ?_
      rw [h.1 (Bool.eq_false_iff.2 hfalse)]
      exact ih hrest

/-- A choice among single keywords. -/
theorem ends_choose_word {phrases : List (List String × α)} (keyword : α → String)
    (h : ∀ p ∈ phrases, p.1 = [keyword p.2]) :
    Ends (choose phrases) i pos fun a next => ∀ b, a = some b →
      next = pos + 1 ∧ (i.tokenAt pos).isKeyword (keyword b) := by
  refine .choose nofun fun p hp hwords b hb => ?_
  cases hb
  rw [h p hp] at hwords ⊢
  exact ⟨rfl, hwords.1⟩

/-! ## Choices -/

theorem Ends.maybe {test : Parse Bool} {p : Parse α} {Q : Option α → Nat → Prop}
    (htest : Ends test i pos fun found mid =>
      (found = false → Q none mid) ∧ (found = true → Ends p i mid fun a next => Q (some a) next)) :
    Ends (maybe test p) i pos Q := by
  refine htest.bind fun found mid h => .ite (fun htrue => ?_) fun hfalse => ?_
  · exact (h.2 htrue).bind fun a next ha => .pure ha
  · exact .pure (h.1 (Bool.eq_false_iff.2 hfalse))

/-- Where nothing was read the position is as before. -/
theorem ends_maybe_none {test : Parse Bool} {p : Parse α}
    (htest : Ends test i pos fun found mid => found = false → mid = pos) :
    Ends (Parse.maybe test p) i pos fun a next => a = none → next = pos :=
  .maybe (htest.mono fun _ _ h => ⟨fun hfalse _ => h hfalse, fun _ _ _ _ => nofun⟩)

theorem ends_acceptWord (keyword : String) :
    Ends (acceptWord keyword) i pos fun found mid => found = false → mid = pos :=
  .acceptWord (fun _ => rfl) nofun

theorem ends_choose (phrases : List (List String × α)) :
    Ends (choose phrases) i pos fun a next => a = none → next = pos :=
  .choose (fun _ => rfl) fun _ _ _ => nofun

theorem Ends.rewinding {p : Parse (Option α)} {Q : Option α → Nat → Prop} (hno : Q none pos)
    (hp : Ends p i pos fun a next => a.isSome → Q a next) : Ends (rewinding p) i pos Q := by
  intro a next hrun
  unfold Parse.rewinding at hrun
  split at hrun
  · cases hrun
    exact hno
  · rename_i hnone
    cases a with
    | none => exact absurd hrun (hnone next)
    | some a => exact hp _ _ hrun rfl

theorem Ends.attempt {p : Parse (Option α)} {Q : Option α → Nat → Prop} (hno : Q none pos)
    (hp : Ends p i pos fun a next => a.isSome → Q a next) : Ends (attempt p) i pos Q := by
  intro a next hrun
  unfold Parse.attempt at hrun
  split at hrun
  · rename_i a next hsome
    cases hrun
    exact hp _ _ hsome rfl
  · cases hrun
    exact hno
  · split at hrun
    · cases hrun
    · cases hrun
      exact hno

/-! ## Loops and recursion -/

/-- What every round of a loop keeps, the loop keeps. -/
theorem Ends.iterate {step : α → Parse (Option α)} {I : α → Nat → Prop} {a : α} (ha : I a pos)
    (hstep : ∀ a mid, I a mid → Ends (step a) i mid fun b next =>
      (b = none → I a next) ∧ ∀ c, b = some c → I c next) :
    Ends (iterate step a) i pos I := by
  have upTo (n : Nat) (a : α) (mid : Nat) (ha : I a mid) : Ends (iterateUpTo step n a) i mid I := by
    induction n generalizing a mid with
    | zero => exact ends_fail _ _
    | succ n ih =>
      refine (hstep a mid ha).bind fun b next hb => ?_
      cases b with
      | none => exact .pure (hb.1 rfl)
      | some c => exact ih c next (hb.2 c rfl)
  exact fun b next hrun => upTo _ a pos ha b next hrun

/-- The results of a loop that collects are gathered one by one. -/
theorem Ends.many {step : Parse (Option α)} {I : List α → Nat → Prop} (hnil : I [] pos)
    (hstep : ∀ as mid, I as mid → Ends step i mid fun b next =>
      (b = none → I as next) ∧ ∀ c, b = some c → I (as ++ [c]) next) :
    Ends (many step) i pos I := by
  have upTo (n : Nat) (as : List α) (mid : Nat) (has : I as mid) :
      Ends (manyUpTo step n) i mid fun bs next => I (as ++ bs) next := by
    induction n generalizing as mid with
    | zero => exact ends_fail _ _
    | succ n ih =>
      refine (hstep as mid has).bind fun b next hb => ?_
      cases b with
      | none =>
        refine .pure ?_
        rw [List.append_nil]
        exact hb.1 rfl
      | some c =>
        refine (ih (as ++ [c]) next (hb.2 c rfl)).bind fun bs next hbs => .pure ?_
        rwa [List.append_assoc] at hbs
  exact fun bs next hrun => upTo _ [] pos hnil bs next hrun

/-- A loop whose first round does not decline collects something. -/
theorem ends_many_ne_nil {step : Parse (Option α)} (hstep : Ends step i pos fun a _ => a ≠ none) :
    Ends (many step) i pos fun as _ => as ≠ [] := by
  refine (?_ : Ends (manyUpTo step (i.remaining pos + 1)) i pos _)
  refine hstep.bind fun a next ha => ?_
  cases a with
  | none => contradiction
  | some a => exact .step fun _ _ => .pure (by simp)

/-- A list in the source, item by item. -/
theorem Ends.commaSeparated {p : Parse α} {I : List α → Nat → Prop}
    (hfirst : Ends p i pos fun a next => I [a] next)
    (hnext : ∀ as mid, I as mid → i.tokenAt mid = .symbol .comma →
      Ends p i (mid + 1) fun a next => I (as ++ [a]) next) :
    Ends (commaSeparated p) i pos I := by
  refine hfirst.bind fun first mid hfirst => ?_
  refine Ends.bind (P := fun rest next => I (first :: rest) next) ?_ fun rest next h => .pure h
  refine Ends.many (I := fun rest next => I (first :: rest) next) hfirst fun rest mid hrest => ?_
  refine .maybe (.accept ⟨fun _ => ⟨fun _ => hrest, nofun⟩, nofun⟩ fun hcomma => ⟨nofun, fun _ => ?_⟩)
  refine (hnext _ mid hrest hcomma).mono fun a next ha => ⟨nofun, fun c hc => ?_⟩
  cases hc
  exact ha

end Parse

end SqlTidy
