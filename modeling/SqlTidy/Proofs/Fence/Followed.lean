import SqlTidy.Proofs.Fence.Sequence

/-!
# Tokens with a keyword behind them

Some tokens are read once with nothing behind them and once with a keyword behind them that nothing in them waits for
(`Input.Followed`). Where a rule asks for another keyword the end of the input and that keyword give the same answer, and what
is in parentheses is read alike, because both inputs have the same closing parenthesis (`Followed.fence`). So rules that succeed
on these tokens succeed with the keyword behind them (`Carries`), one lemma for each way to build a rule.
-/

namespace SqlTidy

open Parse

namespace Parse

variable {i : Input} {pos next : Nat}

theorem bind_apply {α β : Type} {p : Parse α} {q : α → Parse β} {a : α} (h : p i pos = (.ok a, next)) :
    (p >>= q) i pos = q a i next := by
  simp only [Bind.bind, h]

theorem bind_apply_error {α β : Type} {p : Parse α} {q : α → Parse β} {fault : Error} (h : p i pos = (.error fault, next)) :
    (p >>= q) i pos = (.error fault, next) := by
  simp only [Bind.bind, h]

theorem runs_expect {sym : Symbol} (h : i.tokenAt pos = .symbol sym) : Runs (expect sym) i pos () (pos + 1) :=
  (runs_accept h).bind (runs_pure i _ ())

theorem eq_of_runs_expect {sym : Symbol} {a : Unit} (h : Runs (expect sym) i pos a next) :
    i.tokenAt pos = .symbol sym ∧ next = pos + 1 :=
  (Ends.expect fun hsym => ⟨hsym, rfl⟩ : Ends (expect sym) i pos fun _ next => i.tokenAt pos = .symbol sym ∧ next = pos + 1)
    a next h

theorem runs_expectWord {keyword : String} (h : (i.tokenAt pos).isKeyword keyword) :
    Runs (expectWord keyword) i pos () (pos + 1) :=
  (runs_acceptWord h).bind (runs_pure i _ ())

theorem eq_of_runs_expectWord {keyword : String} {a : Unit} (h : Runs (expectWord keyword) i pos a next) :
    (i.tokenAt pos).isKeyword keyword ∧ next = pos + 1 :=
  (Ends.expectWord fun hword => ⟨hword, rfl⟩ :
    Ends (expectWord keyword) i pos fun _ next => (i.tokenAt pos).isKeyword keyword ∧ next = pos + 1) a next h

theorem eq_of_runs_expectIf {α : Type} {what : String} {meaning : Token → Option α} {a : α}
    (h : Runs (expectIf what meaning) i pos a next) :
    i.tokenAt pos ≠ .eof ∧ meaning (i.tokenAt pos) = some a ∧ next = pos + 1 := by
  have hends : Ends (expectIf what meaning) i pos fun a next =>
      i.tokenAt pos ≠ .eof ∧ meaning (i.tokenAt pos) = some a ∧ next = pos + 1 :=
    .expectIf fun a hne ha => ⟨hne, ha, rfl⟩
  exact hends a next h

theorem runs_expectIf {α : Type} {what : String} {meaning : Token → Option α} {a : α} (hne : i.tokenAt pos ≠ .eof)
    (h : meaning (i.tokenAt pos) = some a) : Runs (expectIf what meaning) i pos a (pos + 1) := by
  refine Runs.bind (p := acceptIf meaning) (a := some a) ?_ (runs_pure i _ a)
  unfold Runs acceptIf
  split
  · contradiction
  · simp [h]

end Parse

namespace Input

/-- Only one closing parenthesis closes what has been opened in front. -/
theorem Nests.eq_of_closing {i : Input} {u : List Symbol} {pos stop stop' : Nat} (h : i.Nests u pos [] stop)
    (h' : i.Nests u pos [] stop') (hclose : i.tokenAt stop = .symbol .rparen)
    (hclose' : i.tokenAt stop' = .symbol .rparen) : stop' = stop := by
  generalize hempty : ([] : List Symbol) = s at h
  induction h with
  | nil =>
    subst hempty
    cases h' with
    | nil => rfl
    | token _ hnest _ =>
      rw [hclose] at hnest
      contradiction
  | token _ hnest _ ih =>
    cases h' with
    | nil =>
      rw [hclose'] at hnest
      contradiction
    | token _ hnest' hrest' =>
      cases hnest.symm.trans hnest'
      exact ih hrest' hclose hempty

/-- The second input has the tokens of the first one, and behind them one of these keywords. -/
structure Followed (i j : Input) (c : List Token) (keywords : List String) : Prop where
  alone : i.Lists c
  same : ∀ k < c.length, j.tokenAt k = i.tokenAt k
  size : i.tokens.size ≤ j.tokens.size
  follower : ∃ word, j.tokenAt c.length = .word word ∧ Text.upper word ∈ keywords

namespace Followed

variable {i j : Input} {c : List Token} {keywords : List String} {pos next k stop n m : Nat}
  (h : i.Followed j c keywords)

include h

theorem lt_length (hk : i.tokenAt k ≠ .eof) : k < c.length := by
  rw [← h.alone.last]
  exact h.alone.capped.lt_last hk

theorem lt_of_symbol {sym : Symbol} (hk : i.tokenAt k = .symbol sym) : k < c.length :=
  h.lt_length (by simp [hk])

theorem tokenAt_symbol {sym : Symbol} (hk : i.tokenAt k = .symbol sym) : j.tokenAt k = .symbol sym :=
  (h.same k (h.lt_of_symbol hk)).trans hk

theorem tokenAt_word {word : String} (hword : i.tokenAt pos = .word word) : j.tokenAt pos = .word word :=
  (h.same pos (h.lt_length (by simp [hword]))).trans hword

theorem symbol_of_tokenAt {sym : Symbol} (hk : k ≤ c.length) (hsym : j.tokenAt k = .symbol sym) :
    i.tokenAt k = .symbol sym := by
  rcases Nat.lt_or_eq_of_le hk with hlt | rfl
  · rw [← h.same k hlt, hsym]
  · obtain ⟨word, hword, -⟩ := h.follower
    simp [hword] at hsym

/-- Other keywords stand in both inputs or in none. -/
theorem hasWords_iff {words : List String} {pos : Nat} (hpos : pos ≤ c.length)
    (hwords : ∀ word ∈ words, Text.upper word ∉ keywords) : j.HasWords pos words ↔ i.HasWords pos words := by
  induction words generalizing pos with
  | nil => exact Iff.rfl
  | cons word rest ih =>
    rw [List.forall_mem_cons] at hwords
    unfold Input.HasWords
    rcases Nat.lt_or_eq_of_le hpos with hlt | rfl
    · rw [h.same pos hlt, ih hlt hwords.2]
    · obtain ⟨follower, hfollower, hmem⟩ := h.follower
      have hright : (j.tokenAt c.length).isKeyword word = false := by
        rw [hfollower, Token.isKeyword]
        exact decide_eq_false fun heq => hwords.1 (heq ▸ hmem)
      have hleft : (i.tokenAt c.length).isKeyword word = false := by
        rw [h.alone.tokenAt_length]
        rfl
      simp [hleft, hright]

theorem leaves {k : Nat} (hk : k ≤ c.length) (hn : c.length < n) : i.Leaves k n :=
  ⟨h.alone.capped, by rwa [h.alone.last], by rw [h.alone.last]; omega⟩

/-! ### In parentheses -/

/-- A closing parenthesis that both inputs have. -/
def fence (hclose : i.tokenAt stop = .symbol .rparen) : Fence where
  left := i
  right := j
  shift := 0
  stop := stop
  left_stop := .inr hclose
  right_stop := .inr (h.tokenAt_symbol hclose)
  size := h.size

theorem fence_at {hclose : i.tokenAt stop = .symbol .rparen} {u : List Symbol} (hnests : i.Nests u pos [] stop) :
    (h.fence hclose).At u pos where
  same k _ hk := h.same k (Nat.lt_trans (show _ < stop from hk) (h.lt_of_symbol hclose))
  nests := hnests

theorem fence_alike (hclose : i.tokenAt stop = .symbol .rparen) : (h.fence hclose).Alike :=
  (h.tokenAt_symbol hclose).trans hclose.symm

/-- What is read in parentheses is read with the keyword behind them. -/
theorem runs_closed {α : Type} {p p' : Parse α} {a : α} {stop : Nat} (hpos : pos ≤ c.length) (hn : c.length < n)
    (hclose : i.tokenAt stop = .symbol .rparen) (hwalk : Passes n [] p) (hp : ∀ f, Tracks f [] p p')
    (hrun : Runs p i pos a stop) : Runs p' j pos a stop := by
  have hnests := ((hwalk i pos (h.leaves hpos hn)).ok a stop hrun).nests trivial
  exact ((hp (h.fence hclose) pos (h.fence_at hnests)).runs hrun).1

end Followed

end Input

/-! ## Rules -/

variable {α β : Type}

/-- What one rule reads of these tokens in the first input another one reads in the second. -/
def Carries (i j : Input) (c : List Token) (p p' : Parse α) : Prop :=
  ∀ ⦃pos : Nat⦄ ⦃a : α⦄ ⦃next : Nat⦄, pos ≤ c.length → Runs p i pos a next → Runs p' j pos a next ∧ next ≤ c.length

namespace Carries

variable {i j : Input} {c : List Token} {keywords : List String}

theorem pure (a : α) : Carries i j c (Pure.pure a) (Pure.pure a) := by
  intro pos b next hpos hrun
  cases hrun
  exact ⟨runs_pure j pos a, hpos⟩

theorem bind {p p' : Parse α} {k k' : α → Parse β} (hp : Carries i j c p p') (hk : ∀ a, Carries i j c (k a) (k' a)) :
    Carries i j c (p >>= k) (p' >>= k') := by
  intro pos b next hpos hrun
  obtain ⟨a, mid, ha, hrun⟩ := Runs.exists_of_bind hrun
  obtain ⟨ha, hmid⟩ := hp hpos ha
  obtain ⟨hrun, hnext⟩ := hk a hmid hrun
  exact ⟨ha.bind hrun, hnext⟩

theorem map {p p' : Parse α} {f : α → β} (hp : Carries i j c p p') :
    Carries i j c (p >>= fun a => Pure.pure (f a)) (p' >>= fun a => Pure.pure (f a)) :=
  hp.bind fun a => .pure (f a)

theorem ite {q : Prop} [Decidable q] {p p' r r' : Parse α} (hp : Carries i j c p p') (hr : Carries i j c r r') :
    Carries i j c (if q then p else r) (if q then p' else r') := by
  split
  · exact hp
  · exact hr

/-- A rule that fails carries nothing. -/
theorem expected (what : String) (p : Parse α) : Carries i j c (Parse.expected what) p := by
  intro pos a next _ hrun
  cases hrun

theorem maybe {test test' : Parse Bool} {p p' : Parse α} (ht : Carries i j c test test') (hp : Carries i j c p p') :
    Carries i j c (Parse.maybe test p) (Parse.maybe test' p') :=
  ht.bind fun _ => .ite hp.map (.pure none)

theorem maybeList {test test' : Parse Bool} {p p' : Parse (List α)} (ht : Carries i j c test test')
    (hp : Carries i j c p p') : Carries i j c (Parse.maybeList test p) (Parse.maybeList test' p') :=
  ht.bind fun _ => .ite hp (.pure [])

theorem manyUpTo {p p' : Parse (Option α)} (hp : Carries i j c p p') {n m : Nat} (hnm : n ≤ m) :
    Carries i j c (Parse.manyUpTo p n) (Parse.manyUpTo p' m) := by
  induction n generalizing m with
  | zero =>
    intro pos a next _ hrun
    cases hrun
  | succ n ih =>
    obtain ⟨m, rfl⟩ : ∃ k, m = k + 1 := ⟨m - 1, by omega⟩
    refine hp.bind fun found => ?_
    cases found with
    | none => exact .pure []
    | some a => exact (ih (Nat.le_of_succ_le_succ hnm)).map

variable (h : i.Followed j c keywords)

include h

theorem many {p p' : Parse (Option α)} (hp : Carries i j c p p') : Carries i j c (Parse.many p) (Parse.many p') := by
  intro pos a next hpos hrun
  have hsize := h.size
  refine hp.manyUpTo ?_ hpos hrun
  unfold Input.remaining
  omega

theorem isSymbol (sym : Symbol) : Carries i j c (Parse.isSymbol sym) (Parse.isSymbol sym) := by
  intro pos a next hpos hrun
  have hiff : i.tokenAt pos = .symbol sym ↔ j.tokenAt pos = .symbol sym := ⟨h.tokenAt_symbol, h.symbol_of_tokenAt hpos⟩
  obtain ⟨rfl, rfl⟩ := (runs_isSymbol i pos sym).unique hrun
  refine ⟨?_, hpos⟩
  rw [decide_eq_decide.2 hiff]
  exact runs_isSymbol j pos sym

theorem expect (sym : Symbol) : Carries i j c (Parse.expect sym) (Parse.expect sym) := by
  intro pos a next _ hrun
  obtain ⟨hsym, rfl⟩ := eq_of_runs_expect hrun
  exact ⟨runs_expect (h.tokenAt_symbol hsym), h.lt_of_symbol hsym⟩

theorem expectIf (what : String) (meaning : Token → Option α) :
    Carries i j c (Parse.expectIf what meaning) (Parse.expectIf what meaning) := by
  intro pos a next _ hrun
  obtain ⟨hne, ha, rfl⟩ := eq_of_runs_expectIf hrun
  have hlt := h.lt_length hne
  refine ⟨?_, hlt⟩
  rw [← h.same pos hlt] at hne ha
  exact runs_expectIf hne ha

theorem acceptWords {words : List String} (hwords : ∀ word ∈ words, Text.upper word ∉ keywords) :
    Carries i j c (Parse.acceptWords words) (Parse.acceptWords words) := by
  intro pos a next hpos hrun
  have hiff : j.HasWords pos words ↔ i.HasWords pos words := h.hasWords_iff hpos hwords
  by_cases htaken : i.HasWords pos words
  · obtain ⟨rfl, rfl⟩ := hrun.unique (runs_acceptWords htaken)
    have hle := h.alone.capped.add_le_last (by rwa [h.alone.last]) htaken
    exact ⟨runs_acceptWords (hiff.2 htaken), by rwa [h.alone.last] at hle⟩
  · obtain ⟨rfl, rfl⟩ := hrun.unique (runs_acceptWords_false htaken)
    exact ⟨runs_acceptWords_false fun hright => htaken (hiff.1 hright), hpos⟩

theorem acceptWord {word : String} (hword : Text.upper word ∉ keywords) :
    Carries i j c (Parse.acceptWord word) (Parse.acceptWord word) := by
  intro pos a next hpos hrun
  have hiff : j.HasWords pos [word] ↔ i.HasWords pos [word] := h.hasWords_iff hpos (by simpa using hword)
  by_cases htaken : (i.tokenAt pos).isKeyword word
  · obtain ⟨rfl, rfl⟩ := hrun.unique (runs_acceptWord htaken)
    exact ⟨runs_acceptWord (hiff.2 ⟨htaken, trivial⟩).1, h.lt_length (ne_eof_of_isKeyword htaken)⟩
  · obtain ⟨rfl, rfl⟩ := hrun.unique (runs_acceptWord_false htaken)
    exact ⟨runs_acceptWord_false fun hright => htaken (hiff.1 ⟨hright, trivial⟩).1, hpos⟩

theorem expectWord {word : String} (hword : Text.upper word ∉ keywords) :
    Carries i j c (Parse.expectWord word) (Parse.expectWord word) :=
  (acceptWord h hword).bind fun _ => .ite (.pure ()) (.expected _ _)

theorem choose {phrases : List (List String × α)} (hwords : ∀ phrase ∈ phrases, ∀ word ∈ phrase.1, Text.upper word ∉ keywords) :
    Carries i j c (Parse.choose phrases) (Parse.choose phrases) := by
  induction phrases with
  | nil => exact .pure none
  | cons phrase rest ih =>
    rw [List.forall_mem_cons] at hwords
    exact (acceptWords h hwords.1).bind fun _ => .ite (.pure _) (ih hwords.2)

/-- What is read in parentheses is read with the keyword behind them. -/
theorem parens {p p' : Parse α} {k k' : α → Parse β} {n : Nat} (hn : c.length < n) (hwalk : Passes n [] p)
    (hp : ∀ f, Tracks f [] p p') (hk : ∀ a, Carries i j c (k a) (k' a)) :
    Carries i j c (do
        let a ← p
        Parse.expect .rparen
        k a)
      (do
        let a ← p'
        Parse.expect .rparen
        k' a) := by
  intro pos b next hpos hrun
  obtain ⟨a, stop, ha, hrun⟩ := Runs.exists_of_bind hrun
  obtain ⟨_, _, hexpect, hrun⟩ := Runs.exists_of_bind hrun
  obtain ⟨hclose, rfl⟩ := eq_of_runs_expect hexpect
  obtain ⟨hrun, hnext⟩ := hk a (h.lt_of_symbol hclose) hrun
  exact ⟨(h.runs_closed hpos hn hclose hwalk hp ha).bind ((runs_expect (h.tokenAt_symbol hclose)).bind hrun), hnext⟩

end Carries

end SqlTidy
