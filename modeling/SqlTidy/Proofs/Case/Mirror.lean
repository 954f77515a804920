import SqlTidy.Proofs.Case.Fold
import SqlTidy.Proofs.Lexeme

/-!
# Parsers that do not see letter case

`Mirrors f p q` compares two runs: `p` on an input and `q` on the same input with its words folded. Both
end at the same position, and the result of `q` is the result of `p` under `f`, or the same error but for
the case of the word in it.

Every combinator keeps the relation. What is left for a single rule is to show that it looks at tokens
only through questions whose answers do not depend on case (`acceptIf`, `peekWord`, `current`), and that
it builds its tree in the same way in both runs (`pure`).
-/

namespace SqlTidy

/-! ## Folded inputs -/

namespace Token

@[simp] theorem foldCase_eq_symbol {t : Token} {s : Symbol} :
    t.foldCase = .symbol s ↔ t = .symbol s := by
  cases t <;> simp [foldCase]

@[simp] theorem foldCase_eq_eof {t : Token} : t.foldCase = .eof ↔ t = .eof := by
  cases t <;> simp [foldCase]

@[simp] theorem isKeyword_foldCase (t : Token) (keyword : String) :
    t.foldCase.isKeyword keyword = t.isKeyword keyword := by
  cases t with
  | word w => simp [foldCase, isKeyword]
  | _ => rfl

end Token

namespace Input

/-- An input whose tokens were scanned. -/
def WellFormed (i : Input) : Prop := ∀ t ∈ i.tokens, t.token.WellFormed

theorem WellFormed.tokenAt {i : Input} (h : i.WellFormed) (pos : Nat) :
    (i.tokenAt pos).WellFormed := by
  unfold Input.tokenAt
  split
  · rename_i t ht
    exact h t (Array.mem_of_getElem? ht)
  · exact .eof

theorem wellFormed_of_scan {text : String} {tokens : List Spanned}
    (h : Token.scan text = .ok tokens) : (Input.mk text tokens.toArray).WellFormed := fun t ht =>
  Token.wellFormed_of_scan h t (by simpa using ht)

@[simp] theorem tokenAt_foldCase (i : Input) (pos : Nat) :
    i.foldCase.tokenAt pos = (i.tokenAt pos).foldCase := by
  simp only [tokenAt, foldCase, Array.getElem?_map]
  cases i.tokens[pos]? <;> rfl

@[simp] theorem remaining_foldCase (i : Input) (pos : Nat) :
    i.foldCase.remaining pos = i.remaining pos := by
  simp [remaining, foldCase]

theorem errorAt_foldCase (i : Input) (pos : Nat) (cause : Cause) :
    i.foldCase.errorAt pos cause.foldCase = (i.errorAt pos cause).foldCase := by
  simp only [errorAt, foldCase, Array.getElem?_map]
  cases i.tokens[pos]? <;> rfl

end Input

namespace Parse

variable {α β γ δ : Type}

/-- A result and a position, with a function applied to the result and the error folded. -/
def mapResult (f : α → β) : Except Error α × Nat → Except Error β × Nat
  | (.ok a, pos) => (.ok (f a), pos)
  | (.error e, pos) => (.error e.foldCase, pos)

/-- `q` does on the folded input what `p` does on the input. -/
def Mirrors (f : α → β) (p : Parse α) (q : Parse β) : Prop :=
  ∀ ⦃i : Input⦄, i.WellFormed → ∀ pos, q i.foldCase pos = mapResult f (p i pos)

/-- A parser whose results hold nothing that has a case. -/
abbrev Steady (p : Parse α) : Prop := Mirrors id p p

/-! ## The monad -/

theorem Mirrors.pure {f : α → β} {a : α} {b : β} (h : b = f a) :
    Mirrors f (pure a) (pure b) := by
  subst h
  exact fun _ _ _ => rfl

theorem Mirrors.bind {f : α → β} {g : γ → δ} {p : Parse α} {q : Parse β} {k : α → Parse γ}
    {k' : β → Parse δ} (hp : Mirrors f p q) (hk : ∀ a, Mirrors g (k a) (k' (f a))) :
    Mirrors g (p >>= k) (q >>= k') := by
  intro i hi pos
  simp only [Bind.bind, hp hi pos]
  rcases p i pos with ⟨_ | a, pos⟩
  · rfl
  · exact hk a hi pos

/-- The continuation of a steady parser gets the same value in both runs. -/
theorem Mirrors.andThen {g : γ → δ} {p : Parse α} {k : α → Parse γ} {k' : α → Parse δ}
    (hp : Steady p) (hk : ∀ a, Mirrors g (k a) (k' a)) : Mirrors g (p >>= k) (p >>= k') :=
  hp.bind hk

theorem Mirrors.ite {g : γ → δ} {c : Prop} [Decidable c] {p q : Parse γ} {p' q' : Parse δ}
    (hp : Mirrors g p p') (hq : Mirrors g q q') :
    Mirrors g (if c then p else q) (if c then p' else q') := by
  split
  · exact hp
  · exact hq

theorem Mirrors.map {f : α → β} {g : γ → δ} {p : Parse α} {q : Parse β} {k : α → γ} {k' : β → δ}
    (hp : Mirrors f p q) (hk : ∀ a, k' (f a) = g (k a)) :
    Mirrors g (do return k (← p)) (do return k' (← q)) :=
  hp.bind fun a => .pure (hk a)

theorem Mirrors.congr {f g : α → β} {p : Parse α} {q : Parse β} (hp : Mirrors f p q)
    (h : ∀ a, f a = g a) : Mirrors g p q := by
  rwa [← funext h]

/-! ## The cursor and errors -/

theorem mirrors_peek (n : Nat) : Mirrors Token.foldCase (peek n) (peek n) := by
  intro i _ pos
  simp [peek, mapResult]

theorem mirrors_current : Mirrors Token.foldCase current current := mirrors_peek 0

theorem mirrors_failWith {f : α → β} {e e' : Error} (h : e' = e.foldCase) :
    Mirrors f (failWith e) (failWith e') := by
  subst h
  exact fun _ _ _ => rfl

theorem mirrors_fail {f : α → β} {cause cause' : Cause} (h : cause' = cause.foldCase) :
    Mirrors f (fail cause) (fail cause') := by
  subst h
  refine Mirrors.bind (f := Error.foldCase) (fun i _ pos => ?_) fun e => mirrors_failWith rfl
  simp [errorHere, mapResult, Input.errorAt_foldCase]

theorem mirrors_expected {f : α → β} (what : String) :
    Mirrors f (expected what) (expected what) :=
  mirrors_current.bind fun _ => mirrors_fail rfl

theorem steady_atEnd : Steady atEnd :=
  mirrors_current.bind fun t => .pure (by simp)

/-! ## Single tokens -/

/-- What a token means to a rule, if the case of a word shows only in the result. -/
def Caseless (f : α → β) (meaning : Token → Option α) (meaning' : Token → Option β) : Prop :=
  ∀ t : Token, t.WellFormed → meaning' t.foldCase = (meaning t).map f

theorem acceptIf_of_ne_eof {i : Input} {pos : Nat} (h : i.tokenAt pos ≠ .eof)
    (meaning : Token → Option α) :
    acceptIf meaning i pos =
      (.ok (meaning (i.tokenAt pos)), if (meaning (i.tokenAt pos)).isSome then pos + 1 else pos) := by
  unfold acceptIf
  split
  · contradiction
  · split <;> simp_all

theorem acceptIf_of_eof {i : Input} {pos : Nat} (h : i.tokenAt pos = .eof)
    (meaning : Token → Option α) : acceptIf meaning i pos = (.ok none, pos) := by
  simp [acceptIf, h]

theorem mirrors_acceptIf {f : α → β} {meaning : Token → Option α} {meaning' : Token → Option β}
    (h : Caseless f meaning meaning') :
    Mirrors (Option.map f) (acceptIf meaning) (acceptIf meaning') := by
  intro i hi pos
  by_cases heof : i.tokenAt pos = .eof
  · rw [acceptIf_of_eof heof, acceptIf_of_eof (by simp [heof, Token.foldCase])]
    rfl
  · rw [acceptIf_of_ne_eof heof, acceptIf_of_ne_eof (by simpa using heof)]
    simp [h _ (hi.tokenAt pos), mapResult]

theorem mirrors_expectIf {f : α → β} {what : String} {meaning : Token → Option α}
    {meaning' : Token → Option β} (h : Caseless f meaning meaning') :
    Mirrors f (expectIf what meaning) (expectIf what meaning') := by
  refine (mirrors_acceptIf h).bind fun a => ?_
  cases a with
  | none => exact mirrors_expected what
  | some a => exact .pure rfl

theorem steady_skip : Steady skip :=
  (mirrors_acceptIf (f := Token.foldCase) fun _ _ => rfl).bind fun _ => .pure rfl

theorem steady_skipBy (n : Nat) : Steady (skipBy n) := by
  induction n with
  | zero => exact .pure rfl
  | succ n ih => exact steady_skip.andThen fun _ => ih

theorem steady_peekSymbol (n : Nat) (s : Symbol) : Steady (peekSymbol n s) :=
  (mirrors_peek n).bind fun t => .pure (by simp)

theorem steady_isSymbol (s : Symbol) : Steady (isSymbol s) := steady_peekSymbol 0 s

theorem steady_accept (s : Symbol) : Steady (accept s) := by
  refine (mirrors_acceptIf (f := id) fun t _ => ?_).bind fun a => .pure (by simp)
  simp

theorem steady_expect (s : Symbol) : Steady (expect s) :=
  (steady_accept s).andThen fun _ => .ite (.pure rfl) (mirrors_expected _)

/-! ## Keywords -/

theorem steady_peekWord (n : Nat) (keyword : String) : Steady (peekWord n keyword) :=
  (mirrors_peek n).bind fun t => .pure (by simp)

theorem steady_isWord (keyword : String) : Steady (isWord keyword) := steady_peekWord 0 keyword

theorem steady_peekWords (n : Nat) (keywords : List String) : Steady (peekWords n keywords) := by
  induction keywords generalizing n with
  | nil => exact .pure rfl
  | cons keyword rest ih =>
    exact (steady_peekWord n keyword).andThen fun _ => .ite (ih (n + 1)) (.pure rfl)

theorem steady_isWords (keywords : List String) : Steady (isWords keywords) :=
  steady_peekWords 0 keywords

theorem steady_acceptWord (keyword : String) : Steady (acceptWord keyword) := by
  refine (mirrors_acceptIf (f := id) fun t _ => ?_).bind fun a => .pure (by simp)
  simp

theorem steady_acceptWords (keywords : List String) : Steady (acceptWords keywords) :=
  (steady_isWords keywords).andThen fun _ =>
    .ite ((steady_skipBy _).andThen fun _ => .pure rfl) (.pure rfl)

theorem steady_expectWord (keyword : String) : Steady (expectWord keyword) :=
  (steady_acceptWord keyword).andThen fun _ => .ite (.pure rfl) (mirrors_expected _)

theorem steady_expectWords (keywords : List String) : Steady (expectWords keywords) := by
  induction keywords with
  | nil => exact .pure rfl
  | cons keyword rest ih => exact (steady_expectWord keyword).andThen fun _ => ih

theorem steady_currentWord : Steady currentWord := by
  refine mirrors_current.bind fun t => ?_
  cases t with
  | word w => exact .pure (by simp)
  | _ => exact .pure rfl

/-! ## Choices -/

theorem mirrors_choose {f : α → α} {phrases : List (List String × α)}
    (h : ∀ p ∈ phrases, f p.2 = p.2) :
    Mirrors (Option.map f) (choose phrases) (choose phrases) := by
  induction phrases with
  | nil => exact .pure rfl
  | cons phrase rest ih =>
    rw [List.forall_mem_cons] at h
    exact (steady_acceptWords _).andThen fun _ => .ite (.pure (congrArg some h.1.symm)) (ih h.2)

theorem steady_choose (phrases : List (List String × α)) : Steady (choose phrases) :=
  (mirrors_choose (f := id) fun _ _ => rfl).congr fun _ => by simp

theorem chooseRule_cons (phrase : List String) (rule : Parse α)
    (rest : List (List String × Parse α)) :
    chooseRule ((phrase, rule) :: rest) =
      (do if ← acceptWords phrase then return some (← rule) else chooseRule rest) := by
  simp only [chooseRule, choose, bind_assoc]
  congr 1
  funext taken
  cases taken <;> simp

theorem Mirrors.noRule {f : α → β} :
    Mirrors (Option.map f) (chooseRule []) (chooseRule []) :=
  .pure rfl

theorem Mirrors.rule {f : α → β} {phrase : List String} {p : Parse α} {q : Parse β}
    {rules : List (List String × Parse α)} {rules' : List (List String × Parse β)}
    (h : Mirrors f p q) (hrest : Mirrors (Option.map f) (chooseRule rules) (chooseRule rules')) :
    Mirrors (Option.map f) (chooseRule ((phrase, p) :: rules))
      (chooseRule ((phrase, q) :: rules')) := by
  rw [chooseRule_cons, chooseRule_cons]
  exact (steady_acceptWords phrase).andThen fun _ => .ite (h.map fun _ => rfl) hrest

theorem Mirrors.maybe {f : α → β} {test : Parse Bool} {p : Parse α} {q : Parse β}
    (ht : Steady test) (hp : Mirrors f p q) :
    Mirrors (Option.map f) (maybe test p) (maybe test q) :=
  ht.andThen fun _ => .ite (hp.map fun _ => rfl) (.pure rfl)

theorem Mirrors.maybeList {f : α → β} {test : Parse Bool} {p : Parse (List α)}
    {q : Parse (List β)} (ht : Steady test) (hp : Mirrors (List.map f) p q) :
    Mirrors (List.map f) (maybeList test p) (maybeList test q) :=
  ht.andThen fun _ => .ite hp (.pure rfl)

theorem Mirrors.rewinding {f : α → β} {p : Parse (Option α)} {q : Parse (Option β)}
    (hp : Mirrors (Option.map f) p q) : Mirrors (Option.map f) (rewinding p) (rewinding q) := by
  intro i hi pos
  simp only [Parse.rewinding, hp hi pos]
  rcases p i pos with ⟨_ | _ | a, next⟩ <;> rfl

theorem Mirrors.attempt {f : α → β} {p : Parse (Option α)} {q : Parse (Option β)}
    (hp : Mirrors (Option.map f) p q) : Mirrors (Option.map f) (attempt p) (attempt q) := by
  intro i hi pos
  simp only [Parse.attempt, hp hi pos]
  rcases p i pos with ⟨e | _ | a, next⟩
  · simp only [mapResult, Error.isEndless_foldCase]
    split <;> rfl
  · rfl
  · rfl

/-! ## Loops and recursion -/

theorem Mirrors.manyUpTo {f : α → β} {step : Parse (Option α)} {step' : Parse (Option β)}
    (h : Mirrors (Option.map f) step step') (n : Nat) :
    Mirrors (List.map f) (manyUpTo step n) (manyUpTo step' n) := by
  induction n with
  | zero => exact mirrors_fail rfl
  | succ n ih =>
    refine h.bind fun a => ?_
    cases a with
    | none => exact .pure rfl
    | some a => exact ih.map fun _ => rfl

theorem Mirrors.many {f : α → β} {step : Parse (Option α)} {step' : Parse (Option β)}
    (h : Mirrors (Option.map f) step step') : Mirrors (List.map f) (many step) (many step') := by
  intro i hi pos
  simp only [Parse.many, Input.remaining_foldCase]
  exact h.manyUpTo _ hi pos

theorem Mirrors.iterateUpTo {f : α → β} {step : α → Parse (Option α)}
    {step' : β → Parse (Option β)} (h : ∀ a, Mirrors (Option.map f) (step a) (step' (f a)))
    (n : Nat) (a : α) : Mirrors f (iterateUpTo step n a) (iterateUpTo step' n (f a)) := by
  induction n generalizing a with
  | zero => exact mirrors_fail rfl
  | succ n ih =>
    refine (h a).bind fun b => ?_
    cases b with
    | none => exact .pure rfl
    | some b => exact ih b

theorem Mirrors.iterate {f : α → β} {step : α → Parse (Option α)} {step' : β → Parse (Option β)}
    (h : ∀ a, Mirrors (Option.map f) (step a) (step' (f a))) (a : α) :
    Mirrors f (iterate step a) (iterate step' (f a)) := by
  intro i hi pos
  simp only [Parse.iterate, Input.remaining_foldCase]
  exact Mirrors.iterateUpTo h _ a hi pos

theorem Mirrors.commaSeparated {f : α → β} {p : Parse α} {q : Parse β} (h : Mirrors f p q) :
    Mirrors (List.map f) (commaSeparated p) (commaSeparated q) :=
  h.bind fun _ => (Mirrors.many (.maybe (steady_accept _) h)).map fun _ => rfl

theorem mirrors_nested {f : α → α} {rule : Parse α → Parse α}
    (h : ∀ p, Mirrors f p p → Mirrors f (rule p) (rule p)) (n : Nat) :
    Mirrors f (nested rule n) (nested rule n) := by
  induction n with
  | zero => exact mirrors_fail rfl
  | succ n ih => exact h _ ih

theorem mirrors_fix {f : α → α} {rule : Parse α → Parse α}
    (h : ∀ p, Mirrors f p p → Mirrors f (rule p) (rule p)) :
    Mirrors f (fix rule) (fix rule) := by
  intro i hi pos
  simp only [fix, Input.remaining_foldCase]
  exact mirrors_nested h _ hi pos

/-! ## Steady parsers of optional values and of lists -/

theorem steady_maybe {test : Parse Bool} {p : Parse α} (ht : Steady test) (hp : Steady p) :
    Steady (maybe test p) :=
  (Mirrors.maybe ht hp).congr fun _ => by simp

theorem steady_not {test : Parse Bool} (h : Steady test) : Steady (do return !(← test)) :=
  h.andThen fun _ => .pure rfl

theorem steady_many {step : Parse (Option α)} (h : Steady step) : Steady (many step) :=
  (Mirrors.many (f := id) (h.congr fun _ => by simp)).congr fun _ => by simp

theorem steady_commaSeparated {p : Parse α} (h : Steady p) : Steady (commaSeparated p) :=
  h.commaSeparated.congr fun _ => by simp

/-! ## What a parser's results are like

Where a result is used up as text, it matters that it was read from scanned tokens. -/

/-- Every result of `p` on scanned tokens has a property. -/
def Yields (P : α → Prop) (p : Parse α) : Prop :=
  ∀ ⦃i : Input⦄, i.WellFormed → ∀ ⦃pos a next⦄, p i pos = (.ok a, next) → P a

theorem Yields.pure {P : α → Prop} {a : α} (h : P a) : Yields P (pure a) := by
  rintro i _ pos _ _ ⟨⟩
  exact h

theorem Yields.bind {P : α → Prop} {Q : γ → Prop} {p : Parse α} {k : α → Parse γ}
    (hp : Yields P p) (hk : ∀ a, P a → Yields Q (k a)) : Yields Q (p >>= k) := by
  intro i hi pos c next hrun
  simp only [Bind.bind] at hrun
  split at hrun
  · rename_i a mid ha
    exact hk a (hp hi ha) hi hrun
  · cases hrun

/-- Without anything known about the first result. -/
theorem Yields.andThen {Q : γ → Prop} {p : Parse α} {k : α → Parse γ}
    (hk : ∀ a, Yields Q (k a)) : Yields Q (p >>= k) :=
  Yields.bind (P := fun _ => True) (fun _ _ _ _ _ _ => trivial) fun a _ => hk a

theorem yields_expected {P : α → Prop} (what : String) : Yields P (expected what) := by
  rintro i _ pos a next ⟨⟩

theorem yields_acceptIf {P : α → Prop} {meaning : Token → Option α}
    (h : ∀ t : Token, t.WellFormed → ∀ a ∈ meaning t, P a) :
    Yields (fun a => ∀ b ∈ a, P b) (acceptIf meaning) := by
  intro i hi pos a next hrun
  by_cases heof : i.tokenAt pos = .eof
  · rw [acceptIf_of_eof heof] at hrun
    cases hrun
    nofun
  · rw [acceptIf_of_ne_eof heof] at hrun
    cases hrun
    exact h _ (hi.tokenAt pos)

theorem yields_expectIf {P : α → Prop} {what : String} {meaning : Token → Option α}
    (h : ∀ t : Token, t.WellFormed → ∀ a ∈ meaning t, P a) : Yields P (expectIf what meaning) := by
  refine (yields_acceptIf h).bind fun a ha => ?_
  cases a with
  | none => exact yields_expected what
  | some a => exact .pure (ha a rfl)

theorem Yields.manyUpTo {P : α → Prop} {step : Parse (Option α)}
    (h : Yields (fun a => ∀ b ∈ a, P b) step) (n : Nat) :
    Yields (fun as => ∀ b ∈ as, P b) (manyUpTo step n) := by
  induction n with
  | zero => rintro i _ pos a next ⟨⟩
  | succ n ih =>
    refine h.bind fun a ha => ?_
    cases a with
    | none => exact .pure (by simp)
    | some a =>
      refine ih.bind fun as has => .pure ?_
      simpa using ⟨ha a rfl, has⟩

theorem Yields.many {P : α → Prop} {step : Parse (Option α)}
    (h : Yields (fun a => ∀ b ∈ a, P b) step) : Yields (fun as => ∀ b ∈ as, P b) (many step) :=
  fun _ hi _ _ _ hrun => h.manyUpTo _ hi hrun

theorem Yields.ite {P : α → Prop} {c : Prop} [Decidable c] {p q : Parse α} (hp : Yields P p)
    (hq : Yields P q) : Yields P (if c then p else q) := by
  split
  · exact hp
  · exact hq

/-- In a mirrored run the continuation may use what is known about the first result. -/
theorem Mirrors.bindOf {P : α → Prop} {f : α → β} {g : γ → δ} {p : Parse α} {q : Parse β}
    {k : α → Parse γ} {k' : β → Parse δ} (hp : Mirrors f p q) (hP : Yields P p)
    (hk : ∀ a, P a → Mirrors g (k a) (k' (f a))) : Mirrors g (p >>= k) (q >>= k') := by
  intro i hi pos
  simp only [Bind.bind, hp hi pos]
  rcases ha : p i pos with ⟨_ | a, next⟩
  · rfl
  · exact hk a (hP hi ha) hi next

end Parse

end SqlTidy
