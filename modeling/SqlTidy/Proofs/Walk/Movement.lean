import SqlTidy.Proofs.Outcome

/-!
# Movements over the tokens

A rule of the grammar stands at a token and moves over the tokens from there. This module says what may be
true of such a movement.

**Brackets** (`Token.nest`, `Input.Nests`). Behind each token some closing brackets are awaited: an opening
bracket adds its partner in front, a closing bracket has to be the first one awaited and is then done with.

**Positions** (`Input.Capped`, `Input.Leaves`). The tokens of a text end with the end mark and hold no other
one. A rule stands at or before it, with fewer than `n` tokens to go.

**Faults** (`Input.Faults`). A rule that fails blames the token at a position at or before the end mark, and
its cause is not that it went on for ever.
-/

namespace SqlTidy

/-! ## Brackets -/

namespace Token

/-- The brackets that are still awaited behind a closing bracket, which must be the next one. -/
def meet (closer : Symbol) : List Symbol → Option (List Symbol)
  | [] => none
  | next :: awaited => if next = closer then some awaited else none

/-- The closing brackets that are awaited behind one more token, the next one first. -/
def nest (awaited : List Symbol) : Token → Option (List Symbol)
  | .symbol .lparen => some (.rparen :: awaited)
  | .symbol .lbracket => some (.rbracket :: awaited)
  | .symbol .rparen => meet .rparen awaited
  | .symbol .rbracket => meet .rbracket awaited
  | _ => some awaited

theorem meet_append {closer : Symbol} {s t : List Symbol} (h : meet closer s = some t)
    (u : List Symbol) : meet closer (s ++ u) = some (t ++ u) := by
  cases s with
  | nil => contradiction
  | cons next s =>
    rw [meet, Option.ite_none_right_eq_some] at h
    obtain ⟨rfl, ⟨⟩⟩ := h
    exact if_pos rfl

theorem nest_append {s s' : List Symbol} {t : Token} (h : t.nest s = some s') (u : List Symbol) :
    t.nest (s ++ u) = some (s' ++ u) := by
  unfold nest at h ⊢
  split at h
  · cases h
    rfl
  · cases h
    rfl
  · exact meet_append h u
  · exact meet_append h u
  · cases h
    rfl

theorem nest_of_isKeyword {t : Token} {keyword : String} (h : t.isKeyword keyword)
    (s : List Symbol) : t.nest s = some s := by
  cases t with
  | word => rfl
  | _ => contradiction

end Token

namespace Input

/-- The tokens from a position up to another one turn the awaited brackets into others, and none of them is
the end mark. -/
inductive Nests (i : Input) : List Symbol → Nat → List Symbol → Nat → Prop
  | nil {s : List Symbol} {pos : Nat} : Nests i s pos s pos
  | token {s s' t : List Symbol} {pos next : Nat} (hpos : i.tokenAt pos ≠ .eof)
      (hnest : (i.tokenAt pos).nest s = some s') (hrest : Nests i s' (pos + 1) t next) :
      Nests i s pos t next

variable {i : Input} {s t u : List Symbol} {pos mid next m n : Nat}

theorem Nests.trans (h : i.Nests s pos t mid) (h' : i.Nests t mid u next) :
    i.Nests s pos u next := by
  induction h with
  | nil => exact h'
  | token hpos hnest _ ih => exact .token hpos hnest (ih h')

/-- Brackets that are awaited for later do not matter. -/
theorem Nests.append (h : i.Nests s pos t next) (u : List Symbol) :
    i.Nests (s ++ u) pos (t ++ u) next := by
  induction h with
  | nil => exact .nil
  | token hpos hnest _ ih => exact .token hpos (Token.nest_append hnest u) ih

/-- Keywords are no brackets. -/
theorem HasWords.nests {keywords : List String} (h : i.HasWords pos keywords) (s : List Symbol) :
    i.Nests s pos s (pos + keywords.length) := by
  induction keywords generalizing pos with
  | nil => exact .nil
  | cons keyword rest ih =>
    have hrest := ih h.2
    rw [Nat.add_assoc, Nat.add_comm 1] at hrest
    exact .token (Parse.ne_eof_of_isKeyword h.1) (Token.nest_of_isKeyword h.1 s) hrest

/-! ## Positions -/

/-- The position of the end mark. -/
def last (i : Input) : Nat := i.tokens.size - 1

/-- The end mark stands behind all other tokens. -/
structure Capped (i : Input) : Prop where
  size_pos : 0 < i.tokens.size
  eof_iff (pos : Nat) : i.tokenAt pos = .eof ↔ i.last ≤ pos

theorem Capped.lt_last (h : i.Capped) (hpos : i.tokenAt pos ≠ .eof) : pos < i.last := by
  rw [Ne, h.eof_iff] at hpos
  omega

/-- Keywords stand before the end mark. -/
theorem Capped.add_le_last {keywords : List String} (h : i.Capped) (hpos : pos ≤ i.last)
    (hwords : i.HasWords pos keywords) : pos + keywords.length ≤ i.last := by
  induction keywords generalizing pos with
  | nil => exact hpos
  | cons keyword rest ih =>
    have hrest := ih (h.lt_last (Parse.ne_eof_of_isKeyword hwords.1)) hwords.2
    rw [List.length_cons]
    omega

theorem Capped.remaining_eq (h : i.Capped) (hpos : pos ≤ i.last) :
    i.remaining pos = i.last - pos + 1 := by
  have hsize := h.size_pos
  unfold remaining last at *
  omega

/-- From a position at or before the end mark there are fewer than `n` tokens in front of it. -/
structure Leaves (i : Input) (pos n : Nat) : Prop where
  capped : i.Capped
  le_last : pos ≤ i.last
  lt : i.last - pos < n

namespace Leaves

theorem lt_last (h : i.Leaves pos n) (hpos : i.tokenAt pos ≠ .eof) : pos < i.last :=
  h.capped.lt_last hpos

theorem ahead (h : i.Leaves pos n) (hmid : pos ≤ mid) (hlast : mid ≤ i.last) : i.Leaves mid n where
  capped := h.capped
  le_last := hlast
  lt := by
    have hlt := h.lt
    omega

/-- A token that has been taken need not be counted any more. -/
theorem behind (h : i.Leaves pos m) (hm : m ≤ n + 1) (hmid : pos < mid) (hlast : mid ≤ i.last) :
    i.Leaves mid n where
  capped := h.capped
  le_last := hlast
  lt := by
    have hlt := h.lt
    omega

theorem succ (h : i.Leaves pos n) : i.Leaves pos (n + 1) :=
  ⟨h.capped, h.le_last, Nat.lt_succ_of_lt h.lt⟩

end Leaves

/-! ## Faults -/

/-- A fault at a token, a text without a statement, or a statement that is known and refused. No rule has
gone on for ever. -/
inductive Faults (i : Input) : Error → Prop
  | here (pos : Nat) (cause : Cause) (hpos : pos ≤ i.last) (hcause : cause ≠ .endless) :
      Faults i (i.errorAt pos cause)
  | empty : Faults i (.ofCause .emptyInput 0 i.source.utf8ByteSize)
  | unsupported (construct : String) : Faults i (.unsupported construct)

theorem Faults.not_isEndless {e : Error} (h : i.Faults e) : e.isEndless = false := by
  cases h with
  | here pos cause _ hcause =>
    unfold errorAt
    split <;> simpa [Error.ofCause, Error.isEndless] using hcause
  | empty => rfl
  | unsupported => rfl

/-! ## Movements -/

/-- A movement from one position to another, in front of which some closing brackets are awaited. It goes
over a token if it `advances`, and behind it no bracket is awaited if it `closes`. -/
structure Moved (i : Input) (s : List Symbol) (pos next : Nat) (advances closes : Prop) : Prop where
  le : pos ≤ next
  le_last : next ≤ i.last
  lt : advances → pos < next
  nests : closes → i.Nests s pos [] next

variable {advances advances' closes closes' : Prop}

theorem Moved.stay (hpos : pos ≤ i.last) (hadvances : ¬ advances) (hcloses : closes → s = []) :
    i.Moved s pos pos advances closes where
  le := Nat.le_refl _
  le_last := hpos
  lt h := absurd h hadvances
  nests h := hcloses h ▸ .nil

theorem Moved.imp (h : i.Moved s pos next advances closes) (hadvances : advances' → advances)
    (hcloses : closes' → closes) : i.Moved s pos next advances' closes' where
  le := h.le
  le_last := h.le_last
  lt h' := h.lt (hadvances h')
  nests h' := h.nests (hcloses h')

/-- One movement behind another one. -/
theorem Moved.trans (h : i.Moved [] pos mid advances closes)
    (h' : i.Moved s mid next advances' closes') :
    i.Moved s pos next (advances ∨ advances') (closes ∧ closes') where
  le := Nat.le_trans h.le h'.le
  le_last := h'.le_last
  lt hadvances := by
    rcases hadvances with hadvances | hadvances
    · exact Nat.lt_of_lt_of_le (h.lt hadvances) h'.le
    · exact Nat.lt_of_le_of_lt h.le (h'.lt hadvances)
  nests hcloses := ((h.nests hcloses.1).append s).trans (h'.nests hcloses.2)

/-- A movement behind one token. -/
theorem Moved.token (hpos : i.tokenAt pos ≠ .eof) (hnest : (i.tokenAt pos).nest s = some t)
    (h : i.Moved t (pos + 1) next advances' closes) : i.Moved s pos next advances closes where
  le := Nat.le_of_succ_le h.le
  le_last := h.le_last
  lt _ := h.le
  nests hcloses := .token hpos hnest (h.nests hcloses)

end Input

end SqlTidy
