import SqlTidy.Proofs.Fence.Query

/-!
# Sequences of tokens

Whether a rule accepts a sequence of tokens on its own, and whether it accepts it between other tokens, are
questions about two inputs: one with these tokens and one with more of them around. Here are the inputs with given
tokens (`Input.Lists`) and the fences between two of them (`Fence.inside`).
-/

namespace SqlTidy

open Parse

namespace Input

variable {i j : Input} {w front back : List Token} {pos k : Nat}

/-- The tokens of an input are these and the end mark. -/
structure Lists (i : Input) (w : List Token) : Prop where
  ahead : i.ahead 0 = w ++ [.eof]
  eof_not_mem : .eof ∉ w

theorem tokenAt_eq_getD (i : Input) (k : Nat) : i.tokenAt k = (i.ahead 0)[k]?.getD .eof := by
  unfold tokenAt Input.ahead
  rw [List.drop_zero, List.getElem?_map, Array.getElem?_toList]
  cases i.tokens[k]? <;> rfl

namespace Lists

theorem tokenAt (h : i.Lists w) (k : Nat) : i.tokenAt k = w[k]?.getD .eof := by
  rw [tokenAt_eq_getD, h.ahead]
  rcases Nat.lt_trichotomy k w.length with hlt | rfl | hgt
  · rw [List.getElem?_append_left hlt]
  · simp
  · rw [List.getElem?_eq_none (by simp; omega), List.getElem?_eq_none (by omega)]

theorem size (h : i.Lists w) : i.tokens.size = w.length + 1 := by
  have hlength := congrArg List.length h.ahead
  simpa [Input.ahead] using hlength

theorem last (h : i.Lists w) : i.last = w.length := by
  rw [Input.last, h.size, Nat.add_sub_cancel]

theorem tokenAt_length (h : i.Lists w) : i.tokenAt w.length = .eof := by
  rw [h.tokenAt, List.getElem?_eq_none (Nat.le_refl _), Option.getD_none]

theorem capped (h : i.Lists w) : i.Capped where
  size_pos := by
    rw [h.size]
    omega
  eof_iff pos := by
    rw [h.tokenAt, h.last]
    refine ⟨fun heof => ?_, fun hle => by rw [List.getElem?_eq_none hle, Option.getD_none]⟩
    refine Nat.le_of_not_lt fun hlt => h.eof_not_mem ?_
    rw [List.getElem?_eq_getElem hlt, Option.getD_some] at heof
    exact heof ▸ List.getElem_mem hlt

/-- All tokens are left in front of the first one. -/
theorem leaves (h : i.Lists w) : i.Leaves 0 (w.length + 1) :=
  ⟨h.capped, Nat.zero_le _, by rw [h.last]; omega⟩

/-- The same tokens between others. -/
theorem tokenAt_eq (hi : i.Lists w) (hj : j.Lists (front ++ w ++ back)) (hk : k < w.length) :
    j.tokenAt (k + front.length) = i.tokenAt k := by
  rw [hj.tokenAt, hi.tokenAt, List.append_assoc, List.getElem?_append_right (Nat.le_add_left _ _), Nat.add_sub_cancel,
    List.getElem?_append_left hk]

/-- The first token behind them. -/
theorem tokenAt_back {t : Token} (hj : j.Lists (front ++ w ++ t :: back)) : j.tokenAt (w.length + front.length) = t := by
  rw [hj.tokenAt, List.getElem?_append_right (by simp; omega)]
  simp [Nat.add_comm]

end Lists

/-- An input with given tokens, without a text. -/
def ofTokens (w : List Token) : Input := ⟨"", ((w ++ [Token.eof]).map fun t => (⟨t, 0, 0⟩ : Spanned)).toArray⟩

theorem lists_ofTokens (h : Token.eof ∉ w) : (ofTokens w).Lists w := ⟨by simp [Input.ahead, ofTokens, Function.comp_def], h⟩

end Input

/-- Whether a rule reads some tokens to their end. -/
def Parse.readsAll {α : Type} (p : Parse α) (w : List Token) : Bool :=
  match p (.ofTokens w) 0 with
  | (.ok _, next) => next = w.length
  | (.error _, _) => false

theorem Parse.exists_runs_of_readsAll {α : Type} {p : Parse α} {w : List Token} (h : p.readsAll w = true) :
    ∃ a, p (.ofTokens w) 0 = (.ok a, w.length) := by
  unfold readsAll at h
  split at h
  · rename_i a next hrun
    exact ⟨a, by rw [hrun, of_decide_eq_true h]⟩
  · contradiction

open Input

variable {i j : Input} {w front back : List Token}

/-- A fence among tokens that stand alone in one input and between others in another one, or right behind them. -/
def Fence.inside (hi : i.Lists w) (hj : j.Lists (front ++ w ++ back)) (stop : Nat) (hleft : (i.tokenAt stop).IsFence)
    (hright : (j.tokenAt (stop + front.length)).IsFence) : Fence where
  left := i
  right := j
  shift := front.length
  stop := stop
  left_stop := hleft
  right_stop := hright
  size := by
    rw [hi.size, hj.size]
    simp
    omega

theorem Fence.inside_at {hi : i.Lists w} {hj : j.Lists (front ++ w ++ back)} {stop pos : Nat}
    {hleft : (i.tokenAt stop).IsFence} {hright : (j.tokenAt (stop + front.length)).IsFence} {u : List Symbol}
    (hstop : stop ≤ w.length) (hnests : i.Nests u pos [] stop) : (inside hi hj stop hleft hright).At u pos where
  same _ _ hk := hi.tokenAt_eq hj (Nat.lt_of_lt_of_le hk hstop)
  nests := hnests

/-- The fence is the same token in both inputs. -/
def Fence.Alike (f : Fence) : Prop := f.right.tokenAt (f.stop + f.shift) = f.left.tokenAt f.stop

theorem Fence.Alike.tokenAt_eq {f : Fence} {u : List Symbol} {pos : Nat} (h : f.Alike) (hat : f.At u pos) :
    f.right.tokenAt (pos + f.shift) = f.left.tokenAt pos := by
  rcases Nat.lt_or_eq_of_le hat.nests.le with hlt | rfl
  · exact hat.same pos (Nat.le_refl _) hlt
  · exact h

end SqlTidy
