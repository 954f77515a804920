import Mathlib.Data.List.Pairwise
import SqlTidy.Proofs.Keep.Basic

/-!
# Clauses that replace each other

Some statements have clauses in any order, and of two clauses of a kind the later one counts. The literals
of the earlier one are lost.

* A token is `Overwritten` if it stands in a clause behind which, in the same series of clauses, a clause of
  the same kind is read.
* The clauses that are left are those that no later one replaces (`lasting`), so a loop over clauses keeps
  the literals of these and loses the overwritten ones (`saves_many_lasting`).
* A record of clauses is a row of slots, one per kind, and adding a clause sets the slot of its kind. So
  the record holds what the lasting clauses hold (`stored_foldl_subset`).
-/

namespace SqlTidy

namespace Parse

variable {α : Type} {step : Parse (Option α)} {kind : α → Nat} {i : Input} {mid : Nat}

/-! ## A series of clauses -/

/-- The results of a step that is repeated. -/
inductive Series (step : Parse (Option α)) (i : Input) : Nat → List α → Nat → Prop
  | nil {pos : Nat} : Series step i pos [] pos
  | cons {pos mid next : Nat} {a : α} {as : List α} (head : step i pos = (.ok (some a), mid))
      (tail : Series step i mid as next) : Series step i pos (a :: as) next

theorem Series.concat {pos next last : Nat} {as : List α} {a : α} (h : Series step i pos as next)
    (ha : step i next = (.ok (some a), last)) : Series step i pos (as ++ [a]) last := by
  induction h with
  | nil => exact .cons ha .nil
  | cons head _ ih => exact .cons head (ih ha)

/-- A step that goes back when it declines is repeated without gaps. -/
theorem ends_many_series (hstep : ∀ i pos, Ends step i pos fun a next => a = none → next = pos) :
    Ends (many step) i mid fun as next => Series step i mid as next := by
  refine .many .nil fun as pos has a next hrun => ⟨fun hnone => ?_, fun c hc => ?_⟩
  · obtain rfl := hstep i pos a next hrun hnone
    exact has
  · subst hc
    exact has.concat hrun

theorem ends_chooseRule_none (rules : List (List String × Parse α)) (i : Input) (pos : Nat) :
    Ends (chooseRule rules) i pos fun a next => a = none → next = pos := by
  refine (ends_choose rules).bind fun rule next hrule => ?_
  cases rule with
  | none => exact .pure fun _ => hrule rfl
  | some rule => exact .step fun _ _ => .pure nofun

/-! ## Clauses of a kind -/

/-- The token stands in a clause that a later one of the same kind replaces. -/
def Overwritten (step : Parse (Option α)) (kind : α → Nat) (i : Input) (k : Nat) : Prop :=
  ∃ pos clause next later last, step i pos = (.ok (some clause), next) ∧ pos ≤ k ∧ k < next ∧
    Series step i next later last ∧ ∃ other ∈ later, kind clause = kind other

/-- The clauses that no later one replaces. -/
def lasting (kind : α → Nat) (clauses : List α) : List α :=
  clauses.pwFilter fun c d => kind c ≠ kind d

theorem lasting_cons (kind : α → Nat) (c : α) (cs : List α) :
    lasting kind (c :: cs) =
      if ∀ d ∈ cs, kind c ≠ kind d then c :: lasting kind cs else lasting kind cs := by
  have hforall := List.forall_mem_pwFilter (R := fun c d => kind c ≠ kind d)
    (fun {x y z} hxz => ?_) c cs
  · split
    · rename_i h
      exact List.pwFilter_cons_of_pos (hforall.2 h)
    · rename_i h
      exact List.pwFilter_cons_of_neg fun hfilter => h (hforall.1 hfilter)
  · by_cases hxy : kind x = kind y
    · exact .inr (hxy ▸ hxz)
    · exact .inl hxy

variable [Stored α] {lost : Input → Nat → Prop}

/-- A series of clauses loses what is overwritten, and nothing else. -/
theorem Series.held {pos next : Nat} {cs : List α} (h : Series step i pos cs next) (hi : i.Scanned)
    (hstep : Keeps lost [] step) (hlost : ∀ k, Overwritten step kind i k → lost i k) :
    ∀ k, pos ≤ k → k < next → i.Held lost (stored (lasting kind cs)) k := by
  induction h with
  | nil =>
    intro k hk hk'
    omega
  | @cons pos mid next c cs head tail ih =>
    intro k hk hk'
    rw [lasting_cons]
    rcases Nat.lt_or_ge k mid with hmid | hmid
    · have hc := hstep i hi pos pos (fun k hk hk' => absurd hk (Nat.not_le_of_lt hk')) _ _ head k hk hmid
      split
      · exact hc.mono (List.subset_append_left _ _)
      · rename_i hlater
        intro _
        refine .inl (hlost k ⟨pos, c, mid, cs, next, head, hk, hmid, tail, ?_⟩)
        simpa using hlater
    · have hcs := ih k hmid hk'
      split
      · exact hcs.mono (List.subset_append_right _ _)
      · exact hcs

theorem saves_many_lasting (hstep : Keeps lost [] step)
    (hdecline : ∀ i pos, Ends step i pos fun a next => a = none → next = pos)
    (hlost : ∀ i k, Overwritten step kind i k → lost i k) :
    Saves lost (fun i cs k => i.Held lost (stored (lasting kind cs)) k) [] (many step) := by
  intro i hi start mid hgiven
  refine (ends_many_series hdecline).mono fun cs next hcs k hstart hk => ?_
  rcases Nat.lt_or_ge k mid with hmid | hmid
  · exact (hgiven k hstart hmid).mono (List.nil_subset _)
  · exact hcs.held hi hstep (hlost i) k hmid hk

/-! ## A slot for each kind -/

section

variable {σ : Type} {add : σ → α → σ} {slots : σ → List (List String)}
  (hadd : ∀ s c, slots (add s c) = (slots s).set (kind c) (stored c))

include hadd

/-- The slots of other kinds stay. -/
theorem slots_foldl_of_ne {j : Nat} {cs : List α} (h : ∀ c ∈ cs, kind c ≠ j) (s : σ) :
    (slots (cs.foldl add s))[j]? = (slots s)[j]? := by
  induction cs generalizing s with
  | nil => rfl
  | cons c cs ih =>
    rw [List.foldl_cons, ih (fun d hd => h d (List.mem_cons_of_mem c hd)), hadd,
      List.getElem?_set_ne (h c List.mem_cons_self)]

/-- A slot that no clause sets is still there. -/
theorem slot_subset_foldl {j : Nat} {cs : List α} (h : ∀ c ∈ cs, kind c ≠ j) {s : σ}
    {ss : List String} (hs : (slots s)[j]? = some ss) : ss ⊆ (slots (cs.foldl add s)).flatten := by
  intro x hx
  rw [← slots_foldl_of_ne hadd h s] at hs
  exact List.mem_flatten.2 ⟨ss, List.mem_of_getElem? hs, hx⟩

/-- The slot of a kind holds the last clause of the kind. -/
theorem stored_lasting_subset (hkind : ∀ s c, kind c < (slots s).length) (cs : List α) (s : σ) :
    stored (lasting kind cs) ⊆ (slots (cs.foldl add s)).flatten := by
  induction cs generalizing s with
  | nil => exact List.nil_subset _
  | cons c cs ih =>
    rw [lasting_cons, List.foldl_cons]
    split
    · rename_i hlast
      have hslot : (slots (add s c))[kind c]? = some (stored c) := by
        rw [hadd, List.getElem?_set_self (hkind s c)]
      refine List.append_subset.2 ⟨?_, ih (add s c)⟩
      exact slot_subset_foldl hadd (fun d hd => (hlast d hd).symm) hslot
    · exact ih (add s c)

/-- A record whose first slots are those of the clauses holds the lasting clauses and the other slots. -/
theorem stored_foldl_subset {n : Nat} (hkind : ∀ c, kind c < n) (hlen : ∀ s, n ≤ (slots s).length)
    (cs : List α) (s : σ) :
    stored (lasting kind cs) ++ ((slots s).drop n).flatten ⊆ (slots (cs.foldl add s)).flatten := by
  refine List.append_subset.2 ⟨?_, fun x hx => ?_⟩
  · exact stored_lasting_subset hadd (fun s c => Nat.lt_of_lt_of_le (hkind c) (hlen s)) cs s
  · obtain ⟨ss, hss, hx⟩ := List.mem_flatten.1 hx
    obtain ⟨j, hj⟩ := List.getElem?_of_mem hss
    rw [List.getElem?_drop] at hj
    refine slot_subset_foldl hadd (fun c _ => ?_) hj hx
    have := hkind c
    omega

end

end Parse

end SqlTidy
