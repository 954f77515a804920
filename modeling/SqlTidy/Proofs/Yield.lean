import SqlTidy.Grammar.Nesting
import SqlTidy.Proofs.Case.Mirror

/-!
# What combined rules give back

`Yields Q rule` says that all results of a rule have the property `Q`. This file has one lemma for each way of
combining rules, so that the lemma about a rule of the grammar only speaks of the node which that rule builds.
A property of a list or of an option is a property of what is in it.

Where a rule goes back and reads the same tokens again, nothing is to be shown: a result that is given up
does not appear in the one that is given back.
-/

namespace SqlTidy

namespace Parse

variable {α : Type} {Q : α → Prop} {p : Parse α} {test : Parse Bool}

theorem Yields.imp {R : α → Prop} (h : Yields Q p) (himp : ∀ a, Q a → R a) : Yields R p :=
  fun _ hi _ _ _ hrun => himp _ (h hi hrun)

/-! ## Failing and choosing -/

theorem yields_fail (cause : Cause) : Yields Q (fail cause) := by
  rintro i _ pos a next ⟨⟩

theorem yields_failWith (e : Error) : Yields Q (failWith e) := by
  rintro i _ pos a next ⟨⟩

theorem yields_none : Yields (fun o => ∀ a ∈ o, Q a) (pure none) := .pure nofun

theorem yields_nil : Yields (fun as => ∀ a ∈ as, Q a) (pure []) := .pure nofun

theorem Yields.toSome (h : Yields Q p) :
    Yields (fun o => ∀ a ∈ o, Q a) (do return some (← p)) := by
  refine h.bind fun a ha => .pure ?_
  rintro _ ⟨⟩
  exact ha

theorem Yields.maybe (h : Yields Q p) : Yields (fun o => ∀ a ∈ o, Q a) (maybe test p) :=
  .andThen fun _ => .ite h.toSome yields_none

theorem Yields.maybeList {p : Parse (List α)} (h : Yields (fun as => ∀ a ∈ as, Q a) p) :
    Yields (fun as => ∀ a ∈ as, Q a) (maybeList test p) :=
  .andThen fun _ => .ite h yields_nil

/-- What is taken is one of the values to choose from. -/
theorem yields_choose {rules : List (List String × α)} (h : ∀ r ∈ rules, Q r.2) :
    Yields (fun o => ∀ a ∈ o, Q a) (choose rules) := by
  induction rules with
  | nil => exact yields_none
  | cons r rules ih =>
    obtain ⟨hr, hrules⟩ := List.forall_mem_cons.1 h
    exact .andThen fun _ => .ite (Yields.toSome (.pure hr)) (ih hrules)

theorem Yields.chooseRule {rules : List (List String × Parse α)}
    (h : ∀ r ∈ rules, Yields Q r.2) : Yields (fun o => ∀ a ∈ o, Q a) (chooseRule rules) := by
  refine (yields_choose h).bind fun rule hrule => ?_
  cases rule with
  | none => exact yields_none
  | some rule => exact (hrule rule rfl).toSome

/-! ## Going back -/

theorem Yields.rewinding {p : Parse (Option α)} (h : Yields (fun o => ∀ a ∈ o, Q a) p) :
    Yields (fun o => ∀ a ∈ o, Q a) (rewinding p) := by
  intro i hi pos a next hrun
  rw [Parse.rewinding] at hrun
  split at hrun
  · cases hrun
    rintro _ ⟨⟩
  · exact h hi hrun

theorem Yields.attempt {p : Parse (Option α)} (h : Yields (fun o => ∀ a ∈ o, Q a) p) :
    Yields (fun o => ∀ a ∈ o, Q a) (attempt p) := by
  intro i hi pos a next hrun
  rw [Parse.attempt] at hrun
  split at hrun
  · rename_i b mid hb
    cases hrun
    exact h hi hb
  · cases hrun
    rintro _ ⟨⟩
  · split at hrun
    · cases hrun
    · cases hrun
      rintro _ ⟨⟩

/-! ## Loops and recursion -/

theorem Yields.commaSeparated (h : Yields Q p) :
    Yields (fun as => ∀ a ∈ as, Q a) (commaSeparated p) := by
  refine h.bind fun first hfirst => (Yields.many h.maybe).bind fun rest hrest => .pure ?_
  exact List.forall_mem_cons.2 ⟨hfirst, hrest⟩

theorem Yields.iterateUpTo {step : α → Parse (Option α)}
    (h : ∀ a, Q a → Yields (fun o => ∀ b ∈ o, Q b) (step a)) (n : Nat) (a : α) (ha : Q a) :
    Yields Q (iterateUpTo step n a) := by
  induction n generalizing a with
  | zero => exact yields_fail .endless
  | succ n ih =>
    refine (h a ha).bind fun o ho => ?_
    cases o with
    | none => exact .pure ha
    | some b => exact ih b (ho b rfl)

/-- What a step keeps, its repetition keeps. -/
theorem Yields.iterate {step : α → Parse (Option α)}
    (h : ∀ a, Q a → Yields (fun o => ∀ b ∈ o, Q b) (step a)) (a : α) (ha : Q a) :
    Yields Q (iterate step a) :=
  fun _ hi _ _ _ hrun => Yields.iterateUpTo h _ a ha hi hrun

theorem Yields.nested {rule : Parse α → Parse α} (h : ∀ p, Yields Q p → Yields Q (rule p)) (n : Nat) :
    Yields Q (nested rule n) := by
  induction n with
  | zero => exact yields_fail .endless
  | succ n ih => exact h _ ih

theorem Yields.fix {rule : Parse α → Parse α} (h : ∀ p, Yields Q p → Yields Q (rule p)) :
    Yields Q (fix rule) :=
  fun _ hi _ _ _ hrun => Yields.nested h _ hi hrun

theorem yields_within {rule : Inner → Parse α} (h : ∀ n, Yields Q (rule (.level n))) :
    Yields Q (Grammar.within rule) :=
  fun _ hi _ _ _ hrun => h _ hi hrun

end Parse

end SqlTidy
