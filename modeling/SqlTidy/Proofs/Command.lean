import SqlTidy.Proofs.Runs
import SqlTidy.Proofs.Yield

/-!
# Commands that start with a word of their own

The first word of a statement says which rule reads it. For settings and tunnels the converse holds too: a tree of
that kind comes from one rule only. So whoever holds such a tree knows the word that its text starts with, and the
run of the rule behind it (`Statement.exists_command`).
-/

namespace SqlTidy

open Parse

/-- The word that a command starts with, for the kinds of command that a single rule reads. -/
def Statement.keyword? : Statement → Option String
  | .setCatalog _ | .setConfig _ => some "SET"
  | .reset _ => some "RESET"
  | .dataTunnel _ => some "DATATUNNEL"
  | _ => none

namespace Grammar

/-- The rule reads no command that has a word of its own. -/
abbrev ReadsOther (p : Parse Statement) : Prop := Yields (fun s => s.keyword? = none) p

theorem readsOther_createTable (mode : CreateMode) (external : Bool) : ReadsOther (createTable mode external) :=
  .andThen fun _ => .andThen fun _ => .andThen fun _ => .andThen fun _ => .andThen fun _ => .andThen fun _ => .pure rfl

theorem readsOther_createView (orReplace global temporary : Bool) :
    ReadsOther (createView orReplace global temporary) := by
  refine .andThen fun _ => .andThen fun _ => .andThen fun _ => .ite ?_ ?_
  · exact .andThen fun _ => .andThen fun _ => .andThen fun _ => .andThen fun _ => .pure rfl
  · exact .andThen fun _ => .andThen fun _ => .andThen fun _ => .andThen fun _ => .pure rfl

theorem readsOther_createOther : ReadsOther createOther := by
  refine .andThen fun word => ?_
  cases word with
  | some word => exact .andThen fun _ => .andThen fun _ => .andThen fun _ => .pure rfl
  | none =>
    refine .andThen fun _ => .ite ?_ (yields_expected _)
    refine .andThen fun _ => .andThen fun _ => .andThen fun _ => .andThen fun _ => .andThen fun _ => ?_
    exact .andThen fun _ => .andThen fun _ => .andThen fun _ => .andThen fun _ => .andThen fun _ => .pure rfl

theorem readsOther_create : ReadsOther create := by
  have hfunction (orReplace temporary : Bool) : ReadsOther (createFunction orReplace temporary) :=
    .andThen fun _ => .andThen fun _ => .andThen fun _ => .andThen fun _ => .andThen fun _ => .pure rfl
  have hmodified (orReplace : Bool) : ReadsOther (createModified orReplace) := by
    refine .andThen fun global => .andThen fun temporary => .andThen fun _ => ?_
    refine .ite (readsOther_createView orReplace global temporary) (.ite (yields_expected _) ?_)
    exact .andThen fun _ => .ite (hfunction _ _) (.ite (yields_expected _) readsOther_createOther)
  have hafter : ReadsOther createAfter := by
    refine .andThen fun orReplace => .andThen fun _ => .ite ?_ (.andThen fun _ => .ite ?_ (hmodified orReplace))
    · exact .andThen fun _ => readsOther_createTable _ true
    · exact readsOther_createTable _ false
  refine .andThen fun _ => .ite (.andThen fun _ => ?_) (.andThen fun _ => hafter)
  exact readsOther_createTable .replace false

theorem readsOther_alter : ReadsOther alter := by
  refine .andThen fun _ => .andThen fun word => ?_
  cases word with
  | some word => exact .andThen fun _ => .andThen fun _ => .andThen fun _ => .pure rfl
  | none =>
    refine .andThen fun _ => .andThen fun _ => .andThen fun _ => .ite ?_ ?_
    · exact .andThen fun _ => .andThen fun _ => .pure rfl
    · exact .andThen fun _ => .pure rfl

theorem readsOther_drop : ReadsOther drop := by
  refine .andThen fun _ => .andThen fun word => ?_
  cases word with
  | some word => exact .andThen fun _ => .andThen fun _ => .andThen fun _ => .pure rfl
  | none =>
    refine .andThen fun _ => .andThen fun _ => .ite ?_ (.ite (yields_expected _) ?_)
    · exact .andThen fun _ => .andThen fun _ => .pure rfl
    refine .andThen fun _ => .ite ?_ ?_
    · exact .andThen fun _ => .andThen fun _ => .andThen fun _ => .andThen fun _ => .andThen fun _ => .pure rfl
    · refine .andThen fun _ => .andThen fun _ => .andThen fun _ => ?_
      exact .ite (.andThen fun _ => .pure rfl) (.andThen fun _ => .pure rfl)

theorem readsOther_analyze : ReadsOther analyze := by
  refine .andThen fun _ => .andThen fun _ => .ite ?_ ?_
  · exact .andThen fun _ => .andThen fun _ => .andThen fun _ => .pure rfl
  · exact .andThen fun _ => .andThen fun _ => .andThen fun _ => .andThen fun _ => .andThen fun _ => .pure rfl

theorem readsOther_load : ReadsOther load := by
  refine .andThen fun _ => .andThen fun _ => ?_
  split <;> exact .andThen fun _ => .pure rfl

theorem readsOther_fromStatement (tables : Option WithClause) : ReadsOther (fromStatement tables) := by
  refine .andThen fun source => ?_
  cases source with
  | some source => exact .andThen fun _ => .pure rfl
  | none => exact .andThen fun _ => .pure rfl

theorem readsOther_withStatement : ReadsOther withStatement := by
  have hmap {α : Type} (p : Parse α) {make : α → Statement} (hmake : ∀ a, (make a).keyword? = none) :
      ReadsOther (do return make (← p)) := .andThen fun a => .pure (hmake a)
  refine .andThen fun tables => .andThen fun _ => .ite (hmap _ fun _ => rfl) (.andThen fun _ => ?_)
  refine .ite (readsOther_fromStatement _) (.andThen fun _ => ?_)
  exact .ite (hmap _ fun _ => rfl) (.andThen fun _ => .pure rfl)

/-- A command with a word of its own is read by the rule for that word. -/
theorem readsOwn_statementOf (inner : Parse Statement) (word : String) :
    Yields (fun s => ∀ keyword ∈ s.keyword?, word = keyword) (statementOf inner word) := by
  have hother {p : Parse Statement} (h : ReadsOther p) :
      Yields (fun s => ∀ keyword ∈ s.keyword?, word = keyword) p :=
    h.imp fun s hs => by simp [hs]
  have hmap {α : Type} {p : Parse α} {make : α → Statement} (hmake : ∀ a, (make a).keyword? = none) :
      Yields (fun s => ∀ keyword ∈ s.keyword?, word = keyword) (do return make (← p)) :=
    hother (.andThen fun a => .pure (hmake a))
  unfold statementOf
  split
  · exact hmap fun _ => rfl
  · exact hmap fun _ => rfl
  · exact hmap fun _ => rfl
  · exact hother readsOther_withStatement
  · exact hother (readsOther_fromStatement none)
  · exact hmap fun _ => rfl
  · exact hmap fun _ => rfl
  · exact hmap fun _ => rfl
  · exact .andThen fun _ => .ite (hmap fun _ => rfl) (hmap fun _ => rfl)
  · exact hother readsOther_create
  · exact hother readsOther_create
  · exact hother readsOther_alter
  · exact hother readsOther_drop
  · exact hmap fun _ => rfl
  · exact hmap fun _ => rfl
  · exact hmap fun _ => rfl
  · exact hother readsOther_analyze
  · exact hmap fun _ => rfl
  · exact hmap fun _ => rfl
  · refine .andThen fun _ => .andThen fun _ => .ite ?_ (.andThen fun _ => .pure (by simp [Statement.keyword?]))
    exact .andThen fun _ => .andThen fun _ => .pure (by simp [Statement.keyword?])
  · exact .andThen fun _ => .andThen fun _ => .pure (by simp [Statement.keyword?])
  · exact hmap fun _ => rfl
  · exact hmap fun _ => rfl
  · exact hmap fun _ => rfl
  · exact hother (.andThen fun _ => .andThen fun _ => .andThen fun _ => .pure rfl)
  · exact hmap fun _ => rfl
  · exact hother readsOther_load
  · exact hmap fun _ => rfl
  · exact .andThen fun _ => .pure (by simp [Statement.keyword?])
  · exact .ite (yields_failWith _) (yields_expected _)

/-- A command with a word of its own starts with that word. -/
theorem exists_command {i : Input} (hi : i.WellFormed) {pos next : Nat} {s : Statement} {keyword : String}
    (h : Runs statement i pos s next) (hkeyword : s.keyword? = some keyword) :
    ∃ w inner, i.tokenAt pos = .word w ∧ Text.upper w = keyword ∧ Runs (statementOf inner keyword) i pos s next := by
  have hrun := Runs.behind (k := fun found => if found = true then _ else _) h (runs_isSymbol i pos .lparen)
  have hword : ∃ w, i.tokenAt pos = .word w := by
    by_cases hparen : i.tokenAt pos = .symbol .lparen
    · rw [if_pos (decide_eq_true hparen)] at hrun
      obtain ⟨query, mid, -, hquery⟩ := hrun.exists_of_bind
      obtain ⟨rfl, -⟩ := (runs_pure i mid (Statement.query query)).unique hquery
      contradiction
    · rw [if_neg (by simpa using hparen)] at hrun
      cases ht : i.tokenAt pos with
      | word w => exact ⟨w, rfl⟩
      | _ =>
        have hnone : Runs currentWord i pos none pos :=
          (runs_peek i pos 0).bind (by rw [Nat.add_zero, ht]; rfl)
        cases hrun.behind hnone
  obtain ⟨w, hw⟩ := hword
  obtain ⟨inner, hof⟩ := exists_runs_statementOf h hw
  have hupper : Text.upper w = keyword := readsOwn_statementOf inner (Text.upper w) hi hof keyword hkeyword
  exact ⟨w, inner, hw, hupper, hupper ▸ hof⟩

end Grammar

/-- A text that is read as a command with a word of its own. -/
theorem Statement.exists_command {text : String} {s : Statement} {keyword : String} (h : parse text = .ok s)
    (hkeyword : s.keyword? = some keyword) : ∃ tokens first mid w inner, Token.scan text = .ok tokens ∧
      Grammar.Whole ⟨text, tokens.toArray⟩ s first mid ∧ Input.tokenAt ⟨text, tokens.toArray⟩ first = .word w ∧
      Text.upper w = keyword ∧ Runs (Grammar.statementOf inner keyword) ⟨text, tokens.toArray⟩ first s mid := by
  obtain ⟨tokens, next, hscan, hrun⟩ := exists_run_of_parse h
  have hi : Input.Capped ⟨text, tokens.toArray⟩ := Input.Scanned.capped hscan
  obtain ⟨first, mid, hwhole⟩ := Grammar.exists_whole_of_runs hi hrun
  obtain ⟨w, inner, hw, hupper, hof⟩ :=
    Grammar.exists_command (Input.wellFormed_of_scan hscan) hwhole.runs hkeyword
  exact ⟨tokens, first, mid, w, inner, hscan, hwhole, hw, hupper, hof⟩

end SqlTidy
