import SqlTidy.Proofs.Render.Statement

/-!
# Printing is balanced

**Theorem (`Statement.print_balanced`).** Every statement is printed in every style. No step of the printer
leaves a level at depth 0. And if no string of the statement has a parenthesis or a square bracket, the
brackets of the page are well nested.

**Steps.** Running a document hides how often the printer goes in and out: a hanging document, for one,
goes up by an amount that is known only at run time. `Doc.steps` writes the run out as single instructions,
a level at a time, and `Printer.perform_steps` says that performing them is the run.

**Depth.** Documents nest, so what a document enters it leaves. The amount by which a hanging document goes
up is at most the current depth (`soundFrom_replicate_dedent`), and it comes back before anything else is
printed.

**Brackets.** The page is the document's ink up to gaps, and the ink is well nested because every part of
the layout closes what it opens (`Statement.renders`).
-/

namespace SqlTidy

open Text

/-! ## Single steps of the printer -/

namespace Printer

/-- One instruction to the printer. -/
inductive Step where
  | write (s : String)
  | newline
  | indent
  | dedent
deriving DecidableEq

def step (p : Printer) : Step → Printer
  | .write s => p.write s
  | .newline => p.newline
  | .indent => p.enter
  | .dedent => p.leave

/-- Performs instructions one after the other. -/
def perform (p : Printer) (steps : List Step) : Printer := steps.foldl step p

@[simp] theorem perform_nil (p : Printer) : p.perform [] = p := rfl

@[simp] theorem perform_cons (p : Printer) (s : Step) (steps : List Step) :
    p.perform (s :: steps) = (p.step s).perform steps := rfl

@[simp] theorem perform_append (p : Printer) (first second : List Step) :
    p.perform (first ++ second) = (p.perform first).perform second := List.foldl_append

@[simp] theorem setDepth_setDepth (p : Printer) (m n : Nat) :
    (p.setDepth m).setDepth n = p.setDepth n := rfl

theorem setDepth_depth (p : Printer) : p.setDepth p.depth = p := rfl

/-- Leaving some levels one by one. -/
theorem perform_replicate_dedent (p : Printer) (n : Nat) :
    p.perform (List.replicate n .dedent) = p.setDepth (p.depth - n) := by
  induction n generalizing p with
  | zero => exact p.setDepth_depth.symm
  | succ n ih =>
    rw [List.replicate_succ, perform_cons, ih]
    show p.setDepth (p.depth - 1 - n) = _
    rw [Nat.sub_sub, Nat.add_comm 1 n]

/-- Entering some levels one by one. -/
theorem perform_replicate_indent (p : Printer) (n : Nat) :
    p.perform (List.replicate n .indent) = p.setDepth (p.depth + n) := by
  induction n generalizing p with
  | zero => exact p.setDepth_depth.symm
  | succ n ih =>
    rw [List.replicate_succ, perform_cons, ih]
    show p.setDepth (p.depth + 1 + n) = _
    rw [Nat.add_assoc, Nat.add_comm 1 n]

/-- From a printer on, no instruction leaves a level at depth 0. -/
def SoundFrom (p : Printer) (steps : List Step) : Prop :=
  ∀ before after, steps = before ++ .dedent :: after → 0 < (p.perform before).depth

variable {p : Printer} {first second steps : List Step}

theorem soundFrom_nil : p.SoundFrom [] := by
  intro before after h
  simp at h

theorem soundFrom_cons {s : Step} (hs : s = .dedent → 0 < p.depth)
    (h : (p.step s).SoundFrom steps) : p.SoundFrom (s :: steps) := by
  intro before after heq
  rcases List.cons_eq_append_iff.1 heq with ⟨rfl, hcons⟩ | ⟨before, rfl, hrest⟩
  · exact hs (List.cons.inj hcons).1.symm
  · exact h before after hrest

theorem SoundFrom.append (hfirst : p.SoundFrom first)
    (hsecond : (p.perform first).SoundFrom second) : p.SoundFrom (first ++ second) := by
  intro before after heq
  rcases List.append_eq_append_iff.1 heq with ⟨mid, rfl, hmid⟩ | ⟨mid, rfl, hmid⟩
  · rw [perform_append]
    exact hsecond mid after hmid
  · cases mid with
    | nil =>
      -- The instruction is the first of the second part.
      have h := hsecond [] after (by simpa using hmid.symm)
      simpa using h
    | cons s mid =>
      obtain ⟨rfl, rfl⟩ := List.cons.inj hmid
      exact hfirst before mid rfl

theorem soundFrom_replicate_dedent {n : Nat} (hn : n ≤ p.depth) :
    p.SoundFrom (List.replicate n .dedent) := by
  induction n generalizing p with
  | zero => exact soundFrom_nil
  | succ n ih =>
    refine soundFrom_cons (fun _ => by omega) (ih ?_)
    show n ≤ p.depth - 1
    omega

theorem soundFrom_replicate_indent (n : Nat) : p.SoundFrom (List.replicate n .indent) := by
  induction n generalizing p with
  | zero => exact soundFrom_nil
  | succ n ih => exact soundFrom_cons nofun ih

end Printer

/-! ## The steps of a document -/

namespace Doc

open Printer

/-- The instructions that a document gives to a printer, one level at a time. -/
def steps (layout : ClauseLayout) : Doc → Printer → List Step
  | nil, _ => []
  | text s, _ => [.write s]
  | line, _ => [.newline]
  | clauseBreak, _ =>
    match layout with
    | .stacked => [.newline]
    | .compact => [.write " "]
  | append a b, p => a.steps layout p ++ b.steps layout (a.run layout p)
  | nest d, p => .indent :: d.steps layout p.enter ++ [.dedent]
  | hang d, p =>
    let extra := p.depth - p.lineDepth
    List.replicate extra .dedent ++ d.steps layout (p.setDepth (p.depth - extra)) ++
      List.replicate extra .indent

/-- Performing the steps of a document is running it. -/
theorem perform_steps (layout : ClauseLayout) (d : Doc) (p : Printer) :
    p.perform (d.steps layout p) = d.run layout p := by
  induction d generalizing p with
  | nil | text | line => rfl
  | clauseBreak => cases layout <;> rfl
  | append a b iha ihb => rw [steps, perform_append, iha, ihb, run]
  | nest d ih =>
    rw [steps, List.cons_append, perform_cons, perform_append]
    show (p.enter.perform (d.steps layout p.enter)).leave = _
    rw [ih, run]
  | hang d ih =>
    simp only [steps, perform_append, perform_replicate_dedent, perform_replicate_indent, ih]
    rfl

/-- No step of a document leaves a level at depth 0. -/
theorem soundFrom_steps (layout : ClauseLayout) (d : Doc) (p : Printer) :
    p.SoundFrom (d.steps layout p) := by
  induction d generalizing p with
  | nil => exact soundFrom_nil
  | text s => exact soundFrom_cons nofun soundFrom_nil
  | line => exact soundFrom_cons nofun soundFrom_nil
  | clauseBreak => cases layout <;> exact soundFrom_cons nofun soundFrom_nil
  | append a b iha ihb =>
    refine (iha p).append ?_
    rw [perform_steps]
    exact ihb _
  | nest d ih =>
    refine soundFrom_cons nofun ((ih p.enter).append (soundFrom_cons (fun _ => ?_) soundFrom_nil))
    show 0 < (p.enter.perform (d.steps layout p.enter)).depth
    rw [perform_steps, depth_run, depth_enter]
    exact Nat.succ_pos _
  | hang d ih =>
    -- Going up stops at the depth of the line, so it never passes depth 0.
    have hup : p.SoundFrom (List.replicate (p.depth - p.lineDepth) .dedent) :=
      soundFrom_replicate_dedent (Nat.sub_le _ _)
    refine (hup.append ?_).append (soundFrom_replicate_indent _)
    rw [perform_replicate_dedent]
    exact ih _

end Doc

/-! ## Statements -/

/-- Every statement is printed, no step leaves a level at depth 0, and the brackets of the page are well
nested unless the strings of the statement bring some in. -/
theorem Statement.print_balanced (s : Statement) (style : Style) :
    ∃ page, s.print style = .ok page ∧
      (let start := Printer.ofWidth style.indentWidth
       let steps := s.doc.steps style.layout start
       (start.perform steps).finish = .ok page ∧
         ∀ before after, steps = before ++ .dedent :: after → 0 < (start.perform before).depth) ∧
      ((∀ str ∈ stored s, BracketFree str) → wellNested page) := by
  have hprint := s.doc.print_eq_ok style
  refine ⟨_, hprint, ⟨?_, s.doc.soundFrom_steps _ _⟩, fun hfree => ?_⟩
  · rw [Doc.perform_steps]
    exact hprint
  · rw [wellNested_congr (Doc.collapse_of_print hprint), wellNested, String.toList_ofList,
      s.renders.brackets hfree]
    rfl

end SqlTidy
