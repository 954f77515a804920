import Mathlib.Data.List.Forall2
import Mathlib.Data.List.Nodup
import SqlTidy.Proofs.Rows

/-!
# What hangs below a line

A hanging document goes up to the depth of the current line. It only goes up: if the line were deeper than
the place where the document stands, it would stay there, and what it holds would not be below the line. So
it has to be shown that this never happens.

**Runs within a run** (`Doc.Visits`). Running a document runs its parts. `Visits` says which, with the steps made
before each of them, and `Visits.exists_steps` finds them again among the steps of the whole.

**Low lines** (`Printer.Low`). A line is *low* if it is no deeper than the current depth, or still to be
indented. Texts and new lines keep lines low, and so does going in; going out does not, until the next new
line.

**The check** (`Doc.HangsLow`). It reads a document from left to right, with one flag: whether the current
line is known to be low. Every hanging document has to be reached with the flag up. `HangsLow.of_visits`
says that then the line is low at every run of such a document.
-/

namespace SqlTidy

open Printer

/-! ## Runs within a run -/

namespace Doc

variable {layout : ClauseLayout}

/-- The documents that are run when a document is run, itself included, each with the steps made before it. -/
inductive Visits (layout : ClauseLayout) : Doc → Printer → List Step → Doc → Prop
  | self (d : Doc) (p : Printer) : Visits layout d p [] d
  | first {a b e : Doc} {p : Printer} {before : List Step} (h : Visits layout a p before e) :
    Visits layout (append a b) p before e
  | second {a b e : Doc} {p : Printer} {before : List Step} (h : Visits layout b (a.run layout p) before e) :
    Visits layout (append a b) p (a.steps layout p ++ before) e
  | nest {d e : Doc} {p : Printer} {before : List Step} (h : Visits layout d p.enter before e) :
    Visits layout (nest d) p (.indent :: before) e
  | hang {d e : Doc} {p : Printer} {before : List Step}
    (h : Visits layout d (p.setDepth (p.depth - (p.depth - p.lineDepth))) before e) :
    Visits layout (hang d) p (List.replicate (p.depth - p.lineDepth) .dedent ++ before) e

/-- The steps of a run within a run are among those of the whole. -/
theorem Visits.exists_steps {d e : Doc} {p : Printer} {before : List Step} (h : Visits layout d p before e) :
    ∃ after, d.steps layout p = before ++ (e.steps layout (p.perform before) ++ after) := by
  induction h with
  | self d p => exact ⟨[], (List.append_nil _).symm⟩
  | @first a b e p _ _ ih =>
    obtain ⟨after, hafter⟩ := ih
    exact ⟨after ++ b.steps layout (a.run layout p), by simp [steps, hafter]⟩
  | second _ ih =>
    obtain ⟨after, hafter⟩ := ih
    exact ⟨after, by simp [steps, hafter, perform_steps]⟩
  | nest _ ih =>
    obtain ⟨after, hafter⟩ := ih
    exact ⟨after ++ [.dedent], by simp [steps, hafter, step]⟩
  | @hang d e p _ _ ih =>
    obtain ⟨after, hafter⟩ := ih
    exact ⟨after ++ List.replicate (p.depth - p.lineDepth) .indent, by
      simp [steps, hafter, perform_replicate_dedent]⟩

end Doc

/-! ## Low lines -/

namespace Printer

variable {p : Printer}

/-- The current line is no deeper than the current depth. -/
def Low (p : Printer) : Prop := p.pending = true ∨ p.lineDepth ≤ p.depth

theorem low_ofWidth (width : Nat) : (ofWidth width).Low := .inr (Nat.le_refl 0)

theorem low_newline (p : Printer) : p.newline.Low := .inl rfl

theorem Low.enter (h : p.Low) : p.enter.Low := h.imp id fun hle => Nat.le_succ_of_le hle

/-- Behind a text that is not empty the line has its depth. -/
theorem Low.lineDepth_write (h : p.Low) {text : String} (htext : text ≠ "") :
    (p.write text).pending = false ∧ (p.write text).lineDepth ≤ p.depth := by
  cases hp : p.pending with
  | true => simp [Printer.write, htext, hp]
  | false => simpa [Printer.write, htext, hp, Low] using h

theorem Low.write (h : p.Low) (text : String) : (p.write text).Low := by
  by_cases htext : text = ""
  · subst htext
    exact h
  · refine .inr ?_
    rw [depth_write]
    exact (h.lineDepth_write htext).2

end Printer

/-! ## The check -/

namespace Doc

variable {layout : ClauseLayout} {d a c : Doc} {b : Bool} {p : Printer}

/-- Whether the current line is known to be low behind a document. -/
def endsLow : Bool → Doc → Bool
  | b, nil | b, text _ | b, clauseBreak => b
  | _, line => true
  | b, append a c => endsLow (endsLow b a) c
  | _, nest _ | _, hang _ => false

/-- Every hanging document in it is reached with the current line low. -/
def HangsLow : Bool → Doc → Prop
  | _, nil | _, text _ | _, line | _, clauseBreak => True
  | b, append a c => HangsLow b a ∧ HangsLow (endsLow b a) c
  | b, nest d => HangsLow b d
  | b, hang d => b = true ∧ HangsLow true d

theorem low_run (hend : endsLow b d = true) (hp : b = true → p.Low) : (d.run layout p).Low := by
  induction d generalizing p b with
  | nil => exact hp hend
  | text s => exact (hp hend).write s
  | line => exact low_newline p
  | clauseBreak =>
    cases layout with
    | stacked => exact low_newline p
    | compact => exact (hp hend).write " "
  | append a c iha ihc => exact ihc hend fun hmid => iha hmid hp
  | nest | hang => contradiction

/-- At every run within a run, the line is low if the check relies on it. -/
theorem HangsLow.of_visits {before : List Step} {e : Doc} (h : HangsLow b d) (hp : b = true → p.Low)
    (hvisit : Visits layout d p before e) : ∃ b, HangsLow b e ∧ (b = true → (p.perform before).Low) := by
  induction hvisit generalizing b with
  | self => exact ⟨b, h, hp⟩
  | first _ ih => exact ih h.1 hp
  | second _ ih =>
    rw [perform_append, perform_steps]
    exact ih h.2 fun hmid => low_run hmid hp
  | nest _ ih => exact ih h fun hb => (hp hb).enter
  | @hang d e p before _ ih =>
    rw [perform_append, perform_replicate_dedent]
    refine ih h.2 fun _ => ?_
    -- The document goes up to the depth of the line and no further.
    refine (hp h.1).imp id fun hle => ?_
    show p.lineDepth ≤ p.depth - (p.depth - p.lineDepth)
    omega

/-! ## Wherever it stands -/

/-- A document that passes the check with the flag down. -/
structure Calm (d : Doc) : Prop where
  low : HangsLow false d

theorem endsLow_true (h : endsLow b d = true) : endsLow true d = true := by
  induction d generalizing b with
  | nil | text | line | clauseBreak => rfl
  | append a c iha ihc =>
    rw [endsLow] at h ⊢
    cases ha : endsLow b a with
    | true =>
      rw [ha] at h
      rwa [iha ha]
    | false =>
      rw [ha] at h
      cases endsLow true a with
      | true => exact ihc h
      | false => exact h
  | nest | hang => contradiction

theorem HangsLow.to_true (h : HangsLow b d) : HangsLow true d := by
  induction d generalizing b with
  | nil | text | line | clauseBreak => trivial
  | append a c iha ihc =>
    refine ⟨iha h.1, ?_⟩
    cases ha : endsLow b a with
    | true => rw [endsLow_true ha]; exact ha ▸ h.2
    | false =>
      have hc : HangsLow false c := ha ▸ h.2
      cases endsLow true a with
      | true => exact ihc hc
      | false => exact hc
  | nest d ih => exact ih h
  | hang d ih => exact ⟨rfl, h.2⟩

/-- It passes the check anywhere. -/
theorem Calm.hangsLow (h : Calm d) : HangsLow b d := by
  cases b with
  | true => exact h.low.to_true
  | false => exact h.low

end Doc

/-! ## The current line -/

namespace Printer

/-- The current line of a page has a depth, unless it is the first or nothing is written on it yet. -/
theorem exists_getLast?_rowsFrom (p : Printer) (steps : List Step) (h : (p.perform steps).pending = false) :
    ∃ r, (p.rowsFrom steps).getLast? = some r ∧ (p.perform steps).lineDepth = r.depth.getD p.lineDepth ∧
      (p.pending = true ∨ (p.rowsFrom steps).length ≠ 1 → r.depth.isSome) := by
  induction steps generalizing p with
  | nil => exact ⟨⟨none, []⟩, by simp_all⟩
  | cons s steps ih =>
    rw [perform_cons] at h ⊢
    obtain ⟨r, hr, hdepth, hsome⟩ := ih (p.step s) h
    obtain ⟨rfl, hrows⟩ | ⟨hs, hrows⟩ | ⟨text, rest, below, rfl, htext, hrest, hrows⟩ := p.rowsFrom_cases steps s
    · refine ⟨r, ?_, hdepth, fun _ => hsome (.inl rfl)⟩
      rw [hrows, List.getLast?_cons_of_ne_nil (rowsFrom_ne_nil _ _)]
      exact hr
    · rw [hrows]
      rcases hs with rfl | rfl | rfl <;> exact ⟨r, hr, hdepth, hsome⟩
    · rw [hrows]
      rw [step, hrest] at hr hsome
      cases below with
      | nil =>
        obtain rfl := List.mem_singleton.1 (List.mem_of_getLast? hr)
        refine ⟨_, rfl, hdepth.trans ?_, by simp_all⟩
        cases hp : p.pending <;> simp [step, write, htext, hp]
      | cons next below =>
        obtain ⟨depth, hr'⟩ := Option.isSome_iff_exists.1 (hsome (.inr (by simp)))
        refine ⟨r, by simpa using hr, ?_, fun _ => by simp [hr']⟩
        rw [hdepth, hr']
        rfl

/-- The depth of the current line, once something is written on it. -/
theorem exists_current_row {width : Nat} {steps : List Step} (h : ((ofWidth width).perform steps).pending = false) :
    ∃ r, (rows steps).getLast? = some r ∧ r.level = ((ofWidth width).perform steps).lineDepth := by
  obtain ⟨r, hr, hdepth, -⟩ := exists_getLast?_rowsFrom (ofWidth width) steps h
  exact ⟨r, hr, hdepth.symm⟩

end Printer

/-! ## `VALUES` -/

open Doc

/-- The items of a list that is broken start on lines of their own, at the same depth. -/
theorem Doc.starts_commaLines (layout : ClauseLayout) (ds : List Doc) (p : Printer) :
    ∃ starts : List (List Step), starts.Nodup ∧
      List.Forall₂ (fun start d => Visits layout (commaLines ds) p start d ∧ start.getLast? = some .newline ∧
        (p.perform start).depth = p.depth) starts ds := by
  induction ds generalizing p with
  | nil => exact ⟨[], .nil, .nil⟩
  | cons d ds ih =>
    cases ds with
    | nil => exact ⟨[[.newline]], by simp, .cons ⟨.second (.self _ _), rfl, rfl⟩ .nil⟩
    | cons next ds =>
      let front : List Step := .newline :: (d.steps layout p.newline ++ [.write ","])
      have hfront : p.perform front = (d.run layout p.newline).write "," := by
        simp [front, step, perform_steps]
      obtain ⟨starts, hnodup, hstarts⟩ := ih ((d.run layout p.newline).write ",")
      refine ⟨[.newline] :: starts.map (front ++ ·), ?_, .cons ⟨.second (.first (.self _ _)), rfl, rfl⟩ ?_⟩
      · exact List.nodup_cons.2 ⟨by simp [front], List.Nodup.map (List.append_right_injective front) hnodup⟩
      · rw [List.forall₂_map_left_iff]
        refine hstarts.imp fun start e hstart => ?_
        obtain ⟨hvisit, hlast, hdepth⟩ := hstart
        refine ⟨?_, ?_, ?_⟩
        · have hsteps : front ++ start = [.newline] ++ (d.steps layout p.newline ++ ([.write ","] ++ start)) := by
            simp [front]
          rw [hsteps]
          exact .second (.second (.second hvisit))
        · rw [List.getLast?_append, hlast]
          rfl
        · rw [perform_append, hfront, hdepth]
          simp

/-- The rows of `VALUES` start on lines of their own, one level below the line of the keyword. -/
theorem Doc.starts_values (layout : ClauseLayout) (ds : List Doc) {p : Printer} (h : p.Low) :
    ∃ starts : List (List Step), starts.Nodup ∧
      List.Forall₂ (fun start d => Visits layout (Layout.values ds) p start d ∧ start.getLast? = some .newline ∧
        (p.perform start).depth = (p.write "VALUES").lineDepth + 1) starts ds := by
  let q := p.write "VALUES"
  let up : List Step := List.replicate (q.depth - q.lineDepth) .dedent
  let front : List Step := [.write "VALUES"] ++ (up ++ [.indent])
  let below := (q.setDepth (q.depth - (q.depth - q.lineDepth))).enter
  have hfront : p.perform front = below := by
    simp [front, up, below, step, q, perform_replicate_dedent]
  have hbelow : below.depth = q.lineDepth + 1 := by
    have hle : q.lineDepth ≤ q.depth := by
      rw [depth_write]
      exact (h.lineDepth_write (by decide)).2
    show q.depth - (q.depth - q.lineDepth) + 1 = q.lineDepth + 1
    omega
  obtain ⟨starts, hnodup, hstarts⟩ := starts_commaLines layout ds below
  refine ⟨starts.map (front ++ ·), List.Nodup.map (List.append_right_injective front) hnodup, ?_⟩
  rw [List.forall₂_map_left_iff]
  refine hstarts.imp fun start d hstart => ?_
  obtain ⟨hvisit, hlast, hdepth⟩ := hstart
  refine ⟨?_, ?_, ?_⟩
  · have hsteps : front ++ start = [.write "VALUES"] ++ (up ++ (.indent :: start)) := by simp [front]
    rw [hsteps]
    exact .second (.hang (.nest hvisit))
  · rw [List.getLast?_append, hlast]
    rfl
  · rw [perform_append, hfront, hdepth, hbelow]

end SqlTidy
