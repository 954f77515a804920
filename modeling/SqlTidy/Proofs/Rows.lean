import SqlTidy.Proofs.Balance

/-!
# A page by its rows

**Theorem (`Printer.splitOn_perform`).** What a sequence of printer steps means, without the printer. The
newline steps cut the sequence into lines, and each line leaves one row on the page: its texts, behind the
indentation of the depth at its first text that is not empty. The row of the first line is not indented.

**Theorem (`Statement.print_rows`).** For a statement and a layout the rows are the same at every width of
indentation. Only the blanks in front of them grow.

**From a printer on.** The steps are read from the front, so the statements about them start at any printer.
All that it contributes is whether the current line still waits for its indentation, and the depth
(`output_perform`, `lineDepth_perform`).

**Widths.** A document looks at the printer only to hang something below the current line, and there it asks
for depths. So printers that differ in the width of a level are given the same steps (`steps_of_alike`).
-/

namespace SqlTidy

namespace Printer

/-! ## Rows -/

/-- The depth behind a step. -/
def Step.level (depth : Nat) : Step → Nat
  | .write _ | .newline => depth
  | .indent => depth + 1
  | .dedent => depth - 1

/-- The texts that are written by some steps. -/
def ink (steps : List Step) : List Char :=
  steps.flatMap fun
    | .write s => s.toList
    | _ => []

/-- The depth at the first text that is not empty. -/
def inkDepth (depth : Nat) : List Step → Option Nat
  | [] => none
  | .write s :: steps => if s.isEmpty then inkDepth depth steps else some depth
  | .newline :: steps => inkDepth depth steps
  | .indent :: steps => inkDepth (depth + 1) steps
  | .dedent :: steps => inkDepth (depth - 1) steps

/-- A line of a page. -/
structure Row where
  /-- The depth at which it was indented, if it was. -/
  depth : Option Nat
  text : List Char
deriving DecidableEq

/-- The depth of a row on the page. -/
def Row.level (r : Row) : Nat := r.depth.getD 0

/-- A row with its indentation. -/
def Row.page (width : Nat) (r : Row) : List Char := List.replicate (width * r.level) ' ' ++ r.text

/-- The rows of some lines. The first line is to be indented only if that is still pending. -/
def rowsOf (pending : Bool) (depth : Nat) : List (List Step) → List Row
  | [] => []
  | line :: lines =>
    ⟨if pending then inkDepth depth line else none, ink line⟩ :: rowsOf true (line.foldl Step.level depth) lines

/-- The rows of a page that is filled by some steps. -/
def rows (steps : List Step) : List Row := rowsOf false 0 (steps.splitOn .newline)

example : rows [.write "a", .newline, .indent, .write "", .write "b", .newline] =
    [⟨none, ['a']⟩, ⟨some 1, ['b']⟩, ⟨none, []⟩] := by decide +kernel

/-- The first row is not indented. -/
theorem exists_rows_eq_cons (steps : List Step) : ∃ text below, rows steps = ⟨none, text⟩ :: below := by
  rw [rows]
  cases hlines : steps.splitOn .newline with
  | nil => exact absurd hlines (List.splitOn_ne_nil _ _)
  | cons line lines => exact ⟨ink line, _, rfl⟩

/-- A line is not indented only if nothing is written on it. -/
theorem ink_eq_nil_of_inkDepth {depth : Nat} {line : List Step} (h : inkDepth depth line = none) : ink line = [] := by
  induction line generalizing depth with
  | nil => rfl
  | cons s line ih =>
    cases s with
    | write text =>
      rw [inkDepth] at h
      split at h
      · rename_i hempty
        simpa [ink, String.isEmpty_iff.1 hempty] using ih h
      · contradiction
    | newline => exact ih h
    | indent => exact ih h
    | dedent => exact ih h

/-- Behind the first row, a row without a depth is empty. -/
theorem text_eq_nil_of_mem_tail {steps : List Step} {r : Row} (hr : r ∈ (rows steps).tail) (hdepth : r.depth = none) :
    r.text = [] := by
  have hall : ∀ depth lines, ∀ r ∈ rowsOf true depth lines, r.depth = none → r.text = [] := by
    intro depth lines
    induction lines generalizing depth with
    | nil => simp [rowsOf]
    | cons line lines ih =>
      simp only [rowsOf, List.forall_mem_cons]
      exact ⟨ink_eq_nil_of_inkDepth, ih _⟩
  rw [rows] at hr
  cases hlines : steps.splitOn .newline with
  | nil => simp [hlines, rowsOf] at hr
  | cons line lines => exact hall _ _ r (by simpa [hlines, rowsOf] using hr) hdepth

theorem length_rowsOf (pending : Bool) (depth : Nat) (lines : List (List Step)) :
    (rowsOf pending depth lines).length = lines.length := by
  induction lines generalizing pending depth with
  | nil => rfl
  | cons line lines ih => simp [rowsOf, ih]

theorem length_splitOn_newline (steps : List Step) :
    (steps.splitOn .newline).length = steps.count .newline + 1 := by
  induction steps with
  | nil => rfl
  | cons s steps ih =>
    rw [List.splitOn_cons_eq_if_modifyHead, List.count_cons]
    split <;> simp [ih]

/-- There is one row more than there are new lines. -/
theorem length_rows (steps : List Step) : (rows steps).length = steps.count .newline + 1 := by
  rw [rows, length_rowsOf, length_splitOn_newline]

/-! ## Rows from a printer on -/

/-- The rows that some steps fill from a printer on; the first continues the current line. -/
def rowsFrom (p : Printer) (steps : List Step) : List Row := rowsOf p.pending p.depth (steps.splitOn .newline)

variable (p : Printer) (steps : List Step)

@[simp] theorem rowsFrom_nil : p.rowsFrom [] = [⟨none, []⟩] := by
  simp [rowsFrom, List.splitOn_nil, rowsOf, inkDepth, ink]

theorem rowsFrom_ne_nil : p.rowsFrom steps ≠ [] := by
  have hlength := length_rowsOf p.pending p.depth (steps.splitOn .newline)
  rw [length_splitOn_newline] at hlength
  exact List.ne_nil_of_length_eq_add_one hlength

/-- A new line closes a row. -/
theorem rowsFrom_newline : p.rowsFrom (.newline :: steps) = ⟨none, []⟩ :: p.newline.rowsFrom steps := by
  rw [rowsFrom, List.splitOn_cons_eq_if_modifyHead, if_pos (beq_self_eq_true _)]
  simp [rowsOf, inkDepth, ink, rowsFrom, newline, depth]

/-- A step that writes nothing shows on no row. -/
theorem rowsFrom_silent {s : Step} (hs : s = .indent ∨ s = .dedent ∨ s = .write "") :
    p.rowsFrom (s :: steps) = (p.step s).rowsFrom steps := by
  rw [rowsFrom, rowsFrom, List.splitOn_cons_eq_if_modifyHead, if_neg (by rcases hs with rfl | rfl | rfl <;> simp)]
  cases steps.splitOn .newline with
  | nil => rfl
  | cons line lines => rcases hs with rfl | rfl | rfl <;> rfl

/-- A text comes in front of the current row, and brings its indentation along. -/
theorem exists_rowsFrom_write {text : String} (htext : text ≠ "") :
    ∃ rest below, (p.write text).rowsFrom steps = ⟨none, rest⟩ :: below ∧
      p.rowsFrom (.write text :: steps) =
        ⟨if p.pending then some p.depth else none, text.toList ++ rest⟩ :: below := by
  have hempty : text.isEmpty = false := by simpa using htext
  have hpending : (p.write text).pending = false := by
    cases hp : p.pending <;> simp [write, hempty, hp]
  rw [rowsFrom, rowsFrom, List.splitOn_cons_eq_if_modifyHead, if_neg (by simp), hpending, depth_write]
  cases hlines : steps.splitOn .newline with
  | nil => exact absurd hlines (List.splitOn_ne_nil _ _)
  | cons line lines =>
    refine ⟨ink line, rowsOf true (line.foldl Step.level p.depth) lines, by simp [rowsOf], ?_⟩
    simp [rowsOf, inkDepth, hempty, ink, Step.level]

/-- What one step does to the rows: it closes one, it shows on none, or it writes on the current one. -/
theorem rowsFrom_cases (s : Step) :
    (s = .newline ∧ p.rowsFrom (s :: steps) = ⟨none, []⟩ :: p.newline.rowsFrom steps) ∨
    ((s = .indent ∨ s = .dedent ∨ s = .write "") ∧ p.rowsFrom (s :: steps) = (p.step s).rowsFrom steps) ∨
    ∃ text rest below, s = .write text ∧ text ≠ "" ∧ (p.write text).rowsFrom steps = ⟨none, rest⟩ :: below ∧
      p.rowsFrom (s :: steps) =
        ⟨if p.pending then some p.depth else none, text.toList ++ rest⟩ :: below := by
  cases s with
  | newline => exact .inl ⟨rfl, p.rowsFrom_newline steps⟩
  | indent => exact .inr (.inl ⟨.inl rfl, p.rowsFrom_silent steps (.inl rfl)⟩)
  | dedent => exact .inr (.inl ⟨.inr (.inl rfl), p.rowsFrom_silent steps (.inr (.inl rfl))⟩)
  | write text =>
    by_cases htext : text = ""
    · subst htext
      exact .inr (.inl ⟨.inr (.inr rfl), p.rowsFrom_silent steps (.inr (.inr rfl))⟩)
    · obtain ⟨rest, below, hrest, hrows⟩ := p.exists_rowsFrom_write steps htext
      exact .inr (.inr ⟨text, rest, below, rfl, htext, hrest, hrows⟩)

theorem intercalate_append_cons (start line : List Char) (lines : List (List Char)) :
    ['\n'].intercalate ((start ++ line) :: lines) = start ++ ['\n'].intercalate (line :: lines) := by
  cases lines <;> simp [List.intercalate_cons_cons]

/-- The output grows by the rows. -/
theorem output_perform :
    (p.perform steps).output.toList =
      p.output.toList ++ ['\n'].intercalate ((p.rowsFrom steps).map (Row.page p.indent.width)) := by
  induction steps generalizing p with
  | nil => simp [Row.page, Row.level]
  | cons s steps ih =>
    rw [perform_cons, ih]
    obtain ⟨rfl, hrows⟩ | ⟨hs, hrows⟩ | ⟨text, rest, below, rfl, htext, hrest, hrows⟩ := p.rowsFrom_cases steps s
    · rw [hrows, List.map_cons, List.intercalate_cons_of_ne_nil (by simp [rowsFrom_ne_nil])]
      simp [step, newline, Row.page, Row.level]
    · rw [hrows]
      rcases hs with rfl | rfl | rfl <;> rfl
    · have hpage : Row.page p.indent.width ⟨if p.pending then some p.depth else none, text.toList ++ rest⟩ =
          ((if p.pending then List.replicate (p.indent.width * p.depth) ' ' else []) ++ text.toList) ++
            Row.page p.indent.width ⟨none, rest⟩ := by
        cases p.pending <;> simp [Row.page, Row.level]
      rw [hrows, List.map_cons, hpage, intercalate_append_cons, ← List.map_cons, ← hrest, ← List.append_assoc]
      congr 1
      · cases hp : p.pending <;> simp [step, write, htext, hp, Indent.text]
      · cases hp : p.pending <;> simp [step, write, htext, hp]

/-- The depth of the latest line that was indented. -/
theorem lineDepth_perform :
    (p.perform steps).lineDepth = ((p.rowsFrom steps).filterMap Row.depth).getLast?.getD p.lineDepth := by
  induction steps generalizing p with
  | nil => simp
  | cons s steps ih =>
    rw [perform_cons, ih]
    obtain ⟨rfl, hrows⟩ | ⟨hs, hrows⟩ | ⟨text, rest, below, rfl, htext, hrest, hrows⟩ := p.rowsFrom_cases steps s
    · rw [hrows]
      rfl
    · rw [hrows]
      rcases hs with rfl | rfl | rfl <;> rfl
    · rw [hrows, step, hrest]
      cases hp : p.pending <;> simp [write, htext, hp, List.getLast?_cons]

/-- No row holds a new line if no text does. -/
theorem newline_notMem_text (htexts : ∀ text, .write text ∈ steps → '\n' ∉ text.toList) :
    ∀ r ∈ p.rowsFrom steps, '\n' ∉ r.text := by
  induction steps generalizing p with
  | nil => simp
  | cons s steps ih =>
    have hbelow (q : Printer) := ih q fun text hmem => htexts text (List.mem_cons_of_mem s hmem)
    obtain ⟨rfl, hrows⟩ | ⟨hs, hrows⟩ | ⟨text, rest, below, rfl, htext, hrest, hrows⟩ := p.rowsFrom_cases steps s
    · rw [hrows, List.forall_mem_cons]
      exact ⟨List.not_mem_nil, hbelow _⟩
    · rw [hrows]
      exact hbelow _
    · have hwrite := hbelow (p.write text)
      rw [hrest, List.forall_mem_cons] at hwrite
      rw [hrows, List.forall_mem_cons]
      exact ⟨by simpa using ⟨htexts text List.mem_cons_self, hwrite.1⟩, hwrite.2⟩

/-! ## What a run means -/

variable {p steps}

theorem SoundFrom.tail {s : Step} (h : p.SoundFrom (s :: steps)) : (p.step s).SoundFrom steps := by
  intro before after heq
  exact h (s :: before) after (by rw [heq, List.cons_append])

/-- Every level entered is left again or is part of the depth at the end. -/
theorem SoundFrom.depth_perform (h : p.SoundFrom steps) :
    (p.perform steps).depth + steps.count .dedent = p.depth + steps.count .indent := by
  induction steps generalizing p with
  | nil => rfl
  | cons s steps ih =>
    have hrest := ih h.tail
    rw [perform_cons]
    cases s with
    | write text => simpa [step, List.count_cons] using hrest
    | newline => simpa [step, List.count_cons] using hrest
    | indent =>
      simp only [step, depth_enter] at hrest
      simp only [List.count_cons, step]
      simp
      omega
    | dedent =>
      have hpos : 0 < p.depth := h [] steps rfl
      simp only [step, depth_leave] at hrest
      simp only [List.count_cons, step]
      simp
      omega

/-- The meaning of a run from an empty page. -/
theorem splitOn_perform (width : Nat) (steps : List Step) (htexts : ∀ text, .write text ∈ steps → '\n' ∉ text.toList)
    (hsound : (ofWidth width).SoundFrom steps) :
    let p := (ofWidth width).perform steps
    p.output.toList.splitOn '\n' = (rows steps).map (Row.page width) ∧
      (rows steps).length = steps.count .newline + 1 ∧
      (∀ r ∈ (rows steps).tail, r.depth = none → r.text = []) ∧
      p.lineDepth = ((rows steps).filterMap Row.depth).getLast?.getD 0 ∧
      ((∃ e, p.finish = .error e) ↔ steps.count .indent ≠ steps.count .dedent) := by
  refine ⟨?_, length_rows steps, fun _ => text_eq_nil_of_mem_tail, lineDepth_perform _ steps, ?_⟩
  · rw [output_perform]
    refine List.splitOn_intercalate '\n' ?_ (by simp [rowsFrom_ne_nil])
    rw [List.forall_mem_map]
    intro r hr hmem
    rcases List.mem_append.1 hmem with hindent | htext
    · exact absurd (List.eq_of_mem_replicate hindent) (by decide)
    · exact newline_notMem_text _ _ htexts r hr htext
  · have hdepth := hsound.depth_perform
    rw [depth_ofWidth, Nat.zero_add] at hdepth
    unfold finish
    split <;> simp <;> omega

/-- A second line one level down, and a third that stays empty. -/
theorem splitOn_perform_three :
    let p := (ofWidth 2).perform
      [.write "a", .newline, .indent, .write "", .write "b", .newline, .write "", .dedent]
    p.output.toList.splitOn '\n' = [['a'], [' ', ' ', 'b'], []] ∧ p.lineDepth = 1 ∧ ¬ ∃ e, p.finish = .error e := by
  have hsound : (ofWidth 2).SoundFrom
      [.write "a", .newline, .indent, .write "", .write "b", .newline, .write "", .dedent] := by
    iterate 7 refine soundFrom_cons nofun ?_
    exact soundFrom_cons (fun _ => by decide) soundFrom_nil
  obtain ⟨hpieces, -, -, hdepth, hfinish⟩ := splitOn_perform 2 _ (by simp) hsound
  refine ⟨hpieces.trans (by decide +kernel), hdepth.trans (by decide +kernel), ?_⟩
  rw [hfinish]
  decide

/-! ## Widths -/

/-- Two printers that differ in the width of a level and in the output at most. -/
structure Alike (p q : Printer) : Prop where
  depth : p.depth = q.depth
  pending : p.pending = q.pending
  lineDepth : p.lineDepth = q.lineDepth

namespace Alike

variable {q : Printer}

theorem setDepth (h : p.Alike q) (n : Nat) : (p.setDepth n).Alike (q.setDepth n) := ⟨rfl, h.pending, h.lineDepth⟩

theorem step (h : p.Alike q) (s : Step) : (p.step s).Alike (q.step s) := by
  cases s with
  | newline => exact ⟨h.depth, rfl, h.lineDepth⟩
  | indent => exact ⟨congrArg (· + 1) h.depth, h.pending, h.lineDepth⟩
  | dedent => exact ⟨congrArg (· - 1) h.depth, h.pending, h.lineDepth⟩
  | write text =>
    refine ⟨by simpa [Printer.step] using h.depth, ?_, ?_⟩
    · simp only [Printer.step, write, h.pending]
      split
      · exact h.pending
      · split <;> simp_all
    · simp only [Printer.step, write, h.pending]
      split
      · exact h.lineDepth
      · split
        · exact h.depth
        · exact h.lineDepth

end Alike

end Printer

open Printer

/-- Printers that are alike are given the same steps by a document, and stay alike. -/
theorem Doc.steps_of_alike (layout : ClauseLayout) (d : Doc) {p q : Printer} (h : p.Alike q) :
    d.steps layout p = d.steps layout q ∧ (d.run layout p).Alike (d.run layout q) := by
  induction d generalizing p q with
  | nil => exact ⟨rfl, h⟩
  | text s => exact ⟨rfl, h.step (.write s)⟩
  | line => exact ⟨rfl, h.step .newline⟩
  | clauseBreak =>
    cases layout with
    | stacked => exact ⟨rfl, h.step .newline⟩
    | compact => exact ⟨rfl, h.step (.write " ")⟩
  | append a b iha ihb =>
    obtain ⟨hfirst, hmid⟩ := iha h
    obtain ⟨hsecond, hend⟩ := ihb hmid
    exact ⟨by rw [steps, steps, hfirst, hsecond], hend⟩
  | nest d ih =>
    obtain ⟨hbody, hend⟩ := ih (h.step .indent)
    exact ⟨congrArg (.indent :: · ++ [.dedent]) hbody, hend.step .dedent⟩
  | hang d ih =>
    obtain ⟨hbody, hend⟩ := ih (h.setDepth (p.depth - (p.depth - p.lineDepth)))
    rw [h.depth, h.lineDepth] at hbody hend
    constructor
    · simp only [steps, h.depth, h.lineDepth, hbody]
    · simp only [run, h.depth, h.lineDepth, hend.depth]
      exact hend.setDepth _

/-- The page of a document by its rows, which are found at any width. -/
theorem Doc.output_run_ofWidth (layout : ClauseLayout) (d : Doc) (width other : Nat) :
    (d.run layout (.ofWidth width)).output.toList =
      ['\n'].intercalate ((rows (d.steps layout (.ofWidth other))).map (Row.page width)) := by
  have halike : (ofWidth width).Alike (ofWidth other) := ⟨rfl, rfl, rfl⟩
  rw [← perform_steps, output_perform, (d.steps_of_alike layout halike).1]
  rfl

/-- The rows of a statement are the same at every width. -/
theorem Statement.print_rows (s : Statement) (layout : ClauseLayout) :
    ∃ rows : List (Nat × String), (∃ text, rows.head? = some (0, text)) ∧
      ∀ width, s.print ⟨layout, width⟩ =
        .ok ("\n".intercalate (rows.map fun row => String.ofList (List.replicate (width * row.1) ' ') ++ row.2)) := by
  let steps := s.doc.steps layout (.ofWidth 0)
  refine ⟨(Printer.rows steps).map fun r => (r.level, String.ofList r.text), ?_, fun width => ?_⟩
  · obtain ⟨text, below, hrows⟩ := exists_rows_eq_cons steps
    exact ⟨String.ofList text, by rw [hrows]; rfl⟩
  · rw [print, Doc.print_eq_ok]
    refine congrArg Except.ok (String.toList_injective ?_)
    rw [s.doc.output_run_ofWidth layout width 0, String.toList_intercalate, List.map_map, List.map_map]
    refine congrArg _ (List.map_congr_left fun r _ => ?_)
    simp [Row.page]

end SqlTidy
