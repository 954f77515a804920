import SqlTidy.Layout.Statement

/-!
# What a style cannot change

A style decides where lines end and how far they are indented, and nothing else.

**Theorem (`print_collapse`).** Every statement can be printed in every style, and the pages of two
styles become equal when each maximal run of spaces and line ends is collapsed to one space.

The proof does not compare two runs. It compares each run with `Doc.ink`, the document on a single
line: a new line is written as one space there, and so is a clause break. Two facts carry the
comparison through a document.

* A new line and a space are the same once runs are collapsed (`sameInk_newline`).
* Indentation is written only behind a new line, so it always falls into a run (`Settled`).

The second is the invariant. It has to be kept by every document, because indentation is written
late, by the first text of the line, which may stand in another document than the new line.
-/

namespace SqlTidy

/-! ## Collapsing runs -/

namespace Text

/-- The two characters that a style places. -/
def isGap (c : Char) : Bool := c = ' ' || c = '\n'

/-- A text whose runs of gaps are collapsed, read behind a gap if `inRun`. -/
def collapseFrom (inRun : Bool) : List Char → List Char
  | [] => []
  | c :: cs =>
    if isGap c then
      if inRun then collapseFrom true cs else ' ' :: collapseFrom true cs
    else
      c :: collapseFrom false cs

/-- A text with every maximal run of spaces and line ends replaced by one space. -/
def collapse (s : String) : String := String.ofList (collapseFrom false s.toList)

example : collapse " a \n  b\n\n" = " a b " := by decide

/-- Two texts that stay equal up to the length of runs, whatever is written behind them. -/
def SameInk (a b : List Char) : Prop :=
  ∀ inRun rest, collapseFrom inRun (a ++ rest) = collapseFrom inRun (b ++ rest)

namespace SameInk

variable {a b c : List Char}

theorem refl (a : List Char) : SameInk a a := fun _ _ => rfl

theorem trans (h : SameInk a b) (h' : SameInk b c) : SameInk a c := fun r rest =>
  (h r rest).trans (h' r rest)

theorem append_right (h : SameInk a b) (c : List Char) : SameInk (a ++ c) (b ++ c) := by
  intro r rest
  rw [List.append_assoc, List.append_assoc]
  exact h r (c ++ rest)

theorem append_left (h : SameInk a b) (c : List Char) : SameInk (c ++ a) (c ++ b) := by
  intro r rest
  induction c generalizing r with
  | nil => exact h r rest
  | cons d c ih => simp only [List.cons_append, collapseFrom, ih]

theorem collapse_eq {s t : String} (h : SameInk s.toList t.toList) : collapse s = collapse t := by
  have := h false []
  rw [List.append_nil, List.append_nil] at this
  rw [collapse, collapse, this]

end SameInk

theorem sameInk_newline : SameInk ['\n'] [' '] := fun _ _ => rfl

/-- Behind a gap, a space adds nothing. -/
theorem sameInk_gap_space {c : Char} (hc : isGap c) : SameInk [c, ' '] [c] := by
  intro r rest
  cases r <;> simp [collapseFrom, hc, show isGap ' ' from rfl]

/-- Behind a gap, any number of spaces adds nothing. -/
theorem sameInk_gap_spaces {c : Char} (hc : isGap c) (n : Nat) :
    SameInk (c :: List.replicate n ' ') [c] := by
  induction n with
  | zero => exact .refl _
  | succ n ih =>
    rw [List.replicate_succ', ← List.cons_append]
    exact (ih.append_right [' ']).trans (sameInk_gap_space hc)

end Text

open Text

/-! ## Printers whose indentation falls into a run -/

namespace Printer

/-- Pending indentation stands behind a new line, so it lengthens a run and starts none. -/
def Settled (p : Printer) : Prop :=
  p.pending → ∃ before, p.output.toList = before ++ ['\n']

theorem settled_ofWidth (width : Nat) : (ofWidth width).Settled := nofun

theorem settled_newline (p : Printer) : p.newline.Settled := fun _ =>
  ⟨p.output.toList, String.toList_append⟩

theorem Settled.enter {p : Printer} (h : p.Settled) : p.enter.Settled := h

theorem Settled.leave {p : Printer} (h : p.Settled) : p.leave.Settled := h

theorem Settled.setDepth {p : Printer} (h : p.Settled) (n : Nat) : (p.setDepth n).Settled := h

theorem Settled.write {p : Printer} (h : p.Settled) (s : String) : (p.write s).Settled := by
  unfold Printer.write
  split
  · exact h
  · split
    · exact nofun
    · rename_i hp
      exact fun hp' => absurd hp' hp

theorem toList_newline (p : Printer) : p.newline.output.toList = p.output.toList ++ ['\n'] :=
  String.toList_append

/-- A text is written as it is, up to the indentation in front of it. -/
theorem Settled.sameInk_write {p : Printer} (h : p.Settled) (s : String) :
    SameInk (p.write s).output.toList (p.output.toList ++ s.toList) := by
  unfold Printer.write
  split
  · rename_i hs
    rw [String.isEmpty_iff.1 hs]
    simpa using SameInk.refl _
  · split
    · rename_i hp
      obtain ⟨before, hbefore⟩ := h hp
      simp only [String.toList_append, Indent.text, String.toList_ofList]
      refine SameInk.append_right ?_ _
      rw [hbefore, List.append_assoc]
      exact (sameInk_gap_spaces rfl _).append_left before
    · simpa using SameInk.refl _

end Printer

/-! ## Documents on one line -/

namespace Doc

/-- The text of a document with every line end a space. -/
def ink : Doc → List Char
  | nil => []
  | text s => s.toList
  | line | clauseBreak => [' ']
  | append a b => a.ink ++ b.ink
  | nest d | hang d => d.ink

theorem settled_run (layout : ClauseLayout) (d : Doc) {p : Printer} (h : p.Settled) :
    (d.run layout p).Settled := by
  induction d generalizing p with
  | nil => exact h
  | text s => exact h.write s
  | line => exact p.settled_newline
  | clauseBreak =>
    cases layout with
    | stacked => exact p.settled_newline
    | compact => exact h.write " "
  | append a b iha ihb => exact ihb (iha h)
  | nest d ih => exact (ih h.enter).leave
  | hang d ih => exact (ih (h.setDepth _)).setDepth _

/-- A run writes the document's ink behind what was there, in every layout and at every depth. -/
theorem sameInk_run (layout : ClauseLayout) (d : Doc) {p : Printer} (h : p.Settled) :
    SameInk (d.run layout p).output.toList (p.output.toList ++ d.ink) := by
  have newline (p : Printer) : SameInk p.newline.output.toList (p.output.toList ++ [' ']) := by
    rw [Printer.toList_newline]
    exact sameInk_newline.append_left _
  induction d generalizing p with
  | nil => simpa [ink, run] using SameInk.refl _
  | text s => exact h.sameInk_write s
  | line => exact newline p
  | clauseBreak =>
    cases layout with
    | stacked => exact newline p
    | compact => exact h.sameInk_write " "
  | append a b iha ihb =>
    have hb := ihb (settled_run layout a h)
    rw [ink, ← List.append_assoc]
    exact hb.trans ((iha h).append_right b.ink)
  | nest d ih => exact ih h.enter
  | hang d ih => exact ih (h.setDepth _)

/-- A document is printed in every style. -/
theorem print_eq_ok (style : Style) (d : Doc) :
    d.print style = .ok (d.run style.layout (.ofWidth style.indentWidth)).output := by
  rw [print, Printer.finish, if_pos (by simp)]

/-- Every page of a document is its ink, once runs are collapsed. -/
theorem collapse_of_print {style : Style} {d : Doc} {page : String}
    (h : d.print style = .ok page) : collapse page = collapse (String.ofList d.ink) := by
  rw [print_eq_ok] at h
  cases h
  have hink := sameInk_run style.layout d (Printer.settled_ofWidth style.indentWidth)
  refine SameInk.collapse_eq ?_
  simpa [Printer.ofWidth] using hink

end Doc

/-! ## Statements -/

/-- Two styles print a statement alike, up to the length of runs of spaces and line ends. -/
theorem Statement.print_collapse (s : Statement) (a b : Style) :
    ∃ page page', s.print a = .ok page ∧ s.print b = .ok page' ∧
      collapse page = collapse page' := by
  have ha := s.doc.print_eq_ok a
  have hb := s.doc.print_eq_ok b
  exact ⟨_, _, ha, hb, (Doc.collapse_of_print ha).trans (Doc.collapse_of_print hb).symm⟩

end SqlTidy
