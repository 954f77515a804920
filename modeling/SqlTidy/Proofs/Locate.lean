import SqlTidy.Format
import SqlTidy.Proofs.Ink
import SqlTidy.Proofs.Walk.Statement

/-!
# Faults of formatting can be shown

**Theorem (`locatable_of_format`).** A fault that formatting reports carries the text without the white space
around it, a range of whole characters of that text, and the line and column where the range starts.

Printing has no faults. So the fault is one of reading the text, where every rule and every reader blames a
range of whole characters (`Statement.located_of_parse`), whatever has been tried and taken back before.
-/

namespace SqlTidy

open Text

/-- Errors of formatting are those of reading the trimmed text. -/
theorem exists_of_format_error {style : Style} {text : String} {e : Error}
    (h : format style text = .error e) :
    ∃ e' : Error, e'.Located (trim text) ∧ e = e'.withSource (trim text) := by
  rw [format] at h
  split at h
  · rename_i tree _
    rw [Statement.print, Doc.print_eq_ok] at h
    cases h
  · rename_i e' hparse
    cases h
    exact ⟨e', Statement.located_of_parse hparse, rfl⟩

/-- Every fault of formatting has its place in the trimmed text. -/
theorem locatable_of_format {style : Style} {text : String} {fault : ParseError}
    (h : format style text = .error (.parse fault)) :
    fault.source = some (trim text) ∧ ∃ offset length before rest,
      fault.span = some ⟨offset, length⟩ ∧ offset + length ≤ (trim text).utf8ByteSize ∧
      IsBoundary (trim text) offset ∧ IsBoundary (trim text) (offset + length) ∧
      (trim text).toList = before ++ rest ∧ byteSize before = offset ∧
      fault.position = some ⟨before.count '\n' + 1, (lastLine before).length + 1⟩ := by
  obtain ⟨e, hlocated, he⟩ := exists_of_format_error h
  cases hlocated with
  | unsupported => cases he
  | @fault cause offset length _ hspan =>
    cases he
    obtain ⟨rest, before, htext, rfl⟩ := hspan.start
    refine ⟨rfl, byteSize before, length, before, rest, rfl, hspan.stop.le, hspan.start, hspan.stop,
      htext, rfl, ?_⟩
    exact congrArg some (positionAt_eq htext)

/-- The fault lies behind a line end and a character of two bytes. -/
theorem locatable_of_format_newline :
    ∃ fault, format .default " \nSELECT\n'é' )" = .error (.parse fault) ∧
      fault.source = some (trim " \nSELECT\n'é' )") ∧ ∃ offset length before rest,
        fault.span = some ⟨offset, length⟩ ∧
        offset + length ≤ (trim " \nSELECT\n'é' )").utf8ByteSize ∧
        IsBoundary (trim " \nSELECT\n'é' )") offset ∧
        IsBoundary (trim " \nSELECT\n'é' )") (offset + length) ∧
        (trim " \nSELECT\n'é' )").toList = before ++ rest ∧ byteSize before = offset ∧
        fault.position = some ⟨before.count '\n' + 1, (lastLine before).length + 1⟩ := by
  have hformat : format .default " \nSELECT\n'é' )" =
      .error (.parse ⟨.trailing (.symbol .rparen), some ⟨12, 1⟩, some "SELECT\n'é' )"⟩) := by
    decide +kernel
  exact ⟨_, hformat, locatable_of_format hformat⟩

/-- Line and column of the fault above. -/
example : positionAt "SELECT\n'é' )" 12 = ⟨2, 5⟩ := by decide +kernel

end SqlTidy
