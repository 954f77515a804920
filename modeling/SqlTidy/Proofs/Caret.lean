import Mathlib.Data.List.TakeWhile
import SqlTidy.Proofs.Fault

/-!
# Where the caret stands

**Theorem (`Text.splitOn_caretReport`).** A caret report has five lines. The third quotes the line of the text
on which the character at the offset stands, with that character at its place, and the fourth has the caret.

**The two gutters.** In front of the quoted line stand its number, at least three characters wide, and a bar;
in front of the caret stand two spaces and a bar. So the caret is not below the character but to the left of
it, by one less than the width of the number (`Text.caret_not_below_paren`).
-/

namespace SqlTidy.Text

/-! ## The line of a character -/

theorem lastLine_of_notMem {cs : List Char} (h : '\n' ∉ cs) : lastLine cs = cs := by
  have hall : cs.reverse.takeWhile (· ≠ '\n') = cs.reverse := by
    rw [List.takeWhile_eq_self_iff]
    intro c hc
    simpa using ne_of_mem_of_not_mem (List.mem_reverse.1 hc) h
  rw [lastLine, hall, List.reverse_reverse]

theorem lastLine_cons_of_mem {cs : List Char} (c : Char) (h : '\n' ∈ c :: cs) : lastLine (c :: cs) = lastLine cs := by
  induction cs using List.reverseRecOn with
  | nil =>
    obtain rfl : '\n' = c := by simpa using h
    rfl
  | append_singleton cs d ih =>
    rw [← List.cons_append, lastLine_concat, lastLine_concat]
    split
    · rfl
    · rename_i hd
      rw [ih (by simpa [Ne.symm hd] using h)]

/-- A character that ends no line comes in front of the first line. -/
theorem lines_cons {c : Char} (hc : c ≠ '\n') (hreturn : c ≠ '\r') (cs : List Char) :
    lines (c :: cs) = (c :: (lines cs).headD []) :: (lines cs).tail := by
  rw [lines]
  · cases lines cs <;> rfl
  · simpa using hc
  · simp [hreturn]

/-- The line of a character, in a text that is cut into lines. -/
theorem exists_getElem?_lines {before after : List Char} {c : Char} (hreturn : '\r' ∉ before ++ c :: after)
    (hc : c ≠ '\n') :
    ∃ rest, (lines (before ++ c :: after))[before.count '\n']? = some (lastLine before ++ c :: rest) := by
  induction before with
  | nil =>
    rw [List.nil_append, lines_cons hc fun h => hreturn (by simp [h])]
    exact ⟨_, rfl⟩
  | cons d before ih =>
    obtain ⟨rest, hrest⟩ := ih fun h => hreturn (List.mem_cons_of_mem d h)
    refine ⟨rest, ?_⟩
    by_cases hd : d = '\n'
    · rw [hd, lastLine_cons_of_mem _ List.mem_cons_self, List.count_cons_self, List.cons_append, lines]
      exact hrest
    · rw [List.cons_append, lines_cons hd fun h => hreturn (by simp [h]), List.count_cons_of_ne hd]
      by_cases hmem : '\n' ∈ before
      · rw [lastLine_cons_of_mem d (List.mem_cons_of_mem d hmem)]
        obtain ⟨k, hk⟩ := Nat.exists_eq_succ_of_ne_zero (List.count_pos_iff.2 hmem).ne'
        rw [hk] at hrest ⊢
        simpa using hrest
      · rw [lastLine_of_notMem (by simp [hmem, Ne.symm hd])]
        rw [lastLine_of_notMem hmem, List.count_eq_zero.2 hmem] at hrest
        rw [List.count_eq_zero.2 hmem]
        cases hlines : lines (before ++ c :: after) <;> simp_all

/-! ## The lines of a report -/

theorem newline_notMem_toDigits (n : Nat) : '\n' ∉ Nat.toDigits 10 n := by
  intro h
  exact absurd (Nat.isDigit_of_mem_toDigits (by decide) (by decide) h) (by decide)

theorem newline_notMem_lineLabel (n : Nat) : '\n' ∉ (lineLabel n).toList := by
  simp [lineLabel, newline_notMem_toDigits]

theorem length_lineLabel (n : Nat) : (lineLabel n).length = max 3 (toString n).length := by
  simp [lineLabel]
  omega

theorem newline_notMem_of_mem_lines {cs line : List Char} (hreturn : '\r' ∉ cs) (h : line ∈ lines cs) : '\n' ∉ line := by
  induction cs generalizing line with
  | nil => simp [lines] at h
  | cons c cs ih =>
    have ih {l : List Char} := @ih l fun hmem => hreturn (List.mem_cons_of_mem c hmem)
    by_cases hc : c = '\n'
    · rw [hc, lines] at h
      rcases List.mem_cons.1 h with rfl | h
      · exact List.not_mem_nil
      · exact ih h
    · rw [lines_cons hc fun heq => hreturn (by simp [heq])] at h
      cases hlines : lines cs with
      | nil =>
        obtain rfl : line = [c] := by simpa [hlines] using h
        simpa [eq_comm] using hc
      | cons l ls =>
        rw [hlines] at h ih
        rcases List.mem_cons.1 h with rfl | h
        · simpa [eq_comm] using ⟨hc, ih List.mem_cons_self⟩
        · exact ih (List.mem_cons_of_mem l h)

/-- The lines of a report at a position, about a line. -/
def reportLines (p : Position) (line message : String) : List String :=
  ["Parse error at line " ++ toString p.line ++ ", column " ++ toString p.column ++ ":",
    "  |",
    lineLabel p.line ++ " | " ++ line,
    "  | " ++ String.ofList (List.replicate (p.column - 1) ' ') ++ "^",
    "  = " ++ message]

theorem caretReport_eq (text : String) (offset : Nat) (message : String) :
    caretReport text offset message = "\n".intercalate (reportLines (positionAt text offset)
      ((line? text (positionAt text offset).line).getD "") message) := by
  have hrule : ":\n  |\n" = ":" ++ "\n" ++ "  |" ++ "\n" := by decide
  have hpointer : "\n  | " = "\n" ++ "  | " := by decide
  have hnote : "\n  = " = "\n" ++ "  = " := by decide
  unfold caretReport reportLines
  simp only [String.intercalate_cons_cons, String.intercalate_singleton]
  rw [hrule, hpointer, hnote]
  simp only [String.append_assoc]

/-- A report is cut at its line ends into its lines. -/
theorem splitOn_reportLines {p : Position} {line message : String} (hline : '\n' ∉ line.toList)
    (hmessage : '\n' ∉ message.toList) :
    ("\n".intercalate (reportLines p line message)).toList.splitOn '\n' =
      (reportLines p line message).map String.toList := by
  rw [String.toList_intercalate]
  refine List.splitOn_intercalate '\n' ?_ (by simp [reportLines])
  simp [reportLines, newline_notMem_toDigits, newline_notMem_lineLabel, hline, hmessage]

theorem idxOf_caret (n : Nat) : ("  | " ++ String.ofList (List.replicate n ' ') ++ "^").toList.idxOf '^' = n + 4 := by
  rw [String.toList_append, List.idxOf_append_of_notMem (by simp)]
  simp

/-- The lines of a report. The caret is left of the character at the offset, by one less than the width of the
number of its line. -/
theorem splitOn_caretReport {text message : String} {before after : List Char} {c : Char}
    (htext : text.toList = before ++ c :: after) (hreturn : '\r' ∉ text.toList) (hc : c ≠ '\n')
    (hmessage : '\n' ∉ message.toList) :
    let gutter := (lineLabel (before.count '\n' + 1) ++ " | ").toList
    ∃ head rule rest pointer note,
      (caretReport text (byteSize before) message).toList.splitOn '\n' =
        [head, rule, gutter ++ lastLine before ++ c :: rest, pointer, note] ∧
      '^' ∈ pointer ∧
      (gutter ++ lastLine before).length =
        pointer.idxOf '^' + (max 3 (toString (before.count '\n' + 1)).length - 1) := by
  intro gutter
  obtain ⟨rest, hrest⟩ := exists_getElem?_lines (htext ▸ hreturn) hc
  have hline : line? text (before.count '\n' + 1) = some (String.ofList (lastLine before ++ c :: rest)) := by
    rw [line?, htext, Nat.add_sub_cancel, hrest]
    rfl
  have hnewline : '\n' ∉ (String.ofList (lastLine before ++ c :: rest)).toList := by
    rw [String.toList_ofList]
    exact newline_notMem_of_mem_lines (htext ▸ hreturn) (List.mem_of_getElem? hrest)
  have hquoted : (lineLabel (before.count '\n' + 1) ++ " | " ++ String.ofList (lastLine before ++ c :: rest)).toList =
      gutter ++ lastLine before ++ c :: rest := by
    rw [String.toList_append, String.toList_ofList, List.append_assoc]
  have hsplit : (caretReport text (byteSize before) message).toList.splitOn '\n' =
      (reportLines ⟨before.count '\n' + 1, (lastLine before).length + 1⟩ (String.ofList (lastLine before ++ c :: rest))
        message).map String.toList := by
    rw [caretReport_eq, positionAt_eq htext, hline]
    exact splitOn_reportLines hnewline hmessage
  simp only [reportLines, List.map_cons, List.map_nil, hquoted, Nat.add_sub_cancel] at hsplit
  refine ⟨_, _, rest, _, _, hsplit, by simp, ?_⟩
  rw [idxOf_caret, List.length_append, String.length_toList, String.length_append, length_lineLabel]
  show _ + 3 + _ = _
  omega

/-- The caret of a report about a parenthesis in column 13 is in column 11. -/
theorem splitOn_caretReport_paren :
    ∃ head rule quoted pointer note,
      (caretReport "select )" 7 "Expected expression").toList.splitOn '\n' = [head, rule, quoted, pointer, note] ∧
      quoted[13]? = some ')' ∧ '^' ∈ pointer ∧ pointer.idxOf '^' = 11 := by
  obtain ⟨head, rule, rest, pointer, note, hsplit, hcaret, hcolumn⟩ :=
    @splitOn_caretReport "select )" "Expected expression" "select ".toList [] ')' rfl (by decide) (by decide) (by decide)
  have hlength : ((lineLabel ("select ".toList.count '\n' + 1) ++ " | ").toList ++ lastLine "select ".toList).length = 13 := by
    decide +kernel
  refine ⟨head, rule, _, pointer, note, hsplit, ?_, hcaret, ?_⟩
  · rw [List.getElem?_append_right (Nat.le_of_eq hlength), hlength]
    rfl
  · exact Nat.add_right_cancel (hcolumn.symm.trans hlength)

/-- So it does not stand below the parenthesis. -/
theorem caret_not_below_paren :
    let pieces := (caretReport "select )" 7 "Expected expression").toList.splitOn '\n'
    pieces[3]?.map (·.idxOf '^') ≠ pieces[2]?.map (·.idxOf ')') := by
  decide +kernel

end SqlTidy.Text
