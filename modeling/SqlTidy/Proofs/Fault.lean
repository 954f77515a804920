import SqlTidy.Proofs.Partition

/-!
# Where faults lie

A fault is *located* in a text if it covers whole characters of it. This module shows it of the faults of the
scanner, and says what line and column of a place are.

**The scanner** (`Token.located_of_scan`). A fault of the scanner lies at an item that does not end, or at the
end of a text with an open hint. The scanner gets there over whole items, so the fault starts at a character;
it covers the mark that opens the item, or a character that starts no item.

**Positions** (`Text.positionAt_eq`). A position is counted up over the characters in front of an offset: its
line is one more than the line ends among them, its column one more than the characters behind the last one.
-/

namespace SqlTidy

open Text

/-- A range of bytes that starts and ends between characters of a text. -/
structure Span.Covers (span : Span) (text : String) : Prop where
  start : IsBoundary text span.offset
  stop : IsBoundary text (span.offset + span.length)

/-- An error that has its place in a text, or that has none because the statement is refused as a whole. No
rule has gone on for ever. -/
inductive Error.Located (text : String) : Error → Prop
  | fault {cause : Cause} {offset length : Nat} (hcause : cause ≠ .endless)
      (hspan : Span.Covers ⟨offset, length⟩ text) : Located text (.ofCause cause offset length)
  | unsupported (construct : String) : Located text (.unsupported construct)

theorem Error.Located.not_isEndless {text : String} {e : Error} (h : e.Located text) :
    e.isEndless = false := by
  cases h with
  | fault hcause => simpa [Error.ofCause, Error.isEndless] using hcause
  | unsupported => rfl

namespace Text

/-- A range that is made of whole characters. -/
theorem Remains.covers {text : String} {offset : Nat} {cs ds : List Char}
    (h : Remains text offset (cs ++ ds)) : Span.Covers ⟨offset, byteSize cs⟩ text :=
  ⟨h.isBoundary, h.append.isBoundary⟩

theorem IsBoundary.le {text : String} {offset : Nat} (h : IsBoundary text offset) :
    offset ≤ text.utf8ByteSize := by
  obtain ⟨cs, before, htext, rfl⟩ := h
  rw [← byteSize_toList, htext, byteSize_append]
  exact Nat.le_add_right _ _

end Text

/-! ## The scanner -/

namespace Scan

/-- A fault at an item covers characters from the head of the text. -/
theorem exists_of_item_error {ctx : Context} {c : Char} {cs : List Char} {cause : Cause} {length : Nat}
    (h : item ctx c cs = .error (cause, length)) :
    cause ≠ .endless ∧ ∃ taken rest, c :: cs = taken ++ rest ∧ byteSize taken = length := by
  unfold item at h
  simp only at h
  split at h
  · contradiction
  split at h
  · contradiction
  split at h
  · rename_i hopen
    split at h
    · contradiction
    · cases h
      simp only [Bool.and_eq_true, decide_eq_true_eq] at hopen
      obtain ⟨⟨rfl, hstar⟩, -⟩ := hopen
      obtain ⟨rest, rfl⟩ : ∃ rest, cs = '*' :: rest := by
        cases cs with
        | nil => contradiction
        | cons d rest => exact ⟨rest, by rw [Option.some.inj hstar]⟩
      exact ⟨nofun, ['/', '*'], rest, rfl, rfl⟩
  split at h
  · rename_i hquote
    split at h
    · contradiction
    · cases h
      refine ⟨nofun, [c], cs, rfl, ?_⟩
      simp only [Bool.or_eq_true, decide_eq_true_eq] at hquote
      rcases hquote with rfl | rfl <;> rfl
  split at h
  · rename_i htick
    split at h
    · contradiction
    · cases h
      subst htick
      exact ⟨nofun, ['\x60'], cs, rfl, rfl⟩
  split at h
  · contradiction
  split at h
  · rename_i hraw
    have hsize : byteSize [c] = 1 := by
      simp only [Bool.and_eq_true, Bool.or_eq_true, decide_eq_true_eq] at hraw
      rcases hraw.1 with rfl | rfl <;> rfl
    split at h
    · split at h
      · contradiction
      · cases h
        exact ⟨nofun, [c], _, rfl, hsize⟩
    · cases h
      exact ⟨nofun, [c], _, rfl, hsize⟩
  split at h
  · contradiction
  split at h
  · contradiction
  · cases h
    exact ⟨nofun, [c], cs, rfl, Nat.add_zero _⟩

/-- The scanner goes over whole characters, so its faults cover whole characters. -/
theorem located_of_scanFrom {text : String} {cs : List Char} {skip offset : Nat} {ctx : Context}
    {e : Error} (h : scanFrom cs skip offset ctx = .error e) (htext : Remains text offset cs) :
    e.Located text := by
  fun_induction scanFrom cs skip offset ctx generalizing e with
  | case1 skip offset ctx hhint =>
    cases h
    exact .fault (by rintro ⟨⟩) ⟨htext.isBoundary, htext.isBoundary⟩
  | case2 => contradiction
  | case3 c cs skip offset ctx ih => exact ih h (@Remains.append _ _ [c] cs htext)
  | case4 c cs offset ctx cause length hitem =>
    cases h
    obtain ⟨hcause, taken, rest, hcs, rfl⟩ := exists_of_item_error hitem
    rw [hcs] at htext
    exact .fault hcause htext.covers
  | case5 => contradiction
  | case6 c cs offset ctx i hitem hnone ih => exact ih h (@Remains.append _ _ [c] cs htext)

end Scan

theorem Token.located_of_scan {text : String} {e : Error} (h : scan text = .error e) :
    e.Located text :=
  Scan.located_of_scanFrom h (.start text)

/-- A token covers the characters that it was read from. -/
theorem Token.covers_of_scan {text : String} {tokens : List Spanned} (h : scan text = .ok tokens)
    {t : Spanned} (ht : t ∈ tokens) : Span.Covers ⟨t.start, t.stop - t.start⟩ text := by
  by_cases hne : t.token = .eof
  · obtain ⟨ts, htokens, hts⟩ := (tiles_of_scan h).ends (.start text)
    rw [htokens, List.mem_append, List.mem_singleton] at ht
    rcases ht with ht | rfl
    · exact absurd hne (hts t ht)
    · have hend : Remains text text.utf8ByteSize [] := ⟨text.toList, by simp, byteSize_toList text⟩
      exact ⟨hend.isBoundary, by simpa using hend.isBoundary⟩
  · obtain ⟨rest, -, htext, hstop⟩ := (tiles_of_scan h).lexemes (.start text) t ht hne
    rw [hstop, Nat.add_sub_cancel_left]
    exact htext.covers

/-! ## Lines and columns -/

namespace Text

/-- The characters in front of a boundary. -/
theorem charsBefore_append (before rest : List Char) :
    charsBefore (byteSize before) (before ++ rest) = before := by
  induction before with
  | nil => cases rest <;> rfl
  | cons c before ih =>
    have hpos : 0 < c.utf8Size := c.utf8Size_pos
    rw [byteSize_cons, List.cons_append]
    obtain ⟨n, hn⟩ : ∃ n, c.utf8Size + byteSize before = n + 1 := ⟨_, (Nat.succ_pred (by omega)).symm⟩
    rw [hn, charsBefore, ← hn, Nat.add_sub_cancel_left, ih]
    exact nofun

/-- The characters of a text behind its last line end. -/
def lastLine (cs : List Char) : List Char := (cs.reverse.takeWhile (· ≠ '\n')).reverse

theorem lastLine_concat (cs : List Char) (c : Char) :
    lastLine (cs ++ [c]) = if c = '\n' then [] else lastLine cs ++ [c] := by
  by_cases hc : c = '\n' <;> simp [lastLine, hc]

/-- Line and column count the line ends in front and the characters behind the last one. -/
theorem foldl_advance (cs : List Char) :
    cs.foldl Position.advance .start = ⟨cs.count '\n' + 1, (lastLine cs).length + 1⟩ := by
  induction cs using List.reverseRecOn with
  | nil => rfl
  | append_singleton cs c ih =>
    rw [List.foldl_append, ih, lastLine_concat, List.count_append]
    by_cases hc : c = '\n'
    · simp [Position.advance, hc]
    · simp [Position.advance, hc]

theorem positionAt_eq {text : String} {before rest : List Char} (h : text.toList = before ++ rest) :
    positionAt text (byteSize before) =
      ⟨before.count '\n' + 1, (lastLine before).length + 1⟩ := by
  rw [positionAt, h, charsBefore_append, foldl_advance]

end Text

end SqlTidy
