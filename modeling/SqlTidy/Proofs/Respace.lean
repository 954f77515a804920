import SqlTidy.Proofs.Partition
import SqlTidy.Proofs.Piece

/-!
# Blanks between tokens do not matter

**Theorem (`scan_of_spaced`).** If the texts that the tokens of a scanned text were read from are written
one after the other, with at least one blank between neighbours, then the new text is scanned to the same
tokens.

What a token is read as depends on the text behind it and on two things in front of it: whether a hint
is open, and whether a name stands right there. Behind every token of the new text stands a blank or
nothing, which prolongs no token (`Token.not_prolongs_of_isBlank`), and in front of it no name stands. Hints are
opened and closed by tokens alone, so the induction along the old scan carries the open hint from the old
text to the new one.
-/

namespace SqlTidy

open Scan Text

namespace Scan

/-- Texts one after the other, with blanks between neighbours. -/
inductive Spaced : List (List Char) → List Char → Prop
  | nil : Spaced [] []
  | single (w : List Char) : Spaced [w] w
  | cons {w w' cs : List Char} {ws : List (List Char)} (gap : List Char) (hgap : gap ≠ [])
      (hblank : ∀ c ∈ gap, isBlank c) (h : Spaced (w' :: ws) cs) :
      Spaced (w :: w' :: ws) (w ++ (gap ++ cs))

/-! ## Ends -/

/-- At the end of a text only an open hint matters. -/
theorem Reads.nil_congr {ctx ctx' : Context} {tokens : List Token} (h : Reads ctx [] tokens)
    (hhint : ctx'.inHint = ctx.inHint) : Reads ctx' [] tokens := by
  intro offset
  obtain ⟨spanned, hscan, hmap⟩ := h offset
  refine ⟨spanned, ?_, hmap⟩
  rw [scanFrom] at hscan ⊢
  rw [hhint, hscan]

/-! ## Tokens in front of blanks -/

theorem symbolAt_of_item {ctx : Context} {c : Char} {cs : List Char} {i : Item} {s : Symbol}
    (h : item ctx c cs = .ok i) (ht : i.token = some (.symbol s)) :
    ∃ n, symbolAt ctx.inHint c cs = some (s, n) := by
  unfold item at h
  simp only at h
  repeat' split at h
  all_goals
    cases h
    try cases ht
  exact ⟨_, by assumption⟩

/-- The closing mark of a hint is read only where one is open. -/
theorem inHint_of_symbolAt {inHint : Bool} {c : Char} {cs : List Char} {n : Nat}
    (h : symbolAt inHint c cs = some (.hintEnd, n)) : inHint = true := by
  unfold symbolAt at h
  split at h <;> try split at h
  all_goals
    first
    | assumption
    | cases h

theorem item_hintEnd {ctx : Context} (h : ctx.inHint = true) (rest : List Char) :
    item ctx '*' ('/' :: rest) = .ok ⟨some (.symbol .hintEnd), ['/']⟩ := by
  refine item_of_symbolAt (n := 1) rfl (by simp) (by simp) (by simp) ?_
  rw [h]
  rfl

/-- A token is read again from its lexeme, behind a blank or at the start of a text, and in front of a
blank or at the end of it. -/
theorem item_again {ctx : Context} {c : Char} {cs rest : List Char} {i : Item} {t : Token}
    (h : item ctx c cs = .ok i) (ht : i.token = some t)
    (hrest : StartsWithout (!isBlank ·) rest) :
    item ⟨ctx.inHint, false⟩ c (i.tail ++ rest) = .ok ⟨some t, i.tail⟩ := by
  have hwell := Token.wellFormed_of_item h ht
  obtain ⟨hlexeme, -⟩ := lexeme_of_item h ht
  have hprolongs : StartsWithout t.prolongs rest := by
    intro d hd
    exact t.not_prolongs_of_isBlank (by simpa using hrest d hd)
  cases t with
  | word w => exact item_word hwell hlexeme hprolongs
  | quoted w =>
    obtain ⟨rfl, htail⟩ := List.cons.inj hlexeme
    rw [← htail]
    exact item_quoted hwell hprolongs
  | string s => exact item_string hwell hlexeme hprolongs
  | number n => exact item_number hwell hlexeme hprolongs rfl
  | symbol s =>
    obtain ⟨hc, htail⟩ := List.cons.inj (s.toList_spelling.symm.trans hlexeme)
    rw [← hc, ← htail]
    by_cases hs : s = .hintEnd
    · subst hs
      obtain ⟨n, hsymbol⟩ := symbolAt_of_item h ht
      exact item_hintEnd (inHint_of_symbolAt hsymbol) rest
    · exact item_symbol hs hprolongs
  | eof => exact absurd ht (Token.ne_eof_of_item h)

/-! ## The whole text -/

theorem Spaced.startsWithout {w : List Char} {ws : List (List Char)} {cs : List Char}
    (h : Spaced (w :: ws) cs) : ∃ rest, cs = w ++ rest ∧ StartsWithout (!isBlank ·) rest ∧
      (ws = [] → rest = []) ∧
      (ws ≠ [] → ∃ gap cs', gap ≠ [] ∧ (∀ c ∈ gap, isBlank c) ∧ rest = gap ++ cs' ∧
        Spaced ws cs') := by
  cases h with
  | single => exact ⟨[], by simp, startsWithout_nil _, fun _ => rfl, fun hne => absurd rfl hne⟩
  | cons gap hgap hblank h =>
    refine ⟨_, rfl, ?_, nofun, fun _ => ⟨gap, _, hgap, hblank, rfl, h⟩⟩
    cases gap with
    | nil => contradiction
    | cons d gap => simp [hblank d (by simp)]

/-- The lexemes of a scan, respaced, are read where the scan was read. -/
theorem reads_of_scanFrom {cs : List Char} {skip offset : Nat} {ctx : Context}
    {tokens : List Spanned} (h : scanFrom cs skip offset ctx = .ok tokens) {ts : List Token}
    (hts : tokens.map (·.token) = ts ++ [.eof]) {text : List Char}
    (htext : Spaced (ts.map Token.lexeme) text) : Reads ⟨ctx.inHint, false⟩ text ts := by
  fun_induction scanFrom cs skip offset ctx generalizing tokens ts text with
  | case1 => contradiction
  | case2 skip offset ctx hhint =>
    cases h
    obtain rfl : ts = [] := by simpa using hts
    cases htext
    exact reads_nil (by simpa using hhint)
  | case3 offset ctx c cs skip ih => exact ih h hts htext
  | case4 => contradiction
  | case5 c cs offset ctx i hitem rest t htoken hrest ih =>
    cases h
    obtain ⟨us, hus, -⟩ := Token.exists_of_scanFrom hrest
    obtain rfl : ts = t :: us := by
      rw [List.map_cons, hus, ← List.cons_append] at hts
      exact (List.append_cancel_right hts).symm
    obtain ⟨behind, rfl, hblank, hlast, hmore⟩ := htext.startsWithout
    obtain ⟨hlexeme, -⟩ := lexeme_of_item hitem htoken
    have hagain := item_again hitem htoken hblank
    have hhint : (Context.after ⟨ctx.inHint, false⟩ ⟨some t, i.tail⟩).inHint =
        (ctx.after i).inHint := by
      simp only [Context.after, htoken]
    rw [hlexeme]
    refine Reads.token hagain ?_
    by_cases hnil : us = []
    · subst hnil
      rw [hlast rfl]
      exact (ih hrest hus .nil).nil_congr hhint
    · obtain ⟨gap, cs', hgap, hblanks, rfl, hspaced⟩ := hmore (by simpa using hnil)
      refine Reads.blanks hgap hblanks ?_
      rw [hhint]
      exact ih hrest hus hspaced
  | case6 c cs offset ctx i hitem hnone ih =>
    have hhint : (ctx.after i).inHint = ctx.inHint := by
      cases htoken : i.token with
      | none => simp [Context.after, htoken]
      | some t => exact absurd htoken (hnone _ t h)
    rw [← hhint]
    exact ih h hts htext

end Scan

namespace Token

variable {text respaced : String} {tokens : List Spanned}

/-- What a token was read from is its lexeme. -/
theorem source_of_scan (h : scan text = .ok tokens) :
    ∀ t ∈ tokens, t.token ≠ .eof → (t.source text).toList = t.token.lexeme := by
  intro t ht hne
  obtain ⟨rest, -, htext, hstop⟩ := (tiles_of_scan h).lexemes (.start text) t ht hne
  rw [Spanned.source, hstop, htext.slice?, Option.getD_some, String.toList_ofList]

/-- The source texts of all tokens but the end mark, with any blanks between them, are scanned to the
same tokens. -/
theorem scan_of_spaced (h : scan text = .ok tokens)
    (hspaced : Spaced ((tokens.filter (·.token ≠ .eof)).map fun t => (t.source text).toList)
      respaced.toList) :
    ∃ tokens', scan respaced = .ok tokens' ∧ tokens'.map (·.token) = tokens.map (·.token) := by
  obtain ⟨ts, rfl, hne⟩ := (tiles_of_scan h).ends (.start text)
  have hfilter : (ts ++ [(⟨.eof, text.utf8ByteSize, text.utf8ByteSize⟩ : Spanned)]).filter
      (·.token ≠ .eof) = ts := by
    rw [List.filter_append, List.filter_eq_self.2 (by simpa using hne)]
    simp
  have hsources : ts.map (fun t => (t.source text).toList) = (ts.map (·.token)).map lexeme := by
    rw [List.map_map]
    refine List.map_congr_left fun t ht => ?_
    exact source_of_scan h t (List.mem_append_left _ ht) (hne t ht)
  rw [hfilter, hsources] at hspaced
  have hreads := reads_of_scanFrom h (by simp) hspaced
  obtain ⟨tokens', hscan, hmap⟩ := hreads 0
  exact ⟨tokens', hscan, by simpa using hmap⟩

/-- The tokens of `/*+a.5*/r`. -/
def hintedTokens : List Spanned :=
  [⟨.symbol .hintStart, 0, 3⟩, ⟨.word "a", 3, 4⟩, ⟨.symbol .dot, 4, 5⟩, ⟨.number "5", 5, 6⟩,
    ⟨.symbol .hintEnd, 6, 8⟩, ⟨.word "r", 8, 9⟩, ⟨.eof, 9, 9⟩]

/-- A word, a dot and a number side by side in a hint, and a word right behind it. -/
theorem scan_of_spaced_hint :
    scan "/*+a.5*/r" = .ok hintedTokens ∧
      Spaced ((hintedTokens.filter (·.token ≠ .eof)).map fun t => (t.source "/*+a.5*/r").toList)
        "/*+ a\n.\t 5 */ r".toList ∧
      ∃ tokens', scan "/*+ a\n.\t 5 */ r" = .ok tokens' ∧
        tokens'.map (·.token) = hintedTokens.map (·.token) := by
  have hscan : scan "/*+a.5*/r" = .ok hintedTokens := by decide +kernel
  have hsources : (hintedTokens.filter (·.token ≠ .eof)).map
      (fun t => (t.source "/*+a.5*/r").toList) =
        [['/', '*', '+'], ['a'], ['.'], ['5'], ['*', '/'], ['r']] := by
    decide +kernel
  have hchars : "/*+ a\n.\t 5 */ r".toList =
      ['/', '*', '+', ' ', 'a', '\n', '.', '\t', ' ', '5', ' ', '*', '/', ' ', 'r'] := by
    decide +kernel
  have hspaced : Spaced [['/', '*', '+'], ['a'], ['.'], ['5'], ['*', '/'], ['r']]
      "/*+ a\n.\t 5 */ r".toList := by
    rw [hchars]
    exact .cons [' '] (by simp) (by simp [isBlank]) (.cons ['\n'] (by simp) (by simp [isBlank])
      (.cons ['\t', ' '] (by simp) (by simp [isBlank]) (.cons [' '] (by simp) (by simp [isBlank])
        (.cons [' '] (by simp) (by simp [isBlank]) (.single ['r'])))))
  rw [← hsources] at hspaced
  exact ⟨hscan, hspaced, scan_of_spaced hscan hspaced⟩

end Token

end SqlTidy
