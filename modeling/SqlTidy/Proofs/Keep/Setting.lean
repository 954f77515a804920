import SqlTidy.Grammar.Command
import SqlTidy.Proofs.Keep.Basic
import SqlTidy.Proofs.Partition

/-!
# Settings keep their literals

The key and the value of a setting are not read by rules: they are cut out of the source text, from one
token to another, and the white space around them is dropped. A literal survives this for two reasons. The
bytes of a token lie inside every slice from a token at or before it to a place behind it
(`infix_slice`). And a literal neither starts nor ends with white space, so none of it is dropped
(`infix_trim`, `Token.isSolid_of_isLiteral`). A word may end with a character that counts as white space,
and then it is not kept as a whole.
-/

namespace SqlTidy

open Text Scan

/-! ## Slices -/

namespace Text

/-- Of two beginnings of a text the one with fewer bytes is a beginning of the other. -/
theorem prefix_of_byteSize_le {as bs text : List Char} (ha : as <+: text) (hb : bs <+: text)
    (h : byteSize as ≤ byteSize bs) : as <+: bs := by
  rcases List.prefix_or_prefix_of_prefix ha hb with hab | ⟨cs, rfl⟩
  · exact hab
  · rw [byteSize_append] at h
    cases cs with
    | nil => exact ⟨[], by simp⟩
    | cons c cs =>
      have hpos : 0 < c.utf8Size := c.utf8Size_pos
      rw [byteSize_cons] at h
      omega

/-- What stands between two offsets is part of every slice around them. -/
theorem infix_slice {text : String} {start offset stop : Nat} {w rest : List Char}
    (hstart : IsBoundary text start) (hw : Remains text offset (w ++ rest))
    (hstop : IsBoundary text stop) (hle : start ≤ offset) (hle' : offset + byteSize w ≤ stop) :
    w <:+: ((slice? text start stop).getD "").toList := by
  obtain ⟨after, before, htext, rfl⟩ := hstart
  obtain ⟨front, hfront, rfl⟩ := hw
  obtain ⟨last, upto, hupto, rfl⟩ := hstop
  obtain ⟨xs, rfl⟩ : before <+: front :=
    prefix_of_byteSize_le ⟨after, htext.symm⟩ ⟨w ++ rest, hfront.symm⟩ hle
  obtain ⟨ys, rfl⟩ : before ++ xs ++ w <+: upto := by
    refine prefix_of_byteSize_le ⟨rest, ?_⟩ ⟨last, hupto.symm⟩ ?_
    · rw [hfront, List.append_assoc]
    · rwa [byteSize_append]
  have hremains : Remains text (byteSize before) ((xs ++ w ++ ys) ++ last) :=
    ⟨before, by simp [hupto], rfl⟩
  have hslice := hremains.slice?
  have hsize : byteSize before + byteSize (xs ++ w ++ ys) = byteSize (before ++ xs ++ w ++ ys) := by
    simp
  rw [hsize] at hslice
  rw [hslice, Option.getD_some, String.toList_ofList]
  exact ⟨xs, ys, rfl⟩

theorem infix_dropWhile {p : Char → Bool} {w cs : List Char} (hne : w ≠ [])
    (hw : StartsWithout p w) (h : w <:+: cs) : w <:+: cs.dropWhile p := by
  obtain ⟨xs, ys, rfl⟩ := h
  induction xs with
  | nil =>
    obtain ⟨c, w, rfl⟩ := List.exists_cons_of_ne_nil hne
    rw [List.nil_append, List.cons_append, List.dropWhile_cons_of_neg (by simpa using hw)]
    exact (List.prefix_append _ _).isInfix
  | cons x xs ih =>
    rw [List.cons_append, List.cons_append, List.dropWhile_cons]
    split
    · exact ih
    · exact ⟨x :: xs, ys, rfl⟩

/-- What has no white space at its ends survives trimming. -/
theorem infix_trim {w : List Char} {s : String} (hne : w ≠ []) (hw : StartsWithout isWhiteSpace w)
    (hw' : StartsWithout isWhiteSpace w.reverse) (h : w <:+: s.toList) :
    w <:+: (trim s).toList := by
  rw [trim, String.toList_ofList]
  have hreverse : w.reverse <:+: ((s.toList.dropWhile isWhiteSpace).reverse.dropWhile isWhiteSpace) :=
    infix_dropWhile (by simpa using hne) hw' (List.reverse_infix.2 (infix_dropWhile hne hw h))
  rwa [← List.reverse_infix, List.reverse_reverse]

/-- A character between the control characters and the higher white space. -/
theorem not_isWhiteSpace {c : Char} (h : 32 < c.toNat) (h' : c.toNat < 133) :
    isWhiteSpace c = false := by
  simp [isWhiteSpace, whiteSpaceRanges]
  omega

end Text

/-! ## The ends of a literal -/

namespace Scan

/-- A string literal ends with its quote. -/
theorem getLast?_of_closeString {q : Char} {cs : List Char} {cut : Cut}
    (h : closeString q cs = some cut) : cut.1.getLast? = some q := by
  fun_induction closeString q cs generalizing cut with
  | case1 => contradiction
  | case2 c cs ih =>
    obtain ⟨cut, hcut, rfl⟩ := Option.map_eq_some_iff.1 h
    simp [Cut.push, List.getLast?_cons, ih hcut]
  | case3 => contradiction
  | case4 =>
    cases h
    rfl
  | case5 => contradiction
  | case6 cs hslash ih =>
    obtain ⟨cut, hcut, rfl⟩ := Option.map_eq_some_iff.1 h
    simp [Cut.push, List.getLast?_cons, ih hcut]
  | case7 =>
    cases h
    rfl
  | case8 c d cs hslash hc ih =>
    obtain ⟨cut, hcut, rfl⟩ := Option.map_eq_some_iff.1 h
    simp [Cut.push, List.getLast?_cons, ih hcut]

theorem getLast?_of_closeRawString {q : Char} {cs : List Char} {cut : Cut}
    (h : closeRawString q cs = some cut) : cut.1.getLast? = some q := by
  fun_induction closeRawString q cs generalizing cut with
  | case1 => contradiction
  | case2 =>
    cases h
    rfl
  | case3 c cs hc ih =>
    obtain ⟨cut, hcut, rfl⟩ := Option.map_eq_some_iff.1 h
    simp [Cut.push, List.getLast?_cons, ih hcut]

theorem not_isWhiteSpace_of_isDigit {c : Char} (h : c.isDigit) : isWhiteSpace c = false := by
  rw [isDigit_iff] at h
  exact not_isWhiteSpace (by omega) (by omega)

theorem IsFraction.not_isWhiteSpace {f : List Char} (h : IsFraction f) :
    ∀ c ∈ f, isWhiteSpace c = false := by
  cases h with
  | none => simp
  | some hds => exact List.forall_mem_cons.2 ⟨rfl, fun d hd => not_isWhiteSpace_of_isDigit (hds d hd)⟩

theorem IsExponent.not_isWhiteSpace {e : List Char} (h : IsExponent e) :
    ∀ c ∈ e, isWhiteSpace c = false := by
  have hmark {c : Char} (hc : c = 'e' || c = 'E') : isWhiteSpace c = false := by
    rw [Bool.or_eq_true, decide_eq_true_eq, decide_eq_true_eq] at hc
    rcases hc with rfl | rfl <;> rfl
  cases h with
  | none => simp
  | plain hc hd hds =>
    refine List.forall_mem_cons.2 ⟨hmark hc, List.forall_mem_cons.2 ⟨?_, fun d hd => ?_⟩⟩
    · exact not_isWhiteSpace_of_isDigit hd
    · exact not_isWhiteSpace_of_isDigit (hds d hd)
  | signed hc hsign hd hds =>
    rw [Bool.or_eq_true, decide_eq_true_eq, decide_eq_true_eq] at hsign
    refine List.forall_mem_cons.2 ⟨hmark hc, List.forall_mem_cons.2 ⟨?_,
      List.forall_mem_cons.2 ⟨?_, fun d hd => ?_⟩⟩⟩
    · rcases hsign with rfl | rfl <;> rfl
    · exact not_isWhiteSpace_of_isDigit hd
    · exact not_isWhiteSpace_of_isDigit (hds d hd)

theorem IsSuffix.not_isWhiteSpace {s : List Char} (h : IsSuffix s) :
    ∀ c ∈ s, isWhiteSpace c = false := by
  have hletter {c : Char} (hc : isSuffix c) : isWhiteSpace c = false := by
    have := toNat_of_isSuffix hc
    exact Text.not_isWhiteSpace (by omega) (by omega)
  cases h with
  | none => simp
  | single hc => simpa using hletter hc
  | pair hc hd =>
    have hb := toNat_of_toLower_eq_b hc
    refine List.forall_mem_cons.2 ⟨Text.not_isWhiteSpace (by omega) (by omega), ?_⟩
    simpa using hletter (by simp [isSuffix, hd])

theorem IsNumber.not_isWhiteSpace {n : List Char} (h : IsNumber n) :
    ∀ c ∈ n, isWhiteSpace c = false := by
  obtain ⟨hds, hf, he, hs⟩ := h
  intro c hc
  simp only [List.mem_append] at hc
  rcases hc with (hc | hc) | hc | hc
  · exact not_isWhiteSpace_of_isDigit (hds c hc)
  · exact hf.not_isWhiteSpace c hc
  · exact he.not_isWhiteSpace c hc
  · exact hs.not_isWhiteSpace c hc

end Scan

namespace Token

/-- The characters of the token have no white space at their ends. -/
structure IsSolid (t : Token) : Prop where
  ne_nil : t.lexeme ≠ []
  starts : StartsWithout isWhiteSpace t.lexeme
  ends : StartsWithout isWhiteSpace t.lexeme.reverse

theorem not_isWhiteSpace_quote {q : Char} (h : q = '\x27' || q = '\x22') : isWhiteSpace q = false := by
  rw [Bool.or_eq_true, decide_eq_true_eq, decide_eq_true_eq] at h
  rcases h with rfl | rfl <;> rfl

theorem startsWithout_reverse {cs : List Char} {q : Char} (h : cs.getLast? = some q)
    (hq : isWhiteSpace q = false) : StartsWithout isWhiteSpace cs.reverse := by
  intro c hc
  rw [List.head?_reverse, h] at hc
  cases hc
  exact hq

theorem WellFormed.isSolid {t : Token} (h : t.WellFormed) (hlit : t.isLiteral) : t.IsSolid := by
  cases h with
  | word | symbol | eof => contradiction
  | quoted h =>
    refine ⟨nofun, startsWithout_cons.2 rfl, startsWithout_reverse (q := '\x60') ?_ rfl⟩
    rw [lexeme, ← List.cons_append, List.getLast?_concat]
  | @string s q cs hs hq h =>
    have hlexeme : lexeme (.string s) = q :: cs := hs
    have hlast := getLast?_of_closeString h
    refine ⟨by simp [hlexeme], ?_, startsWithout_reverse (q := q) ?_ (not_isWhiteSpace_quote hq)⟩
    · rw [hlexeme]
      exact startsWithout_cons.2 (not_isWhiteSpace_quote hq)
    · simp [hlexeme, List.getLast?_cons, hlast]
  | @rawString s r q cs hs hr hq h =>
    have hlexeme : lexeme (.string s) = r :: q :: cs := hs
    have hlast := getLast?_of_closeRawString h
    refine ⟨by simp [hlexeme], ?_, startsWithout_reverse (q := q) ?_ (not_isWhiteSpace_quote hq)⟩
    · rw [Bool.or_eq_true, decide_eq_true_eq, decide_eq_true_eq] at hr
      rw [hlexeme]
      rcases hr with rfl | rfl <;> exact startsWithout_cons.2 rfl
    · simp [hlexeme, List.getLast?_cons, hlast]
  | @number n h hstart =>
    refine ⟨?_, fun c hc => ?_, fun c hc => ?_⟩
    · intro hnil
      rw [show n.toList = [] from hnil] at hstart
      contradiction
    · exact h.not_isWhiteSpace c (List.mem_of_mem_head? hc)
    · exact h.not_isWhiteSpace c (List.mem_reverse.1 (List.mem_of_mem_head? hc))

end Token

/-! ## The bytes of a token -/

/-- Tokens follow each other. -/
theorem Scan.Tiles.pairwise {offset : Nat} {cs : List Char} {tokens : List Spanned}
    (h : Tiles offset cs tokens) :
    tokens.Pairwise (fun t u => t.start ≤ t.stop ∧ t.stop ≤ u.start) ∧
      ∀ t ∈ tokens, offset ≤ t.start := by
  induction h with
  | eof offset => simp
  | gap _ _ ih =>
    refine ⟨ih.1, fun t ht => ?_⟩
    have := ih.2 t ht
    omega
  | @token offset t c cs rest tokens ht hlexeme hc hrest ih =>
    refine ⟨List.pairwise_cons.2 ⟨fun u hu => ⟨Nat.le_add_right _ _, ih.2 u hu⟩, ih.1⟩, ?_⟩
    refine List.forall_mem_cons.2 ⟨Nat.le_refl _, fun u hu => ?_⟩
    have := ih.2 u hu
    omega

namespace Input

variable {i : Input}

theorem exists_of_tokenAt {k : Nat} (h : i.tokenAt k ≠ .eof) :
    ∃ t, i.tokens[k]? = some t ∧ t.token = i.tokenAt k := by
  unfold tokenAt at h ⊢
  cases ht : i.tokens[k]? with
  | none => simp [ht] at h
  | some t => exact ⟨t, rfl, rfl⟩

theorem startAt_of_getElem? {k : Nat} {t : Spanned} (h : i.tokens[k]? = some t) :
    i.startAt k = t.start := by
  rw [startAt, h]

theorem startAt_of_none {k : Nat} (h : i.tokens[k]? = none) :
    i.startAt k = i.source.utf8ByteSize := by
  rw [startAt, h]

theorem endBefore_of_getElem? {k : Nat} {t : Spanned} (h : i.tokens[k]? = some t) :
    i.endBefore (k + 1) = t.stop := by
  rw [endBefore, h]

namespace Scanned

variable (h : i.Scanned)

include h

/-- Where a token stands in the text. -/
theorem remains {k : Nat} (hk : i.tokenAt k ≠ .eof) :
    ∃ rest, Remains i.source (i.startAt k) ((i.tokenAt k).lexeme ++ rest) ∧
      i.endBefore (k + 1) = i.startAt k + byteSize (i.tokenAt k).lexeme := by
  obtain ⟨t, ht, htoken⟩ := exists_of_tokenAt hk
  have hmem : t ∈ i.tokens.toList := Array.mem_toList_iff.2 (Array.mem_of_getElem? ht)
  obtain ⟨rest, -, hremains, hstop⟩ :=
    (Token.tiles_of_scan h).lexemes (.start _) t hmem (htoken ▸ hk)
  rw [startAt_of_getElem? ht, endBefore_of_getElem? ht, ← htoken]
  exact ⟨rest, hremains, hstop⟩

theorem isBoundary_startAt (k : Nat) : IsBoundary i.source (i.startAt k) := by
  have hend : IsBoundary i.source i.source.utf8ByteSize := ⟨[], i.source.toList, by simp, by simp⟩
  cases ht : i.tokens[k]? with
  | none => rwa [startAt_of_none ht]
  | some t =>
    by_cases heof : i.tokenAt k = .eof
    · have hmem : t ∈ i.tokens.toList := Array.mem_toList_iff.2 (Array.mem_of_getElem? ht)
      have htoken : t.token = .eof := by rwa [tokenAt, ht] at heof
      obtain ⟨ts, htokens, hts⟩ := (Token.tiles_of_scan h).ends (.start _)
      rw [htokens, List.mem_append, List.mem_singleton] at hmem
      rcases hmem with hmem | rfl
      · exact absurd htoken (hts t hmem)
      · rwa [startAt_of_getElem? ht]
    · obtain ⟨rest, hremains, -⟩ := h.remains heof
      exact hremains.isBoundary

theorem startAt_le {j k : Nat} {t u : Spanned} (hjk : j < k) (ht : i.tokens[j]? = some t)
    (hu : i.tokens[k]? = some u) : t.start ≤ t.stop ∧ t.stop ≤ u.start := by
  rw [← Array.getElem?_toList] at ht hu
  obtain ⟨hj, rfl⟩ := List.getElem?_eq_some_iff.1 ht
  obtain ⟨hk, rfl⟩ := List.getElem?_eq_some_iff.1 hu
  exact List.pairwise_iff_getElem.1 (Token.tiles_of_scan h).pairwise.1 j k hj hk hjk

theorem startAt_mono {j k : Nat} (hjk : j ≤ k) (hk : i.tokenAt k ≠ .eof) :
    i.startAt j ≤ i.startAt k := by
  rcases Nat.eq_or_lt_of_le hjk with rfl | hlt
  · exact Nat.le_refl _
  obtain ⟨u, hu, -⟩ := exists_of_tokenAt hk
  obtain ⟨hsize, -⟩ := Array.getElem?_eq_some_iff.1 hu
  have ht : i.tokens[j]? = some i.tokens[j] := Array.getElem?_eq_getElem (by omega)
  have horder := h.startAt_le hlt ht hu
  rw [startAt_of_getElem? ht, startAt_of_getElem? hu]
  omega

theorem endBefore_le_startAt {k m : Nat} (hk : i.tokenAt k ≠ .eof) (hkm : k < m) :
    i.endBefore (k + 1) ≤ i.startAt m := by
  obtain ⟨t, ht, -⟩ := exists_of_tokenAt hk
  cases hu : i.tokens[m]? with
  | some u =>
    rw [endBefore_of_getElem? ht, startAt_of_getElem? hu]
    exact (h.startAt_le hkm ht hu).2
  | none =>
    obtain ⟨rest, ⟨before, htext, hbefore⟩, hstop⟩ := h.remains hk
    rw [startAt_of_none hu, hstop, ← byteSize_toList, htext, byteSize_append, byteSize_append]
    omega

/-- The bytes of a token are part of every slice around it. -/
theorem infix_slice {j k stop : Nat} (hjk : j ≤ k) (hk : i.tokenAt k ≠ .eof)
    (hstop : IsBoundary i.source stop) (hle : i.endBefore (k + 1) ≤ stop) :
    (i.tokenAt k).lexeme <:+: ((slice? i.source (i.startAt j) stop).getD "").toList := by
  obtain ⟨rest, hremains, hend⟩ := h.remains hk
  refine Text.infix_slice (h.isBoundary_startAt j) hremains hstop (h.startAt_mono hjk hk) ?_
  rwa [← hend]

theorem isSolid {k : Nat} (hlit : (i.tokenAt k).isLiteral) : (i.tokenAt k).IsSolid := by
  obtain ⟨t, ht, htoken⟩ := exists_of_tokenAt (Token.ne_eof_of_isLiteral hlit)
  have hmem : t ∈ i.tokens.toList := Array.mem_toList_iff.2 (Array.mem_of_getElem? ht)
  have hformed := Token.wellFormed_of_scan h t hmem
  rw [htoken] at hformed
  exact hformed.isSolid hlit

/-- A literal is also part of the slice without the white space around it. -/
theorem infix_trim_slice {j k stop : Nat} (hjk : j ≤ k) (hlit : (i.tokenAt k).isLiteral)
    (hstop : IsBoundary i.source stop) (hle : i.endBefore (k + 1) ≤ stop) :
    (i.tokenAt k).lexeme <:+: (trim ((slice? i.source (i.startAt j) stop).getD "")).toList := by
  have hsolid := h.isSolid hlit
  refine infix_trim hsolid.ne_nil hsolid.starts hsolid.ends ?_
  exact h.infix_slice hjk (Token.ne_eof_of_isLiteral hlit) hstop hle

/-- The last of some tokens ends at a boundary and behind all of them. -/
theorem endBefore_mono {j k m : Nat} (hjk : j ≤ k) (hkm : k < m)
    (htokens : ∀ n, j ≤ n → n < m → i.tokenAt n ≠ .eof) :
    IsBoundary i.source (i.endBefore m) ∧ i.endBefore (k + 1) ≤ i.endBefore m := by
  obtain ⟨m, rfl⟩ : ∃ n, m = n + 1 := ⟨m - 1, by omega⟩
  obtain ⟨rest, hremains, hend⟩ := h.remains (htokens m (by omega) (by omega))
  refine ⟨hend ▸ hremains.append.isBoundary, ?_⟩
  rcases Nat.eq_or_lt_of_le (Nat.le_of_lt_succ hkm) with rfl | hlt
  · exact Nat.le_refl _
  · have := h.endBefore_le_startAt (htokens k hjk hkm) hlt
    omega

end Scanned

end Input

/-! ## The rules -/

namespace Grammar

open Parse

variable {lost : Input → Nat → Prop} {i : Input} {start mid pos : Nat}

theorem ends_offset_bind {α : Type} {k : Nat → Parse α} {Q : α → Nat → Prop}
    (h : Ends (k (i.startAt pos)) i pos Q) : Ends (offset >>= k) i pos Q := h

theorem ends_previousEnd_bind {α : Type} {k : Nat → Parse α} {Q : α → Nat → Prop}
    (h : Ends (k (i.endBefore pos)) i pos Q) : Ends (previousEnd >>= k) i pos Q := h

theorem ends_slice_bind {α : Type} {start stop : Nat} {k : String → Parse α} {Q : α → Nat → Prop}
    (h : Ends (k ((slice? i.source start stop).getD "")) i pos Q) :
    Ends (slice start stop >>= k) i pos Q := h

/-- A text that is cut out without the white space around it. -/
theorem ends_rawText (start stop : Nat) : Ends (rawText start stop) i pos fun text next =>
    next = pos ∧ ∀ w, w ≠ [] → w <:+: (trim ((slice? i.source start stop).getD "")).toList →
      ∃ s ∈ text, w <:+: s.toList := by
  refine ends_slice_bind (.pure ⟨rfl, fun w hne hw => ?_⟩)
  split
  · rename_i hempty
    rw [String.isEmpty_iff.1 hempty] at hw
    exact absurd (List.infix_nil.1 hw) hne
  · exact ⟨_, rfl, hw⟩

/-- A step that takes one token of the statement, or none. -/
def Skips (step : Parse (Option Unit)) : Prop :=
  ∀ i pos, Ends step i pos fun a next =>
    (a = none → next = pos) ∧ (a = some () → next = pos + 1 ∧ i.tokenAt pos ≠ .eof)

theorem skips_skipToken : Skips skipToken := by
  intro i pos
  have htest : Ends inStatement i pos fun found next =>
      next = pos ∧ (found → i.tokenAt pos ≠ .eof) := by
    refine .current_bind ?_
    split
    · exact .pure ⟨rfl, nofun⟩
    · exact .pure ⟨rfl, nofun⟩
    · rename_i hne _
      exact .pure ⟨rfl, fun _ => hne⟩
  refine htest.bind fun found next hfound => ?_
  obtain ⟨rfl, hfound⟩ := hfound
  refine .ite (fun htrue => .skip_bind (hfound htrue) (.pure ⟨nofun, fun _ => ⟨rfl, hfound htrue⟩⟩)) ?_
  exact fun _ => .pure ⟨fun _ => rfl, nofun⟩

theorem skips_skipKeyToken : Skips skipKeyToken := by
  intro i pos
  refine .isSymbol_bind (.ite (fun _ => .pure ⟨fun _ => rfl, nofun⟩) fun _ => skips_skipToken i pos)

theorem Skips.ends_many {step : Parse (Option Unit)} (h : Skips step) :
    Ends (many step) i mid fun taken next => mid ≤ next ∧ (taken = [] → next = mid) ∧
      ∀ k, mid ≤ k → k < next → i.tokenAt k ≠ .eof := by
  refine .many ⟨Nat.le_refl mid, fun _ => rfl, fun k hk hk' => by omega⟩ fun taken pos htaken => ?_
  refine (h i pos).mono fun a next ha => ⟨fun hnone => ?_, fun c hc => ?_⟩
  · obtain rfl := ha.1 hnone
    exact htaken
  · obtain ⟨rfl, hpos⟩ := ha.2 hc
    refine ⟨by omega, by simp, fun k hk hk' => ?_⟩
    rcases Nat.lt_or_ge k pos with hlt | hge
    · exact htaken.2.2 k hk hlt
    · obtain rfl : k = pos := by omega
      exact hpos

theorem ends_rawSetting (hi : i.Scanned) : Ends rawSetting i mid fun setting next =>
    ∀ k, mid ≤ k → k < next → (i.tokenAt k).isLiteral →
      (∃ s ∈ setting.1, (i.tokenAt k).lexeme <:+: s.toList) ∨
      (∃ s ∈ setting.2, (i.tokenAt k).lexeme <:+: s.toList) ∧
        ∃ p < k, i.tokenAt p = .symbol .eq := by
  refine ends_offset_bind (skips_skipKeyToken.ends_many.bind fun skipped p hp => ?_)
  refine .isSymbol_bind (.ite (fun heq => ?_) fun _ => .ite (fun hempty => ?_) fun hne => ?_)
  · rw [decide_eq_true_eq] at heq
    refine ends_offset_bind ((ends_rawText _ _).bind fun key next hkey => ?_)
    obtain ⟨rfl, hkey⟩ := hkey
    refine .skip_bind (by simp [heq]) (ends_offset_bind ?_)
    refine skips_skipToken.ends_many.bind fun rest q hq => ?_
    have hbefore (k : Nat) (hk : mid ≤ k) (hk' : k < next) (hlit : (i.tokenAt k).isLiteral) :
        ∃ s ∈ key, (i.tokenAt k).lexeme <:+: s.toList := by
      have hne := Token.ne_eof_of_isLiteral hlit
      refine hkey _ (hi.isSolid hlit).ne_nil (hi.infix_trim_slice hk hlit ?_ ?_)
      · exact hi.isBoundary_startAt next
      · exact hi.endBefore_le_startAt hne hk'
    refine .ite (fun hempty => ?_) fun hne => ?_
    · rw [List.isEmpty_iff] at hempty
      obtain rfl := hq.2.1 hempty
      refine .pure fun k hk hk' hlit => .inl (hbefore k hk ?_ hlit)
      have hne : k ≠ next := fun h => by simp [h, heq, Token.isLiteral] at hlit
      omega
    · refine ends_previousEnd_bind ((ends_rawText _ _).bind fun value last hvalue => ?_)
      obtain ⟨rfl, hvalue⟩ := hvalue
      refine .pure fun k hk hk' hlit => ?_
      rcases Nat.lt_trichotomy k next with hlt | rfl | hgt
      · exact .inl (hbefore k hk hlt hlit)
      · simp [heq, Token.isLiteral] at hlit
      · obtain ⟨hboundary, hle⟩ := hi.endBefore_mono hgt hk' hq.2.2
        refine .inr ⟨hvalue _ (hi.isSolid hlit).ne_nil ?_, next, hgt, heq⟩
        exact hi.infix_trim_slice hgt hlit hboundary hle
  · rw [List.isEmpty_iff] at hempty
    obtain rfl := hp.2.1 hempty
    exact .pure fun k hk hk' => absurd hk (Nat.not_le_of_lt hk')
  · refine ends_previousEnd_bind ((ends_rawText _ _).bind fun key next hkey => .pure fun k hk hk' hlit => ?_)
    obtain ⟨rfl, hkey⟩ := hkey
    obtain ⟨hboundary, hle⟩ := hi.endBefore_mono hk hk' hp.2.2
    exact .inl (hkey _ (hi.isSolid hlit).ne_nil (hi.infix_trim_slice hk hlit hboundary hle))

theorem keeps_rawSetting : Keeps lost [] rawSetting := by
  intro i hi start mid hgiven
  refine (ends_rawSetting hi).mono fun setting next hsetting k hstart hk => ?_
  rcases Nat.lt_or_ge k mid with hmid | hmid
  · exact (hgiven k hstart hmid).mono (List.nil_subset _)
  · intro hlit
    rcases hsetting k hmid hk hlit with ⟨s, hs, hinfix⟩ | ⟨⟨s, hs, hinfix⟩, -⟩
    · exact .inr ⟨s, List.mem_append_left _ (Stored.mem_stored_option hs), hinfix⟩
    · exact .inr ⟨s, List.mem_append_right _ (Stored.mem_stored_option hs), hinfix⟩

/-- The source text of a catalog's name holds all its tokens. -/
theorem keeps_catalogName : Keeps lost [] catalogName := by
  intro i hi start mid hgiven
  refine ends_offset_bind (skips_skipToken.ends_many.bind fun _ next hnext => ?_)
  refine ends_previousEnd_bind fun name last hrun => ?_
  cases hrun
  intro k hstart hk
  rcases Nat.lt_or_ge k mid with hmid | hmid
  · exact (hgiven k hstart hmid).mono (List.nil_subset _)
  · obtain ⟨hboundary, hle⟩ := hi.endBefore_mono hmid hk hnext.2.2
    have hne := hnext.2.2 k hmid hk
    exact fun _ => .inr ⟨_, List.mem_singleton_self _, hi.infix_slice hmid hne hboundary hle⟩

end Grammar

end SqlTidy
