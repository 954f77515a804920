import Mathlib.Data.List.Chain
import SqlTidy.Proofs.Lexeme

/-!
# Tokens and gaps partition a text

**Theorem (`partition_of_scan`).** The tokens of a scanned text and the gaps between them cover the
text without overlap: every token spells its own bytes, every range between two tokens is made of
blanks and comments, and one end mark stands behind the last byte.

**Comments** (`CommentTail`). A comment is described without counting levels: behind its opening mark
stand characters and whole comments, and then the closing mark. The scanner does count levels, so a
scan that has several comments open is matched by one tail for each of them (`tails_of_closeComment`).

**Tilings** (`Tiles`). The scanner goes from item to item. What it has done to a text is recorded item by
item, as a relation between an offset, the text from there on, and the tokens. All parts of the theorem
are read off this relation by induction, and none of them has to look into the scanner again.
-/

namespace SqlTidy

/-! ## Slices -/

namespace Text

/-- The characters that are left of a text from a byte offset on. -/
def Remains (text : String) (offset : Nat) (cs : List Char) : Prop :=
  ∃ before, text.toList = before ++ cs ∧ byteSize before = offset

/-- Whether a byte offset does not fall inside a character. -/
def IsBoundary (text : String) (offset : Nat) : Prop := ∃ cs, Remains text offset cs

theorem dropBytes_cons {n : Nat} {c : Char} (h : c.utf8Size ≤ n) (cs : List Char) :
    dropBytes n (c :: cs) = dropBytes (n - c.utf8Size) cs := by
  have hpos : 0 < c.utf8Size := c.utf8Size_pos
  cases n with
  | zero => omega
  | succ n => simp [dropBytes, h]

theorem takeBytes_cons {n : Nat} {c : Char} (h : c.utf8Size ≤ n) (cs : List Char) :
    takeBytes n (c :: cs) = (takeBytes (n - c.utf8Size) cs).map (c :: ·) := by
  have hpos : 0 < c.utf8Size := c.utf8Size_pos
  cases n with
  | zero => omega
  | succ n => simp [takeBytes, h]

theorem dropBytes_append (cs rest : List Char) :
    dropBytes (byteSize cs) (cs ++ rest) = some rest := by
  induction cs with
  | nil => cases rest <;> rfl
  | cons c cs ih =>
    rw [byteSize_cons, List.cons_append, dropBytes_cons (Nat.le_add_right _ _),
      Nat.add_sub_cancel_left, ih]

theorem takeBytes_append (cs rest : List Char) :
    takeBytes (byteSize cs) (cs ++ rest) = some cs := by
  induction cs with
  | nil => cases rest <;> rfl
  | cons c cs ih =>
    rw [byteSize_cons, List.cons_append, takeBytes_cons (Nat.le_add_right _ _),
      Nat.add_sub_cancel_left, ih, Option.map_some]

namespace Remains

variable {text : String} {offset : Nat} {cs ds : List Char}

theorem start (text : String) : Remains text 0 text.toList := ⟨[], rfl, rfl⟩

theorem append (h : Remains text offset (cs ++ ds)) : Remains text (offset + byteSize cs) ds := by
  obtain ⟨before, htext, hsize⟩ := h
  refine ⟨before ++ cs, ?_, ?_⟩
  · rw [htext, List.append_assoc]
  · rw [byteSize_append, hsize]

theorem isBoundary (h : Remains text offset cs) : IsBoundary text offset := ⟨cs, h⟩

theorem slice? (h : Remains text offset (cs ++ ds)) :
    slice? text offset (offset + byteSize cs) = some (String.ofList cs) := by
  obtain ⟨before, htext, rfl⟩ := h
  have hsub : byteSize before + byteSize cs - byteSize before = byteSize cs := by omega
  rw [Text.slice?, if_pos (Nat.le_add_right _ _), htext, dropBytes_append, Option.bind_some, hsub,
    takeBytes_append, Option.map_some]

/-- Nothing is left at the end of the text. -/
theorem eq_utf8ByteSize (h : Remains text offset []) : offset = text.utf8ByteSize := by
  obtain ⟨before, htext, rfl⟩ := h
  rw [List.append_nil] at htext
  rw [← byteSize_toList, htext]

end Remains

end Text

open Text

/-! ## Comments and gaps -/

namespace Scan

/-- What follows the opening mark of a comment, up to and including the mark that closes it. -/
inductive CommentTail : List Char → Prop
  | close : CommentTail ['*', '/']
  /-- A comment inside, with its own tail. -/
  | nested {inner rest : List Char} (hinner : CommentTail inner) (hrest : CommentTail rest) :
      CommentTail ('/' :: '*' :: (inner ++ rest))
  /-- A character that starts neither mark. -/
  | char {c : Char} {rest : List Char} (hopen : ¬ ['/', '*'] <+: c :: rest)
      (hclose : ¬ ['*', '/'] <+: c :: rest) (hrest : CommentTail rest) : CommentTail (c :: rest)

/-- What may stand between two tokens: blanks and comments. A comment behind two dashes runs to the end
of its line, and only `atEnd` may it run to the end of the gap. -/
inductive Gap (atEnd : Prop) : List Char → Prop
  | nil : Gap atEnd []
  | blank {c : Char} {cs : List Char} (hc : isBlank c) (h : Gap atEnd cs) : Gap atEnd (c :: cs)
  | line {body cs : List Char} (hbody : ∀ c ∈ body, c ≠ '\n') (h : Gap atEnd ('\n' :: cs)) :
      Gap atEnd ('-' :: '-' :: (body ++ '\n' :: cs))
  | lastLine {body : List Char} (hbody : ∀ c ∈ body, c ≠ '\n') (hend : atEnd) :
      Gap atEnd ('-' :: '-' :: body)
  | block {tail cs : List Char} (htail : CommentTail tail) (hplus : tail.head? ≠ some '+')
      (h : Gap atEnd cs) : Gap atEnd ('/' :: '*' :: (tail ++ cs))

theorem CommentTail.ne_nil {cs : List Char} (h : CommentTail cs) : cs ≠ [] := by
  cases h <;> simp

/-- Two texts with a common start, of which the first is not empty, start with the same mark of two
characters or with none. -/
theorem pair_isPrefix_cons {a b c : Char} {cs ds : List Char} (hne : cs ≠ []) :
    [a, b] <+: c :: cs ↔ [a, b] <+: c :: (cs ++ ds) := by
  cases cs with
  | nil => contradiction
  | cons d cs => simp [List.cons_prefix_cons]

/-- With `depth` comments open inside a comment, the scanner takes one tail for each of them. -/
theorem tails_of_closeComment {depth : Nat} {cs : List Char} {cut : Cut}
    (h : closeComment depth cs = some cut) :
    ∃ tails : List (List Char), tails.length = depth + 1 ∧ tails.flatten = cut.1 ∧
      ∀ t ∈ tails, CommentTail t := by
  fun_induction closeComment depth cs generalizing cut with
  | case1 => contradiction
  | case2 depth cs ih =>
    obtain ⟨cut, hcut, rfl⟩ := Option.map_eq_some_iff.1 h
    obtain ⟨tails, hlength, hflat, htails⟩ := ih hcut
    -- The innermost comment ends first, and then it is a part of the one around it.
    obtain ⟨inner, tails, rfl⟩ := List.exists_cons_of_length_eq_add_one hlength
    rw [List.length_cons, Nat.add_right_cancel_iff] at hlength
    obtain ⟨rest, tails, rfl⟩ := List.exists_cons_of_length_eq_add_one hlength
    refine ⟨('/' :: '*' :: (inner ++ rest)) :: tails, by simpa using hlength, ?_, ?_⟩
    · simpa [Cut.push] using hflat
    · intro t ht
      rcases List.mem_cons.1 ht with rfl | ht
      · exact .nested (htails inner (by simp)) (htails rest (by simp))
      · exact htails t (by simp [ht])
  | case3 cs =>
    cases h
    exact ⟨[['*', '/']], rfl, rfl, by simpa using CommentTail.close⟩
  | case4 cs depth ih =>
    obtain ⟨cut, hcut, rfl⟩ := Option.map_eq_some_iff.1 h
    obtain ⟨tails, hlength, hflat, htails⟩ := ih hcut
    refine ⟨['*', '/'] :: tails, by simpa using hlength, ?_, ?_⟩
    · simpa [Cut.push] using hflat
    · exact List.forall_mem_cons.2 ⟨.close, htails⟩
  | case5 depth c cs hopen hclose hcloseIn ih =>
    obtain ⟨cut, hcut, rfl⟩ := Option.map_eq_some_iff.1 h
    obtain ⟨tails, hlength, hflat, htails⟩ := ih hcut
    obtain ⟨tail, tails, rfl⟩ := List.exists_cons_of_length_eq_add_one hlength
    have htail : CommentTail tail := htails tail (by simp)
    have hcs : cs = tail ++ (tails.flatten ++ cut.2) := by
      rw [← List.append_assoc, ← List.flatten_cons, hflat]
      exact (whole_of_closeComment hcut).symm
    refine ⟨(c :: tail) :: tails, by simpa using hlength, ?_, ?_⟩
    · simpa [Cut.push] using hflat
    · refine List.forall_mem_cons.2 ⟨.char ?_ ?_ htail, fun t ht => htails t (by simp [ht])⟩
      · rw [pair_isPrefix_cons htail.ne_nil, ← hcs]
        rintro ⟨rest, hrest⟩
        injection hrest with hc hrest
        exact hopen rest hc.symm hrest.symm
      · rw [pair_isPrefix_cons htail.ne_nil, ← hcs]
        rintro ⟨rest, hrest⟩
        injection hrest with hc hrest
        cases depth with
        | zero => exact hclose rest rfl hc.symm hrest.symm
        | succ depth => exact hcloseIn depth rest rfl hc.symm hrest.symm

theorem commentTail_of_closeComment {cs : List Char} {cut : Cut}
    (h : closeComment 0 cs = some cut) : CommentTail cut.1 := by
  obtain ⟨tails, hlength, hflat, htails⟩ := tails_of_closeComment h
  obtain ⟨tail, rfl⟩ := List.length_eq_one_iff.1 hlength
  rw [← hflat]
  simpa using htails tail (by simp)

/-- A gap of a single item, in front of the rest of the text. -/
inductive GapItem : List Char → List Char → Prop
  | blank {c : Char} {rest : List Char} (hc : isBlank c) : GapItem [c] rest
  | line {body rest : List Char} (hbody : ∀ c ∈ body, c ≠ '\n')
      (hrest : StartsWithout (· ≠ '\n') rest) : GapItem ('-' :: '-' :: body) rest
  | block {tail rest : List Char} (htail : CommentTail tail) (hplus : tail.head? ≠ some '+') :
      GapItem ('/' :: '*' :: tail) rest

/-- A symbol is read from its spelling. -/
theorem spelling_of_symbolAt {inHint : Bool} {c : Char} {cs : List Char} {s : Symbol} {n : Nat}
    (h : symbolAt inHint c cs = some (s, n)) : s.spelling.toList = c :: cs.take n := by
  unfold symbolAt at h
  split at h <;> try split at h
  all_goals
    cases h
    try rfl

theorem gapItem_of_item {ctx : Context} {c : Char} {cs rest : List Char} {i : Item}
    (h : item ctx c cs = .ok i) (hnone : i.token = none) (hcs : cs = i.tail ++ rest) :
    GapItem (c :: i.tail) rest := by
  unfold item at h
  simp only at h
  split at h
  · rename_i hblank
    cases h
    exact .blank hblank
  split at h
  · rename_i hdash
    cases h
    simp only [Bool.and_eq_true, decide_eq_true_eq] at hdash
    obtain ⟨rfl, hdash⟩ := hdash
    match cs with
    | d :: cs =>
      obtain rfl : d = '-' := by simpa using hdash
      have hrest : rest = cs.dropWhile (· ≠ '\n') := by
        have hsplit : ('-' :: cs).takeWhile (· ≠ '\n') ++ rest = '-' :: cs := hcs.symm
        rw [List.takeWhile_cons_of_pos (by decide), List.cons_append] at hsplit
        have hwhole := List.takeWhile_append_dropWhile (p := fun c => c ≠ '\n') (l := cs)
        exact List.append_cancel_left ((List.cons.inj hsplit).2.trans hwhole.symm)
      rw [List.takeWhile_cons_of_pos (by decide)]
      refine .line ?_ (hrest ▸ startsWithout_dropWhile _ _)
      simpa using List.all_eq_true.1 (List.all_takeWhile (p := fun c => c ≠ '\n') (l := cs))
  split at h
  · rename_i hopens
    split at h
    · rename_i cut hcut
      cases h
      simp only [Bool.and_eq_true, decide_eq_true_eq, ne_eq] at hopens
      obtain ⟨⟨rfl, hstar⟩, hplus⟩ := hopens
      have htail := commentTail_of_closeComment hcut
      refine .block htail fun hhead => hplus ?_
      rw [← whole_of_closeComment hcut, Cut.whole, List.head?_append, hhead]
      rfl
    · contradiction
  repeat' split at h
  all_goals
    cases h
    try contradiction

/-- A token's lexeme is what the item takes. -/
theorem lexeme_of_item {ctx : Context} {c : Char} {cs : List Char} {i : Item} {t : Token}
    (h : item ctx c cs = .ok i) (ht : i.token = some t) :
    t.lexeme = c :: i.tail ∧ isBlank c = false := by
  unfold item at h
  simp only at h
  split at h
  · cases h
    contradiction
  rename_i hblank
  refine ⟨?_, by simpa using hblank⟩
  split at h
  · cases h
    contradiction
  split at h
  · split at h
    · cases h
      contradiction
    · contradiction
  split at h
  · split at h
    · cases h
      cases ht
      exact String.toList_ofList
    · contradiction
  split at h
  · rename_i hquote
    split at h
    · cases h
      cases ht
      rw [Token.lexeme, String.toList_ofList, hquote]
    · contradiction
  split at h
  · cases h
    cases ht
    exact String.toList_ofList
  split at h
  · split at h
    · split at h
      · cases h
        cases ht
        exact String.toList_ofList
      · contradiction
    · contradiction
  split at h
  · cases h
    cases ht
    exact String.toList_ofList
  split at h
  · rename_i s n hsymbol
    cases h
    cases ht
    exact spelling_of_symbolAt hsymbol
  · contradiction

/-! ## Tilings -/

/-- The text from an offset on, item by item, with the tokens that stand in it. -/
inductive Tiles : Nat → List Char → List Spanned → Prop
  | eof (offset : Nat) : Tiles offset [] [⟨.eof, offset, offset⟩]
  | gap {offset : Nat} {g rest : List Char} {tokens : List Spanned} (hgap : GapItem g rest)
      (hrest : Tiles (offset + byteSize g) rest tokens) : Tiles offset (g ++ rest) tokens
  | token {offset : Nat} {t : Token} {c : Char} {cs rest : List Char} {tokens : List Spanned}
      (ht : t ≠ .eof) (hlexeme : t.lexeme = c :: cs) (hc : isBlank c = false)
      (hrest : Tiles (offset + byteSize (c :: cs)) rest tokens) :
      Tiles offset (c :: (cs ++ rest)) (⟨t, offset, offset + byteSize (c :: cs)⟩ :: tokens)

/-- A scan tiles its text. The characters that are skipped belong to the item before. -/
theorem tiles_of_scanFrom {cs : List Char} {skip offset : Nat} {ctx : Context}
    {tokens : List Spanned} (h : scanFrom cs skip offset ctx = .ok tokens) :
    Tiles (offset + byteSize (cs.take skip)) (cs.drop skip) tokens := by
  fun_induction scanFrom cs skip offset ctx generalizing tokens with
  | case1 => contradiction
  | case2 skip offset ctx =>
    cases h
    simpa using Tiles.eof offset
  | case3 offset ctx c cs skip ih => simpa [Nat.add_assoc] using ih h
  | case4 => contradiction
  | case5 c cs offset ctx i hitem rest t htoken hrest ih =>
    cases h
    obtain ⟨after, rfl⟩ := tail_isPrefix_of_item hitem
    obtain ⟨hlexeme, hblank⟩ := lexeme_of_item hitem htoken
    have hne : t ≠ .eof := fun heq => Token.ne_eof_of_item hitem (heq ▸ htoken)
    have htiles := ih hrest
    rw [List.take_left, List.drop_left, Nat.add_assoc, ← byteSize_cons] at htiles
    exact .token hne hlexeme hblank htiles
  | case6 c cs offset ctx i hitem hnone ih =>
    obtain ⟨after, rfl⟩ := tail_isPrefix_of_item hitem
    have hgap : i.token = none := by
      cases htoken : i.token with
      | none => rfl
      | some t =>
        obtain ⟨rest, hrest⟩ : ∃ rest, scanFrom (i.tail ++ after) i.tail.length
            (offset + c.utf8Size) (ctx.after i) = .ok rest := by
          exact ⟨_, h⟩
        exact absurd htoken (hnone rest t hrest)
    have htiles := ih h
    rw [List.take_left, List.drop_left, Nat.add_assoc, ← byteSize_cons] at htiles
    exact .gap (gapItem_of_item hitem hgap rfl) htiles

theorem Gap.mono {p q : Prop} {cs : List Char} (h : Gap p cs) (hpq : p → q) : Gap q cs := by
  induction h with
  | nil => exact .nil
  | blank hc _ ih => exact .blank hc ih
  | line hbody _ ih => exact .line hbody ih
  | lastLine hbody hend => exact .lastLine hbody (hpq hend)
  | block htail hplus _ ih => exact .block htail hplus ih

/-- One more item in front of a gap, where `rest` is the text behind the gap. A comment behind two dashes
has to see its line end in the gap, unless the text ends there. -/
theorem GapItem.append {item g rest : List Char} (h : GapItem item (g ++ rest))
    (hline : (g ++ rest).head? = some '\n' → g.head? = some '\n') (hg : Gap (rest = []) g) :
    Gap (rest = []) (item ++ g) := by
  cases h with
  | blank hc => exact .blank hc hg
  | @line body _ hbody hrest =>
    cases hg' : g ++ rest with
    | nil =>
      obtain ⟨rfl, rfl⟩ := List.append_eq_nil_iff.1 hg'
      rw [List.append_nil]
      exact .lastLine hbody rfl
    | cons c cs =>
      rw [hg', startsWithout_cons] at hrest
      have hc : c = '\n' := by simpa using hrest
      have hhead : g.head? = some '\n' := hline (by rw [hg', hc, List.head?_cons])
      match g with
      | d :: g =>
        obtain rfl : d = '\n' := by simpa using hhead
        exact .line hbody hg
  | block htail hplus => exact .block htail hplus hg

/-- A range of the text that holds nothing but blanks and comments. -/
def IsGap (text : String) (range : Nat × Nat) : Prop :=
  ∃ between, slice? text range.1 range.2 = some between ∧
    Gap (range.2 = text.utf8ByteSize) between.toList

end Scan

/-! ## The partition -/

namespace Spanned

/-- The bytes of a token are what it is written with. -/
def Spells (text : String) (t : Spanned) : Prop :=
  match t.token with
  | .word w | .string w | .number w => slice? text t.start t.stop = some w
  | .quoted w => slice? text (t.start + 1) (t.stop - 1) = some w
  | .symbol s => slice? text t.start t.stop = some s.spelling
  | .eof => False

/-- The text that a token was read from. -/
def source (text : String) (t : Spanned) : String := (slice? text t.start t.stop).getD ""

end Spanned

namespace Token

open Scan

/-- The ranges in front of each token, of which the first starts at an offset. -/
def gapRanges : Nat → List Spanned → List (Nat × Nat)
  | _, [] => []
  | offset, t :: ts => (offset, t.start) :: gapRanges t.stop ts

/-- Tokens that divide a text into themselves and gaps. -/
structure Partition (text : String) (tokens : List Spanned) : Prop where
  /-- The end mark stands behind the last byte and nowhere else. -/
  ends : ∃ ts, tokens = ts ++ [⟨.eof, text.utf8ByteSize, text.utf8ByteSize⟩] ∧
    ∀ t ∈ ts, t.token ≠ .eof
  /-- Every other token takes some bytes, which are whole characters and spell the token. -/
  spells : ∀ t ∈ tokens, t.token ≠ .eof → t.start < t.stop ∧ IsBoundary text t.start ∧
    IsBoundary text t.stop ∧ t.Spells text
  /-- No token starts before the previous one has ended. -/
  ordered : tokens.IsChain fun t u => t.stop ≤ u.start
  /-- What is left between tokens, and at both ends, is made of blanks and comments. -/
  gaps : ∀ range ∈ gapRanges 0 tokens, IsGap text range

end Token

namespace Scan.Tiles

open Token

variable {text : String} {offset : Nat} {cs : List Char} {tokens : List Spanned}

theorem ends (h : Tiles offset cs tokens) (htext : Remains text offset cs) :
    ∃ ts, tokens = ts ++ [⟨.eof, text.utf8ByteSize, text.utf8ByteSize⟩] ∧
      ∀ t ∈ ts, t.token ≠ .eof := by
  induction h with
  | eof offset =>
    rw [htext.eq_utf8ByteSize]
    exact ⟨[], rfl, by simp⟩
  | gap _ _ ih => exact ih htext.append
  | @token offset t c cs rest tokens ht hlexeme hc hrest ih =>
    rw [← List.cons_append] at htext
    obtain ⟨ts, rfl, hts⟩ := ih htext.append
    exact ⟨⟨t, offset, offset + byteSize (c :: cs)⟩ :: ts, rfl, List.forall_mem_cons.2 ⟨ht, hts⟩⟩

/-- Every token was read from its lexeme. -/
theorem lexemes (h : Tiles offset cs tokens) (htext : Remains text offset cs) :
    ∀ t ∈ tokens, t.token ≠ .eof → ∃ rest, t.token.lexeme ≠ [] ∧
      Remains text t.start (t.token.lexeme ++ rest) ∧
      t.stop = t.start + byteSize t.token.lexeme := by
  induction h with
  | eof offset => simp
  | gap _ _ ih => exact ih htext.append
  | @token offset t c cs rest tokens ht hlexeme hc hrest ih =>
    rw [← List.cons_append] at htext
    refine List.forall_mem_cons.2 ⟨fun _ => ⟨rest, ?_, ?_, ?_⟩, ih htext.append⟩
    · simp [hlexeme]
    · rwa [hlexeme]
    · rw [hlexeme]

theorem ordered (h : Tiles offset cs tokens) :
    (tokens.IsChain fun t u => t.stop ≤ u.start) ∧ ∀ t ∈ tokens.head?, offset ≤ t.start := by
  induction h with
  | eof offset => simp
  | gap _ _ ih =>
    refine ⟨ih.1, fun t ht => ?_⟩
    have := ih.2 t ht
    omega
  | token _ _ _ _ ih => exact ⟨List.isChain_cons.2 ⟨ih.2, ih.1⟩, by simp⟩

theorem isGap_of_append {g rest : List Char} (hg : Gap (rest = []) g)
    (htext : Remains text offset (g ++ rest)) : IsGap text (offset, offset + byteSize g) := by
  refine ⟨String.ofList g, htext.slice?, ?_⟩
  rw [String.toList_ofList]
  refine hg.mono ?_
  rintro rfl
  exact htext.append.eq_utf8ByteSize

/-- The first gap is part of what is still to be tiled, so it is described on its own: it is `g`, and the
first token starts behind it. -/
theorem gaps (h : Tiles offset cs tokens) (htext : Remains text offset cs) :
    ∃ g rest t ts, cs = g ++ rest ∧ tokens = t :: ts ∧ t.start = offset + byteSize g ∧
      Gap (rest = []) g ∧ (cs.head? = some '\n' → g.head? = some '\n') ∧
      ∀ range ∈ gapRanges t.stop ts, IsGap text range := by
  induction h with
  | eof offset => exact ⟨[], [], _, [], rfl, rfl, rfl, .nil, by simp, by simp [gapRanges]⟩
  | @gap offset item rest tokens hgap hrest ih =>
    obtain ⟨g, rest, t, ts, rfl, rfl, hstart, hg, hline, hranges⟩ := ih htext.append
    refine ⟨item ++ g, rest, t, ts, by rw [List.append_assoc], rfl, ?_, hgap.append hline hg, ?_,
      hranges⟩
    · rw [hstart, byteSize_append, Nat.add_assoc]
    · cases hgap <;> simp
  | @token offset t c cs rest tokens ht hlexeme hc hrest ih =>
    rw [← List.cons_append] at htext
    obtain ⟨g, rest, u, ts, rfl, rfl, hstart, hg, hline, hranges⟩ := ih htext.append
    refine ⟨[], c :: (cs ++ (g ++ rest)), _, u :: ts, rfl, rfl, rfl, .nil, ?_, ?_⟩
    · intro hnewline
      obtain rfl : c = '\n' := by simpa using hnewline
      contradiction
    · rw [gapRanges]
      refine List.forall_mem_cons.2 ⟨?_, hranges⟩
      rw [hstart]
      exact isGap_of_append hg htext.append

end Scan.Tiles

namespace Token

open Scan

variable {text : String} {tokens : List Spanned}

theorem tiles_of_scan (h : scan text = .ok tokens) : Tiles 0 text.toList tokens := by
  simpa using tiles_of_scanFrom h

/-- A token that was read from its lexeme is spelled by its bytes. -/
theorem spells_of_remains {t : Spanned} {rest : List Char} (hne : t.token ≠ .eof)
    (htext : Remains text t.start (t.token.lexeme ++ rest))
    (hstop : t.stop = t.start + byteSize t.token.lexeme) : t.Spells text := by
  obtain ⟨token, start, stop⟩ := t
  simp only at hne htext hstop
  subst hstop
  cases token with
  | word w => simpa [Spanned.Spells, lexeme] using htext.slice?
  | string s => simpa [Spanned.Spells, lexeme] using htext.slice?
  | number n => simpa [Spanned.Spells, lexeme] using htext.slice?
  | symbol s => simpa [Spanned.Spells, lexeme] using htext.slice?
  | quoted w =>
    -- The slice leaves out the backticks, which take one byte each.
    have hinner : Remains text (start + 1) (w.toList ++ ('\x60' :: rest)) := by
      have htick : Remains text start (['\x60'] ++ (w.toList ++ ('\x60' :: rest))) := by
        simpa [lexeme] using htext
      exact htick.append
    have hstop : start + byteSize (lexeme (.quoted w)) - 1 = start + 1 + byteSize w.toList := by
      have hsize : byteSize (lexeme (.quoted w)) = byteSize w.toList + 2 := by
        simp [lexeme, show '\x60'.utf8Size = 1 from rfl]
        omega
      omega
    show slice? text (start + 1) (start + byteSize (lexeme (.quoted w)) - 1) = some w
    rw [hstop, hinner.slice?, String.ofList_toList]
  | eof => contradiction

/-- Scanning a text partitions it into tokens and gaps. -/
theorem partition_of_scan (h : scan text = .ok tokens) : Partition text tokens where
  ends := (tiles_of_scan h).ends (.start text)
  spells t ht hne := by
    obtain ⟨rest, hlexeme, htext, hstop⟩ := (tiles_of_scan h).lexemes (.start text) t ht hne
    have hsize : 0 < byteSize t.token.lexeme := by
      match t.token.lexeme, hlexeme with
      | c :: cs, _ =>
        have hpos : 0 < c.utf8Size := c.utf8Size_pos
        rw [byteSize_cons]
        omega
    refine ⟨by omega, htext.isBoundary, ?_, spells_of_remains hne htext hstop⟩
    rw [hstop]
    exact htext.append.isBoundary
  ordered := (tiles_of_scan h).ordered.1
  gaps := by
    have htext : Remains text 0 text.toList := .start text
    obtain ⟨g, rest, t, ts, hcs, rfl, hstart, hg, -, hranges⟩ := (tiles_of_scan h).gaps htext
    rw [gapRanges, hstart]
    rw [hcs] at htext
    exact List.forall_mem_cons.2 ⟨Tiles.isGap_of_append hg htext, hranges⟩

/-- A comment inside a comment, a backslash in front of a character of two bytes, a number right behind a
string, a hint, and a last comment without a line end. -/
theorem partition_of_scan_comments :
    ∃ tokens, scan "/* /* */ */'\\é'.5/*+a*/\x60b\x60--é" = .ok tokens ∧
      Partition "/* /* */ */'\\é'.5/*+a*/\x60b\x60--é" tokens := by
  have hscan : scan "/* /* */ */'\\é'.5/*+a*/\x60b\x60--é" = .ok [⟨.string "'\\é'", 11, 16⟩,
      ⟨.number ".5", 16, 18⟩, ⟨.symbol .hintStart, 18, 21⟩, ⟨.word "a", 21, 22⟩,
      ⟨.symbol .hintEnd, 22, 24⟩, ⟨.quoted "b", 24, 27⟩, ⟨.eof, 31, 31⟩] := by
    decide +kernel
  exact ⟨_, hscan, partition_of_scan hscan⟩

end Token

end SqlTidy
