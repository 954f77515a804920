import Mathlib.Data.List.Chain
import SqlTidy.Proofs.Lexeme

/-!
# Printed pieces

A printed text is a list of pieces: tokens as they were written, keywords in their one printed form, and
gaps. On a single line a gap is one space, on a page it may be a line end with indentation (`Piece.Laid`).
Which neighbours need no gap between them is decided by `Token.admits`.

**Theorem (`Piece.Laid.reads`).** If every piece admits the one behind it, then scanning a text of the
pieces gives their tokens, whatever blanks stand in the gaps.

The induction goes from the right end of the text to the left, one piece at a time. It has to know
whether a name stands right in front, because a dot with a digit behind it is read by that.
-/

namespace SqlTidy

open Scan Text

/-! ## Scanning without places -/

namespace Scan

/-- A text is scanned to some tokens, whatever its place. -/
def Reads (ctx : Context) (cs : List Char) (tokens : List Token) : Prop :=
  ∀ offset, ∃ spanned, scanFrom cs 0 offset ctx = .ok spanned ∧
    spanned.map (·.token) = tokens ++ [.eof]

theorem reads_nil {ctx : Context} (h : ctx.inHint = false) : Reads ctx [] [] := by
  intro offset
  exact ⟨[⟨.eof, offset, offset⟩], by simp [scanFrom, h], rfl⟩

theorem scanFrom_skip (cs rest : List Char) (offset : Nat) (ctx : Context) :
    scanFrom (cs ++ rest) cs.length offset ctx = scanFrom rest 0 (offset + byteSize cs) ctx := by
  induction cs generalizing offset with
  | nil => rfl
  | cons c cs ih =>
    rw [List.cons_append, List.length_cons, scanFrom, ih]
    simp [byteSize, Nat.add_assoc]

/-- A token in front of a text. -/
theorem Reads.token {ctx : Context} {c : Char} {cs rest : List Char} {t : Token}
    {tokens : List Token} (hitem : item ctx c (cs ++ rest) = .ok ⟨some t, cs⟩)
    (hrest : Reads (ctx.after ⟨some t, cs⟩) rest tokens) :
    Reads ctx (c :: (cs ++ rest)) (t :: tokens) := by
  intro offset
  obtain ⟨spanned, hscan, hmap⟩ := hrest (offset + c.utf8Size + byteSize cs)
  refine ⟨⟨t, offset, offset + byteSize (c :: cs)⟩ :: spanned, ?_, by simp [hmap]⟩
  simp only [scanFrom, hitem, scanFrom_skip, hscan]

theorem item_of_isBlank {ctx : Context} {c : Char} (h : isBlank c) (cs : List Char) :
    item ctx c cs = .ok ⟨none, []⟩ := by
  simp only [item]
  rw [if_pos h]

/-- Blanks in front of a text. -/
theorem Reads.blanks {ctx : Context} {gap rest : List Char} {tokens : List Token} (hgap : gap ≠ [])
    (hblank : ∀ c ∈ gap, isBlank c) (hrest : Reads ⟨ctx.inHint, false⟩ rest tokens) :
    Reads ctx (gap ++ rest) tokens := by
  induction gap generalizing ctx with
  | nil => contradiction
  | cons c gap ih =>
    obtain ⟨hc, hblank⟩ := List.forall_mem_cons.1 hblank
    have hstep : Reads ⟨ctx.inHint, false⟩ (gap ++ rest) tokens := by
      cases gap with
      | nil => exact hrest
      | cons d gap => exact ih (by simp) hblank hrest
    intro offset
    obtain ⟨spanned, hscan, hmap⟩ := hstep (offset + c.utf8Size)
    refine ⟨spanned, ?_, hmap⟩
    have hafter : ctx.after ⟨none, []⟩ = ⟨ctx.inHint, false⟩ := rfl
    rw [List.cons_append, scanFrom, item_of_isBlank hc]
    simp only [List.length_nil, hafter, hscan]

end Scan

/-! ## Tokens in front of other texts -/

/-- The spelling of a symbol by its characters: the first and the others. -/
def Symbol.chars : Symbol → Char × List Char
  | .hintStart => ('/', ['*', '+'])
  | .hintEnd => ('*', ['/'])
  | .plus => ('+', [])
  | .minus => ('-', [])
  | .star => ('*', [])
  | .slash => ('/', [])
  | .percent => ('%', [])
  | .eq => ('=', [])
  | .doubleEq => ('=', ['='])
  | .notEq => ('<', ['>'])
  | .bangEq => ('!', ['='])
  | .lt => ('<', [])
  | .ltEq => ('<', ['='])
  | .gt => ('>', [])
  | .gtEq => ('>', ['='])
  | .nullSafeEq => ('<', ['=', '>'])
  | .concat => ('|', ['|'])
  | .pipe => ('|', [])
  | .ampersand => ('&', [])
  | .caret => ('^', [])
  | .tilde => ('~', [])
  | .bang => ('!', [])
  | .arrow => ('-', ['>'])
  | .fatArrow => ('=', ['>'])
  | .comma => (',', [])
  | .dot => ('.', [])
  | .semicolon => (';', [])
  | .colon => (':', [])
  | .doubleColon => (':', [':'])
  | .lparen => ('(', [])
  | .rparen => (')', [])
  | .lbracket => ('[', [])
  | .rbracket => (']', [])

theorem Symbol.toList_spelling (s : Symbol) : s.spelling.toList = s.chars.1 :: s.chars.2 := by
  cases s <;> rfl

/-- The characters that would make another token of a symbol. -/
def Symbol.prolongs (s : Symbol) (c : Char) : Bool :=
  match s with
  | .minus => c = '-' || c = '>'
  | .slash => c = '*'
  | .star => c = '/'
  | .lt => c = '=' || c = '>'
  | .ltEq => c = '>'
  | .gt => c = '='
  | .eq => c = '=' || c = '>'
  | .bang => c = '='
  | .pipe => c = '|'
  | .colon => c = ':'
  | .dot => c.isDigit
  | _ => false

namespace Token

/-- The characters that would make another token of a token. -/
def prolongs : Token → Char → Bool
  | .word _, c => isWordPart c || isQuote c
  | .quoted _, c => c = '\x60'
  | .string _, c => isQuote c
  | .number _, c => prolongsNumber c
  | .symbol s, c => s.prolongs c
  | .eof, _ => false

/-- A blank makes no other token of the token in front of it. -/
theorem not_prolongs_of_isBlank (t : Token) {c : Char} (h : isBlank c) : t.prolongs c = false := by
  simp only [isBlank, Bool.or_eq_true, decide_eq_true_eq] at h
  rcases h with (((rfl | rfl) | rfl) | rfl) | rfl
  all_goals
    cases t with
    | symbol s => cases s <;> rfl
    | _ => rfl

/-- The tokens that are found again wherever they are printed. The marks of hints are left out, since
they are read by whether a hint is open. -/
structure Printable (t : Token) : Prop where
  wellFormed : t.WellFormed
  ne_eof : t ≠ .eof
  ne_hintStart : t ≠ .symbol .hintStart
  ne_hintEnd : t ≠ .symbol .hintEnd

end Token

namespace Scan

variable {ctx : Context} {c : Char} {cs rest : List Char}

/-- The characters that only symbols start with. -/
def isMark (c : Char) : Bool :=
  !isBlank c && !isQuote c && c ≠ '\x60' && !c.isDigit && !isWordStart c

theorem item_of_symbolAt {s : Symbol} {n : Nat} (hc : isMark c)
    (hdash : c = '-' → cs.head? ≠ some '-')
    (hcomment : c = '/' → cs.head? = some '*' → cs.tail.head? = some '+')
    (hpoint : c = '.' → StartsWithout Char.isDigit cs)
    (h : symbolAt ctx.inHint c cs = some (s, n)) :
    item ctx c cs = .ok ⟨some (.symbol s), cs.take n⟩ := by
  simp only [isMark, isQuote, Bool.and_eq_true, Bool.not_eq_true', decide_eq_true_eq] at hc
  obtain ⟨⟨⟨⟨hblank, hquote⟩, htick⟩, hdigit⟩, hword⟩ := hc
  have hdash' : ¬ (c = '-' && cs.head? = some '-') := by simpa using hdash
  have hcomment' : ¬ (c = '/' && cs.head? = some '*' && cs.tail.head? ≠ some '+') := by
    simpa using hcomment
  have hnumber : ¬ (c.isDigit || c = '.' && cs.head?.any Char.isDigit && !ctx.afterName) := by
    cases cs with
    | nil => simp [hdigit]
    | cons d cs =>
      simp only [startsWithout_cons] at hpoint
      simp only [hdigit, List.head?_cons, Option.any_some, Bool.false_or, Bool.and_eq_true,
        decide_eq_true_eq]
      intro hd
      rw [hpoint hd.1.1] at hd
      exact absurd hd.1.2 (by decide)
  have hraw : ¬ ((c = 'r' || c = 'R') && (cs.head? = some '\x27' || cs.head? = some '\x22')) := by
    intro hraw
    simp only [Bool.and_eq_true, Bool.or_eq_true, decide_eq_true_eq] at hraw
    rcases hraw.1 with rfl | rfl <;> contradiction
  simp only [item]
  rw [if_neg (by simp [hblank]), if_neg hdash', if_neg hcomment', if_neg (by simp [hquote]),
    if_neg htick, if_neg hnumber, if_neg hraw, if_neg (by simp [hword]), h]

theorem symbolAt_again {inHint : Bool} {s : Symbol} (hend : s ≠ .hintEnd)
    (hrest : StartsWithout s.prolongs rest) :
    symbolAt inHint s.chars.1 (s.chars.2 ++ rest) = some (s, s.chars.2.length) := by
  cases s with
  | hintEnd => contradiction
  | minus | star | lt | ltEq | gt | eq | bang | pipe | colon | slash =>
    cases rest with
    | nil => rfl
    | cons d rest =>
      simp [Symbol.prolongs] at hrest
      simp [symbolAt, Symbol.chars, hrest]
  | _ => rfl

/-- A symbol is found again in front of any text that does not prolong it. -/
theorem item_symbol {s : Symbol} (hend : s ≠ .hintEnd) (hrest : StartsWithout s.prolongs rest) :
    item ctx s.chars.1 (s.chars.2 ++ rest) = .ok ⟨some (.symbol s), s.chars.2⟩ := by
  have hc : isMark s.chars.1 := by cases s <;> rfl
  have hdash : s.chars.1 = '-' → (s.chars.2 ++ rest).head? ≠ some '-' := by
    cases s with
    | minus =>
      rintro - hhead
      exact absurd (hrest '-' hhead) (by decide)
    | _ => simp [Symbol.chars]
  have hcomment : s.chars.1 = '/' → (s.chars.2 ++ rest).head? = some '*' →
      (s.chars.2 ++ rest).tail.head? = some '+' := by
    cases s with
    | slash =>
      rintro - hhead
      exact absurd (hrest '*' hhead) (by decide)
    | _ => simp [Symbol.chars]
  have hpoint : s.chars.1 = '.' → StartsWithout Char.isDigit (s.chars.2 ++ rest) := by
    cases s with
    | dot => exact fun _ => hrest
    | _ => simp [Symbol.chars]
  rw [item_of_symbolAt hc hdash hcomment hpoint (symbolAt_again hend hrest), List.take_left']
  rfl

theorem item_word {w : String} (h : (Token.word w).WellFormed) (hw : w.toList = c :: cs)
    (hrest : StartsWithout (Token.word w).prolongs rest) :
    item ctx c (cs ++ rest) = .ok ⟨some (.word w), cs⟩ := by
  cases h with
  | word hw' hc hcs =>
    obtain ⟨rfl, rfl⟩ := List.cons.inj (hw.symm.trans hw')
    have hne (d : Char) (hd : isWordStart d = false) : c ≠ d := by
      rintro rfl
      rw [hc] at hd
      contradiction
    have hblank : isBlank c = false := by
      simp [isBlank, hne ' ' rfl, hne '\t' rfl, hne '\n' rfl, hne '\x0c' rfl, hne '\r' rfl]
    have hdigit : c.isDigit = false := by
      have := isWordStart_iff.1 hc
      rw [Bool.eq_false_iff, ne_eq, isDigit_iff]
      omega
    -- A word of the one letter `r` would start a raw string in front of a quote.
    have hquote : StartsWithout isQuote (cs ++ rest) := by
      cases cs with
      | nil => exact hrest.mono fun d hd => by simp [Token.prolongs, hd]
      | cons d cs =>
        have hd : isWordPart d := hcs d List.mem_cons_self
        refine startsWithout_cons.2 (Bool.eq_false_iff.2 fun hquote => ?_)
        simp only [isQuote, Bool.or_eq_true, decide_eq_true_eq] at hquote
        rcases hquote with rfl | rfl <;> exact absurd hd (by decide)
    have hsingle : (cs ++ rest).head? ≠ some '\x27' := fun h => absurd (hquote _ h) (by decide)
    have hdouble : (cs ++ rest).head? ≠ some '\x22' := fun h => absurd (hquote _ h) (by decide)
    have htaken : (cs ++ rest).takeWhile isWordPart = cs :=
      takeWhile_append_again hcs (hrest.mono fun d hd => by simp [Token.prolongs, hd])
    simp only [item, hblank, hne '-' rfl, hne '/' rfl, hne '\x27' rfl, hne '\x22' rfl, hne '\x60' rfl,
      hne '.' rfl, hdigit, hsingle, hdouble, hc, htaken, decide_false, Bool.false_and, Bool.or_false,
      Bool.and_false, if_true, Bool.false_eq_true, if_false, ← hw,
      String.ofList_toList]

theorem item_quoted {w : String} (h : (Token.quoted w).WellFormed)
    (hrest : StartsWithout (Token.quoted w).prolongs rest) :
    item ctx '\x60' ((w.toList ++ ['\x60']) ++ rest) =
      .ok ⟨some (.quoted w), w.toList ++ ['\x60']⟩ := by
  cases h with
  | quoted h =>
    have hagain : closeQuoted (w.toList ++ '\x60' :: rest) = some (w.toList, rest) :=
      closeQuoted_again h hrest
    rw [List.append_assoc, List.singleton_append]
    simp [item, isBlank, hagain]

theorem item_string {s : String} (h : (Token.string s).WellFormed) (hs : s.toList = c :: cs)
    (hrest : StartsWithout (Token.string s).prolongs rest) :
    item ctx c (cs ++ rest) = .ok ⟨some (.string s), cs⟩ := by
  cases h with
  | @string _ q cs' hs' hq h =>
    obtain ⟨rfl, rfl⟩ := List.cons.inj (hs.symm.trans hs')
    have hagain : closeString c (cs ++ rest) = some (cs, rest) :=
      closeString_again h (hrest.mono fun d hd => by
        simp only [decide_eq_true_eq] at hd
        rwa [hd])
    rw [← String.ofList_toList (s := s), hs]
    simp only [Bool.or_eq_true, decide_eq_true_eq] at hq
    rcases hq with rfl | rfl <;> simp [item, isBlank, hagain]
  | @rawString _ r q cs' hs' hr hq h =>
    obtain ⟨rfl, rfl⟩ := List.cons.inj (hs.symm.trans hs')
    have hagain : closeRawString q (cs' ++ rest) = some (cs', rest) := closeRawString_again h rest
    rw [← String.ofList_toList (s := s), hs]
    simp only [Bool.or_eq_true, decide_eq_true_eq] at hr hq
    rcases hr with rfl | rfl <;> rcases hq with rfl | rfl <;> simp [item, isBlank, hagain]

theorem item_number {n : String} (h : (Token.number n).WellFormed) (hn : n.toList = c :: cs)
    (hrest : StartsWithout (Token.number n).prolongs rest) (hname : ctx.afterName = false) :
    item ctx c (cs ++ rest) = .ok ⟨some (.number n), cs⟩ := by
  cases h with
  | number h hstart =>
    rw [hn] at h hstart
    have hagain : number (c :: (cs ++ rest)) = (c :: cs, rest) := number_again h hrest
    rw [← String.ofList_toList (s := n), hn]
    simp only [startsNumber, Bool.or_eq_true, Bool.and_eq_true, decide_eq_true_eq] at hstart
    rcases hstart with hc | ⟨rfl, hd⟩
    · have hne (d : Char) (hd : d.isDigit = false) : c ≠ d := by
        rintro rfl
        rw [hc] at hd
        contradiction
      have hblank : isBlank c = false := by
        simp [isBlank, hne ' ' rfl, hne '\t' rfl, hne '\n' rfl, hne '\x0c' rfl, hne '\r' rfl]
      simp [item, hblank, hne '-' rfl, hne '/' rfl, hne '\x27' rfl, hne '\x22' rfl, hne '\x60' rfl,
        hc, hagain]
    · cases cs with
      | nil => contradiction
      | cons d cs =>
        have hd : d.isDigit := by simpa using hd
        rw [List.cons_append] at hagain ⊢
        simp [item, isBlank, hd, hname, hagain]

end Scan

namespace Token

variable {t u : Token} {c : Char} {cs : List Char}

theorem WellFormed.exists_lexeme (h : t.WellFormed) (ht : t ≠ .eof) :
    ∃ c cs, t.lexeme = c :: cs := by
  cases h with
  | word hw => exact ⟨_, _, hw⟩
  | quoted => exact ⟨_, _, rfl⟩
  | string hs => exact ⟨_, _, hs⟩
  | rawString hs => exact ⟨_, _, hs⟩
  | @number n _ hstart =>
    match hn : n.toList with
    | [] =>
      rw [hn] at hstart
      contradiction
    | c :: cs => exact ⟨c, cs, hn⟩
  | symbol s => exact ⟨_, _, s.toList_spelling⟩
  | eof => contradiction

/-- A printable token is read again in front of any text that does not prolong it. A number must not
stand right behind a name, where its point would be read as a separator. -/
theorem Printable.item {ctx : Context} {rest : List Char} (h : t.Printable)
    (ht : t.lexeme = c :: cs) (hrest : StartsWithout t.prolongs rest)
    (hname : ctx.afterName → ∀ n, t ≠ .number n) :
    Scan.item ctx c (cs ++ rest) = .ok ⟨some t, cs⟩ := by
  cases t with
  | word w => exact item_word h.wellFormed ht hrest
  | quoted w =>
    obtain ⟨rfl, rfl⟩ := List.cons.inj ht
    exact item_quoted h.wellFormed hrest
  | string s => exact item_string h.wellFormed ht hrest
  | number n =>
    refine item_number h.wellFormed ht hrest (Bool.eq_false_iff.2 fun hafter => ?_)
    exact hname hafter n rfl
  | symbol s =>
    obtain ⟨rfl, rfl⟩ := List.cons.inj (s.toList_spelling.symm.trans ht)
    exact item_symbol (fun hs => h.ne_hintEnd (hs ▸ rfl)) hrest
  | eof => contradiction

/-! ## Neighbours -/

/-- Whether one token may be printed right behind another one. -/
def admits : Token → Token → Bool
  | .symbol .lparen, _ | .symbol .lbracket, _ | .symbol .plus, _ | .symbol .tilde, _ => true
  | .symbol .minus, .symbol s => s ∈ [.plus, .tilde, .star, .lparen, .lbracket]
  | .symbol .minus, _ => true
  | .symbol .dot, .word _ | .symbol .dot, .quoted _ | .symbol .dot, .symbol .star => true
  | .symbol .lt, .word _ | .symbol .lt, .quoted _ => true
  | .word _, .symbol .dot | .quoted _, .symbol .dot => true
  | .word _, .symbol .colon | .quoted _, .symbol .colon => true
  | .word _, .symbol .lt | .word _, .symbol .notEq => true
  | .word _, .symbol .gt | .quoted _, .symbol .gt | .string _, .symbol .gt => true
  | .symbol .rparen, .symbol .gt | .symbol .notEq, .symbol .gt | .symbol .gt, .symbol .gt => true
  | _, .symbol s => s ∈ [.lparen, .rparen, .lbracket, .rbracket, .comma]
  | _, _ => false

theorem symbol_lexeme {s : Symbol} (h : (Token.symbol s).lexeme = c :: cs) : c = s.chars.1 :=
  (List.cons.inj (h.symm.trans s.toList_spelling)).1

/-- No name or literal starts with one of the marks that would prolong a minus sign. -/
theorem WellFormed.not_prolongs_minus (h : t.WellFormed) (ht : t.lexeme = c :: cs)
    (hsymbol : ∀ s, t ≠ .symbol s) : (Token.symbol .minus).prolongs c = false := by
  refine Bool.eq_false_iff.2 fun hc => ?_
  simp only [prolongs, Symbol.prolongs, Bool.or_eq_true, decide_eq_true_eq] at hc
  cases h with
  | word hw hstart =>
    obtain ⟨rfl, -⟩ := List.cons.inj (hw.symm.trans ht)
    rcases hc with rfl | rfl <;> contradiction
  | quoted =>
    obtain ⟨rfl, -⟩ := List.cons.inj ht
    simp at hc
  | string hs hq =>
    obtain ⟨rfl, -⟩ := List.cons.inj (hs.symm.trans ht)
    rcases hc with rfl | rfl <;> contradiction
  | rawString hs hr =>
    obtain ⟨rfl, -⟩ := List.cons.inj (hs.symm.trans ht)
    rcases hc with rfl | rfl <;> contradiction
  | @number n _ hstart =>
    rw [show n.toList = c :: cs from ht] at hstart
    rcases hc with rfl | rfl <;> contradiction
  | symbol s => exact hsymbol s rfl
  | eof => contradiction

/-- A character that starts a word is no digit, so it makes no decimal point of a dot. -/
theorem not_prolongs_dot (hc : isWordStart c) : (Token.symbol .dot).prolongs c = false := by
  refine Bool.eq_false_iff.2 fun hdigit => ?_
  have hc := isWordStart_iff.1 hc
  have hdigit := isDigit_iff.1 hdigit
  omega

/-- A character that starts a word makes no other operator of an opening angle bracket. -/
theorem not_prolongs_lt (hc : isWordStart c) : (Token.symbol .lt).prolongs c = false := by
  refine Bool.eq_false_iff.2 fun hmark => ?_
  simp only [prolongs, Symbol.prolongs, Bool.or_eq_true, decide_eq_true_eq] at hmark
  rcases hmark with rfl | rfl <;> contradiction

theorem not_prolongs_of_admits (h : t.admits u) (hu : u.WellFormed) (hc : u.lexeme = c :: cs) :
    t.prolongs c = false := by
  unfold admits at h
  split at h
  · rfl
  · rfl
  · rfl
  · rfl
  · simp only [List.mem_cons, List.not_mem_nil, or_false, decide_eq_true_eq] at h
    rw [symbol_lexeme hc]
    rcases h with rfl | rfl | rfl | rfl | rfl <;> rfl
  · exact hu.not_prolongs_minus hc ‹_›
  · cases hu with
    | word hw hstart =>
      obtain ⟨rfl, -⟩ := List.cons.inj (hw.symm.trans hc)
      exact not_prolongs_dot hstart
  · obtain ⟨rfl, -⟩ := List.cons.inj hc
    rfl
  · rw [symbol_lexeme hc]
    rfl
  · cases hu with
    | word hw hstart =>
      obtain ⟨rfl, -⟩ := List.cons.inj (hw.symm.trans hc)
      exact not_prolongs_lt hstart
  · obtain ⟨rfl, -⟩ := List.cons.inj hc
    rfl
  iterate 12
    · rw [symbol_lexeme hc]
      rfl
  · simp only [List.mem_cons, List.not_mem_nil, or_false, decide_eq_true_eq] at h
    rw [symbol_lexeme hc]
    cases t with
    | symbol s => rcases h with rfl | rfl | rfl | rfl | rfl <;> cases s <;> rfl
    | _ => rcases h with rfl | rfl | rfl | rfl | rfl <;> rfl
  · contradiction

/-- Behind a name no number is admitted. -/
theorem not_number_of_admits (h : t.admits u) (ht : t.endsName) (n : String) : u ≠ .number n := by
  rintro rfl
  unfold admits at h
  split at h <;> contradiction

end Token

/-! ## Lists of pieces -/

/-- A piece of a printed text. -/
inductive Piece where
  /-- A token as it was written. -/
  | token (t : Token)
  /-- A keyword in its printed form. -/
  | keyword (word : String)
  /-- A space, or any blanks in its place. -/
  | gap
deriving DecidableEq

namespace Piece

/-- The token that a piece is read as. -/
def token? : Piece → Option Token
  | .token t => some t
  | .keyword w => some (.word w)
  | .gap => none

def text : Piece → List Char
  | .token t => t.lexeme
  | .keyword w => w.toList
  | .gap => [' ']

def textOf (ps : List Piece) : List Char := ps.flatMap text

def tokensOf (ps : List Piece) : List Token := ps.filterMap token?

/-- Whether a piece may stand right behind another one. -/
def Admits (p q : Piece) : Prop := ∀ t ∈ p.token?, ∀ u ∈ q.token?, t.admits u

theorem text_of_token? {p : Piece} {t : Token} (h : p.token? = some t) : p.text = t.lexeme := by
  cases p with
  | gap => contradiction
  | _ =>
    cases h
    rfl

/-- A text of the pieces in which each gap is some run of blanks. -/
inductive Laid : List Piece → List Char → Prop
  | nil : Laid [] []
  | gap {blanks cs : List Char} {ps : List Piece} (hne : blanks ≠ [])
      (hblanks : ∀ c ∈ blanks, isBlank c) (h : Laid ps cs) : Laid (.gap :: ps) (blanks ++ cs)
  | token {p : Piece} {t : Token} {ps : List Piece} {cs : List Char} (hp : p.token? = some t)
      (h : Laid ps cs) : Laid (p :: ps) (p.text ++ cs)

/-- With a single space for each gap. -/
theorem laid_textOf : (ps : List Piece) → Laid ps (textOf ps)
  | [] => .nil
  | .gap :: ps => .gap (List.cons_ne_nil ' ' []) (by simp [text, isBlank]) (laid_textOf ps)
  | .token t :: ps => .token (t := t) rfl (laid_textOf ps)
  | .keyword w :: ps => .token (t := .word w) rfl (laid_textOf ps)

/-- What follows a piece does not prolong its token. -/
theorem Laid.startsWithout {t : Token} {ps : List Piece} {cs : List Char} (h : Laid ps cs)
    (hnext : ∀ q ∈ ps.head?, ∀ u ∈ q.token?, t.admits u)
    (hprint : ∀ u ∈ tokensOf ps, u.Printable) : StartsWithout t.prolongs cs := by
  cases h with
  | nil => exact startsWithout_nil _
  | @gap blanks cs ps hne hblanks h =>
    cases blanks with
    | nil => contradiction
    | cons c blanks => exact startsWithout_cons.2 (t.not_prolongs_of_isBlank (hblanks c (by simp)))
  | @token q u ps cs hq h =>
    have hu : u.Printable := hprint u (by simp [tokensOf, hq])
    obtain ⟨c, cs, hc⟩ := hu.wellFormed.exists_lexeme hu.ne_eof
    rw [text_of_token? hq, hc]
    exact startsWithout_cons.2 (Token.not_prolongs_of_admits (hnext q rfl u hq) hu.wellFormed hc)

theorem after_printable {t : Token} (h : t.Printable) (afterName : Bool) (tail : List Char) :
    Context.after ⟨false, afterName⟩ ⟨some t, tail⟩ = ⟨false, t.endsName⟩ := by
  unfold Context.after
  split
  · contradiction
  · exact absurd (by simp_all) h.ne_hintStart
  · exact absurd (by simp_all) h.ne_hintEnd
  · simp_all

/-- Pieces that admit each other are read as their tokens, whatever blanks stand in the gaps. -/
theorem Laid.reads {ps : List Piece} {cs : List Char} (h : Laid ps cs) (hchain : ps.IsChain Admits)
    (hprint : ∀ t ∈ tokensOf ps, t.Printable) {afterName : Bool}
    (hname : afterName → ∀ p ∈ ps.head?, ∀ n, p.token? ≠ some (.number n)) :
    Reads ⟨false, afterName⟩ cs (tokensOf ps) := by
  induction h generalizing afterName with
  | nil => exact reads_nil rfl
  | gap hne hblanks _ ih =>
    exact .blanks hne hblanks (ih (List.isChain_cons.1 hchain).2 hprint nofun)
  | @token p t ps cs hp h ih =>
    obtain ⟨hnext, htail⟩ := List.isChain_cons.1 hchain
    have htokens : tokensOf (p :: ps) = t :: tokensOf ps := by simp [tokensOf, hp]
    rw [htokens] at hprint ⊢
    obtain ⟨ht, hprint⟩ := List.forall_mem_cons.1 hprint
    have hadmits : ∀ q ∈ ps.head?, ∀ u ∈ q.token?, t.admits u := fun q hq => hnext q hq t hp
    obtain ⟨c, ds, hc⟩ := ht.wellFormed.exists_lexeme ht.ne_eof
    have hitem : item ⟨false, afterName⟩ c (ds ++ cs) = .ok ⟨some t, ds⟩ :=
      ht.item hc (h.startsWithout hadmits hprint) fun hafter n hn => hname hafter p rfl n (hn ▸ hp)
    rw [text_of_token? hp, hc]
    refine Reads.token hitem ?_
    rw [after_printable ht]
    refine ih htail hprint fun hends q hq n hqn => ?_
    exact Token.not_number_of_admits (hadmits q hq _ hqn) hends n rfl

/-- The text of pieces that admit each other is read as their tokens. -/
theorem reads_textOf {ps : List Piece} (hchain : ps.IsChain Admits)
    (hprint : ∀ t ∈ tokensOf ps, t.Printable) {afterName : Bool}
    (hname : afterName → ∀ p ∈ ps.head?, ∀ n, p.token? ≠ some (.number n)) :
    Reads ⟨false, afterName⟩ (textOf ps) (tokensOf ps) :=
  (laid_textOf ps).reads hchain hprint hname

end Piece

end SqlTidy
