import SqlTidy.Proofs.Letter
import SqlTidy.Token.Scan
import SqlTidy.Tree.Name

/-!
# Lexemes

The text that a token was read from, and what makes it be read again.

**Theorem (`wellFormed_of_scan`).** Every token of a scanned text is well formed: the reader of its
kind takes the token's text as a whole.

What a reader takes depends on the text behind, but only on whether that text goes on with what was
read: a second quote behind a string, a digit behind a number. The lemmas named `…_again` say so for
each reader: what it has taken once, it takes again in front of any text that does not go on.
-/

namespace SqlTidy

namespace Scan

open SqlTidy.Text

/-- A text that does not start with a character of some kind; it may be empty. -/
def StartsWithout (p : Char → Bool) (cs : List Char) : Prop := ∀ c ∈ cs.head?, p c = false

@[simp] theorem startsWithout_nil (p : Char → Bool) : StartsWithout p [] := nofun

@[simp] theorem startsWithout_cons {p : Char → Bool} {c : Char} {cs : List Char} :
    StartsWithout p (c :: cs) ↔ p c = false := by
  simp [StartsWithout]

theorem StartsWithout.mono {p q : Char → Bool} {cs : List Char} (h : StartsWithout p cs)
    (hpq : ∀ c, q c → p c) : StartsWithout q cs := by
  intro c hc
  cases hq : q c with
  | false => rfl
  | true => rw [← h c hc, hpq c hq]

/-! ## Runs of characters -/

theorem startsWithout_dropWhile (p : Char → Bool) (cs : List Char) :
    StartsWithout p (cs.dropWhile p) := by
  intro c hc
  have := List.head?_dropWhile_not p cs
  rw [hc] at this
  simpa using this

theorem takeWhile_append_again {p : Char → Bool} {cs rest : List Char} (hcs : ∀ c ∈ cs, p c)
    (hrest : StartsWithout p rest) : (cs ++ rest).takeWhile p = cs := by
  rw [List.takeWhile_append_of_pos hcs]
  cases rest with
  | nil => simp
  | cons c rest => simp [startsWithout_cons.1 hrest]

theorem dropWhile_append_again {p : Char → Bool} {cs rest : List Char} (hcs : ∀ c ∈ cs, p c)
    (hrest : StartsWithout p rest) : (cs ++ rest).dropWhile p = rest := by
  rw [List.dropWhile_append_of_pos hcs]
  cases rest with
  | nil => simp
  | cons c rest => simp [startsWithout_cons.1 hrest]

/-! ## Strings and quoted identifiers -/

theorem closeString_cons {q c : Char} (hslash : c ≠ '\\') (hc : c ≠ q) (cs : List Char) :
    closeString q (c :: cs) = (closeString q cs).map (·.push c) := by
  cases cs with
  | nil => simp [closeString, hc]
  | cons d cs => simp [closeString, hc]

theorem closeString_again {q : Char} {cs rest : List Char} {cut : Cut}
    (h : closeString q cs = some cut) (hrest : StartsWithout (· = q) rest) :
    closeString q (cut.1 ++ rest) = some (cut.1, rest) := by
  fun_induction closeString q cs generalizing cut with
  | case1 => contradiction
  | case2 c cs ih =>
    obtain ⟨cut, hcut, rfl⟩ := Option.map_eq_some_iff.1 h
    simp [Cut.push, closeString, ih hcut]
  | case3 => contradiction
  | case4 hq =>
    cases h
    cases rest with
    | nil => simp [closeString]
    | cons c rest => grind [closeString, startsWithout_cons]
  | case5 => contradiction
  | case6 cs hslash ih =>
    obtain ⟨cut, hcut, rfl⟩ := Option.map_eq_some_iff.1 h
    have := ih hcut
    grind [Cut.push, closeString]
  | case7 d cs hd =>
    cases h
    cases rest with
    | nil => grind [closeString]
    | cons c rest => grind [closeString, startsWithout_cons]
  | case8 c d cs hslash hc ih =>
    obtain ⟨cut, hcut, rfl⟩ := Option.map_eq_some_iff.1 h
    simp only [Cut.push, List.cons_append, closeString_cons hslash hc, ih hcut]
    rfl

theorem closeRawString_again {q : Char} {cs : List Char} {cut : Cut}
    (h : closeRawString q cs = some cut) (rest : List Char) :
    closeRawString q (cut.1 ++ rest) = some (cut.1, rest) := by
  fun_induction closeRawString q cs generalizing cut with
  | case1 => contradiction
  | case2 =>
    cases h
    simp [closeRawString]
  | case3 c cs hc ih =>
    obtain ⟨cut, hcut, rfl⟩ := Option.map_eq_some_iff.1 h
    simp [Cut.push, closeRawString, hc, ih hcut]

theorem closeQuoted_cons {c : Char} (hc : c ≠ '\x60') (cs : List Char) :
    closeQuoted (c :: cs) = (closeQuoted cs).map (·.push c) := by
  simp [closeQuoted, hc]

theorem closeQuoted_again {cs rest : List Char} {cut : Cut} (h : closeQuoted cs = some cut)
    (hrest : StartsWithout (· = '\x60') rest) :
    closeQuoted (cut.1 ++ '\x60' :: rest) = some (cut.1, rest) := by
  fun_induction closeQuoted cs generalizing cut with
  | case1 => contradiction
  | case2 cs ih =>
    obtain ⟨cut, hcut, rfl⟩ := Option.map_eq_some_iff.1 h
    simp [Cut.push, closeQuoted, ih hcut]
  | case3 =>
    cases h
    cases rest with
    | nil => simp [closeQuoted]
    | cons c rest =>
      have hc : c ≠ '\x60' := by simpa using hrest
      simp [closeQuoted, hc]
  | case4 c cs hpair hsingle ih =>
    obtain ⟨cut, hcut, rfl⟩ := Option.map_eq_some_iff.1 h
    simp only [Cut.push, List.cons_append, closeQuoted_cons hsingle, ih hcut]
    rfl

/-! ## Numbers

A number is four parts, of which any may be empty but not all. None of the last three starts with a
character that could prolong the part before it, which is why the parts are found again. -/

/-- A decimal point with digits behind it, or nothing. -/
inductive IsFraction : List Char → Prop
  | none : IsFraction []
  | some {ds : List Char} (hds : ∀ d ∈ ds, d.isDigit) : IsFraction ('.' :: ds)

/-- An exponent with its sign, or nothing. -/
inductive IsExponent : List Char → Prop
  | none : IsExponent []
  | plain {c d : Char} {ds : List Char} (hc : c = 'e' || c = 'E') (hd : d.isDigit)
      (hds : ∀ d ∈ ds, d.isDigit) : IsExponent (c :: d :: ds)
  | signed {c sign d : Char} {ds : List Char} (hc : c = 'e' || c = 'E')
      (hsign : sign = '+' || sign = '-') (hd : d.isDigit) (hds : ∀ d ∈ ds, d.isDigit) :
      IsExponent (c :: sign :: d :: ds)

/-- A type suffix, or nothing. -/
inductive IsSuffix : List Char → Prop
  | none : IsSuffix []
  | single {c : Char} (hc : isSuffix c) : IsSuffix [c]
  | pair {c d : Char} (hc : c.toLower = 'b') (hd : d.toLower = 'd') : IsSuffix [c, d]

/-- The texts that the reader of numbers takes as a whole. -/
inductive IsNumber : List Char → Prop
  | parts {ds fraction exponent suffix : List Char} (hds : ∀ d ∈ ds, d.isDigit)
      (hf : IsFraction fraction) (he : IsExponent exponent) (hs : IsSuffix suffix) :
      IsNumber ((ds ++ fraction) ++ (exponent ++ suffix))

/-- The characters that may prolong a number. -/
def prolongsNumber (c : Char) : Bool := isWordPart c || c = '.'

/-- The characters that may prolong the digits of a number, with or without a point among them. -/
def prolongsDigits (c : Char) : Bool := c.isDigit || c = '.'

/-- The letter in front of an exponent. -/
def isExponentMark (c : Char) : Bool := c = 'e' || c = 'E'

theorem isDigit_of_mem_digits {cs : List Char} : ∀ c ∈ (digits cs).1, c.isDigit :=
  List.all_eq_true.1 List.all_takeWhile

theorem isFraction_fraction (cs : List Char) : IsFraction (fraction cs).1 := by
  fun_cases fraction cs with
  | case2 => exact .some isDigit_of_mem_digits
  | _ => exact .none

theorem exists_of_exponentDigits {cs : List Char} {cut : Cut} (h : exponentDigits cs = some cut) :
    ∃ d ds, cut.1 = d :: ds ∧ d.isDigit ∧ ∀ d ∈ ds, d.isDigit := by
  fun_cases exponentDigits cs with
  | case1 c cs hc =>
    rw [exponentDigits, if_pos hc] at h
    cases h
    refine ⟨c, (digits cs).1, ?_, hc, isDigit_of_mem_digits⟩
    simp [digits, Cut.whileTrue, hc]
  | case2 c cs hc => simp [exponentDigits, hc] at h
  | case3 => contradiction

theorem isExponent_exponent (cs : List Char) : IsExponent (exponent cs).1 := by
  fun_cases exponent cs with
  | case1 c cs hc cut hcut =>
    fun_cases signedExponent cs with
    | case1 sign cs hsign =>
      rw [signedExponent, if_pos hsign] at hcut
      obtain ⟨inner, hinner, rfl⟩ := Option.map_eq_some_iff.1 hcut
      obtain ⟨d, ds, hinner, hd, hds⟩ := exists_of_exponentDigits hinner
      simp only [Cut.push, hinner]
      exact .signed hc hsign hd hds
    | case2 sign cs hsign =>
      rw [signedExponent, if_neg hsign] at hcut
      obtain ⟨d, ds, hcut, hd, hds⟩ := exists_of_exponentDigits hcut
      simp only [Cut.push, hcut]
      exact .plain hc hd hds
    | case3 => contradiction
  | _ => exact .none

theorem isSuffix_suffix (cs : List Char) : IsSuffix (suffix cs).1 := by
  fun_cases suffix cs with
  | case2 c d cs h =>
    simp only [Bool.and_eq_true, decide_eq_true_eq] at h
    exact .pair h.1 h.2
  | case3 c d cs _ h =>
    simp only [Bool.and_eq_true] at h
    exact .single h.1
  | case5 c h => exact .single h
  | _ => exact .none

theorem isNumber_number (cs : List Char) : IsNumber (number cs).1 :=
  .parts isDigit_of_mem_digits (isFraction_fraction _) (isExponent_exponent _) (isSuffix_suffix _)

/-! ### Where the parts end -/

theorem prolongsNumber_of_prolongsDigits {c : Char} (h : prolongsDigits c) : prolongsNumber c := by
  simp only [prolongsDigits, prolongsNumber, isWordPart, Bool.or_eq_true] at h ⊢
  exact h.imp .inr id

theorem prolongsNumber_of_isExponentMark {c : Char} (h : isExponentMark c) : prolongsNumber c := by
  simp only [isExponentMark, Bool.or_eq_true, decide_eq_true_eq] at h
  rcases h with rfl | rfl <;> decide

/-- Neither a point, nor a digit, nor the mark of an exponent. -/
theorem not_prolongs_of_toNat {c : Char} (h : 57 < c.toNat) (hE : c.toNat ≠ 69)
    (he : c.toNat ≠ 101) : prolongsDigits c = false ∧ isExponentMark c = false := by
  have hpoint : '.'.toNat = 46 := rfl
  have hcapital : 'E'.toNat = 69 := rfl
  have hsmall : 'e'.toNat = 101 := rfl
  constructor
  · rw [Bool.eq_false_iff, prolongsDigits, ne_eq, Bool.or_eq_true, isDigit_iff, decide_eq_true_eq,
      char_eq_iff]
    omega
  · rw [Bool.eq_false_iff, isExponentMark, ne_eq, Bool.or_eq_true, decide_eq_true_eq,
      decide_eq_true_eq, char_eq_iff, char_eq_iff]
    omega

/-- The suffixes by their code points: letters, but not the mark of an exponent. -/
theorem toNat_of_isSuffix {c : Char} (h : isSuffix c) :
    57 < c.toNat ∧ c.toNat ≠ 69 ∧ c.toNat ≠ 101 ∧
      (65 ≤ c.toNat ∧ c.toNat ≤ 90 ∨ 97 ≤ c.toNat ∧ c.toNat ≤ 122) := by
  have hmem : c.toLower.toNat ∈ [108, 115, 121, 100, 102] := by
    have := List.mem_map_of_mem (f := Char.toNat) (of_decide_eq_true h)
    simpa using this
  rw [toNat_toLower] at hmem
  simp only [List.mem_cons, List.not_mem_nil, or_false] at hmem
  split at hmem <;> omega

theorem toNat_of_toLower_eq_b {c : Char} (h : c.toLower = 'b') : c.toNat = 66 ∨ c.toNat = 98 := by
  rw [char_eq_iff, toNat_toLower, show 'b'.toNat = 98 from rfl] at h
  grind

theorem IsSuffix.startsWithout {s rest : List Char} (hs : IsSuffix s)
    (hrest : StartsWithout prolongsNumber rest) :
    StartsWithout prolongsDigits (s ++ rest) ∧ StartsWithout isExponentMark (s ++ rest) := by
  cases hs with
  | none =>
    exact ⟨hrest.mono fun _ => prolongsNumber_of_prolongsDigits,
      hrest.mono fun _ => prolongsNumber_of_isExponentMark⟩
  | @single c hc =>
    obtain ⟨hdigit, hE, he, -⟩ := toNat_of_isSuffix hc
    simp only [List.cons_append, startsWithout_cons]
    exact not_prolongs_of_toNat hdigit hE he
  | @pair c d hc hd =>
    have := toNat_of_toLower_eq_b hc
    simp only [List.cons_append, startsWithout_cons]
    exact not_prolongs_of_toNat (by omega) (by omega) (by omega)

theorem IsExponent.startsWithout {e rest : List Char} (he : IsExponent e)
    (hrest : StartsWithout prolongsDigits rest) : StartsWithout prolongsDigits (e ++ rest) := by
  have letter {c : Char} (hc : c = 'e' || c = 'E') : prolongsDigits c = false := by
    simp only [Bool.or_eq_true, decide_eq_true_eq] at hc
    rcases hc with rfl | rfl <;> decide
  cases he with
  | none => exact hrest
  | plain hc => exact startsWithout_cons.2 (letter hc)
  | signed hc => exact startsWithout_cons.2 (letter hc)

theorem StartsWithout.isDigit {cs : List Char} (h : StartsWithout prolongsDigits cs) :
    StartsWithout Char.isDigit cs :=
  h.mono fun c hc => by simp [prolongsDigits, hc]

theorem IsFraction.startsWithout {f rest : List Char} (hf : IsFraction f)
    (hrest : StartsWithout prolongsDigits rest) : StartsWithout Char.isDigit (f ++ rest) := by
  cases hf with
  | none => exact hrest.isDigit
  | some => exact startsWithout_cons.2 rfl

/-! ### The parts again -/

theorem digits_again {ds rest : List Char} (hds : ∀ d ∈ ds, d.isDigit)
    (hrest : StartsWithout Char.isDigit rest) : digits (ds ++ rest) = (ds, rest) :=
  Prod.ext (takeWhile_append_again hds hrest) (dropWhile_append_again hds hrest)

theorem fraction_again {f rest : List Char} (hf : IsFraction f)
    (hrest : StartsWithout prolongsDigits rest) : fraction (f ++ rest) = (f, rest) := by
  have hpoint {c : Char} {cs : List Char} (h : StartsWithout prolongsDigits (c :: cs)) :
      c ≠ '.' := by
    rintro rfl
    exact absurd (startsWithout_cons.1 h) (by decide)
  cases hf with
  | none =>
    cases rest with
    | nil => rfl
    | cons c rest => simp [fraction, hpoint hrest]
  | @some ds hds =>
    have hdigits := digits_again hds hrest.isDigit
    cases ds with
    | nil =>
      cases rest with
      | nil => rfl
      | cons c rest =>
        simp only [List.nil_append] at hdigits
        simp [fraction, hpoint hrest, hdigits, Cut.push]
    | cons d ds =>
      have hd : d ≠ '.' := by
        rintro rfl
        exact absurd (hds '.' (by simp)) (by decide)
      simp only [List.cons_append] at hdigits
      simp [fraction, hd, hdigits, Cut.push]

theorem exponentDigits_again {d : Char} {ds rest : List Char} (hd : d.isDigit)
    (hds : ∀ d ∈ ds, d.isDigit) (hrest : StartsWithout prolongsDigits rest) :
    exponentDigits (d :: (ds ++ rest)) = some (d :: ds, rest) := by
  rw [exponentDigits, if_pos hd, ← List.cons_append]
  rw [digits_again (by simpa [hd] using hds) hrest.isDigit]

theorem exponent_again {e rest : List Char} (he : IsExponent e)
    (hrest : StartsWithout prolongsDigits rest) (hmark : StartsWithout isExponentMark rest) :
    exponent (e ++ rest) = (e, rest) := by
  cases he with
  | none =>
    cases rest with
    | nil => rfl
    | cons c rest =>
      have hc : ¬ (c = 'e' || c = 'E') := by simpa [isExponentMark] using hmark
      simp only [List.nil_append, exponent, if_neg hc]
  | @plain c d ds hc hd hds =>
    have hsign : ¬ (d = '+' || d = '-') := by
      intro h
      simp only [Bool.or_eq_true, decide_eq_true_eq] at h
      rcases h with rfl | rfl <;> contradiction
    simp only [List.cons_append, exponent, if_pos hc, signedExponent, if_neg hsign,
      exponentDigits_again hd hds hrest, Cut.push]
  | @signed c sign d ds hc hsign hd hds =>
    simp only [List.cons_append, exponent, if_pos hc, signedExponent, if_pos hsign,
      exponentDigits_again hd hds hrest, Cut.push, Option.map_some]

theorem StartsWithout.not_isWordPart {c : Char} {cs : List Char}
    (h : StartsWithout prolongsNumber (c :: cs)) : isWordPart c = false := by
  have := startsWithout_cons.1 h
  simp only [prolongsNumber, Bool.or_eq_false_iff] at this
  exact this.1

theorem StartsWithout.continuesWord {cs : List Char} (h : StartsWithout prolongsNumber cs) :
    continuesWord cs = false := by
  cases cs with
  | nil => rfl
  | cons c cs => exact h.not_isWordPart

/-- What is no part of a word starts no suffix. -/
theorem not_suffix_of_not_isWordPart {c : Char} (h : isWordPart c = false) :
    isSuffix c = false ∧ c.toLower ≠ 'b' := by
  rw [Bool.eq_false_iff, ne_eq, isWordPart_iff] at h
  refine ⟨Bool.eq_false_iff.2 fun hs => ?_, fun hb => ?_⟩
  · obtain ⟨-, -, -, hletter⟩ := toNat_of_isSuffix hs
    omega
  · have := toNat_of_toLower_eq_b hb
    omega

theorem suffix_again {s rest : List Char} (hs : IsSuffix s)
    (hrest : StartsWithout prolongsNumber rest) : suffix (s ++ rest) = (s, rest) := by
  cases hs with
  | none =>
    match rest with
    | [] => rfl
    | [c] => simp [suffix, (not_suffix_of_not_isWordPart hrest.not_isWordPart).1]
    | c :: d :: rest =>
      obtain ⟨hsuffix, hb⟩ := not_suffix_of_not_isWordPart hrest.not_isWordPart
      simp [suffix, hsuffix, hb]
  | @single c hc =>
    have hb : c.toLower ≠ 'b' := fun hb => by simp [isSuffix, hb] at hc
    cases rest with
    | nil => simp [suffix, hc]
    | cons d rest => simp [suffix, hb, hc, hrest.not_isWordPart]
  | pair hc hd => simp [suffix, hc, hd, hrest.continuesWord]

theorem number_again {n rest : List Char} (hn : IsNumber n)
    (hrest : StartsWithout prolongsNumber rest) : number (n ++ rest) = (n, rest) := by
  obtain ⟨hds, hf, he, hs⟩ := hn
  obtain ⟨hsuffix, hmark⟩ := hs.startsWithout hrest
  have hexp := he.startsWithout hsuffix
  have hfrac := hf.startsWithout hexp
  simp only [number, Cut.andThen, List.append_assoc, digits_again hds hfrac,
    fraction_again hf hexp, exponent_again he hsuffix hmark, suffix_again hs hrest]

/-! ### Where a number starts -/

/-- A digit, or a point with a digit behind it. -/
def startsNumber : List Char → Bool
  | c :: cs => c.isDigit || c = '.' && cs.head?.any Char.isDigit
  | [] => false

theorem number_of_isDigit {c : Char} (hc : c.isDigit) (cs : List Char) :
    ∃ taken, (number (c :: cs)).1 = c :: taken := by
  simp only [number, Cut.andThen, digits, Cut.whileTrue, List.takeWhile_cons_of_pos hc,
    List.cons_append]
  exact ⟨_, rfl⟩

theorem number_of_point {d : Char} (hd : d.isDigit) (cs : List Char) :
    ∃ taken, (number ('.' :: d :: cs)).1 = '.' :: d :: taken := by
  have hpoint : d ≠ '.' := by
    rintro rfl
    exact absurd hd (by decide)
  have hdigits : digits ('.' :: d :: cs) = ([], '.' :: d :: cs) := rfl
  have hfraction : (fraction ('.' :: d :: cs)).1 = '.' :: d :: cs.takeWhile Char.isDigit := by
    simp [fraction, hpoint, digits, Cut.push, Cut.whileTrue, hd]
  simp only [number, Cut.andThen, hdigits, hfraction, List.nil_append, List.cons_append]
  exact ⟨_, rfl⟩

/-- A number keeps the characters that made it a number. -/
theorem startsNumber_number {cs : List Char} (h : startsNumber cs) :
    startsNumber (number cs).1 := by
  match cs with
  | [] => contradiction
  | c :: cs =>
    rw [startsNumber, Bool.or_eq_true, Bool.and_eq_true, decide_eq_true_eq] at h
    rcases h with hc | ⟨rfl, hd⟩
    · obtain ⟨taken, htaken⟩ := number_of_isDigit hc cs
      simp [htaken, startsNumber, hc]
    · match cs with
      | [] => contradiction
      | d :: cs =>
        obtain ⟨taken, htaken⟩ := number_of_point (d := d) (by simpa using hd) cs
        simpa [htaken, startsNumber] using hd

theorem cons_tail_number {c : Char} {cs : List Char} (h : startsNumber (c :: cs)) :
    c :: (number (c :: cs)).1.tail = (number (c :: cs)).1 := by
  have hwhole := whole_number (c :: cs)
  have hstart := startsNumber_number h
  match hn : (number (c :: cs)).1 with
  | [] =>
    rw [hn] at hstart
    contradiction
  | d :: taken =>
    rw [Cut.whole, hn] at hwhole
    rw [(List.cons.inj hwhole).1, List.tail_cons]

end Scan

/-! ## Tokens -/

namespace Token

open Scan Text

/-- The characters that a token is written with. -/
def lexeme : Token → List Char
  | .word w => w.toList
  | .quoted w => '\x60' :: (w.toList ++ ['\x60'])
  | .string s => s.toList
  | .number n => n.toList
  | .symbol s => s.spelling.toList
  | .eof => []

/-- The tokens that a text can be made of: what the reader of a kind of token takes as a whole. -/
inductive WellFormed : Token → Prop
  | word {w : String} {c : Char} {cs : List Char} (hw : w.toList = c :: cs) (hc : isWordStart c)
      (hcs : ∀ d ∈ cs, isWordPart d) : WellFormed (.word w)
  | quoted {w : String} (h : closeQuoted (w.toList ++ ['\x60']) = some (w.toList, [])) :
      WellFormed (.quoted w)
  | string {s : String} {q : Char} {cs : List Char} (hs : s.toList = q :: cs)
      (hq : q = '\x27' || q = '\x22') (h : closeString q cs = some (cs, [])) :
      WellFormed (.string s)
  | rawString {s : String} {r q : Char} {cs : List Char} (hs : s.toList = r :: q :: cs)
      (hr : r = 'r' || r = 'R') (hq : q = '\x27' || q = '\x22')
      (h : closeRawString q cs = some (cs, [])) : WellFormed (.string s)
  | number {n : String} (h : IsNumber n.toList) (hstart : startsNumber n.toList) :
      WellFormed (.number n)
  | symbol (s : Symbol) : WellFormed (.symbol s)
  | eof : WellFormed .eof

theorem wellFormed_of_item {ctx : Context} {c : Char} {cs : List Char} {i : Item} {t : Token}
    (h : item ctx c cs = .ok i) (ht : i.token = some t) : t.WellFormed := by
  unfold item at h
  simp only at h
  split at h
  · cases h
    contradiction
  split at h
  · cases h
    contradiction
  split at h
  · split at h
    · cases h
      contradiction
    · contradiction
  split at h
  · rename_i hq
    split at h
    · rename_i cut hcut
      cases h
      cases ht
      have hcut' := closeString_again hcut (startsWithout_nil _)
      rw [List.append_nil] at hcut'
      exact .string String.toList_ofList hq hcut'
    · contradiction
  split at h
  · split at h
    · rename_i cut hcut
      cases h
      cases ht
      exact .quoted (by simpa using closeQuoted_again hcut (startsWithout_nil _))
    · contradiction
  split at h
  · rename_i hstart
    have hstart : startsNumber (c :: cs) := by
      simp only [Bool.or_eq_true, Bool.and_eq_true] at hstart
      simpa [startsNumber] using hstart.imp_right And.left
    cases h
    cases ht
    rw [cons_tail_number hstart]
    refine .number ?_ ?_
    · rw [String.toList_ofList]
      exact isNumber_number _
    · rw [String.toList_ofList]
      exact startsNumber_number hstart
  split at h
  · rename_i hraw
    split at h
    · rename_i q rest
      split at h
      · rename_i cut hcut
        cases h
        cases ht
        have hcut' := closeRawString_again hcut []
        rw [List.append_nil] at hcut'
        simp only [Bool.and_eq_true] at hraw
        exact .rawString String.toList_ofList hraw.1 (by simpa using hraw.2) hcut'
      · contradiction
    · contradiction
  split at h
  · rename_i hc
    cases h
    cases ht
    exact .word String.toList_ofList hc (List.all_eq_true.1 List.all_takeWhile)
  split at h
  · cases h
    cases ht
    exact .symbol _
  · contradiction

/-- Every token of a scanned text is well formed. -/
theorem wellFormed_of_scanFrom {cs : List Char} {skip offset : Nat} {ctx : Context}
    {tokens : List Spanned} (h : scanFrom cs skip offset ctx = .ok tokens) :
    ∀ t ∈ tokens, t.token.WellFormed := by
  fun_induction scanFrom cs skip offset ctx generalizing tokens with
  | case1 => contradiction
  | case2 =>
    cases h
    simpa using WellFormed.eof
  | case3 offset ctx c cs skip ih => exact ih h
  | case4 => contradiction
  | case5 c cs offset ctx i hitem rest t htoken hrest ih =>
    cases h
    exact List.forall_mem_cons.2 ⟨wellFormed_of_item hitem htoken, ih hrest⟩
  | case6 c cs offset ctx i hitem hnone ih => exact ih h

theorem wellFormed_of_scan {text : String} {tokens : List Spanned}
    (h : scan text = .ok tokens) : ∀ t ∈ tokens, t.token.WellFormed :=
  wellFormed_of_scanFrom h

theorem ne_eof_of_item {ctx : Context} {c : Char} {cs : List Char} {i : Item}
    (h : item ctx c cs = .ok i) : i.token ≠ some .eof := by
  unfold item at h
  simp only at h
  repeat' split at h
  all_goals
    cases h
    try nofun

/-- The end mark is the last token of a text and stands nowhere else. -/
theorem exists_of_scanFrom {cs : List Char} {skip offset : Nat} {ctx : Context}
    {tokens : List Spanned} (h : scanFrom cs skip offset ctx = .ok tokens) :
    ∃ ts, tokens.map (·.token) = ts ++ [.eof] ∧ Token.eof ∉ ts := by
  fun_induction scanFrom cs skip offset ctx generalizing tokens with
  | case1 => contradiction
  | case2 =>
    cases h
    exact ⟨[], rfl, List.not_mem_nil⟩
  | case3 offset ctx c cs skip ih => exact ih h
  | case4 => contradiction
  | case5 c cs offset ctx i hitem rest t htoken hrest ih =>
    cases h
    obtain ⟨ts, hts, heof⟩ := ih hrest
    have ht : t ≠ .eof := fun heq => ne_eof_of_item hitem (heq ▸ htoken)
    exact ⟨t :: ts, congrArg (t :: ·) hts, List.not_mem_cons_of_ne_of_not_mem ht.symm heof⟩
  | case6 c cs offset ctx i hitem hnone ih => exact ih h

/-- A word stays well formed in another letter case. -/
theorem WellFormed.of_upper {w k : String} (h : (Token.word w).WellFormed)
    (hk : upper w = upper k) : (Token.word k).WellFormed := by
  have hmap : k.toList.map Char.toUpper = w.toList.map Char.toUpper :=
    (String.ofList_injective hk).symm
  cases h with
  | @word _ c cs hw hc hcs =>
    rw [hw] at hmap
    obtain ⟨d, ds, hd, hdc, hds⟩ := List.map_eq_cons_iff.1 hmap
    refine .word hd ?_ fun x hx => ?_
    · rw [← isWordStart_toUpper, hdc, isWordStart_toUpper]
      exact hc
    · have hx' : x.toUpper ∈ cs.map Char.toUpper := hds ▸ List.mem_map_of_mem hx
      obtain ⟨y, hy, hyx⟩ := List.mem_map.1 hx'
      rw [← isWordPart_toUpper, ← hyx, isWordPart_toUpper]
      exact hcs y hy

end Token

namespace Ident

/-- The token that an identifier is read from. -/
def token (i : Ident) : Token := if i.quoted then .quoted i.text else .word i.text

/-- An identifier that a scanned text may hold. -/
def WellFormed (i : Ident) : Prop := i.token.WellFormed

end Ident

end SqlTidy
