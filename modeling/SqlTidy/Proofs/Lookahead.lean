import SqlTidy.Proofs.Partition
import SqlTidy.Proofs.Respace

/-!
# How far the scanner looks ahead

An item is read by looking at the characters behind it, at one or two of them as a rule, and at any number of them
behind a number. All of this stops at a blank, a semicolon or an equals sign. So a text that is cut at such a place may
be continued in another way, and its items stay what they are (`item_of_calm`). There are two exceptions. An equals sign
makes other symbols of some that it stands behind, and a comment behind two dashes takes whatever follows on its line.
-/

namespace SqlTidy

open Text

namespace Scan

/-! ## Calm texts -/

/-- The characters at which every reader stops. -/
def isCalm (c : Char) : Bool := isBlank c || c = ';' || c = '='

/-- A text that does not reach into what stands in front of it. -/
abbrev Calm (s : List Char) : Prop := StartsWithout (!isCalm ·) s

theorem isCalm_iff {c : Char} : isCalm c ↔
    c = ' ' ∨ c = '\t' ∨ c = '\n' ∨ c = '\x0c' ∨ c = '\r' ∨ c = ';' ∨ c = '=' := by
  simp [isCalm, isBlank, or_assoc]

theorem Calm.startsWithout {s : List Char} (h : Calm s) {p : Char → Bool}
    (hp : [' ', '\t', '\n', '\x0c', '\r', ';', '='].all (!p ·)) : StartsWithout p s := by
  intro c hc
  have hcalm : isCalm c := by simpa using h c hc
  simpa using List.all_eq_true.1 hp c (by simpa using isCalm_iff.1 hcalm)

theorem Calm.head?_ne {s : List Char} (h : Calm s) {d : Char} (hd : isCalm d = false) : s.head? ≠ some d := by
  intro hhead
  have := h d hhead
  simp [hd] at this

/-- A text in front of which a token has ended: it is calm, or a comment starts. -/
def Still (s : List Char) : Prop := Calm s ∨ ['-', '-'] <+: s ∨ ['/', '*'] <+: s

theorem still_nil : Still [] := .inl (startsWithout_nil _)

theorem Calm.still {s : List Char} (h : Calm s) : Still s := .inl h

theorem Still.startsWithout {s : List Char} (h : Still s) {p : Char → Bool}
    (hp : ['-', '/', ' ', '\t', '\n', '\x0c', '\r', ';', '='].all (!p ·)) : StartsWithout p s := by
  simp only [List.all_cons (a := '-'), List.all_cons (a := '/'), Bool.and_eq_true, Bool.not_eq_true'] at hp
  rcases h with hcalm | ⟨rest, rfl⟩ | ⟨rest, rfl⟩
  · exact hcalm.startsWithout hp.2.2
  · exact startsWithout_cons.2 hp.1
  · exact startsWithout_cons.2 hp.2.1

theorem Still.head?_ne {s : List Char} (h : Still s) {d : Char} (hd : isCalm d = false) (hdash : d ≠ '-')
    (hslash : d ≠ '/') : s.head? ≠ some d := by
  rcases h with hcalm | ⟨rest, rfl⟩ | ⟨rest, rfl⟩
  · exact hcalm.head?_ne hd
  · simpa using hdash.symm
  · simpa using hslash.symm

/-! ## Readers that look no further -/

theorem takeWhile_append_calm {p : Char → Bool} {s : List Char} (hs : StartsWithout p s) (x : List Char) :
    (x ++ s).takeWhile p = x.takeWhile p ∧ (x ++ s).dropWhile p = x.dropWhile p ++ s := by
  induction x with
  | nil =>
    cases s with
    | nil => exact ⟨rfl, rfl⟩
    | cons c s => simp [startsWithout_cons.1 hs]
  | cons c x ih =>
    by_cases hc : p c
    · simp [hc, ih.1, ih.2]
    · simp [hc]

/-- A reader that takes the same from a text however the text goes on. -/
def Local (read : List Char → Cut) : Prop :=
  ∀ x s, Still s → read (x ++ s) = ((read x).1, (read x).2 ++ s)

theorem Local.andThen {first second : List Char → Cut} (hfirst : Local first) (hsecond : Local second) :
    Local (Cut.andThen first second) := by
  intro x s hs
  simp only [Cut.andThen, hfirst x s hs, hsecond _ s hs]

theorem local_digits : Local digits := by
  intro x s hs
  obtain ⟨htake, hdrop⟩ := takeWhile_append_calm (hs.startsWithout (p := Char.isDigit) (by decide)) x
  simp only [digits, Cut.whileTrue, htake, hdrop]

theorem fraction_of_ne {cs : List Char} (h : cs.head? ≠ some '.') : fraction cs = ([], cs) := by
  cases cs with
  | nil => rfl
  | cons c cs =>
    have hc : c ≠ '.' := by simpa using h
    simp [fraction, hc]

theorem fraction_point {cs : List Char} (h : cs.head? ≠ some '.') :
    fraction ('.' :: cs) = (digits cs).push '.' := by
  cases cs with
  | nil => rfl
  | cons c cs =>
    have hc : c ≠ '.' := by simpa using h
    simp [fraction, hc]

theorem local_fraction : Local fraction := by
  intro x s hs
  have hpoint := hs.head?_ne (d := '.') (by decide) (by decide) (by decide)
  cases x with
  | nil => exact fraction_of_ne hpoint
  | cons c x =>
    by_cases hc : c = '.'
    · subst hc
      by_cases hx : x.head? = some '.'
      · match x with
        | d :: x =>
          obtain rfl : d = '.' := by simpa using hx
          rfl
      · have hx' : (x ++ s).head? ≠ some '.' := by
          cases x with
          | nil => exact hpoint
          | cons d x => exact hx
        rw [List.cons_append, fraction_point hx', fraction_point hx, local_digits x s hs]
        rfl
    · rw [fraction_of_ne (by simpa using hc), fraction_of_ne (by simpa using hc)]

/-- The same for a reader that may decline. -/
theorem exponentDigits_append {s : List Char} (hs : Still s) (x : List Char) :
    exponentDigits (x ++ s) = (exponentDigits x).map fun cut => (cut.1, cut.2 ++ s) := by
  cases x with
  | nil =>
    cases s with
    | nil => rfl
    | cons d s =>
      have hd := startsWithout_cons.1 (hs.startsWithout (p := Char.isDigit) (by decide))
      simp [exponentDigits, hd]
  | cons c x =>
    by_cases hc : c.isDigit
    · have hdigits := local_digits (c :: x) s hs
      simp only [List.cons_append] at hdigits
      simp [exponentDigits, hc, hdigits]
    · simp [exponentDigits, hc]

theorem signedExponent_of_still {s : List Char} (hs : Still s) : signedExponent s = none := by
  rcases hs with hcalm | ⟨rest, rfl⟩ | ⟨rest, rfl⟩
  · cases s with
    | nil => rfl
    | cons d s =>
      have hsign := startsWithout_cons.1 (hcalm.startsWithout (p := fun c => c = '+' || c = '-') (by decide))
      have hdigits : exponentDigits (d :: s) = none := exponentDigits_append hcalm.still []
      rw [signedExponent, if_neg (by simpa using hsign), hdigits]
  · rfl
  · rfl

theorem signedExponent_append {s : List Char} (hs : Still s) (x : List Char) :
    signedExponent (x ++ s) = (signedExponent x).map fun cut => (cut.1, cut.2 ++ s) := by
  cases x with
  | nil => exact signedExponent_of_still hs
  | cons c x =>
    by_cases hc : c = '+' || c = '-'
    · simp only [List.cons_append, signedExponent, if_pos hc, exponentDigits_append hs x, Option.map_map]
      rfl
    · simp only [List.cons_append, signedExponent, if_neg hc]
      exact exponentDigits_append hs (c :: x)

theorem local_exponent : Local exponent := by
  intro x s hs
  cases x with
  | nil =>
    cases s with
    | nil => rfl
    | cons d s =>
      have hmark := startsWithout_cons.1 (hs.startsWithout (p := fun c => c = 'e' || c = 'E') (by decide))
      rw [List.nil_append, exponent, if_neg (by simpa using hmark)]
      rfl
  | cons c x =>
    by_cases hc : c = 'e' || c = 'E'
    · simp only [List.cons_append, exponent, if_pos hc, signedExponent_append hs x]
      cases signedExponent x <;> rfl
    · simp only [List.cons_append, exponent, if_neg hc]

theorem local_suffix : Local suffix := by
  intro x s hs
  have hpart := hs.startsWithout (p := isWordPart) (by decide)
  match x, s with
  | x, [] => simp
  | [], d :: s =>
    obtain ⟨hd, hd'⟩ := not_suffix_of_not_isWordPart (startsWithout_cons.1 hpart)
    cases s with
    | nil => simp [suffix, hd]
    | cons e s => simp [suffix, hd, hd']
  | [c], d :: s =>
    have hd := startsWithout_cons.1 hpart
    have hd' := startsWithout_cons.1 (hs.startsWithout (p := fun c => c.toLower = 'd') (by decide))
    by_cases hc : isSuffix c <;> simp [suffix, hc, hd, by simpa using hd']
  | [c, d], e :: s =>
    have he := startsWithout_cons.1 hpart
    simp only [List.cons_append, List.nil_append, suffix, continuesWord, he]
    split
    · rfl
    · split <;> rfl
  | c :: d :: e :: x, f :: s =>
    simp only [List.cons_append, suffix, continuesWord]
    split
    · by_cases he : isWordPart e <;> simp [he]
    · split <;> rfl

/-- A number is read the same however the text behind it goes on. -/
theorem local_number : Local number :=
  (local_digits.andThen local_fraction).andThen (local_exponent.andThen local_suffix)

/-! ## Strings -/

/-- Behind a string there is no further quote of its kind, which would have belonged to it. -/
theorem startsWithout_of_closeString {q : Char} {cs : List Char} {cut : Cut}
    (h : closeString q cs = some cut) : StartsWithout (· = q) cut.2 := by
  fun_induction closeString q cs generalizing cut with
  | case1 => contradiction
  | case2 c cs ih =>
    obtain ⟨cut, hcut, rfl⟩ := Option.map_eq_some_iff.1 h
    have hrest := ih hcut
    exact hrest
  | case3 => contradiction
  | case4 =>
    cases h
    exact startsWithout_nil _
  | case5 => contradiction
  | case6 cs hslash ih =>
    obtain ⟨cut, hcut, rfl⟩ := Option.map_eq_some_iff.1 h
    have hrest := ih hcut
    exact hrest
  | case7 d cs hne hslash =>
    cases h
    exact startsWithout_cons.2 (by simpa using hne)
  | case8 c d cs hslash hc ih =>
    obtain ⟨cut, hcut, rfl⟩ := Option.map_eq_some_iff.1 h
    have hrest := ih hcut
    exact hrest

theorem startsWithout_of_closeQuoted {cs : List Char} {cut : Cut} (h : closeQuoted cs = some cut) :
    StartsWithout (· = '\x60') cut.2 := by
  fun_induction closeQuoted cs generalizing cut with
  | case1 => contradiction
  | case2 cs ih =>
    obtain ⟨cut, hcut, rfl⟩ := Option.map_eq_some_iff.1 h
    have hrest := ih hcut
    exact hrest
  | case3 cs hpair =>
    cases h
    cases cs with
    | nil => exact startsWithout_nil _
    | cons d cs => exact startsWithout_cons.2 (decide_eq_false fun hd => hpair cs (by rw [hd]))
  | case4 c cs hpair hsingle ih =>
    obtain ⟨cut, hcut, rfl⟩ := Option.map_eq_some_iff.1 h
    have hrest := ih hcut
    exact hrest

/-! ## Comments -/

theorem closeComment_cons {c : Char} {cs : List Char} (hopen : ¬ ['/', '*'] <+: c :: cs)
    (hclose : ¬ ['*', '/'] <+: c :: cs) (depth : Nat) :
    closeComment depth (c :: cs) = (closeComment depth cs).map (·.push c) := by
  rw [closeComment]
  · rintro cs rfl rfl
    exact hopen (by simp)
  · rintro cs - rfl rfl
    exact hclose (by simp)
  · rintro cs depth - rfl rfl
    exact hclose (by simp)

theorem ne_nil_of_closeComment {depth : Nat} {cs : List Char} {cut : Cut} (h : closeComment depth cs = some cut) :
    cut.1 ≠ [] := by
  obtain ⟨tails, hlength, hflat, htails⟩ := tails_of_closeComment h
  obtain ⟨tail, tails, rfl⟩ := List.exists_cons_of_length_eq_add_one hlength
  rw [← hflat, List.flatten_cons]
  exact List.append_ne_nil_of_left_ne_nil (htails tail (by simp)).ne_nil _

theorem closeComment_again {depth : Nat} {cs : List Char} {cut : Cut}
    (h : closeComment depth cs = some cut) (rest : List Char) :
    closeComment depth (cut.1 ++ rest) = some (cut.1, rest) := by
  fun_induction closeComment depth cs generalizing cut with
  | case1 => contradiction
  | case2 depth cs ih =>
    obtain ⟨cut, hcut, rfl⟩ := Option.map_eq_some_iff.1 h
    simp [Cut.push, closeComment, ih hcut]
  | case3 cs =>
    cases h
    rfl
  | case4 cs depth ih =>
    obtain ⟨cut, hcut, rfl⟩ := Option.map_eq_some_iff.1 h
    simp [Cut.push, closeComment, ih hcut]
  | case5 depth c cs hopen hclose hcloseIn ih =>
    obtain ⟨cut, hcut, rfl⟩ := Option.map_eq_some_iff.1 h
    -- The mark that the character does not start takes a second one, and that is part of the comment.
    have hne := ne_nil_of_closeComment hcut
    have hwhole : cut.1 ++ cut.2 = cs := whole_of_closeComment hcut
    have hpair {a b : Char} : [a, b] <+: c :: (cut.1 ++ rest) ↔ [a, b] <+: c :: cs :=
      (pair_isPrefix_cons hne).symm.trans (hwhole ▸ pair_isPrefix_cons hne)
    show closeComment depth (c :: (cut.1 ++ rest)) = some (c :: cut.1, rest)
    rw [closeComment_cons, ih hcut]
    · rfl
    · rw [hpair]
      rintro ⟨rest, hrest⟩
      injection hrest with hc hrest
      exact hopen rest hc.symm hrest.symm
    · rw [hpair]
      rintro ⟨rest, hrest⟩
      injection hrest with hc hrest
      cases depth with
      | zero => exact hclose rest rfl hc.symm hrest.symm
      | succ depth => exact hcloseIn depth rest rfl hc.symm hrest.symm

/-! ## Symbols -/

theorem symbolAt_single {c a : Char} (hhint : ¬ (c = '/' ∧ a = '*')) (hless : ¬ (c = '<' ∧ a = '='))
    (inHint : Bool) (t : List Char) : symbolAt inHint c (a :: t) = symbolAt inHint c [a] := by
  unfold symbolAt
  split <;> simp_all

theorem symbolAt_hint (inHint : Bool) (t : List Char) : symbolAt inHint '/' ('*' :: t) =
    if t.head? = some '+' then some (.hintStart, 2) else some (.slash, 0) := by
  cases t with
  | nil => rfl
  | cons b t => by_cases hb : b = '+' <;> simp [symbolAt, hb]

theorem symbolAt_less (inHint : Bool) (t : List Char) : symbolAt inHint '<' ('=' :: t) =
    if t.head? = some '>' then some (.nullSafeEq, 2) else some (.ltEq, 1) := by
  cases t with
  | nil => rfl
  | cons b t => by_cases hb : b = '>' <;> simp [symbolAt, hb]

theorem le_length_of_symbolAt {inHint : Bool} {c : Char} {cs : List Char} {sym : Symbol} {n : Nat}
    (h : symbolAt inHint c cs = some (sym, n)) : n ≤ cs.length := by
  unfold symbolAt at h
  split at h <;> try split at h
  all_goals
    cases h
    try simp

theorem not_prolongs_of_isCalm (sym : Symbol) {c : Char} (h : isCalm c) (hne : c ≠ '=') :
    sym.prolongs c = false := by
  rcases isCalm_iff.1 h with rfl | rfl | rfl | rfl | rfl | rfl | rfl
  case inr.inr.inr.inr.inr.inr => contradiction
  all_goals cases sym <;> rfl

variable {ctx : Context} {c : Char} {x s s' : List Char}

/-- A look at one character that is not calm does not tell the texts behind a place apart. -/
theorem head?_append_iff (hs : Still s) (hs' : Still s') {d : Char} (hd : isCalm d = false) (hdash : d ≠ '-')
    (hslash : d ≠ '/') : (x ++ s).head? = some d ↔ (x ++ s').head? = some d := by
  cases x with
  | nil => exact iff_of_false (hs.head?_ne hd hdash hslash) (hs'.head?_ne hd hdash hslash)
  | cons a x => rfl

theorem symbolAt_of_calm {inHint : Bool} {sym : Symbol} {n : Nat}
    (h : symbolAt inHint c (x ++ s) = some (sym, n)) (hn : n ≤ x.length) (hs : Still s) (hs' : Calm s')
    (heq : s'.head? ≠ some '=') : symbolAt inHint c (x ++ s') = some (sym, n) := by
  cases x with
  | nil =>
    obtain rfl : n = 0 := Nat.le_zero.1 hn
    have hspelling := spelling_of_symbolAt h
    rw [Symbol.toList_spelling, List.take_zero] at hspelling
    obtain ⟨rfl, hchars⟩ := List.cons.inj hspelling
    have hend : sym ≠ .hintEnd := by
      rintro rfl
      cases hchars
    have hagain : symbolAt inHint sym.chars.1 (sym.chars.2 ++ s') = some (sym, sym.chars.2.length) :=
      symbolAt_again hend fun d hd => not_prolongs_of_isCalm sym (by simpa using hs' d hd) fun heq' => heq (heq' ▸ hd)
    rwa [hchars] at hagain
  | cons a x =>
    have hsecond {d : Char} := head?_append_iff (x := x) (d := d) hs hs'.still
    rw [← h, List.cons_append, List.cons_append]
    by_cases hhint : c = '/' ∧ a = '*'
    · obtain ⟨rfl, rfl⟩ := hhint
      simp only [symbolAt_hint, hsecond (d := '+') rfl (by decide) (by decide)]
    · by_cases hless : c = '<' ∧ a = '='
      · obtain ⟨rfl, rfl⟩ := hless
        simp only [symbolAt_less, hsecond (d := '>') rfl (by decide) (by decide)]
      · rw [symbolAt_single hhint hless, symbolAt_single hhint hless inHint (x ++ s)]

/-! ## Items -/

/-- A text that is cut before the place up to which another text is the same. -/
theorem exists_of_append_eq {a b : List Char} (h : a ++ b = x ++ s) (hlength : a.length ≤ x.length) :
    ∃ m, x = a ++ m ∧ b = m ++ s := by
  rcases List.append_eq_append_iff.1 h with hshort | ⟨m, rfl, rfl⟩
  · exact hshort
  · rw [List.length_append] at hlength
    obtain rfl : m = [] := List.length_eq_zero_iff.1 (by omega)
    exact ⟨[], by simp, rfl⟩

theorem startsWithout_replace {p : Char → Bool} {m : List Char} (h : StartsWithout p (m ++ s))
    (hs' : StartsWithout p s') : StartsWithout p (m ++ s') := by
  cases m with
  | nil => exact hs'
  | cons d m => exact h

theorem takeWhile_replace {p : Char → Bool} (hlength : ((x ++ s).takeWhile p).length ≤ x.length)
    (hs' : ((x ++ s).takeWhile p).length = x.length → StartsWithout p s') :
    (x ++ s').takeWhile p = (x ++ s).takeWhile p := by
  by_cases hall : (x.takeWhile p).length = x.length
  · simp only [List.takeWhile_append, if_pos hall, List.length_append] at hlength hs' ⊢
    have hnil : s.takeWhile p = [] := List.length_eq_zero_iff.1 (by omega)
    rw [hnil, List.length_nil, Nat.add_zero] at hs'
    have hs' := hs' rfl
    cases s' with
    | nil => rw [hnil, List.takeWhile_nil]
    | cons d s' => rw [hnil, List.takeWhile_cons_of_neg (by simp [startsWithout_cons.1 hs'])]
  · simp only [List.takeWhile_append, if_neg hall]

theorem closeComment_replace {depth : Nat} {cut : Cut} (h : closeComment depth (x ++ s) = some cut)
    (hlength : cut.1.length ≤ x.length) (s' : List Char) :
    ∃ rest, closeComment depth (x ++ s') = some (cut.1, rest) := by
  obtain ⟨m, rfl, -⟩ := exists_of_append_eq (whole_of_closeComment h) hlength
  rw [List.append_assoc]
  exact ⟨_, closeComment_again h _⟩

theorem closeString_replace {q : Char} {cut : Cut} (h : closeString q (x ++ s) = some cut)
    (hlength : cut.1.length ≤ x.length) (hs' : StartsWithout (· = q) s') :
    ∃ rest, closeString q (x ++ s') = some (cut.1, rest) := by
  obtain ⟨m, rfl, hrest⟩ := exists_of_append_eq (whole_of_closeString h) hlength
  rw [List.append_assoc]
  exact ⟨_, closeString_again h (startsWithout_replace (hrest ▸ startsWithout_of_closeString h) hs')⟩

theorem closeRawString_replace {q : Char} {cut : Cut} (h : closeRawString q (x ++ s) = some cut)
    (hlength : cut.1.length ≤ x.length) (s' : List Char) :
    ∃ rest, closeRawString q (x ++ s') = some (cut.1, rest) := by
  obtain ⟨m, rfl, -⟩ := exists_of_append_eq (whole_of_closeRawString h) hlength
  rw [List.append_assoc]
  exact ⟨_, closeRawString_again h _⟩

theorem closeQuoted_replace {cut : Cut} (h : closeQuoted (x ++ s) = some cut)
    (hlength : cut.1.length + 1 ≤ x.length) (hs' : StartsWithout (· = '\x60') s') :
    ∃ rest, closeQuoted (x ++ s') = some (cut.1, rest) := by
  have hwhole : (cut.1 ++ ['\x60']) ++ cut.2 = x ++ s := by
    rw [List.append_assoc, List.singleton_append]
    exact append_of_closeQuoted h
  obtain ⟨m, rfl, hrest⟩ := exists_of_append_eq hwhole (by simpa using hlength)
  rw [List.append_assoc, List.append_assoc, List.singleton_append]
  exact ⟨_, closeQuoted_again h (startsWithout_replace (hrest ▸ startsWithout_of_closeQuoted h) hs')⟩

theorem any_head?_replace {p : Char → Bool} (hs : StartsWithout p s) (hs' : StartsWithout p s') :
    (x ++ s').head?.any p = (x ++ s).head?.any p := by
  have hnone {r : List Char} (hr : StartsWithout p r) : r.head?.any p = false := by
    cases r with
    | nil => rfl
    | cons d r => exact startsWithout_cons.1 hr
  cases x with
  | nil => exact (hnone hs').trans (hnone hs).symm
  | cons a x => rfl

theorem item_dash (ctx : Context) (cs : List Char) :
    item ctx '-' ('-' :: cs) = .ok ⟨none, ('-' :: cs).takeWhile (· ≠ '\n')⟩ := by
  simp [item, isBlank]

/-- What an item is does not depend on how the text goes on behind the place where it is calm. -/
theorem item_of_calm {i : Item} (h : item ctx c (x ++ s) = .ok i) (hlength : i.tail.length ≤ x.length)
    (hs : Still s) (hs' : Calm s') (heq : s'.head? ≠ some '=')
    (hline : c = '-' → x.head? = some '-' → i.tail.length = x.length → StartsWithout (· ≠ '\n') s') :
    item ctx c (x ++ s') = .ok i := by
  have hlook {d : Char} (hd : isCalm d = false) (hdash : d ≠ '-') (hslash : d ≠ '/') :
      ((x ++ s').head? = some d) = ((x ++ s).head? = some d) :=
    propext (head?_append_iff hs'.still hs hd hdash hslash)
  have hstarts : (c = '-' && decide ((x ++ s').head? = some '-')) = (c = '-' && decide ((x ++ s).head? = some '-')) := by
    cases x with
    | nil =>
      -- A comment that starts at this very place is longer than the item may be.
      have hdash : ¬ (c = '-' ∧ s.head? = some '-') := by
        rintro ⟨rfl, hhead⟩
        match s with
        | d :: s =>
          obtain rfl : d = '-' := by simpa using hhead
          rw [List.nil_append, item_dash] at h
          cases h
          simp at hlength
      simp only [List.nil_append, hs'.head?_ne (d := '-') rfl, decide_false, Bool.and_false]
      simpa using hdash
    | cons a x => rfl
  have hblock : (c = '/' && decide ((x ++ s').head? = some '*') && decide ((x ++ s').tail.head? ≠ some '+')) =
      (c = '/' && decide ((x ++ s).head? = some '*') && decide ((x ++ s).tail.head? ≠ some '+')) := by
    cases x with
    | nil => simp [hs.head?_ne (d := '*') rfl, hs'.head?_ne (d := '*') rfl]
    | cons a x =>
      have hplus := not_congr (head?_append_iff (x := x) hs'.still hs (d := '+') rfl (by decide) (by decide))
      exact congrArg (_ && ·) (decide_eq_decide.2 hplus)
  have hdigit := any_head?_replace (x := x) (hs.startsWithout (p := Char.isDigit) (by decide))
    (hs'.startsWithout (by decide))
  unfold item at h ⊢
  simp only [hstarts, hlook (d := '\x27') rfl (by decide) (by decide),
    hlook (d := '\x22') rfl (by decide) (by decide), hblock, hdigit] at h ⊢
  split at h
  · rename_i hc
    rw [if_pos hc, ← h]
  rename_i hc
  rw [if_neg hc]
  split at h
  · rename_i hdash
    rw [if_pos hdash]
    cases h
    simp only [Bool.and_eq_true, decide_eq_true_eq] at hdash
    have htaken : (x ++ s').takeWhile (· ≠ '\n') = (x ++ s).takeWhile (· ≠ '\n') := by
      refine takeWhile_replace hlength fun hall => ?_
      refine hline hdash.1 ?_ hall
      cases x with
      | nil =>
        rw [decide_eq_true hdash.1, decide_eq_true hdash.2] at hstarts
        exact absurd (by simpa using hstarts) (hs'.head?_ne (d := '-') rfl)
      | cons a x => exact hdash.2
    rw [htaken]
  rename_i hc
  rw [if_neg hc]
  split at h
  · rename_i hopens
    rw [if_pos hopens]
    split at h
    · rename_i cut hcut
      cases h
      match x with
      | [] => simp [hs.head?_ne (d := '*') rfl] at hopens
      | a :: x =>
        obtain ⟨rest, hagain⟩ := closeComment_replace (x := x) hcut (by simpa using hlength) s'
        rw [List.cons_append, List.tail_cons, hagain]
    · contradiction
  rename_i hc
  rw [if_neg hc]
  split at h
  · rename_i hquote
    rw [if_pos hquote]
    split at h
    · rename_i cut hcut
      cases h
      have hs' : StartsWithout (· = c) s' := by
        simp only [Bool.or_eq_true, decide_eq_true_eq] at hquote
        rcases hquote with rfl | rfl <;> exact hs'.startsWithout (by decide)
      obtain ⟨rest, hagain⟩ := closeString_replace hcut hlength hs'
      rw [hagain]
    · contradiction
  rename_i hc
  rw [if_neg hc]
  split at h
  · rename_i htick
    rw [if_pos htick]
    split at h
    · rename_i cut hcut
      cases h
      obtain ⟨rest, hagain⟩ := closeQuoted_replace hcut (by simpa using hlength) (hs'.startsWithout (by decide))
      rw [hagain]
    · contradiction
  rename_i hc
  rw [if_neg hc]
  split at h
  · rename_i hnumber
    rw [if_pos hnumber, ← h, ← List.cons_append, ← List.cons_append, local_number _ _ hs,
      local_number _ _ hs'.still]
  rename_i hc
  rw [if_neg hc]
  split at h
  · rename_i hraw
    rw [if_pos hraw]
    match x with
    | [] => simp [hs.head?_ne (d := '\x27') rfl, hs.head?_ne (d := '\x22') rfl] at hraw
    | q :: x =>
      simp only [List.cons_append] at h ⊢
      split at h
      · rename_i cut hcut
        cases h
        obtain ⟨rest, hagain⟩ := closeRawString_replace hcut (by simpa using hlength) s'
        rw [hagain]
      · contradiction
  rename_i hc
  rw [if_neg hc]
  split at h
  · rename_i hword
    rw [if_pos hword, ← h]
    obtain ⟨htaken, -⟩ := takeWhile_append_calm (hs.startsWithout (p := isWordPart) (by decide)) x
    obtain ⟨htaken', -⟩ := takeWhile_append_calm (hs'.startsWithout (p := isWordPart) (by decide)) x
    rw [htaken, htaken']
  rename_i hc
  rw [if_neg hc]
  split at h
  · rename_i sym n hsymbol
    cases h
    have hn : n ≤ x.length := by
      have := le_length_of_symbolAt hsymbol
      rw [List.length_take] at hlength
      omega
    rw [symbolAt_of_calm hsymbol hn hs hs' heq]
    simp only [List.take_append_of_le_length hn]
  · contradiction

end Scan

end SqlTidy
