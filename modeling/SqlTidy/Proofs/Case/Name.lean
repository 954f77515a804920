import SqlTidy.Grammar.DataType
import SqlTidy.Proofs.Case.Mirror

/-!
# Names and data types do not see letter case
-/

namespace SqlTidy

/-! ## Mixed strings -/

namespace Text

/-- Outside of backticks every character is folded. -/
theorem foldOutside_append {cs : List Char} (h : '\x60' ∉ cs) (rest : List Char) :
    foldOutside false (cs ++ rest) = cs.map Char.toLower ++ foldOutside false rest := by
  induction cs with
  | nil => rfl
  | cons c cs ih =>
    simp only [List.mem_cons, not_or] at h
    simp [foldOutside, Ne.symm h.1, ih h.2]

/-- Between backticks nothing is folded; doubled backticks open and close nothing. -/
theorem foldOutside_closeQuoted {cs : List Char} {cut : Scan.Cut}
    (h : Scan.closeQuoted cs = some cut) (rest : List Char) :
    foldOutside true (cut.1 ++ '\x60' :: rest) = cut.1 ++ '\x60' :: foldOutside false rest := by
  fun_induction Scan.closeQuoted cs generalizing cut with
  | case1 => contradiction
  | case2 cs ih =>
    obtain ⟨cut, hcut, rfl⟩ := Option.map_eq_some_iff.1 h
    simp [Scan.Cut.push, foldOutside, ih hcut]
  | case3 =>
    cases h
    simp [foldOutside]
  | case4 c cs hpair hsingle ih =>
    obtain ⟨cut, hcut, rfl⟩ := Option.map_eq_some_iff.1 h
    have hc : c ≠ '\x60' := hsingle
    simp [Scan.Cut.push, foldOutside, hc, ih hcut]

theorem foldWritten_eq_of_head {c : Char} {cs : List Char} (hc : c ≠ '-') :
    foldWritten (String.ofList (c :: cs)) = String.ofList (foldPlain (c :: cs)) := by
  simp [foldWritten, hc]

theorem foldWritten_minus (s : String) :
    foldWritten ("-" ++ s) = "-" ++ String.ofList (foldPlain s.toList) := by
  simp [foldWritten, String.ofList_cons]

theorem foldPlain_of_startsLiteral {cs : List Char} (h : startsLiteral cs) : foldPlain cs = cs := by
  rw [foldPlain, if_pos h]

/-- A text that starts like a literal has no sign. -/
theorem foldWritten_of_startsLiteral {s : String} (h : startsLiteral s.toList) :
    foldWritten s = s := by
  match hs : s.toList with
  | [] =>
    rw [hs] at h
    contradiction
  | c :: cs =>
    have hc : c ≠ '-' := by
      rintro rfl
      simp [hs, startsLiteral] at h
    rw [← String.ofList_toList (s := s), hs, foldWritten_eq_of_head hc, ← hs,
      foldPlain_of_startsLiteral h]

theorem startsLiteral_number {n : String} (h : (Token.number n).WellFormed) :
    startsLiteral n.toList := by
  cases h with
  | number _ hstart =>
    match hn : n.toList with
    | [] => simp [hn, Scan.startsNumber] at hstart
    | c :: cs =>
      simp only [hn, Scan.startsNumber, Bool.or_eq_true, Bool.and_eq_true] at hstart
      rcases hstart with hc | ⟨hc, -⟩
      · simp [startsLiteral, hc]
      · simp [startsLiteral, hc]

theorem startsLiteral_string {s : String} (h : (Token.string s).WellFormed) :
    startsLiteral s.toList := by
  cases h with
  | string hs hq =>
    simp only [Bool.or_eq_true, decide_eq_true_eq] at hq
    rw [hs]
    rcases hq with rfl | rfl <;> rfl
  | rawString hs hr hq =>
    simp only [Bool.or_eq_true, decide_eq_true_eq] at hr hq
    rw [hs]
    rcases hr with rfl | rfl <;> rcases hq with rfl | rfl <;> rfl

/-- No name starts like a literal or with a sign. -/
theorem not_startsLiteral_of_isWordStart {c : Char} {cs : List Char} (hc : isWordStart c)
    (hcs : Scan.StartsWithout isQuote cs) : c ≠ '-' ∧ startsLiteral (c :: cs) = false := by
  have hne (d : Char) (hd : isWordStart d = false) : c ≠ d := by
    rintro rfl
    rw [hc] at hd
    contradiction
  have hdigit : c.isDigit = false := by
    have := isWordStart_iff.1 hc
    rw [Bool.eq_false_iff, ne_eq, isDigit_iff]
    omega
  refine ⟨hne '-' rfl, ?_⟩
  simp only [startsLiteral, hdigit, hne '.' rfl, hne '\x27' rfl, hne '\x22' rfl]
  cases cs with
  | nil => simp
  | cons d cs =>
    have : isQuote d = false := Scan.startsWithout_cons.1 hcs
    simp [isQuote] at this
    simp [this]

end Text

open Text

theorem Token.isWordPart_of_wellFormed {w : String} (h : (Token.word w).WellFormed) :
    ∀ c ∈ w.toList, isWordPart c := by
  cases h with
  | word hw hc hcs =>
    rw [hw]
    simp only [List.mem_cons, forall_eq_or_imp]
    exact ⟨by simp [isWordPart, hc], hcs⟩

namespace Ident

theorem written_of_quoted {i : Ident} (h : i.quoted = true) :
    i.written.toList = '\x60' :: (i.text.toList ++ ['\x60']) := by
  simp [written, h]

theorem written_of_not_quoted {i : Ident} (h : i.quoted = false) :
    i.written.toList = i.text.toList := by
  simp [written, h]

/-- The parts of a name are folded one by one. -/
theorem foldOutside_written {i : Ident} (hi : i.WellFormed) (rest : List Char) :
    foldOutside false (i.written.toList ++ rest) =
      i.foldCase.written.toList ++ foldOutside false rest := by
  cases hq : i.quoted with
  | true =>
    simp only [WellFormed, token, hq, if_true] at hi
    have hfold : i.foldCase = i := by simp [foldCase, hq]
    rw [hfold, written_of_quoted hq]
    cases hi with
    | quoted h => simpa [foldOutside] using foldOutside_closeQuoted h rest
  | false =>
    simp only [WellFormed, token, hq] at hi
    have hfold : i.foldCase = ⟨lower i.text, false⟩ := by simp [foldCase, hq]
    rw [hfold, written_of_not_quoted hq, written_of_not_quoted rfl, toList_lower]
    refine foldOutside_append (fun hmem => ?_) rest
    exact absurd (Token.isWordPart_of_wellFormed hi _ hmem) (by decide)

theorem exists_written {i : Ident} (hi : i.WellFormed) {rest : List Char}
    (hrest : Scan.StartsWithout isQuote rest) :
    ∃ c cs, i.written.toList = c :: cs ∧ c ≠ '-' ∧ startsLiteral (c :: (cs ++ rest)) = false := by
  cases hq : i.quoted with
  | true => exact ⟨_, _, written_of_quoted hq, by decide, by simp [startsLiteral]⟩
  | false =>
    simp only [WellFormed, token, hq] at hi
    cases hi with
    | @word _ c cs hw hc hcs =>
      refine ⟨c, cs, by rw [written_of_not_quoted hq, hw], ?_⟩
      refine not_startsLiteral_of_isWordStart hc ?_
      cases cs with
      | nil => exact hrest
      | cons d cs =>
        have hd : isWordPart d := hcs d List.mem_cons_self
        refine Scan.startsWithout_cons.2 (Bool.eq_false_iff.2 fun hquote => ?_)
        simp only [isQuote, Bool.or_eq_true, decide_eq_true_eq] at hquote
        rcases hquote with rfl | rfl <;> exact absurd hd (by decide)

end Ident

/-- A word on its own is folded as a whole. -/
theorem Token.foldPlain_word {w : String} (h : (Token.word w).WellFormed) :
    foldPlain w.toList = (lower w).toList ∧ foldWritten w = lower w := by
  have hi : (Ident.mk w false).WellFormed := h
  obtain ⟨c, cs, hw, hc, hliteral⟩ := Ident.exists_written hi (Scan.startsWithout_nil _)
  have hfold := Ident.foldOutside_written hi []
  rw [Ident.written_of_not_quoted rfl] at hw hfold
  simp only [List.append_nil] at hliteral hfold
  have hplain : foldPlain w.toList = (lower w).toList := by
    rw [hw] at hfold ⊢
    rw [foldPlain, hliteral, if_neg (by decide), hfold]
    simp [Ident.foldCase, Ident.written, foldOutside]
  refine ⟨hplain, ?_⟩
  rw [← String.ofList_toList (s := w), hw, foldWritten_eq_of_head hc, ← hw, hplain,
    String.ofList_toList, String.ofList_toList]

namespace DottedName

/-- A name that a scanned text may hold. -/
def WellFormed (n : DottedName) : Prop := ∀ i ∈ n.parts, i.WellFormed

theorem foldOutside_intercalate {parts : List Ident} (h : ∀ i ∈ parts, i.WellFormed) :
    foldOutside false (['.'].intercalate (parts.map fun i => i.written.toList)) =
      ['.'].intercalate (parts.map fun i => i.foldCase.written.toList) := by
  induction parts with
  | nil => rfl
  | cons i parts ih =>
    have hi : i.WellFormed := h i List.mem_cons_self
    have ih := ih fun j hj => h j (List.mem_cons_of_mem i hj)
    cases parts with
    | nil => simpa [foldOutside] using Ident.foldOutside_written hi []
    | cons j parts =>
      simp only [List.map_cons, List.intercalate_cons_cons] at ih ⊢
      rw [List.append_assoc, Ident.foldOutside_written hi, List.append_assoc]
      simp [foldOutside, ih]

theorem toList_written (n : DottedName) :
    n.written.toList = ['.'].intercalate (n.parts.map fun i => i.written.toList) := by
  simp [written, String.toList_intercalate, Function.comp_def]

/-- What stands behind the first part of a name starts with the dot, if there is anything. -/
theorem exists_toList_written {i : Ident} (hi : i.WellFormed) (parts : List Ident) :
    ∃ c cs, (DottedName.mk (i :: parts)).written.toList = c :: cs ∧ c ≠ '-' ∧
      startsLiteral (c :: cs) = false := by
  rw [toList_written]
  cases parts with
  | nil =>
    obtain ⟨c, cs, hwritten, hc, hliteral⟩ := Ident.exists_written hi (Scan.startsWithout_nil _)
    exact ⟨c, cs, by simpa using hwritten, hc, by simpa using hliteral⟩
  | cons j parts =>
    simp only [List.map_cons, List.intercalate_cons_cons]
    obtain ⟨c, cs, hwritten, hc, hliteral⟩ := Ident.exists_written hi
      (Scan.startsWithout_cons.2 (show isQuote '.' = false from rfl))
    exact ⟨c, _, by rw [hwritten]; simp; rfl, hc, hliteral⟩

theorem foldWritten_written {n : DottedName} (h : n.WellFormed) :
    foldWritten n.written = n.foldCase.written := by
  obtain ⟨parts⟩ := n
  cases parts with
  | nil => rfl
  | cons i parts =>
    obtain ⟨c, cs, hcs, hc, hliteral⟩ := exists_toList_written (h i List.mem_cons_self) parts
    have hfold := foldOutside_intercalate h
    rw [← toList_written, hcs] at hfold
    rw [← String.toList_inj, ← String.ofList_toList (s := DottedName.written _), hcs,
      foldWritten_eq_of_head hc, foldPlain, hliteral, toList_written]
    simpa [foldCase, Function.comp_def] using hfold

end DottedName

namespace Grammar

open Parse

@[simp] theorem isIdentifier_foldCase (t : Token) : isIdentifier t.foldCase = isIdentifier t := by
  cases t <;> rfl

theorem steady_mayBeAlias : Steady mayBeAlias := by
  refine mirrors_current.bind fun t => ?_
  cases t with
  | word w => exact .pure (by simp)
  | _ => exact .pure rfl

theorem mirrors_identifier : Mirrors Ident.foldCase identifier identifier := by
  refine mirrors_expectIf fun t _ => ?_
  cases t <;> rfl

theorem mirrors_dottedPart : Mirrors (Option.map Ident.foldCase) dottedPart dottedPart := by
  refine (steady_isSymbol _).andThen fun dot => (mirrors_peek 1).bind fun t => ?_
  rw [isIdentifier_foldCase]
  exact .ite (steady_skip.andThen fun _ => mirrors_identifier.map fun _ => rfl) (.pure rfl)

theorem mirrors_dottedName : Mirrors DottedName.foldCase dottedName dottedName :=
  mirrors_identifier.bind fun _ => mirrors_dottedPart.many.map fun _ => rfl

theorem mirrors_identifierList :
    Mirrors (List.map Ident.foldCase) identifierList identifierList :=
  (steady_expect _).andThen fun _ => mirrors_identifier.commaSeparated.bind fun _ =>
    (steady_expect _).andThen fun _ => .pure rfl

theorem mirrors_optionalIdentifierList :
    Mirrors (List.map Ident.foldCase) optionalIdentifierList optionalIdentifierList :=
  .maybeList (steady_isSymbol _) mirrors_identifierList

theorem steady_stringLiteral : Steady stringLiteral := by
  refine mirrors_expectIf fun t _ => ?_
  cases t <;> rfl

theorem steady_optionalString (keyword : String) : Steady (optionalString keyword) :=
  steady_maybe (steady_acceptWord keyword) steady_stringLiteral

theorem steady_number : Steady number := by
  refine mirrors_expectIf fun t _ => ?_
  cases t <;> rfl

theorem caseless_capitals : Caseless id capitals capitals := by
  intro t _
  cases t with
  | word w => simp [Token.foldCase, capitals]
  | _ => rfl

theorem caseless_capitalsAmong (words : List String) :
    Caseless id (capitalsAmong words) (capitalsAmong words) := by
  intro t ht
  simp [capitalsAmong, caseless_capitals t ht]

theorem yields_identifier : Yields Ident.WellFormed identifier := by
  refine yields_expectIf fun t ht name hname => ?_
  cases t with
  | word w =>
    cases hname
    exact ht
  | quoted w =>
    cases hname
    exact ht
  | _ => contradiction

theorem yields_dottedPart : Yields (fun a => ∀ name ∈ a, Ident.WellFormed name) dottedPart :=
  .andThen fun _ => .andThen fun _ => .ite
    (.andThen fun _ => yields_identifier.bind fun _ h => .pure (by simpa using h))
    (.pure (by simp))

/-- A name in a statement is made of identifiers that were scanned. -/
theorem yields_dottedName : Yields DottedName.WellFormed dottedName :=
  yields_identifier.bind fun _ hfirst => yields_dottedPart.many.bind fun _ hrest =>
    .pure (List.forall_mem_cons.2 ⟨hfirst, hrest⟩)

/-! ## Data types -/

theorem mirrors_typeParameter : Mirrors foldWritten typeParameter typeParameter := by
  refine mirrors_expectIf fun t ht => ?_
  cases t with
  | word w => simp [Token.foldCase, (Token.foldPlain_word ht).2]
  | number n =>
    simp [Token.foldCase, foldWritten_of_startsLiteral (startsLiteral_number ht)]
  | _ => rfl

theorem mirrors_primitiveType (name : String) :
    Mirrors DataType.foldCase (primitiveType name) (primitiveType (lower name)) :=
  (steady_accept _).andThen fun _ => .ite
    (mirrors_typeParameter.commaSeparated.bind fun _ =>
      (steady_expect _).andThen fun _ => .pure (by simp [DataType.foldCase]))
    (.pure (by simp [DataType.foldCase]))

theorem mirrors_structField {inner : Parse DataType}
    (h : Mirrors DataType.foldCase inner inner) :
    Mirrors StructField.foldCase (structField inner) (structField inner) :=
  mirrors_identifier.bind fun _ => (steady_accept _).andThen fun _ => h.bind fun _ =>
    (steady_acceptWords _).andThen fun _ => (steady_optionalString _).andThen fun _ =>
      .pure (by simp [StructField.foldCase])

theorem mirrors_intervalType : Mirrors DataType.foldCase intervalType intervalType := by
  refine (mirrors_expectIf (caseless_capitalsAmong _)).andThen fun _ => ?_
  refine Mirrors.andThen ?_ fun _ => .pure (by simp [DataType.foldCase])
  exact steady_maybe (steady_acceptWord _) (mirrors_expectIf caseless_capitals)

theorem mirrors_typeAfter {inner : Parse DataType} (h : Mirrors DataType.foldCase inner inner)
    (name : String) :
    Mirrors DataType.foldCase (typeAfter inner name) (typeAfter inner (lower name)) := by
  refine (steady_isSymbol _).andThen fun bracket => ?_
  rw [upper_lower]
  split
  · exact steady_skip.andThen fun _ => h.bind fun _ => (steady_expect _).andThen fun _ =>
      .pure (by simp [DataType.foldCase])
  · exact steady_skip.andThen fun _ => h.bind fun _ => (steady_expect _).andThen fun _ =>
      h.bind fun _ => (steady_expect _).andThen fun _ => .pure (by simp [DataType.foldCase])
  · exact steady_skip.andThen fun _ => (mirrors_structField h).commaSeparated.bind fun _ =>
      (steady_expect _).andThen fun _ =>
        .pure (by simp [DataType.foldCase, DataType.foldFields_eq_map])
  · exact (steady_accept _).andThen fun _ => .ite
      (.pure (by simp [DataType.foldCase, DataType.foldFields]))
      (mirrors_primitiveType name)
  · exact mirrors_intervalType
  · exact mirrors_primitiveType name

theorem mirrors_dataType : Mirrors DataType.foldCase dataType dataType := by
  refine mirrors_fix fun inner h => ?_
  refine Mirrors.bind (f := lower) (mirrors_expectIf fun t _ => ?_) fun name =>
    mirrors_typeAfter h name
  cases t <;> rfl

end Grammar

end SqlTidy
