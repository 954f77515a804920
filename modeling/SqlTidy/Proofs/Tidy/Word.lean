import SqlTidy.Grammar.Nesting
import SqlTidy.Proofs.DataType
import SqlTidy.Proofs.Setting.Cut
import SqlTidy.Proofs.Tidy.Tree

/-!
# What is read from unbroken tokens

Whether a tree is tidy depends on its names and literals, and these are tokens of the source. A token starts and ends
with characters of its own, so it is tidy unless a line ends in its middle: in a string, or between backticks. An input
none of whose tokens is broken like that is `Unbroken`.

`Gives i Q rule` says that all results of a rule on the input `i` have the property `Q`. It differs from `Yields` in that
the input is fixed, so that what is known of its tokens may be used. There is one lemma for each way of combining rules,
and one for each rule that takes a name, a literal or a type.
-/

namespace SqlTidy

open Text Doc Tidy

/-! ## Tokens -/

namespace Text

/-- The characters of a word are no blanks. -/
theorem not_isBlank_of_isWordPart {c : Char} (h : isWordPart c) : isBlank c = false := by
  rw [isWordPart_iff] at h
  have hblank : ¬ isBlank c := by
    simp only [isBlank, Bool.or_eq_true, decide_eq_true_eq]
    rintro ((((rfl | rfl) | rfl) | rfl) | rfl) <;> simp_all
  simpa using hblank

/-- A text without blanks is tidy, if there is something in it. -/
theorem tidy_of_forall {s : String} (hne : s.toList ≠ []) (h : ∀ c ∈ s.toList, isBlank c = false) : tidy s := by
  refine settle_of_unbroken (fun hline => absurd (h _ hline) (by decide)) ?_ false
  exact ⟨_, List.getLast?_eq_some_getLast hne, h _ (List.getLast_mem hne)⟩

/-- Where a tidy text starts does not matter. -/
theorem settle_anywhere {cs : List Char} (h : settle false cs = some true) (b : Bool) : settle b cs = some true := by
  obtain ⟨c, hc, htrue⟩ := exists_settle h (show false = true → b = true by simp)
  rw [hc, htrue rfl]

/-- A minus in front of a number leaves it tidy. -/
theorem tidy_minus {s : String} (h : tidy s) : tidy ("-" ++ s) := by
  show settle false _ = _
  rw [String.toList_append, settle_append]
  exact settle_anywhere h true

end Text

namespace Token

theorem WellFormed.tidy_word {w : String} (h : WellFormed (.word w)) : tidy w := by
  cases h with
  | word hw hc hcs =>
    refine tidy_of_forall (by simp [hw]) fun c hmem => not_isBlank_of_isWordPart ?_
    rw [hw] at hmem
    rcases List.mem_cons.1 hmem with rfl | hmem
    · exact Bool.or_eq_true_iff.2 (.inl hc)
    · exact hcs c hmem

/-- A well formed token without a line end in it. -/
structure Unbroken (t : Token) : Prop where
  wellFormed : t.WellFormed
  unbroken : '\n' ∉ t.lexeme

namespace Unbroken

variable {t : Token} {s : String}

theorem tidy_word (h : Unbroken (.word s)) : tidy s := h.wellFormed.tidy_word

theorem tidy_upper (h : Unbroken (.word s)) : tidy (upper s) := (wellFormed_upper h.wellFormed).tidy_word

theorem tidy_lower (h : Unbroken (.word s)) : tidy (lower s) :=
  (h.wellFormed.of_upper (upper_lower s).symm).tidy_word

/-- A literal ends with a quote, a digit or a letter. -/
theorem settle_lexeme (h : t.Unbroken) (hlit : t.isLiteral) : settle false t.lexeme = some true := by
  have hsolid := h.wellFormed.isSolid hlit
  have hlast := List.getLast?_eq_some_getLast hsolid.ne_nil
  refine settle_of_unbroken h.unbroken ⟨_, hlast, ?_⟩ false
  have hend := hsolid.ends _ (by rwa [List.head?_reverse])
  exact Bool.eq_false_iff.2 fun hblank => by simp [isWhiteSpace_of_isBlank hblank] at hend

theorem tidy_string (h : Unbroken (.string s)) : tidy s := h.settle_lexeme rfl

theorem tidy_number (h : Unbroken (.number s)) : tidy s := h.settle_lexeme rfl

theorem tidy_quoted (h : Unbroken (.quoted s)) : tidy (Ident.mk s true) := by
  have hlexeme := h.settle_lexeme rfl
  simpa [tidy, Ident.written, lexeme] using hlexeme

end Unbroken

end Token

/-- An input whose tokens are well formed and have no line ends in them. -/
def Input.Unbroken (i : Input) : Prop := ∀ t ∈ i.tokens, t.token.Unbroken

theorem Input.Unbroken.tokenAt {i : Input} (h : i.Unbroken) (pos : Nat) : (i.tokenAt pos).Unbroken := by
  unfold Input.tokenAt
  split
  · rename_i t ht
    exact h t (Array.mem_of_getElem? ht)
  · exact ⟨.eof, List.not_mem_nil⟩

/-- A name is tidy if its parts are and there is one. -/
theorem DottedName.tidy_of {first : Ident} {rest : List Ident} (h : tidy first) (hrest : tidy rest) :
    tidy (mk (first :: rest)) := by
  show settle false _ = _
  rw [toList_written]
  induction rest generalizing first with
  | nil =>
    rw [List.map_singleton, List.intercalate_singleton]
    exact h
  | cons next rest ih =>
    obtain ⟨hnext, hrest⟩ := List.forall_mem_cons.1 hrest
    have hfirst : settle false first.written.toList = some true := h
    simp only [List.map_cons, List.intercalate_cons_cons, settle_append, hfirst, Option.bind_some]
    exact settle_anywhere (ih hnext hrest) _

/-! ## Rules -/

namespace Parse

variable {α β : Type} {i : Input} {Q : α → Prop} {p : Parse α} {test : Parse Bool}

/-- Every result of a rule on an input has a property. -/
def Gives (i : Input) (Q : α → Prop) (p : Parse α) : Prop := ∀ pos, Ends p i pos fun a _ => Q a

theorem Gives.imp {R : α → Prop} (h : Gives i Q p) (himp : ∀ a, Q a → R a) : Gives i R p :=
  fun pos => (h pos).mono fun a _ => himp a

theorem Gives.pure {a : α} (h : Q a) : Gives i Q (pure a) := fun _ => .pure h

theorem Gives.bind {P : β → Prop} {p : Parse β} {k : β → Parse α} (hp : Gives i P p)
    (hk : ∀ b, P b → Gives i Q (k b)) : Gives i Q (p >>= k) :=
  fun pos => (hp pos).bind fun b next hb => hk b hb next

/-- Nothing is to be known about the first result. -/
theorem Gives.andThen {p : Parse β} {k : β → Parse α} (hk : ∀ b, Gives i Q (k b)) : Gives i Q (p >>= k) :=
  fun _ => .step fun b next => hk b next

theorem Gives.ite {c : Prop} [Decidable c] {p q : Parse α} (hp : Gives i Q p) (hq : Gives i Q q) :
    Gives i Q (if c then p else q) :=
  fun pos => .ite (fun _ => hp pos) fun _ => hq pos

/-- What is known of the tokens is known of the one that is looked at. -/
theorem Gives.current {k : Token → Parse α} (hi : i.Unbroken) (hk : ∀ t : Token, t.Unbroken → Gives i Q (k t)) :
    Gives i Q (Parse.current >>= k) :=
  fun pos => .current_bind (hk _ (hi.tokenAt pos) pos)

theorem Gives.peek {n : Nat} {k : Token → Parse α} (hi : i.Unbroken)
    (hk : ∀ t : Token, t.Unbroken → Gives i Q (k t)) : Gives i Q (Parse.peek n >>= k) :=
  fun pos => .peek_bind (hk _ (hi.tokenAt _) pos)

theorem gives_expected (what : String) : Gives i Q (expected what) := fun _ => ends_expected what _

theorem gives_fail (cause : Cause) : Gives i Q (fail cause) := fun _ => ends_fail cause _

theorem gives_none : Gives i (fun o => ∀ a ∈ o, Q a) (Pure.pure none) := .pure (by simp)

theorem gives_nil : Gives i (fun as => ∀ a ∈ as, Q a) (Pure.pure []) := .pure (by simp)

theorem Gives.toSome (h : Gives i Q p) : Gives i (fun o => ∀ a ∈ o, Q a) (do return some (← p)) :=
  h.bind fun a ha => .pure (by rintro _ ⟨⟩; exact ha)

theorem gives_acceptIf {meaning : Token → Option α} (hi : i.Unbroken)
    (h : ∀ t : Token, t.Unbroken → ∀ a ∈ meaning t, Q a) : Gives i (fun o => ∀ a ∈ o, Q a) (acceptIf meaning) := by
  refine fun pos => .acceptIf (by simp) fun a _ ha b hb => ?_
  cases hb
  exact h _ (hi.tokenAt pos) a ha

theorem gives_expectIf {what : String} {meaning : Token → Option α} (hi : i.Unbroken)
    (h : ∀ t : Token, t.Unbroken → ∀ a ∈ meaning t, Q a) : Gives i Q (expectIf what meaning) :=
  fun pos => .expectIf fun a _ ha => h _ (hi.tokenAt pos) a ha

theorem Gives.maybe (h : Gives i Q p) : Gives i (fun o => ∀ a ∈ o, Q a) (maybe test p) :=
  .andThen fun _ => .ite h.toSome gives_none

theorem Gives.maybeList {p : Parse (List α)} (h : Gives i (fun as => ∀ a ∈ as, Q a) p) :
    Gives i (fun as => ∀ a ∈ as, Q a) (maybeList test p) :=
  .andThen fun _ => .ite h gives_nil

theorem gives_choose {rules : List (List String × α)} (h : ∀ r ∈ rules, Q r.2) :
    Gives i (fun o => ∀ a ∈ o, Q a) (choose rules) := by
  refine fun pos => .choose (by simp) fun r hr _ a ha => ?_
  cases ha
  exact h r hr

theorem Gives.chooseRule {rules : List (List String × Parse α)} (h : ∀ r ∈ rules, Gives i Q r.2) :
    Gives i (fun o => ∀ a ∈ o, Q a) (chooseRule rules) := by
  refine (gives_choose h).bind fun rule hrule => ?_
  cases rule with
  | none => exact gives_none
  | some rule => exact (hrule rule rfl).toSome

theorem Gives.rewinding {p : Parse (Option α)} (h : Gives i (fun o => ∀ a ∈ o, Q a) p) :
    Gives i (fun o => ∀ a ∈ o, Q a) (rewinding p) :=
  fun pos => .rewinding (by simp) ((h pos).mono fun _ _ ha _ => ha)

theorem Gives.attempt {p : Parse (Option α)} (h : Gives i (fun o => ∀ a ∈ o, Q a) p) :
    Gives i (fun o => ∀ a ∈ o, Q a) (attempt p) :=
  fun pos => .attempt (by simp) ((h pos).mono fun _ _ ha _ => ha)

theorem Gives.iterate {step : α → Parse (Option α)}
    (h : ∀ a, Q a → Gives i (fun o => ∀ b ∈ o, Q b) (step a)) (a : α) (ha : Q a) : Gives i Q (iterate step a) :=
  fun _ => .iterate ha fun b mid hb => (h b hb mid).mono fun _ _ ho => ⟨fun _ => hb, fun c hc => ho c hc⟩

theorem Gives.many {step : Parse (Option α)} (h : Gives i (fun o => ∀ a ∈ o, Q a) step) :
    Gives i (fun as => ∀ a ∈ as, Q a) (many step) := by
  refine fun pos => .many (by simp) fun as mid has => (h mid).mono fun _ _ ho => ⟨fun _ => has, fun a ha => ?_⟩
  exact List.forall_mem_append.2 ⟨has, by simpa using ho a ha⟩

/-- A list with commas between its members has a first one. -/
theorem Gives.commas (h : Gives i Q p) : Gives i (fun as => as ≠ [] ∧ ∀ a ∈ as, Q a) (commaSeparated p) := by
  refine h.bind fun first hfirst => h.maybe.many.bind fun rest hrest => .pure ?_
  exact ⟨List.cons_ne_nil first rest, List.forall_mem_cons.2 ⟨hfirst, hrest⟩⟩

theorem Gives.commaSeparated (h : Gives i Q p) : Gives i (fun as => ∀ a ∈ as, Q a) (commaSeparated p) :=
  h.commas.imp fun _ => And.right

theorem Gives.fix {rule : Parse α → Parse α} (h : ∀ p, Gives i Q p → Gives i Q (rule p)) : Gives i Q (fix rule) := by
  have hnested (n : Nat) : Gives i Q (nested rule n) := by
    induction n with
    | zero => exact gives_fail .endless
    | succ n ih => exact h _ ih
  exact fun pos => hnested _ pos

end Parse

/-! ## Names, literals and types -/

namespace Grammar

open Parse

variable {i : Input} (hi : i.Unbroken)

include hi

theorem tidies_identifier : Gives i tidy identifier := by
  refine gives_expectIf hi fun t ht name hname => ?_
  cases t with
  | word w =>
    cases hname
    exact ht.tidy_word
  | quoted w =>
    cases hname
    exact ht.tidy_quoted
  | _ => contradiction

theorem tidies_dottedPart : Gives i tidy dottedPart :=
  .andThen fun _ => .andThen fun _ => .ite (.andThen fun _ => (tidies_identifier hi).toSome) gives_none

theorem tidies_dottedName : Gives i tidy dottedName :=
  (tidies_identifier hi).bind fun _ hfirst => (tidies_dottedPart hi).many.bind fun _ hrest =>
    .pure (DottedName.tidy_of hfirst hrest)

theorem gives_identifierList : Gives i (fun names => names ≠ [] ∧ tidy names) identifierList :=
  .andThen fun _ => (tidies_identifier hi).commas.bind fun _ hnames => .andThen fun _ => .pure hnames

theorem tidies_identifierList : Gives i tidy identifierList := (gives_identifierList hi).imp fun _ => And.right

theorem tidies_optionalIdentifierList : Gives i tidy optionalIdentifierList := (tidies_identifierList hi).maybeList

theorem tidies_stringLiteral : Gives i tidy stringLiteral := by
  refine gives_expectIf hi fun t ht s hs => ?_
  cases t with
  | string =>
    cases hs
    exact ht.tidy_string
  | _ => contradiction

theorem tidies_optionalString (keyword : String) : Gives i tidy (optionalString keyword) :=
  (tidies_stringLiteral hi).maybe

theorem tidies_number : Gives i tidy number := by
  refine gives_expectIf hi fun t ht s hs => ?_
  cases t with
  | number =>
    cases hs
    exact ht.tidy_number
  | _ => contradiction

omit hi in
theorem tidy_capitals {t : Token} (ht : t.Unbroken) : ∀ s ∈ capitals t, tidy s := by
  intro s hs
  cases t with
  | word =>
    cases hs
    exact ht.tidy_upper
  | _ => contradiction

omit hi in
theorem tidy_capitalsAmong {words : List String} {t : Token} (ht : t.Unbroken) :
    ∀ s ∈ capitalsAmong words t, tidy s :=
  fun s hs => tidy_capitals ht s (Option.filter_eq_some_iff.1 hs).1

theorem tidies_typeParameter : Gives i tidy typeParameter := by
  refine gives_expectIf hi fun t ht s hs => ?_
  cases t with
  | number =>
    cases hs
    exact ht.tidy_number
  | word =>
    cases hs
    exact ht.tidy_word
  | _ => contradiction

open DataType

theorem tidies_primitiveType {name : String} (hname : tidy name) : Gives i tidy (primitiveType name) := by
  refine .andThen fun _ => .ite ?_ (.pure (tidy_primitive hname tidy_nil))
  refine (tidies_typeParameter hi).commaSeparated.bind fun params hparams => ?_
  exact .andThen fun _ => .pure (tidy_primitive hname hparams)

theorem tidies_structField {inner : Parse DataType} (h : Gives i tidy inner) :
    Gives i tidy (structField inner) := by
  refine (tidies_identifier hi).bind fun name hname => .andThen fun colon => h.bind fun type htype => ?_
  refine .andThen fun notNull => (tidies_optionalString hi _).bind fun comment hcomment => .pure ?_
  exact tidy_field colon notNull hname htype hcomment

theorem tidies_intervalType : Gives i tidy intervalType := by
  refine (gives_expectIf hi fun t ht => tidy_capitalsAmong ht).bind fun start hstart => ?_
  refine (gives_expectIf hi fun t ht => tidy_capitals ht).maybe.bind fun stop hstop => ?_
  exact .pure (tidy_interval hstart hstop)

theorem tidies_typeAfter {inner : Parse DataType} (h : Gives i tidy inner) {name : String} (hname : tidy name) :
    Gives i tidy (typeAfter inner name) := by
  refine .andThen fun bracket => ?_
  split
  · exact .andThen fun _ => h.bind fun element helement => .andThen fun _ => .pure (tidy_array hname helement)
  · refine .andThen fun _ => h.bind fun key hkey => .andThen fun _ => h.bind fun value hvalue => ?_
    exact .andThen fun _ => .pure (tidy_map hname hkey hvalue)
  · refine .andThen fun _ => (tidies_structField hi h).commaSeparated.bind fun fields hfields => ?_
    exact .andThen fun _ => .pure (tidy_struct hname hfields)
  · exact .andThen fun _ => .ite (.pure (tidy_struct hname tidy_nil)) (tidies_primitiveType hi hname)
  · exact tidies_intervalType hi
  · exact tidies_primitiveType hi hname

theorem tidies_dataType : Gives i tidy dataType := by
  refine .fix fun inner h => (gives_expectIf (Q := tidy) hi fun t ht s hs => ?_).bind fun name hname => ?_
  · cases t with
    | word =>
      cases hs
      exact ht.tidy_word
    | _ => contradiction
  · exact tidies_typeAfter hi h hname

end Grammar

end SqlTidy
