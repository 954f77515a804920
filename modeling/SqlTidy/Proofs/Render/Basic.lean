import SqlTidy.Proofs.Ink
import SqlTidy.Proofs.Stored

/-!
# What a document carries

A document is made of the words that a construct always prints and of strings that the tree keeps. Two
questions about pages depend on nothing else: whether every string of the tree is printed, and whether the
brackets of the page are well nested.

**The judgement** (`Doc.Carries ss a b d`). Every string of `ss` stands in a text of `d`. And if none of
these strings has a bracket, then reading `d` where the closing brackets `a` are still awaited leaves the
closing brackets `b` awaited. A document with `a = b = []` *renders* the strings (`Doc.Renders`): it closes
what it opens.

**Sequences.** Most documents are a sequence of parts. `Doc.RendersSeq` reads such a sequence from left to
right, a fixed word by what its brackets do (`word`), a part that prints strings of the tree by its own
judgement (`part`), and a part that prints none (`skip`). So a proof about a construct has the shape of the
construct's layout.
-/

namespace SqlTidy

/-! ## Brackets -/

namespace Text

def isBracket (c : Char) : Bool := c = '(' || c = ')' || c = '[' || c = ']'

/-- The closing brackets that are awaited behind a character, the innermost first. A closing bracket that
is not the one awaited is an error. -/
def bracketStep (awaited : List Char) (c : Char) : Option (List Char) :=
  if c = '(' then some (')' :: awaited)
  else if c = '[' then some (']' :: awaited)
  else if isBracket c then
    if awaited.head? = some c then some awaited.tail else none
  else some awaited

/-- The closing brackets that are awaited behind a text. -/
def awaiting (awaited : List Char) (cs : List Char) : Option (List Char) :=
  cs.foldlM bracketStep awaited

/-- The parentheses and square brackets of a text are well nested. -/
def wellNested (s : String) : Bool := awaiting [] s.toList = some []

example : wellNested "f(a[(i)])[j]" := by decide

example : wellNested "(a[)]" = false := by decide

/-- A string without parentheses and square brackets. -/
def BracketFree (s : String) : Prop := ∀ c ∈ s.toList, isBracket c = false

variable {a b c : List Char} {cs ds : List Char}

theorem bracketStep_of_not_isBracket {ch : Char} (h : isBracket ch = false) (a : List Char) :
    bracketStep a ch = some a := by
  have hparen : ch ≠ '(' := by
    rintro rfl
    contradiction
  have hsquare : ch ≠ '[' := by
    rintro rfl
    contradiction
  rw [bracketStep, if_neg hparen, if_neg hsquare, h, if_neg Bool.false_ne_true]

theorem awaiting_append (a : List Char) (cs ds : List Char) :
    awaiting a (cs ++ ds) = (awaiting a cs).bind fun b => awaiting b ds :=
  List.foldlM_append

theorem awaiting_cons (a : List Char) (c : Char) (cs : List Char) :
    awaiting a (c :: cs) = (bracketStep a c).bind fun b => awaiting b cs :=
  List.foldlM_cons

theorem awaiting_of_bracketFree (h : ∀ c ∈ cs, isBracket c = false) (a : List Char) :
    awaiting a cs = some a := by
  induction cs with
  | nil => rfl
  | cons c cs ih =>
    obtain ⟨hc, hcs⟩ := List.forall_mem_cons.1 h
    rw [awaiting_cons, bracketStep_of_not_isBracket hc]
    exact ih hcs

theorem bracketStep_frame {ch : Char} (h : bracketStep a ch = some b) (c : List Char) :
    bracketStep (a ++ c) ch = some (b ++ c) := by
  unfold bracketStep at h ⊢
  by_cases hparen : ch = '('
  · rw [if_pos hparen] at h ⊢
    cases h
    rfl
  rw [if_neg hparen] at h ⊢
  by_cases hsquare : ch = '['
  · rw [if_pos hsquare] at h ⊢
    cases h
    rfl
  rw [if_neg hsquare] at h ⊢
  by_cases hbracket : isBracket ch
  · rw [if_pos hbracket, Option.ite_none_right_eq_some] at h
    obtain ⟨hhead, ⟨⟩⟩ := h
    cases a with
    | nil => contradiction
    | cons d a =>
      rw [if_pos hbracket]
      exact if_pos hhead
  · rw [if_neg hbracket] at h ⊢
    cases h
    rfl

/-- What is awaited further out does not matter to a text that closes no more than it should. -/
theorem awaiting_frame (h : awaiting a cs = some b) (c : List Char) :
    awaiting (a ++ c) cs = some (b ++ c) := by
  induction cs generalizing a with
  | nil =>
    cases h
    rfl
  | cons ch cs ih =>
    rw [awaiting_cons] at h
    obtain ⟨d, hd, hrest⟩ := Option.bind_eq_some_iff.1 h
    rw [awaiting_cons, bracketStep_frame hd]
    exact ih hrest

/-- Gaps have no brackets, so collapsing them changes nothing. -/
theorem awaiting_collapseFrom (a : List Char) (inRun : Bool) (cs : List Char) :
    awaiting a (collapseFrom inRun cs) = awaiting a cs := by
  induction cs generalizing a inRun with
  | nil => rfl
  | cons c cs ih =>
    by_cases hgap : isGap c
    · have hc : isBracket c = false := by
        simp only [isGap, Bool.or_eq_true, decide_eq_true_eq] at hgap
        rcases hgap with rfl | rfl <;> rfl
      rw [awaiting_cons a c, bracketStep_of_not_isBracket hc, collapseFrom, if_pos hgap]
      cases inRun with
      | true => exact ih a true
      | false => exact ih a true
    · rw [collapseFrom, if_neg hgap, awaiting_cons, awaiting_cons]
      exact congrArg _ (funext fun b => ih b false)

/-- Pages that differ in their gaps alone are well nested together. -/
theorem wellNested_congr {s t : String} (h : collapse s = collapse t) :
    wellNested s = wellNested t := by
  have hlists : collapseFrom false s.toList = collapseFrom false t.toList := String.ofList_injective h
  rw [wellNested, wellNested, ← awaiting_collapseFrom [] false s.toList, hlists,
    awaiting_collapseFrom]

end Text

open Text

/-! ## The judgement -/

namespace Doc

/-- A text of the document contains the string. -/
def Shows (s : String) : Doc → Prop
  | nil | line | clauseBreak => False
  | text t => s.toList <:+: t.toList
  | append a b => a.Shows s ∨ b.Shows s
  | nest d | hang d => d.Shows s

/-- The document shows the strings and, if they have no brackets, turns the closing brackets `a` that are
awaited before it into `b`. -/
structure Carries (ss : List String) (a b : List Char) (d : Doc) : Prop where
  shows : ∀ s ∈ ss, d.Shows s
  brackets : (∀ s ∈ ss, BracketFree s) → awaiting a d.ink = some b

/-- The document shows the strings and closes what it opens. -/
abbrev Renders (ss : List String) (d : Doc) : Prop := Carries ss [] [] d

variable {ss ss' : List String} {sss : List (List String)} {a b c : List Char} {d e : Doc}
  {ds : List Doc}

namespace Carries

theorem frame (h : Carries ss a b d) (c : List Char) : Carries ss (a ++ c) (b ++ c) d :=
  ⟨h.shows, fun hfree => awaiting_frame (h.brackets hfree) c⟩

theorem append (hd : Carries ss a b d) (he : Carries ss' b c e) :
    Carries (ss ++ ss') a c (d ++ e) := by
  constructor
  · intro s hs
    rcases List.mem_append.1 hs with hs | hs
    · exact .inl (hd.shows s hs)
    · exact .inr (he.shows s hs)
  · intro hfree
    obtain ⟨hss, hss'⟩ := List.forall_mem_append.1 hfree
    show awaiting a (d.ink ++ e.ink) = some c
    rw [awaiting_append, hd.brackets hss]
    exact he.brackets hss'

theorem nil : Carries [] a a nil := ⟨nofun, fun _ => rfl⟩

theorem line : Carries [] a a line := ⟨nofun, fun _ => rfl⟩

theorem clauseBreak : Carries [] a a clauseBreak := ⟨nofun, fun _ => rfl⟩

/-- A word that is always printed. -/
theorem word {w : String} (h : awaiting a w.toList = some b) : Carries [] a b (text w) :=
  ⟨nofun, fun _ => h⟩

/-- A string of the tree. -/
theorem leaf (s : String) : Carries [s] a a (text s) := by
  constructor
  · intro t ht
    rw [List.mem_singleton.1 ht]
    exact List.infix_rfl
  · intro hfree
    exact awaiting_of_bracketFree (hfree s (List.mem_singleton_self s)) a

/-- Two texts that are printed as one. -/
theorem glue {s t : String} (hs : Carries ss a b (text s)) (ht : Carries ss' b c (text t)) :
    Carries (ss ++ ss') a c (text (s ++ t)) := by
  constructor
  · intro r hr
    rw [Shows, String.toList_append]
    rcases List.mem_append.1 hr with hr | hr
    · exact (hs.shows r hr).trans (List.infix_append_left)
    · exact (ht.shows r hr).trans (List.infix_append_right)
  · intro hfree
    rw [ink, String.toList_append]
    exact (hs.append ht).brackets hfree

theorem nest (h : Carries ss a b d) : Carries ss a b (nest d) := ⟨h.shows, h.brackets⟩

theorem hang (h : Carries ss a b d) : Carries ss a b (hang d) := ⟨h.shows, h.brackets⟩

/-- A document without strings in front. -/
theorem after (hd : Carries [] a b d) (he : Carries ss b c e) : Carries ss a c (d ++ e) :=
  hd.append he

/-- A document without strings behind. -/
theorem before (hd : Carries ss a b d) (he : Carries [] b c e) : Carries ss a c (d ++ e) := by
  have h := hd.append he
  rwa [List.append_nil] at h

theorem ite {p : Prop} [Decidable p] (hd : Carries ss a b d) (he : Carries ss a b e) :
    Carries ss a b (if p then d else e) := by
  split
  · exact hd
  · exact he

theorem when (cond : Bool) (h : Carries [] a a d) : Carries [] a a (Doc.when cond d) := .ite h .nil

end Carries

/-! ## Sequences -/

/-- Documents in a row, which carry the strings one list after the other. -/
def RendersSeq (sss : List (List String)) (a b : List Char) (ds : List Doc) : Prop :=
  Carries sss.flatten a b (seq ds)

namespace RendersSeq

theorem nil : RendersSeq [] a a [] := Carries.nil

/-- A word with the brackets that it opens or closes. -/
theorem word {w : String} (h : awaiting a w.toList = some b) (hds : RendersSeq sss b c ds) :
    RendersSeq sss a c (text w :: ds) :=
  (Carries.word h).after hds

theorem skip (hd : Renders [] d) (hds : RendersSeq sss a b ds) : RendersSeq sss a b (d :: ds) :=
  (hd.frame a).after hds

theorem part (hd : Renders ss d) (hds : RendersSeq sss a b ds) :
    RendersSeq (ss :: sss) a b (d :: ds) :=
  (hd.frame a).append hds

/-- A part that is absent. -/
theorem blank (hds : RendersSeq sss a b ds) : RendersSeq ([] :: sss) a b ds := hds

/-- A string of the tree as a part. -/
theorem leaf {s : String} (hds : RendersSeq sss a b ds) :
    RendersSeq ([s] :: sss) a b (text s :: ds) :=
  (Carries.leaf s).append hds

end RendersSeq

namespace Carries

theorem seq (h : RendersSeq sss [] [] ds) : Renders sss.flatten (seq ds) := h

/-- A sequence of which one part carries all the strings. -/
theorem seqOne (h : RendersSeq [ss] [] [] ds) : Renders ss (Doc.seq ds) := by
  have hss : [ss].flatten = ss := by simp
  rw [← hss]
  exact h

end Carries

end Doc

end SqlTidy
