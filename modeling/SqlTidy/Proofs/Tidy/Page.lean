import SqlTidy.Layout.Tree
import SqlTidy.Text.Blank
import SqlTidy.Text.Position

/-!
# Pages without stray blanks

A page is *tidy* if each of its lines has something on it and ends with no blank. Many documents end with a space and
rely on the next one to go on with a text, and many start a line and rely on the next one to fill it. So what matters
about a document is where it starts and where it ends.

**Texts** (`Text.settle`). A text is followed character by character, and the state is whether its last character may end
a line. A line end where it may not is refused.

**Documents** (`Doc.Lands b d c`). If a line may end where the document starts (`b = true`), or wherever it starts
(`b = false`), then no line end of the document is refused, and a line may end behind it if `c = true`. A *solid*
document ends with something firm wherever it starts. One that *keeps* does so behind something firm only: it may be
empty, and it may start with a line end.
-/

namespace SqlTidy

/-! ## Texts -/

namespace Text

/-- Follows one character. A line may not end behind a blank, and not where it starts. -/
def settleStep (firm : Bool) (c : Char) : Option Bool :=
  if c = '\n' then if firm then some false else none else some (!isBlank c)

/-- Follows a text. The state is whether a line may end here. -/
def settle (firm : Bool) (cs : List Char) : Option Bool := cs.foldlM settleStep firm

/-- A line that has something on it and does not end in a blank. -/
def IsTidyLine (l : List Char) : Prop := ∃ x ∈ l.getLast?, isBlank x = false

variable {b b' c : Bool} {cs : List Char}

theorem settle_cons (b : Bool) (x : Char) (cs : List Char) :
    settle b (x :: cs) = (settleStep b x).bind fun c => settle c cs := rfl

theorem settle_append (b : Bool) (cs ds : List Char) :
    settle b (cs ++ ds) = (settle b cs).bind fun c => settle c ds := by
  rw [settle, List.foldlM_append]
  rfl

theorem settleStep_of_ne {x : Char} (hx : x ≠ '\n') (b : Bool) : settleStep b x = some (!isBlank x) :=
  if_neg hx

/-- What goes behind a blank goes behind a firm character. -/
theorem exists_settle (h : settle b cs = some c) (hb : b = true → b' = true) :
    ∃ c', settle b' cs = some c' ∧ (c = true → c' = true) := by
  induction cs generalizing b b' with
  | nil =>
    cases h
    exact ⟨b', rfl, hb⟩
  | cons x cs ih =>
    rw [settle_cons] at h ⊢
    by_cases hx : x = '\n'
    · subst hx
      cases b with
      | false => contradiction
      | true =>
        rw [hb rfl]
        exact ih h id
    · rw [settleStep_of_ne hx] at h ⊢
      exact ih h id

/-- On one line nothing is refused. -/
theorem exists_settle_of_unbroken (h : '\n' ∉ cs) (b : Bool) : ∃ c, settle b cs = some c := by
  induction cs generalizing b with
  | nil => exact ⟨b, rfl⟩
  | cons x cs ih =>
    simp only [List.mem_cons, not_or] at h
    rw [settle_cons, settleStep_of_ne (Ne.symm h.1)]
    exact ih h.2 _

/-- A text on one line is judged by its last character. -/
theorem settle_of_unbroken (h : '\n' ∉ cs) (hcs : IsTidyLine cs) (b : Bool) :
    settle b cs = some true := by
  obtain ⟨x, hx, hfirm⟩ := hcs
  obtain ⟨cs, rfl⟩ := List.getLast?_eq_some_iff.1 hx
  simp only [List.mem_append, List.mem_singleton, not_or] at h
  obtain ⟨c, hc⟩ := exists_settle_of_unbroken h.1 b
  rw [settle_append, hc, Option.bind_some, settle_cons, settleStep_of_ne (Ne.symm h.2), hfirm]
  rfl

/-! What has been followed to a firm end is tidy. -/

theorem IsTidyLine.cons {l : List Char} (h : IsTidyLine l) (x : Char) : IsTidyLine (x :: l) := by
  obtain ⟨y, hy, hblank⟩ := h
  obtain ⟨l, rfl⟩ := List.getLast?_eq_some_iff.1 hy
  exact ⟨y, by simp [List.getLast?_cons], hblank⟩

/-- The first line goes on with the line before, so it may be empty there. -/
theorem exists_lines_of_settle (h : settle b cs = some true) :
    lines cs = [] ∧ b = true ∨
      ∃ l ls, lines cs = l :: ls ∧ (l = [] ∧ b = true ∨ IsTidyLine l) ∧ ∀ l ∈ ls, IsTidyLine l := by
  fun_induction lines cs generalizing b with
  | case1 =>
    cases h
    exact .inl ⟨rfl, rfl⟩
  | case2 cs ih =>
    cases b with
    | false => contradiction
    | true =>
      obtain ⟨-, hfalse⟩ | ⟨l, ls, hlines, hl, hls⟩ := ih h
      · contradiction
      · refine .inr ⟨[], lines cs, rfl, .inl ⟨rfl, rfl⟩, ?_⟩
        simp only [Bool.false_eq_true, and_false, false_or] at hl
        rw [hlines]
        exact List.forall_mem_cons.2 ⟨hl, hls⟩
  | case3 cs ih => contradiction
  | case4 x cs hnewline hreturn hnil ih =>
    obtain ⟨-, hfirm⟩ | ⟨l, ls, hlines, -⟩ := ih (by rwa [settle_cons, settleStep_of_ne hnewline] at h)
    · exact .inr ⟨[x], [], rfl, .inr ⟨x, rfl, by simpa using hfirm⟩, by simp⟩
    · rw [hnil] at hlines
      contradiction
  | case5 x cs hnewline hreturn l ls hcons ih =>
    obtain ⟨hlines, -⟩ | ⟨l', ls', hlines, hl, hls⟩ :=
      ih (by rwa [settle_cons, settleStep_of_ne hnewline] at h)
    · rw [hcons] at hlines
      contradiction
    · rw [hcons, List.cons.injEq] at hlines
      obtain ⟨rfl, rfl⟩ := hlines
      refine .inr ⟨x :: l, ls, rfl, .inr ?_, hls⟩
      rcases hl with ⟨rfl, hfirm⟩ | hl
      · exact ⟨x, rfl, by simpa using hfirm⟩
      · exact hl.cons x

theorem isTidyLine_of_settle (h : settle false cs = some true) : ∀ l ∈ lines cs, IsTidyLine l := by
  obtain ⟨-, hfalse⟩ | ⟨l, ls, hlines, hl, hls⟩ := exists_lines_of_settle h
  · contradiction
  · simp only [Bool.false_eq_true, and_false, false_or] at hl
    rw [hlines]
    exact List.forall_mem_cons.2 ⟨hl, hls⟩

theorem getLast?_ne_of_settle (h : settle false cs = some true) : cs.getLast? ≠ some '\n' := by
  intro hlast
  obtain ⟨cs, rfl⟩ := List.getLast?_eq_some_iff.1 hlast
  rw [settle_append] at h
  obtain ⟨b, -, hb⟩ := Option.bind_eq_some_iff.1 h
  cases b with
  | false => contradiction
  | true => contradiction

end Text

/-! ## Printers -/

open Text

namespace Printer

variable {p : Printer} {b c : Bool}

/-- No line end has been refused, and if `firm` holds, a line may end here. -/
def Stands (firm : Bool) (p : Printer) : Prop :=
  ∃ b, settle false p.output.toList = some b ∧ (firm = true → b = true)

theorem stands_ofWidth (width : Nat) : (ofWidth width).Stands false := ⟨false, rfl, id⟩

theorem Stands.loosen (h : p.Stands b) : p.Stands false := by
  obtain ⟨b, hb, -⟩ := h
  exact ⟨b, hb, by simp⟩

/-- Indentation in front of a text changes nothing, since no text is judged by what is in front of it. -/
theorem Stands.write {s : String} (h : p.Stands b) (hs : settle false s.toList = some c) :
    (p.write s).Stands c := by
  obtain ⟨b, hb, -⟩ := h
  have hindent : '\n' ∉ (p.indent.text p.depth).toList := by simp [Indent.text]
  obtain ⟨d, hd⟩ := exists_settle_of_unbroken hindent b
  unfold Printer.write
  split
  · rename_i hempty
    rw [String.isEmpty_iff.1 hempty] at hs
    cases hs
    exact ⟨b, hb, by simp⟩
  · split
    · obtain ⟨c', hc', hc⟩ := exists_settle hs (show false = true → d = true by simp)
      refine ⟨c', ?_, hc⟩
      simp [settle_append, hb, hd, hc']
    · obtain ⟨c', hc', hc⟩ := exists_settle hs (show false = true → b = true by simp)
      refine ⟨c', ?_, hc⟩
      simp [settle_append, hb, hc']

theorem Stands.newline (h : p.Stands true) : p.newline.Stands false := by
  obtain ⟨b, hb, hfirm⟩ := h
  rw [hfirm rfl] at hb
  refine ⟨false, ?_, id⟩
  simp only [Printer.newline, String.toList_append, settle_append, hb]
  rfl

end Printer

/-! ## Documents -/

namespace Doc

/-- Where a document may start, and how it ends. -/
def Lands (b : Bool) (d : Doc) (c : Bool) : Prop :=
  ∀ layout p, Printer.Stands b p → (d.run layout p).Stands c

/-- Wherever the document starts, a line may end behind it. -/
abbrev Solid (d : Doc) : Prop := Lands false d true

/-- Where a line may end in front of the document, one may end behind it. -/
abbrev Keeps (d : Doc) : Prop := Lands true d true

/-- Wherever the document starts, something has to follow it. -/
abbrev Loose (d : Doc) : Prop := Lands false d false

namespace Lands

variable {b c e : Bool} {d d' : Doc} {ds : List Doc} {s w : String}

theorem nil : Lands b nil b := fun _ _ h => h

theorem text (h : settle false s.toList = some c) : Lands b (text s) c := fun _ _ hp => hp.write h

theorem line : Lands true line false := fun _ _ h => h.newline

theorem clauseBreak : Lands true clauseBreak false := by
  intro layout p h
  cases layout with
  | stacked => exact h.newline
  | compact => exact h.write rfl

theorem append (hd : Lands b d c) (hd' : Lands c d' e) : Lands b (d ++ d') e :=
  fun layout p h => hd' layout _ (hd layout p h)

theorem nest (h : Lands b d c) : Lands b (nest d) c := fun layout p hp => h layout p.enter hp

theorem hang (h : Lands b d c) : Lands b (hang d) c :=
  fun layout p hp => h layout (p.setDepth (p.depth - (p.depth - p.lineDepth))) hp

theorem loosen (h : Lands b d c) : Lands b d false := fun layout p hp => (h layout p hp).loosen

/-- A document that may start anywhere. -/
theorem anywhere (h : Lands false d c) : Lands b d c := fun layout p hp => h layout p hp.loosen

/-- A solid document leaves things as they are, or better. -/
theorem stay (h : Solid d) : Lands b d b := by
  cases b with
  | false => exact h.loosen
  | true => exact h.anywhere

theorem ite {p : Prop} [Decidable p] (hd : Lands b d c) (hd' : Lands b d' c) :
    Lands b (if p then d else d') c := by
  split
  · exact hd
  · exact hd'

theorem when {cond : Bool} (h : Lands b d b) : Lands b (Doc.when cond d) b := .ite h .nil

end Lands

/-! ## Sequences -/

/-- Documents in a row. -/
def LandsRow (b : Bool) (ds : List Doc) (c : Bool) : Prop := Lands b (seq ds) c

namespace LandsRow

variable {b c e : Bool} {d : Doc} {ds : List Doc} {w : String}

theorem nil : LandsRow b [] b := Lands.nil

theorem part (hd : Lands b d c) (hds : LandsRow c ds e) : LandsRow b (d :: ds) e := hd.append hds

theorem word (h : settle false w.toList = some c) (hds : LandsRow c ds e) :
    LandsRow b (text w :: ds) e :=
  .part (.text h) hds

theorem solid (hd : Solid d) (hds : LandsRow true ds e) : LandsRow b (d :: ds) e :=
  .part hd.anywhere hds

theorem line (hds : LandsRow false ds e) : LandsRow true (Doc.line :: ds) e := .part .line hds

end LandsRow

namespace Lands

variable {b c : Bool} {d : Doc} {ds : List Doc} {od : Option Doc} {w : String}

theorem seq (h : LandsRow b ds c) : Lands b (seq ds) c := h

/-! ## Lists -/

/-- Something with separators between its parts. -/
theorem sep_cons (hw : settle false w.toList = some c) (hds : ∀ d' ∈ d :: ds, Solid d') :
    Solid (sep w (d :: ds)) := by
  induction ds generalizing d with
  | nil => exact hds d (by simp)
  | cons d' ds ih =>
    obtain ⟨hd, hds⟩ := List.forall_mem_cons.1 hds
    exact hd.append (.append (.text hw) (ih hds).anywhere)

theorem sep_ne_nil (hw : settle false w.toList = some c) (hne : ds ≠ []) (hds : ∀ d ∈ ds, Solid d) :
    Solid (sep w ds) := by
  cases ds with
  | nil => contradiction
  | cons d ds => exact sep_cons hw hds

theorem sep (hw : settle false w.toList = some c) (hds : ∀ d ∈ ds, Solid d) :
    Lands b (sep w ds) b := by
  cases ds with
  | nil => exact .nil
  | cons d ds => exact (sep_cons hw hds).stay

theorem commas (hds : ∀ d ∈ ds, Solid d) : Lands b (commas ds) b := sep rfl hds

theorem parens (hds : ∀ d ∈ ds, Solid d) : Solid (parens ds) :=
  .append (.append (.text rfl) (commas hds)) (.text rfl)

theorem row (hds : ∀ d ∈ ds, Solid d) : Lands b (Doc.seq ds) b := by
  induction ds with
  | nil => exact .nil
  | cons d ds ih =>
    obtain ⟨hd, hds⟩ := List.forall_mem_cons.1 hds
    exact hd.stay.append (ih hds)

theorem commaLines (hds : ∀ d ∈ ds, Solid d) : Keeps (commaLines ds) := by
  induction ds with
  | nil => exact .nil
  | cons d ds ih =>
    obtain ⟨hd, hds⟩ := List.forall_mem_cons.1 hds
    cases ds with
    | nil => exact .append .line hd
    | cons d' ds => exact .append .line (hd.append (.append (.text rfl) (ih hds)))

theorem lines (hds : ∀ d ∈ ds, Solid d) : Keeps (lines ds) := (commaLines hds).nest

theorem onLines (hds : ∀ d ∈ ds, Solid d) : Keeps (onLines ds) := by
  induction ds with
  | nil => exact .nil
  | cons d ds ih =>
    obtain ⟨hd, hds⟩ := List.forall_mem_cons.1 hds
    exact .append .line (hd.append (ih hds))

theorem items (hds : ∀ d ∈ ds, Solid d) : Keeps (items ds) := by
  unfold Doc.items
  split
  · exact .append (.text rfl) (hds _ (by simp))
  · exact lines hds

/-- A clause may be empty: then only its words are there. -/
theorem clause (hw : settle false w.toList = some true) (hds : ∀ d ∈ ds, Solid d) :
    Solid (clause w ds) := by
  unfold Doc.clause
  split
  · exact .append (.text hw) (.nest (.append .clauseBreak (hds _ (by simp))))
  · exact .append (.text hw) (lines hds)

theorem block (hds : ∀ d ∈ ds, Solid d) : Solid (block ds) := by
  unfold Doc.block
  split
  · exact .text rfl
  · exact .append (.append (.append (.text rfl) (lines hds)) .line) (.text rfl)

theorem enclosed (hd : Solid d) : Solid (enclosed d) :=
  .append (.append (.append (.text rfl) (.nest (.append .line hd))) .line) (.text rfl)

/-! ## Optional parts

Most of them leave things as they are: there is nothing, or something solid. -/

theorem optText {s : Option String} (hs : ∀ w ∈ s, settle false w.toList = some true)
    (hw : settle false w.toList = some c) : Lands b (optText w s) b := by
  cases s with
  | none => exact .nil
  | some s => exact .stay (.append (.text hw) (.text (hs s rfl)))

theorem optBehind (hw : settle false w.toList = some c) (hd : ∀ d ∈ od, Solid d) :
    Lands b (Layout.optBehind w od) b := by
  cases od with
  | none => exact .nil
  | some d => exact .stay (.append (.text hw) (hd d rfl).anywhere)

theorem optLine (hd : ∀ d ∈ od, Solid d) : Keeps (Layout.optLine od) := by
  cases od with
  | none => exact .nil
  | some d => exact .append .line (hd d rfl)

/-- Something has to stand behind what follows. -/
theorem optFollowed {after : Doc} (ha : Lands true after false) (hd : ∀ d ∈ od, Solid d) :
    Loose (Layout.optFollowed after od) := by
  cases od with
  | none => exact .nil
  | some d => exact (hd d rfl).append ha

theorem frameLine (hd : ∀ d ∈ od, Solid d) : Lands true (Layout.frameLine od) false := by
  cases od with
  | none => exact .loosen .nil
  | some d => exact .append (.nest (.append .line (hd d rfl))) .line

section

variable {α : Type} {spelling : α → String}

/-- An optional keyword behind a word. -/
theorem optKeyword (hw : settle false w.toList = some c)
    (h : ∀ x, settle false (spelling x).toList = some true) (x : Option α) :
    Lands b (Doc.optText w (x.map spelling)) b := by
  cases x with
  | none => exact .nil
  | some x => exact .stay (.append (.text hw) (.text (h x)))

theorem optWord (h : ∀ x, settle false (spelling x).toList = some true) (x : Option α) :
    Lands b (Layout.optWord (x.map spelling)) b :=
  optKeyword rfl h x

theorem optWordGap (h : ∀ x, settle false (spelling x).toList = some true) (x : Option α) :
    Loose (Layout.optWordGap (x.map spelling)) := by
  cases x with
  | none => exact .nil
  | some x => exact .append (.text (h x)) (.text rfl)

end

/-! ## Clauses -/

theorem clauseLine (hw : settle false w.toList = some true) (hds : ∀ d ∈ ds, Solid d) :
    Keeps (Layout.clauseLine w ds) := by
  unfold Layout.clauseLine
  split
  · exact .nil
  · exact .append .line (clause hw hds)

theorem conditionClause (hw : settle false w.toList = some true) (hd : Solid d) :
    Solid (Layout.conditionClause w d) :=
  .append (.text hw) (.nest (.append .line hd))

theorem windowClause (hds : ∀ d ∈ ds, Solid d) : Keeps (Layout.windowClause ds) := by
  cases ds with
  | nil => exact .nil
  | cons d ds =>
    obtain ⟨hd, hds⟩ := List.forall_mem_cons.1 hds
    refine .seq <| .line <| .word rfl <| .solid hd <| .part (row fun e he => ?_) .nil
    obtain ⟨d', hd', rfl⟩ := List.mem_map.1 he
    exact .append (.text rfl) (.nest (.append .line (hds d' hd')))

theorem windowParts {parts : List (String × List Doc)}
    (h : ∀ part ∈ parts, (∃ c, settle false part.1.toList = some c) ∧ ∀ d ∈ part.2, Solid d) :
    Keeps (Layout.windowParts parts) := by
  refine sep rfl fun e he => ?_
  obtain ⟨⟨keyword, ds⟩, hmem, heq⟩ := List.mem_filterMap.1 he
  obtain ⟨⟨c, hw⟩, hds⟩ := h _ hmem
  cases ds with
  | nil => contradiction
  | cons d ds =>
    cases heq
    exact .append (.text hw) (sep_cons rfl hds).anywhere

theorem values (hds : ∀ d ∈ ds, Solid d) : Solid (Layout.values ds) :=
  .append (.text rfl) (lines hds).hang

/-- The tables of a `WITH` clause, each but the first on a line of its own. -/
theorem intersperse (hne : ds ≠ []) (hds : ∀ d ∈ ds, Solid d) :
    Solid (Doc.seq (ds.intersperse (Doc.text "," ++ Doc.line))) := by
  induction ds with
  | nil => contradiction
  | cons d ds ih =>
    obtain ⟨hd, hds⟩ := List.forall_mem_cons.1 hds
    cases ds with
    | nil => exact hd.append .nil
    | cons d' ds => exact hd.append (.append (.append (.text rfl) .line) (ih (by simp) hds))

end Lands

end Doc

end SqlTidy
