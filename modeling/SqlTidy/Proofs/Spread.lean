import SqlTidy.Proofs.RoundTrip

/-!
# Documents that spread their pieces over lines

`Doc.Lays d ps` says that a document writes some pieces in their order, and that it ends lines at gaps only.

**Theorem (`Doc.Lays.exists_page`).** Every page of such a document is a text of the pieces: a line end,
with the indentation behind it, is a gap.

Indentation is written by the first text of a line and not by the line end. So the induction carries, in
`Printer.Printed`, that what has been written stays a text of the pieces when the blanks still to be paid
are written behind it.
-/

namespace SqlTidy

open Text Piece

theorem Piece.Laid.append {ps qs : List Piece} {cs ds : List Char} (h : Laid ps cs)
    (h' : Laid qs ds) : Laid (ps ++ qs) (cs ++ ds) := by
  induction h with
  | nil => exact h'
  | gap hne hblanks _ ih =>
    rw [List.append_assoc]
    exact .gap hne hblanks ih
  | token hp _ ih =>
    rw [List.append_assoc]
    exact .token hp ih

/-! ## Printers -/

namespace Printer

variable {p : Printer} {ps qs : List Piece}

/-- What has been written is a text of the pieces, and stays one when pending indentation is paid. -/
def Printed (p : Printer) (ps : List Piece) : Prop :=
  ∀ blanks, (∀ c ∈ blanks, isBlank c) → (p.pending = true ∨ blanks = []) →
    Laid ps (p.output.toList ++ blanks)

theorem printed_ofWidth (width : Nat) : (ofWidth width).Printed [] := by
  rintro _ - (hpending | rfl)
  · contradiction
  · exact .nil

theorem Printed.laid (h : p.Printed ps) : Laid ps p.output.toList := by
  have := h [] nofun (.inr rfl)
  rwa [List.append_nil] at this

theorem Printed.newline (h : p.Printed ps) : p.newline.Printed (ps ++ [.gap]) := by
  intro blanks hblanks _
  have hgap : Laid [.gap] (('\n' :: blanks) ++ []) :=
    .gap (by simp) (List.forall_mem_cons.2 ⟨rfl, hblanks⟩) .nil
  have hall := h.laid.append hgap
  simpa [Printer.newline] using hall

theorem Printed.write {s : String} (h : p.Printed ps) (hs : textOf qs = s.toList) :
    (p.write s).Printed (ps ++ qs) := by
  have hlaid : Laid qs s.toList := hs ▸ laid_textOf qs
  unfold Printer.write
  split
  · rename_i hempty
    intro blanks hblanks hpending
    have hall := (h blanks hblanks hpending).append hlaid
    rw [String.isEmpty_iff.1 hempty] at hall
    simpa using hall
  · split
    · rename_i hpending
      rintro _ - (hpending' | rfl)
      · contradiction
      · have hindent : Laid ps (p.output.toList ++ (p.indent.text p.depth).toList) := by
          refine h _ (fun c hc => ?_) (.inl hpending)
          rw [Indent.text, String.toList_ofList] at hc
          rw [(List.mem_replicate.1 hc).2]
          rfl
        have hall := hindent.append hlaid
        simpa using hall
    · rename_i hpending
      rintro _ - (hpending' | rfl)
      · exact absurd hpending' hpending
      · have hall := h.laid.append hlaid
        simpa using hall

end Printer

/-! ## Documents -/

namespace Doc

/-- The document writes the pieces, and ends lines only at their gaps. -/
inductive Lays : Doc → List Piece → Prop
  | nil : Lays nil []
  | text {s : String} {ps : List Piece} (h : textOf ps = s.toList) (hps : ps.all ordinary) :
      Lays (text s) ps
  | line : Lays line [.gap]
  | clauseBreak : Lays clauseBreak [.gap]
  | append {a b : Doc} {ps qs : List Piece} (ha : Lays a ps) (hb : Lays b qs) :
      Lays (a ++ b) (ps ++ qs)
  | nest {d : Doc} {ps : List Piece} (h : Lays d ps) : Lays (nest d) ps

theorem Inline.lays {d : Doc} {ps : List Piece} (h : d.Inline ps) (hps : ps.all ordinary) :
    d.Lays ps := by
  induction h with
  | nil => exact .nil
  | text h => exact .text h hps
  | append _ _ iha ihb =>
    rw [List.all_append, Bool.and_eq_true] at hps
    exact (iha hps.1).append (ihb hps.2)

namespace Lays

variable {d : Doc} {ds : List Doc} {ps qs : List Piece}

theorem printed (h : d.Lays ps) (layout : ClauseLayout) {p : Printer} (hp : p.Printed qs) :
    (d.run layout p).Printed (qs ++ ps) := by
  induction h generalizing p qs with
  | nil =>
    rw [List.append_nil]
    exact hp
  | text hs _ => exact hp.write hs
  | line => exact hp.newline
  | clauseBreak =>
    cases layout with
    | stacked => exact hp.newline
    | compact => exact hp.write (s := " ") rfl
  | append _ _ iha ihb =>
    rw [← List.append_assoc]
    exact ihb (iha hp)
  | nest _ ih => exact ih (p := p.enter) hp

/-- Every page of the document is a text of the pieces. -/
theorem exists_page (h : d.Lays ps) (style : Style) :
    ∃ page, d.print style = .ok page ∧ Laid ps page.toList := by
  refine ⟨_, print_eq_ok style d, ?_⟩
  exact (h.printed style.layout (Printer.printed_ofWidth style.indentWidth)).laid

theorem ordinary (h : d.Lays ps) : ps.all ordinary := by
  induction h with
  | nil => rfl
  | text _ hps => exact hps
  | line => rfl
  | clauseBreak => rfl
  | append _ _ iha ihb => rw [List.all_append, iha, ihb, Bool.and_self]
  | nest _ ih => exact ih

/-! ### Sequences and lists -/

theorem cons (hd : d.Lays ps) (hds : (seq ds).Lays qs) : (seq (d :: ds)).Lays (ps ++ qs) :=
  hd.append hds

/-- A part that writes nothing. -/
theorem skip (hd : d.Lays []) (hds : (seq ds).Lays qs) : (seq (d :: ds)).Lays qs := hd.append hds

/-- A part behind which nothing is written. -/
theorem before (hd : d.Lays ps) (hds : (seq ds).Lays []) : (seq (d :: ds)).Lays ps := by
  have := hd.append hds
  rwa [List.append_nil] at this

theorem last (hd : d.Lays ps) : (seq [d]).Lays ps := hd.before .nil

variable {α : Type} {doc : α → Doc} {pieces : α → List Piece}

/-- Each item on a line of its own, with commas behind all but the last. -/
theorem commaLines (x : α) (xs : List α) (h : ∀ y ∈ x :: xs, (doc y).Lays (pieces y)) :
    (Doc.commaLines ((x :: xs).map doc)).Lays (.gap :: Piece.commas ((x :: xs).map pieces)) := by
  induction xs generalizing x with
  | nil => exact Lays.line.append (h x (by simp))
  | cons y ys ih =>
    obtain ⟨hx, hrest⟩ := List.forall_mem_cons.1 h
    have hcomma : (Doc.text ",").Lays [symbol .comma] := .text rfl rfl
    exact Lays.line.append (hx.append (hcomma.append (ih y hrest)))

theorem items (x : α) (xs : List α) (h : ∀ y ∈ x :: xs, (doc y).Lays (pieces y)) :
    (Doc.items ((x :: xs).map doc)).Lays (.gap :: Piece.commas ((x :: xs).map pieces)) := by
  cases xs with
  | nil =>
    have hgap : (Doc.text " ").Lays [.gap] := .text rfl rfl
    exact hgap.append (h x (by simp))
  | cons y ys => exact (commaLines x (y :: ys) h).nest

/-- A clause behind its keyword. -/
theorem clause {keyword : String} {words : List Piece} (hwords : (Doc.text keyword).Lays words)
    (x : α) (xs : List α) (h : ∀ y ∈ x :: xs, (doc y).Lays (pieces y)) :
    (Doc.clause keyword ((x :: xs).map doc)).Lays
      (words ++ .gap :: Piece.commas ((x :: xs).map pieces)) := by
  cases xs with
  | nil => exact hwords.append (Lays.clauseBreak.append (h x (by simp))).nest
  | cons y ys => exact hwords.append (commaLines x (y :: ys) h).nest

theorem onLines (xs : List α) (h : ∀ y ∈ xs, (doc y).Lays (pieces y)) :
    (Doc.onLines (xs.map doc)).Lays (xs.flatMap fun y => .gap :: pieces y) := by
  induction xs with
  | nil => exact .nil
  | cons x xs ih =>
    obtain ⟨hx, hrest⟩ := List.forall_mem_cons.1 h
    have hall := Lays.line.append (hx.append (ih hrest))
    rwa [← List.append_assoc] at hall

end Lays

end Doc

open Doc

/-- A plain expression, also as a condition: lines end in front of its connectives alone. -/
theorem Tree.Plain.lays_render {e : Expr} (h : e.Plain) (broken : Bool) :
    (e.render broken : Doc).Lays e.pieces := by
  have hplain := h
  induction h generalizing broken with
  | @binary op left right hleft hright ihl ihr =>
    have hop : (Doc.text op.spelling).Lays [op.piece] := .text (by cases op <;> rfl) (by cases op <;> rfl)
    have hgap : (Doc.text " ").Lays [.gap] := .text rfl rfl
    have hbreak : Lays (if (broken && op.isConnective) = true then .line else .text " ") [.gap] := by
      split
      · exact .line
      · exact hgap
    exact (ihl _ hleft).cons (hbreak.cons (hop.cons (hgap.cons (ihr _ hright).last)))
  | _ => exact hplain.inline_doc.lays hplain.ordinary_pieces

end SqlTidy
