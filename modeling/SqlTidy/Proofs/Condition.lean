import SqlTidy.Proofs.Ink

/-!
# Conditions broken into lines

A condition is laid out with its connectives at the starts of lines, the same expression elsewhere on one line.

**Theorem (`Tree.collapse_conditionDoc`).** From every state of the printer, a condition writes its operands in their
order, one to a line, each behind its own connective. And what it writes becomes the text of the expression when each
maximal run of spaces and line ends is collapsed to one space.

The two documents have the same ink, but that is not enough: the texts are compared by themselves, without what stands in
front of them, and the printer may be about to write indentation. A document with ink pays it or starts a line, and both
leave a printer that is settled (`settled_run_of_ink`). So only the operands in front of the first ink matter, and these
leave the printer as it was.
-/

namespace SqlTidy

open Text

/-! ## Printing behind a text -/

namespace Printer

/-- The printer with a text in front of what it has written. -/
def behind (s : String) (p : Printer) : Printer := { p with output := s ++ p.output }

theorem write_behind (s text : String) (p : Printer) : (p.behind s).write text = (p.write text).behind s := by
  unfold write
  split
  · rfl
  · split <;> simp_all [behind, depth, String.append_assoc]

theorem newline_behind (s : String) (p : Printer) : (p.behind s).newline = p.newline.behind s := by
  simp [newline, behind, String.append_assoc]

/-- What a document writes does not depend on what has been written. -/
theorem run_behind (layout : ClauseLayout) (d : Doc) (s : String) (p : Printer) :
    d.run layout (p.behind s) = (d.run layout p).behind s := by
  induction d generalizing p with
  | nil => rfl
  | text t => exact write_behind s t p
  | line => exact newline_behind s p
  | clauseBreak =>
    cases layout with
    | stacked => exact newline_behind s p
    | compact => exact write_behind s " " p
  | append a b iha ihb => simp only [Doc.run, iha, ihb]
  | nest d ih => exact congrArg leave (ih p.enter)
  | hang d ih =>
    have hbody := ih (p.setDepth (p.depth - (p.depth - p.lineDepth)))
    exact congrArg (fun q => q.setDepth (q.depth + (p.depth - p.lineDepth))) hbody

end Printer

theorem Text.SameInk.symm {a b : List Char} (h : SameInk a b) : SameInk b a := fun inRun rest => (h inRun rest).symm

/-! ## Documents with and without ink -/

namespace Doc

/-- A document without ink writes nothing. -/
theorem run_of_ink_eq_nil (layout : ClauseLayout) {d : Doc} (h : d.ink = []) (p : Printer) : d.run layout p = p := by
  induction d generalizing p with
  | nil => rfl
  | text s =>
    have hempty : s.isEmpty := String.isEmpty_iff.2 (String.toList_eq_nil_iff.1 h)
    exact if_pos hempty
  | line | clauseBreak => contradiction
  | append a b iha ihb =>
    obtain ⟨ha, hb⟩ := List.append_eq_nil_iff.1 h
    rw [run, iha ha, ihb hb]
  | nest d ih =>
    rw [run, ih h]
    rfl
  | hang d ih =>
    rw [run, ih h]
    have hdepth : p.depth - (p.depth - p.lineDepth) + (p.depth - p.lineDepth) = p.depth := by omega
    rw [Printer.depth_setDepth, hdepth]
    rfl

/-- A document with ink pays the indentation or starts a line. -/
theorem settled_run_of_ink (layout : ClauseLayout) {d : Doc} (h : d.ink ≠ []) (p : Printer) :
    (d.run layout p).Settled := by
  have hwrite {s : String} (hs : s.toList ≠ []) (p : Printer) : (p.write s).Settled := by
    have hne : ¬ s.isEmpty := fun hempty => hs (by rw [String.isEmpty_iff.1 hempty]; rfl)
    unfold Printer.write
    rw [if_neg hne]
    split
    · exact nofun
    · rename_i hpending
      exact fun hpending' => absurd hpending' hpending
  induction d generalizing p with
  | nil => contradiction
  | text s => exact hwrite h p
  | line => exact p.settled_newline
  | clauseBreak =>
    cases layout with
    | stacked => exact p.settled_newline
    | compact => exact hwrite (by decide) p
  | append a b iha ihb =>
    by_cases ha : a.ink = []
    · rw [run, run_of_ink_eq_nil layout ha]
      exact ihb (fun hb => h (by rw [ink, ha, hb]; rfl)) p
    · exact settled_run layout b (iha ha p)
  | nest d ih => exact (ih h p.enter).leave
  | hang d ih => exact (ih h _).setDepth _

/-- At the start of a text, indentation lengthens the run that a space starts. -/
theorem sameInk_write_space {p : Printer} (hp : p.output = "") : SameInk (p.write " ").output.toList [' '] := by
  unfold Printer.write
  rw [if_neg (by decide), hp]
  split
  · have hspaces (n : Nat) : List.replicate n ' ' ++ [' '] = ' ' :: List.replicate n ' ' := by
      rw [← List.replicate_succ', List.replicate_succ]
    simpa [Indent.text, hspaces] using sameInk_gap_spaces rfl _
  · simpa using SameInk.refl _

/-- Behind two documents with the same ink, a line end and a space are the same once runs are collapsed, whatever
indentation is pending. -/
theorem sameInk_run_break (layout : ClauseLayout) {a b rest rest' : Doc} (hink : a.ink = b.ink)
    (hrest : rest.ink = rest'.ink) {p : Printer} (hp : p.output = "")
    (h : SameInk (a.run layout p).output.toList (b.run layout p).output.toList) :
    SameInk ((a ++ (line ++ rest)).run layout p).output.toList ((b ++ (" " ++ rest')).run layout p).output.toList := by
  by_cases ha : a.ink = []
  · have hbroken : SameInk ((a ++ (line ++ rest)).run layout p).output.toList (' ' :: rest.ink) := by
      have hline := sameInk_run layout rest p.settled_newline
      rw [Printer.toList_newline, hp] at hline
      show SameInk (rest.run layout (a.run layout p).newline).output.toList _
      rw [run_of_ink_eq_nil layout ha]
      exact hline.trans (sameInk_newline.append_right rest.ink)
    have hwhole : SameInk ((b ++ (" " ++ rest')).run layout p).output.toList (' ' :: rest.ink) := by
      have hsettled : (p.write " ").Settled := settled_run_of_ink layout (d := text " ") (by decide) p
      have hspace := sameInk_run layout rest' hsettled
      show SameInk (rest'.run layout ((b.run layout p).write " ")).output.toList _
      rw [run_of_ink_eq_nil layout (hink.symm.trans ha), hrest]
      exact hspace.trans ((sameInk_write_space hp).append_right rest'.ink)
    exact hbroken.trans hwhole.symm
  · have hbroken := sameInk_run layout (line ++ rest) (settled_run_of_ink layout ha p)
    have hwhole := sameInk_run layout (" " ++ rest') (settled_run_of_ink layout (hink ▸ ha) p)
    have hsame : (line ++ rest).ink = (text " " ++ rest').ink := congrArg (' ' :: ·) hrest
    rw [hsame] at hbroken
    exact hbroken.trans ((h.append_right _).trans hwhole.symm)

/-- Documents with line ends between neighbours. -/
def brokenUp : List Doc → Doc
  | [] => nil
  | [d] => d
  | d :: ds => d ++ (line ++ brokenUp ds)

theorem run_brokenUp_append (layout : ClauseLayout) {ds es : List Doc} (hds : ds ≠ []) (hes : es ≠ []) (p : Printer) :
    (brokenUp (ds ++ es)).run layout p = (brokenUp es).run layout ((brokenUp ds).run layout p).newline := by
  induction ds generalizing p with
  | nil => contradiction
  | cons d ds ih =>
    cases ds with
    | nil =>
      obtain ⟨e, es, rfl⟩ := List.exists_cons_of_ne_nil hes
      rfl
    | cons d' ds => exact ih (List.cons_ne_nil _ _) (d.run layout p).newline

end Doc

/-! ## Conditions -/

namespace Tree

/-- The operands of connectives from left to right, each with the connective in front of it. -/
def operands : {c : Category} → (lead : Option BinaryOp) → Tree c → List (Option BinaryOp × Tree c)
  | _, lead, .binary op left right =>
    if op.isConnective then left.operands lead ++ right.operands (Option.some op)
    else [(lead, .binary op left right)]
  | _, lead, e => [(lead, e)]

/-- An expression as operands with connectives between them. -/
inductive Chained : Expr → Prop where
  | operand {e : Expr} (condition : e.conditionDoc = e.doc) (operands : ∀ lead, e.operands lead = [(lead, e)]) :
      Chained e
  | connective {op : BinaryOp} {left right : Expr} (hop : op.isConnective) (hleft : Chained left)
      (hright : Chained right) : Chained (.binary op left right)

theorem chained (e : Expr) : Chained e := by
  have hall {c : Category} (t : Tree c) (e : Expr) (hc : c = .expr) (he : t ≍ e) : Chained e := by
    induction t generalizing e with
    | binary op left right ihl ihr =>
      cases he
      cases hop : op.isConnective with
      | true => exact .connective hop (ihl left rfl .rfl) (ihr right rfl .rfl)
      | false =>
        have hcondition : conditionDoc (.binary op left right) = doc (.binary op left right) := by
          show Doc.seq [render (true && op.isConnective) left, _, _, _, _] = _
          rw [hop]
          rfl
        exact .operand hcondition fun lead => by rw [operands, if_neg (by simp [hop])]
    | cast form operand type =>
      cases he
      exact .operand (by cases form <;> rfl) fun _ => rfl
    | _ => cases hc <;> cases he <;> exact .operand rfl fun _ => rfl
  exact hall e e rfl .rfl

theorem operands_connective {op : BinaryOp} (hop : op.isConnective) (left right : Expr) (lead : Option BinaryOp) :
    operands lead (.binary op left right) = left.operands lead ++ right.operands (Option.some op) := by
  rw [operands, if_pos hop]

theorem conditionDoc_connective {op : BinaryOp} (hop : op.isConnective) (left right : Expr) :
    conditionDoc (.binary op left right) =
      .seq [left.conditionDoc, .line, op.spelling, " ", right.conditionDoc] := by
  cases op <;> first | rfl | contradiction

theorem doc_binary (op : BinaryOp) (left right : Expr) :
    (doc (.binary op left right) : Doc) = .seq [left.doc, " ", op.spelling, " ", right.doc] := rfl

theorem operands_ne_nil (e : Expr) (lead : Option BinaryOp) : e.operands lead ≠ [] := by
  induction e.chained generalizing lead with
  | operand _ hoperands => simp [hoperands]
  | connective hop _ _ ihl _ => simp [operands_connective hop, ihl]

/-- A connective in front of an operand. -/
def leadDoc : Option BinaryOp → Doc
  | Option.none => .nil
  | Option.some op => op.spelling ++ Doc.text " "

/-- An operand behind its connective. -/
def operandDoc (operand : Option BinaryOp × Expr) : Doc := .append (leadDoc operand.1) operand.2.doc

/-- A condition behind a connective is printed as its operands, one to a line. -/
theorem run_conditionDoc (layout : ClauseLayout) (e : Expr) (lead : Option BinaryOp) (p : Printer) :
    e.conditionDoc.run layout ((leadDoc lead).run layout p) =
      (Doc.brokenUp ((e.operands lead).map operandDoc)).run layout p := by
  induction e.chained generalizing lead p with
  | operand hcondition hoperands =>
    rw [hcondition, hoperands]
    rfl
  | @connective op left right hop _ _ ihl ihr =>
    have hne (e : Expr) (lead : Option BinaryOp) : (e.operands lead).map operandDoc ≠ [] := by
      simpa using e.operands_ne_nil lead
    rw [conditionDoc_connective hop, operands_connective hop, List.map_append,
      Doc.run_brokenUp_append layout (hne left lead) (hne right _), ← ihl, ← ihr]
    rfl

/-- A condition has the ink of its expression. -/
theorem ink_conditionDoc (e : Expr) : e.conditionDoc.ink = Doc.ink e.doc := by
  induction e.chained with
  | operand hcondition => rw [hcondition]
  | @connective op left right hop _ _ ihl ihr =>
    rw [conditionDoc_connective hop, doc_binary]
    show left.conditionDoc.ink ++ ([' '] ++ (_ ++ ([' '] ++ (right.conditionDoc.ink ++ [])))) = _
    rw [ihl, ihr]
    rfl

/-- A printer that has written nothing writes the same for a condition and for its expression, up to the length of
runs. -/
theorem sameInk_conditionDoc (layout : ClauseLayout) (e : Expr) {p : Printer} (hp : p.output = "") :
    SameInk (e.conditionDoc.run layout p).output.toList (Doc.run layout e.doc p).output.toList := by
  induction e.chained with
  | operand hcondition =>
    rw [hcondition]
    exact .refl _
  | @connective op left right hop _ _ ihl _ =>
    have hrest : (Doc.seq [op.spelling, " ", right.conditionDoc]).ink = (Doc.seq [op.spelling, " ", right.doc]).ink := by
      show _ ++ ([' '] ++ (right.conditionDoc.ink ++ [])) = _
      rw [right.ink_conditionDoc]
      rfl
    rw [conditionDoc_connective hop, doc_binary]
    exact Doc.sameInk_run_break layout left.ink_conditionDoc hrest hp ihl

/-- A condition is printed as its operands, one to a line, and as the same text as its expression up to the length of runs
of spaces and line ends. -/
theorem collapse_conditionDoc (e : Expr) (layout : ClauseLayout) (p : Printer) :
    e.conditionDoc.run layout p = (Doc.brokenUp ((e.operands Option.none).map operandDoc)).run layout p ∧
      ∃ broken whole : String,
        (e.conditionDoc.run layout p).output = p.output ++ broken ∧
        (Doc.run layout e.doc p).output = p.output ++ whole ∧
        collapse broken = collapse whole := by
  have hsplit : Printer.behind p.output { p with output := "" } = p := by simp [Printer.behind]
  have hwritten (d : Doc) : (d.run layout p).output = p.output ++ (d.run layout { p with output := "" }).output := by
    have hbehind := Printer.run_behind layout d p.output { p with output := "" }
    rw [hsplit] at hbehind
    exact congrArg Printer.output hbehind
  refine ⟨run_conditionDoc layout e Option.none p, _, _, hwritten _, hwritten _, ?_⟩
  exact (sameInk_conditionDoc layout e rfl).collapse_eq

end Tree

end SqlTidy
