import SqlTidy.Format
import SqlTidy.Proofs.Keep.Statement
import SqlTidy.Proofs.Render.Statement
import SqlTidy.Proofs.Respace

/-!
# Formatting keeps literals

**Theorem (`infix_of_format`).** If a text is formatted, the source text of every string, number and quoted
identifier among its tokens stands in the page, unless the statement loses the token (`Statement.Loses`).

The argument has three parts. A literal stands in a string of the tree or is lost
(`Statement.held_of_parse`), every string of the tree is shown by the statement's document
(`Statement.renders`), and what a document shows stands on every page that it fills (`Doc.Shows.infix_print`),
because a printer only ever adds to its output.

A statement can lose a literal only if it creates a table, a view or a namespace and one of its clauses is
overwritten, or if it is a `RESET` with an equals sign. Both do happen (`not_infix_of_format`).
-/

namespace SqlTidy

/-! ## Pages -/

namespace Printer

variable (p : Printer) (s : String)

theorem prefix_write : p.output.toList <+: (p.write s).output.toList := by
  unfold write
  split
  · exact List.prefix_rfl
  split
  · simp [String.toList_append]
  · simp [String.toList_append]

theorem infix_write : s.toList <:+: (p.write s).output.toList := by
  unfold write
  split
  · rename_i hempty
    rw [String.isEmpty_iff.1 hempty]
    exact List.nil_infix
  split
  · rw [String.toList_append]
    exact (List.suffix_append _ _).isInfix
  · rw [String.toList_append]
    exact (List.suffix_append _ _).isInfix

theorem prefix_newline : p.output.toList <+: p.newline.output.toList := by
  simp [newline, String.toList_append]

end Printer

namespace Doc

variable {layout : ClauseLayout} {s : String}

/-- Running a document adds to the output. -/
theorem prefix_run (layout : ClauseLayout) (d : Doc) (p : Printer) :
    p.output.toList <+: (d.run layout p).output.toList := by
  induction d generalizing p with
  | nil => exact List.prefix_rfl
  | text s => exact p.prefix_write s
  | line => exact p.prefix_newline
  | clauseBreak =>
    cases layout with
    | stacked => exact p.prefix_newline
    | compact => exact p.prefix_write " "
  | append a b iha ihb => exact (iha p).trans (ihb _)
  | nest d ih => exact ih p.enter
  | hang d ih => exact ih (p.setDepth (p.depth - (p.depth - p.lineDepth)))

theorem Shows.infix_run {d : Doc} (h : d.Shows s) (p : Printer) :
    s.toList <:+: (d.run layout p).output.toList := by
  induction d generalizing p with
  | nil | line | clauseBreak => contradiction
  | text t => exact h.trans (p.infix_write t)
  | append a b iha ihb =>
    rcases h with h | h
    · exact (iha h p).trans (prefix_run layout b _).isInfix
    · exact ihb h _
  | nest d ih => exact ih h p.enter
  | hang d ih => exact ih h _

/-- What a document shows stands on the page. -/
theorem Shows.infix_print {d : Doc} {style : Style} {page : String} (h : d.Shows s)
    (hprint : d.print style = .ok page) : s.toList <:+: page.toList := by
  rw [print_eq_ok] at hprint
  cases hprint
  exact h.infix_run _

end Doc

/-! ## Formatting -/

/-- A formatted text keeps its literals, apart from those that the statement loses. -/
theorem infix_of_format {style : Style} {text page : String} (h : format style text = .ok page) :
    ∃ tokens tree, Token.scan (Text.trim text) = .ok tokens ∧
      Statement.parse (Text.trim text) = .ok tree ∧
      ∀ k t, tokens[k]? = some t → t.token.isLiteral →
        (t.source (Text.trim text)).toList <:+: page.toList ∨
          tree.Loses ⟨Text.trim text, tokens.toArray⟩ k := by
  rw [format] at h
  cases hparse : Statement.parse (Text.trim text) with
  | error e =>
    rw [hparse] at h
    contradiction
  | ok tree =>
    rw [hparse] at h
    obtain ⟨tokens, hscan, hheld⟩ := Statement.held_of_parse hparse
    refine ⟨tokens, tree, hscan, rfl, fun k t ht hlit => ?_⟩
    have htoken : Input.tokenAt ⟨Text.trim text, tokens.toArray⟩ k = t.token := by
      simp [Input.tokenAt, ht]
    have hheld := hheld k
    rw [Input.Held, htoken] at hheld
    rcases hheld hlit with hlost | ⟨s, hs, hinfix⟩
    · exact .inr hlost
    · refine .inl ?_
      rw [Token.source_of_scan hscan t (List.mem_of_getElem? ht) (Token.ne_eof_of_isLiteral hlit)]
      exact hinfix.trans ((tree.renders.shows s hs).infix_print h)

/-- A text with a quoted name, a number with an exponent and a raw string. -/
def insertText : String := " insert into \x60t u\x60 values (1.5e3, r'\\') "

theorem infix_of_format_insert :
    format .default insertText = .ok "INSERT INTO \x60t u\x60\nVALUES\n  (1.5e3, r'\\')" ∧
      ∃ tokens tree, Token.scan (Text.trim insertText) = .ok tokens ∧
        Statement.parse (Text.trim insertText) = .ok tree ∧
        ∀ k t, tokens[k]? = some t → t.token.isLiteral →
          (t.source (Text.trim insertText)).toList <:+:
              "INSERT INTO \x60t u\x60\nVALUES\n  (1.5e3, r'\\')".toList ∨
            tree.Loses ⟨Text.trim insertText, tokens.toArray⟩ k := by
  have hformat : format .default insertText =
      .ok "INSERT INTO \x60t u\x60\nVALUES\n  (1.5e3, r'\\')" := by decide +kernel
  exact ⟨hformat, infix_of_format hformat⟩

/-- The value of a `RESET` is not printed, and neither is a comment that another one follows. -/
theorem not_infix_of_format :
    (∃ tokens t, Token.scan "RESET a = 'x'" = .ok tokens ∧ t ∈ tokens ∧ t.token.isLiteral ∧
      format .default "RESET a = 'x'" = .ok "RESET a" ∧
      ¬ (t.source "RESET a = 'x'").toList <:+: "RESET a".toList) ∧
    (∃ tokens t, Token.scan "CREATE TABLE t COMMENT 'x' COMMENT 'y'" = .ok tokens ∧ t ∈ tokens ∧
      t.token.isLiteral ∧
      format .default "CREATE TABLE t COMMENT 'x' COMMENT 'y'" = .ok "CREATE TABLE t\nCOMMENT 'y'" ∧
      ¬ (t.source "CREATE TABLE t COMMENT 'x' COMMENT 'y'").toList <:+:
        "CREATE TABLE t\nCOMMENT 'y'".toList) := by
  constructor
  · refine ⟨[⟨.word "RESET", 0, 5⟩, ⟨.word "a", 6, 7⟩, ⟨.symbol .eq, 8, 9⟩, ⟨.string "'x'", 10, 13⟩,
      ⟨.eof, 13, 13⟩], ⟨.string "'x'", 10, 13⟩, ?_⟩
    decide +kernel
  · refine ⟨[⟨.word "CREATE", 0, 6⟩, ⟨.word "TABLE", 7, 12⟩, ⟨.word "t", 13, 14⟩,
      ⟨.word "COMMENT", 15, 22⟩, ⟨.string "'x'", 23, 26⟩, ⟨.word "COMMENT", 27, 34⟩,
      ⟨.string "'y'", 35, 38⟩, ⟨.eof, 38, 38⟩], ⟨.string "'x'", 23, 26⟩, ?_⟩
    decide +kernel

end SqlTidy
