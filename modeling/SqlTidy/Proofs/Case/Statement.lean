import Mathlib.Data.List.Basic
import SqlTidy.Grammar.Statement
import SqlTidy.Proofs.Case.Command

/-!
# Statements do not see letter case

**Theorem (`parse_of_sameTokens`).** Two texts whose tokens are the same but for their places and for
the letter case of words are either both statements, and then the same statement but for the letter case
of words, or both none, and then for the same reason.

Blanks and comments make no tokens, so the theorem covers them too. Its proof compares both texts with
one third run, on the folded tokens, which they have in common.
-/

namespace SqlTidy

open Text Parse

namespace Grammar

/-! ## All statements -/

theorem mirrors_queryStatement (tables : Option WithClause) :
    Mirrors Statement.foldCase (queryStatement tables)
      (queryStatement (tables.map Tree.foldCase)) :=
  (mirrors_within fun _ h => mirrors_queryAfterWith h tables).map fun _ => rfl

theorem mirrors_insertSource :
    Mirrors (Option.map Tree.foldCase) insertSource insertSource :=
  (mirrors_within fun _ h => blind_fromClause h).bind fun _ => (steady_isWord _).andThen fun _ =>
    .ite (.pure rfl) (.pure rfl)

theorem mirrors_fromStatement (tables : Option WithClause) :
    Mirrors Statement.foldCase (fromStatement tables)
      (fromStatement (tables.map Tree.foldCase)) := by
  refine mirrors_insertSource.rewinding.bind fun source => ?_
  cases source with
  | none => exact mirrors_queryStatement tables
  | some source => exact mirrors_multiInsertBody.many.map fun _ => rfl

theorem mirrors_withStatement : Mirrors Statement.foldCase withStatement withStatement := by
  refine (mirrors_within fun _ h => blind_withClause h).bind fun tables => ?_
  refine (steady_isWord _).andThen fun _ => .ite ((mirrors_insert (some tables)).map fun _ => rfl) ?_
  refine (steady_isWord _).andThen fun _ => .ite (mirrors_fromStatement (some tables)) ?_
  refine (steady_isWord _).andThen fun _ => .ite ?_ (mirrors_queryStatement (some tables))
  exact (mirrors_exportTable (some tables)).map fun _ => rfl

theorem mirrors_explain {inner : Parse Statement} (h : Mirrors Statement.foldCase inner inner) :
    Mirrors Statement.foldCase (explain inner) (explain inner) :=
  (steady_expectWord _).andThen fun _ => (steady_choose _).andThen fun _ => h.map fun _ => rfl

theorem mirrors_statementOf {inner : Parse Statement} (h : Mirrors Statement.foldCase inner inner)
    (word : String) :
    Mirrors Statement.foldCase (statementOf inner word) (statementOf inner word) := by
  unfold statementOf
  split
  · exact blind_query.map fun _ => rfl
  · exact blind_query.map fun _ => rfl
  · exact blind_query.map fun _ => rfl
  · exact mirrors_withStatement
  · exact mirrors_fromStatement none
  · exact (mirrors_insert none).map fun _ => rfl
  · exact mirrors_update.map fun _ => rfl
  · exact mirrors_delete.map fun _ => rfl
  · exact (steady_peekWord _ _).andThen fun _ =>
      .ite (mirrors_mergeFiles.map fun _ => rfl) (mirrors_merge.map fun _ => rfl)
  · exact mirrors_create
  · exact mirrors_create
  · exact mirrors_alter
  · exact mirrors_drop
  · exact mirrors_truncate.map fun _ => rfl
  · exact mirrors_repair.map fun _ => rfl
  · exact mirrors_repair.map fun _ => rfl
  · exact mirrors_analyze
  · exact mirrors_commentOn.map fun _ => rfl
  · exact mirrors_use.map fun _ => rfl
  · exact mirrors_set
  · exact mirrors_reset
  · exact mirrors_show.map fun _ => rfl
  · exact mirrors_describe.map fun _ => rfl
  · exact mirrors_describe.map fun _ => rfl
  · exact mirrors_explain h
  · exact mirrors_call.map fun _ => rfl
  · exact mirrors_load
  · exact (mirrors_exportTable none).map fun _ => rfl
  · exact mirrors_dataTunnel.map fun _ => rfl
  · exact .ite (mirrors_failWith rfl) (mirrors_expected _)

theorem mirrors_statement : Mirrors Statement.foldCase statement statement := by
  refine mirrors_fix fun inner h => ?_
  refine (steady_isSymbol _).andThen fun _ => .ite (blind_query.map fun _ => rfl) ?_
  refine steady_currentWord.andThen fun word => ?_
  cases word with
  | none => exact mirrors_expected _
  | some word => exact mirrors_statementOf h word

theorem steady_skipSemicolon : Steady skipSemicolon := steady_maybe (steady_accept _) (.pure rfl)

theorem mirrors_wholeStatement :
    Mirrors Statement.foldCase wholeStatement wholeStatement := by
  have hsemicolons := steady_many steady_skipSemicolon
  refine hsemicolons.andThen fun _ => steady_atEnd.andThen fun _ => .ite ?_ ?_
  · exact fun i _ pos => rfl
  refine mirrors_statement.bind fun _ => hsemicolons.andThen fun _ => ?_
  refine steady_atEnd.andThen fun _ => .ite (.pure rfl) ?_
  exact mirrors_current.bind fun _ => mirrors_fail rfl

end Grammar

/-! ## Two texts -/

/-- The same tokens but for their places and for the letter case of words. -/
def SameTokens (tokens tokens' : List Spanned) : Prop :=
  tokens.map (·.token.foldCase) = tokens'.map (·.token.foldCase)

/-- Errors of the same variant. -/
inductive Error.SameVariant : Error → Error → Prop
  | parse (fault fault' : ParseError) : SameVariant (.parse fault) (.parse fault')
  | unsupported (construct construct' : String) :
      SameVariant (.unsupported construct) (.unsupported construct')
  | format (reason reason' : String) : SameVariant (.format reason) (.format reason')

namespace Error

theorem lower_append_congr {a a' b b' : String} (ha : lower a = lower a')
    (hb : lower b = lower b') : lower (a ++ b) = lower (a' ++ b') := by
  rw [lower_append, lower_append, ha, hb]

theorem lower_describe_foldCase (t : Token) : lower t.foldCase.describe = lower t.describe := by
  cases t with
  | word w => exact lower_append_congr (lower_append_congr rfl (lower_lower w)) rfl
  | _ => rfl

theorem lower_message_foldCase (e : Error) : lower e.foldCase.message = lower e.message := by
  cases e with
  | parse fault =>
    obtain ⟨cause, span, source⟩ := fault
    cases cause with
    | expected what found => exact lower_append_congr rfl (lower_describe_foldCase found)
    | trailing found =>
      exact lower_append_congr (lower_append_congr rfl (lower_describe_foldCase found)) rfl
    | _ => rfl
  | _ => rfl

theorem sameVariant_of_foldCase {e e' : Error} (h : e.foldCase = e'.foldCase) :
    e.SameVariant e' := by
  cases e <;> cases e' <;> first | constructor | cases h

end Error

/-- What is the same on folded tokens is all that a statement depends on. -/
theorem foldCase_eq_of_sameTokens {text text' : String} {tokens tokens' : List Spanned}
    (h : SameTokens tokens tokens') :
    (Input.mk text tokens.toArray).foldCase = (Input.mk text' tokens'.toArray).foldCase := by
  have hmap (ts : List Spanned) : (ts.map fun t => (⟨t.token.foldCase, 0, 0⟩ : Spanned)) =
      (ts.map (·.token.foldCase)).map fun t => ⟨t, 0, 0⟩ := by
    simp
  simp only [Input.foldCase, List.map_toArray, hmap]
  rw [show tokens.map (·.token.foldCase) = tokens'.map (·.token.foldCase) from h]

namespace Statement

theorem parse_of_scan {text : String} {tokens : List Spanned} (h : Token.scan text = .ok tokens) :
    parse text = (Grammar.wholeStatement ⟨text, tokens.toArray⟩ 0).1 := by
  rw [parse, h]
  rfl

/-- A statement that is read from a text is read from its tokens. -/
theorem exists_run_of_parse {text : String} {tree : Statement} (h : parse text = .ok tree) :
    ∃ tokens next, Token.scan text = .ok tokens ∧
      Grammar.wholeStatement ⟨text, tokens.toArray⟩ 0 = (.ok tree, next) := by
  rw [parse] at h
  cases hscan : Token.scan text with
  | error e =>
    rw [hscan] at h
    contradiction
  | ok tokens =>
    rw [hscan] at h
    exact ⟨tokens, _, rfl, Prod.ext h rfl⟩

/-- The run on folded tokens tells everything about a text but the letter case of its words. -/
theorem run_foldCase {text : String} {tokens : List Spanned} (h : Token.scan text = .ok tokens) :
    Grammar.wholeStatement (Input.mk text tokens.toArray).foldCase 0 =
      mapResult foldCase (Grammar.wholeStatement ⟨text, tokens.toArray⟩ 0) :=
  Grammar.mirrors_wholeStatement (Input.wellFormed_of_scan h) 0

theorem parse_of_sameTokens {text text' : String} {tokens tokens' : List Spanned}
    (htokens : Token.scan text = .ok tokens) (htokens' : Token.scan text' = .ok tokens')
    (h : SameTokens tokens tokens') :
    (∃ s s', parse text = .ok s ∧ parse text' = .ok s' ∧ s.foldCase = s'.foldCase) ∨
      ∃ e e', parse text = .error e ∧ parse text' = .error e' ∧ e.SameVariant e' ∧
        lower e.message = lower e'.message := by
  have hrun := run_foldCase htokens
  rw [foldCase_eq_of_sameTokens h, run_foldCase htokens'] at hrun
  rw [parse_of_scan htokens, parse_of_scan htokens']
  generalize Grammar.wholeStatement ⟨text, tokens.toArray⟩ 0 = run at hrun ⊢
  generalize Grammar.wholeStatement ⟨text', tokens'.toArray⟩ 0 = run' at hrun ⊢
  obtain ⟨e | s, pos⟩ := run <;> obtain ⟨e' | s', pos'⟩ := run'
  · have herror : e'.foldCase = e.foldCase := Except.error.inj (Prod.ext_iff.1 hrun).1
    refine .inr ⟨e, e', rfl, rfl, Error.sameVariant_of_foldCase herror.symm, ?_⟩
    rw [← Error.lower_message_foldCase e, ← herror, Error.lower_message_foldCase]
  · cases (Prod.ext_iff.1 hrun).1
  · cases (Prod.ext_iff.1 hrun).1
  · exact .inl ⟨s, s', rfl, rfl, (Except.ok.inj (Prod.ext_iff.1 hrun).1).symm⟩

/-- A keyword in capitals, a name in another case, and a comment between the two. -/
theorem parse_sameTokens_commented :
    ∃ tokens tokens', Token.scan "table \x60A\x60.b" = .ok tokens ∧
      Token.scan "TABLE --\n\x60A\x60.B" = .ok tokens' ∧ SameTokens tokens tokens' ∧
      ((∃ s s', parse "table \x60A\x60.b" = .ok s ∧ parse "TABLE --\n\x60A\x60.B" = .ok s' ∧
          s.foldCase = s'.foldCase) ∨
        ∃ e e', parse "table \x60A\x60.b" = .error e ∧ parse "TABLE --\n\x60A\x60.B" = .error e' ∧
          e.SameVariant e' ∧ lower e.message = lower e'.message) := by
  have htokens : Token.scan "table \x60A\x60.b" = .ok [⟨.word "table", 0, 5⟩, ⟨.quoted "A", 6, 9⟩,
      ⟨.symbol .dot, 9, 10⟩, ⟨.word "b", 10, 11⟩, ⟨.eof, 11, 11⟩] := by
    decide +kernel
  have htokens' : Token.scan "TABLE --\n\x60A\x60.B" = .ok [⟨.word "TABLE", 0, 5⟩,
      ⟨.quoted "A", 9, 12⟩, ⟨.symbol .dot, 12, 13⟩, ⟨.word "B", 13, 14⟩, ⟨.eof, 14, 14⟩] := by
    decide +kernel
  have hsame : SameTokens [⟨.word "table", 0, 5⟩, ⟨.quoted "A", 6, 9⟩, ⟨.symbol .dot, 9, 10⟩,
      ⟨.word "b", 10, 11⟩, ⟨.eof, 11, 11⟩] [⟨.word "TABLE", 0, 5⟩, ⟨.quoted "A", 9, 12⟩,
      ⟨.symbol .dot, 12, 13⟩, ⟨.word "B", 13, 14⟩, ⟨.eof, 14, 14⟩] := by
    unfold SameTokens
    decide +kernel
  exact ⟨_, _, htokens, htokens', hsame, parse_of_sameTokens htokens htokens' hsame⟩

end Statement

end SqlTidy
