import SqlTidy.Grammar.Statement
import SqlTidy.Proofs.Fault
import SqlTidy.Proofs.RoundTrip
import SqlTidy.Proofs.Walk.Command

/-!
# Statements walk

**Theorem (`safe_of_scan`).** On the tokens of a text every rule comes to an end. If it succeeds, it has taken
a token; and whether it succeeds or fails, it has not passed the end mark.

**Theorem (`Statement.wellNested_of_parse`).** The brackets of a text that is read as a statement are properly
nested, unless the statement is a setting, which takes its tokens as they come.

Both are read off the same walk over all rules. The rules for whole texts, which go from the first token to
the end mark, are followed once more for the brackets, since only there it matters what has become of them.
-/

namespace SqlTidy

open Parse

namespace Grammar

variable {i : Input} {pos n : Nat}

/-! ## Statements that start with `WITH` or `FROM` -/

theorem takes_queryStatement (tables : Option WithClause) : Takes n [] (queryStatement tables) :=
  .map (walks_within fun _ _ h => (takes_queryAfterWith h tables).mono)

theorem tries_insertSource : Tries n [] insertSource :=
  .take (walks_within fun _ _ h => (takes_fromClause h).mono) fun _ => .look (.isWord _) fun _ =>
    .ite (.done _) (.done _)

theorem takes_fromStatement (tables : Option WithClause) : Takes n [] (fromStatement tables) :=
  .matchTake (steps_rewinding tries_insertSource)
    (fun _ => .mapPasses (passes_many steps_multiInsertBody)) (takes_queryStatement tables)

theorem takes_withStatement : Takes n [] withStatement := by
  refine .take (walks_within fun _ _ h => (takes_withClause h).mono) fun tables => ?_
  refine .look (.isWord _) fun _ => .ite (.map (takes_insert _)) ?_
  refine .look (.isWord _) fun _ => .ite (takes_fromStatement _).passes ?_
  exact .look (.isWord _) fun _ => .ite (.map (takes_exportTable _)) (takes_queryStatement _).passes

/-! ## All statements -/

theorem walks_explain {inner : Parse Statement}
    (h : Walks n (fun _ => True) (fun s => s.isSetting = false) [] inner) :
    Walks (n + 1) (fun _ => True) (fun s => s.isSetting = false) [] (explain inner) :=
  .first (takes_expectWord _) fun _ => .bind (steps_choose rfl) fun _ i pos hpos =>
    .map ((h i pos hpos).imp (fun _ => False.elim) fun _ => id)

theorem walksAt_statementOf {inner : Parse Statement} {word : String}
    (h : Walks n (fun _ => True) (fun s => s.isSetting = false) [] inner)
    (hpos : i.Leaves pos (n + 1)) (hword : i.tokenAt pos = .word word) (first : String) :
    WalksAt (fun _ => True) (fun s => s.isSetting = false) [] (statementOf inner first) i pos := by
  have hdescribe := walksAt_describe hpos hword
  unfold statementOf
  split
  · exact .of hpos (.map takes_query)
  · exact .of hpos (.map takes_query)
  · exact .of hpos (.map takes_query)
  · exact .of hpos takes_withStatement.walks
  · exact .of hpos (takes_fromStatement none).walks
  · exact .of hpos (.map (takes_insert none))
  · exact .of hpos (.map takes_update)
  · exact .of hpos (.map takes_delete)
  · exact .of hpos <| .look (.peekWord _ _) fun _ => .ite (.map takes_mergeFiles) (.map takes_merge)
  · exact .of hpos takes_create.walks
  · exact .of hpos takes_create.walks
  · exact .of hpos takes_alter.walks
  · exact .of hpos takes_drop.walks
  · exact .of hpos (.map takes_truncate)
  · exact .of hpos (.map takes_repair)
  · exact .of hpos (.map takes_repair)
  · exact .of hpos takes_analyze.walks
  · exact .of hpos (.map takes_commentOn)
  · exact .of hpos (.map takes_use)
  · exact .of hpos walks_set
  · exact walksAt_reset hpos hword
  · exact .of hpos (.map takes_show)
  · exact .map (hdescribe.imp (fun _ => id) fun _ _ => trivial)
  · exact .map (hdescribe.imp (fun _ => id) fun _ _ => trivial)
  · exact .of hpos (walks_explain h)
  · exact .of hpos (.map takes_call)
  · exact .of hpos takes_load.walks
  · exact .of hpos (.map (takes_exportTable none))
  · exact .of hpos (.map takes_dataTunnel)
  · exact .of hpos (.ite (walks_unsupported _) (walks_expected _))

theorem walks_statement : Walks n (fun _ => True) (fun s => s.isSetting = false) [] statement := by
  refine walks_fix fun n inner h i pos hpos => ?_
  refine .isSymbol (.ite (fun _ => .of hpos (.map takes_query)) fun _ => ?_)
  obtain ⟨w, hw⟩ := Looks.currentWord i pos
  refine .stay hw ?_
  cases w with
  | none => exact .of hpos (walks_expected _)
  | some w =>
    obtain ⟨word, hword⟩ := (ends_currentWord _ _ hw).2 rfl
    exact walksAt_statementOf h hpos hword w

/-! ## Whole texts -/

theorem passes_semicolons : Passes n [] (many skipSemicolon) :=
  passes_many (steps_maybe (tests_accept rfl) (.done _))

theorem looks_atEnd : Looks atEnd := .bind .current fun _ => .pure _

/-- What is wrong with a whole text lies at one of its tokens, or there is no statement in it. -/
theorem roams_wholeStatement :
    Walks n (fun _ => False) (fun _ => False) [] wholeStatement := by
  refine .bind passes_semicolons fun _ => .look looks_atEnd fun _ => .ite ?_ ?_
  · exact fun i pos hpos => .fault hpos.le_last .empty rfl
  refine .roam (walks_statement.imp (fun _ => False.elim) fun _ => False.elim) fun s => ?_
  refine .bind passes_semicolons fun _ => .look looks_atEnd fun _ => .ite (.done _) fun i pos hpos => ?_
  exact .current (walksAt_fail hpos.le_last nofun)

/-- The tokens of a whole text are nested, up to the end mark. -/
theorem ends_wholeStatement_nests (hi : i.Capped) :
    Ends wholeStatement i 0 fun s next =>
      next = i.last ∧ (s.isSetting = false → i.Nests [] 0 [] next) := by
  have hleaves (mid : Nat) (hmid : mid ≤ i.last) : i.Leaves mid (i.last + 1) :=
    ⟨hi, hmid, by omega⟩
  refine (passes_semicolons i 0 (hleaves 0 (Nat.zero_le _))).ok.bind fun _ first hfirst => ?_
  show Ends (if decide (i.tokenAt first = .eof) = true then _ else _) i first _
  refine .ite (fun _ => nofun) fun _ => ?_
  refine (walks_statement i first (hleaves first hfirst.le_last)).ok.bind fun s mid hmid => ?_
  refine (passes_semicolons i mid (hleaves mid hmid.le_last)).ok.bind fun _ next hnext => ?_
  show Ends (if decide (i.tokenAt next = .eof) = true then _ else _) i next _
  refine .ite (fun heof => .pure ⟨?_, fun hs => ?_⟩) fun _ => .step fun _ _ => ends_fail _ _
  · exact Nat.le_antisymm hnext.le_last ((hi.eof_iff next).1 (of_decide_eq_true heof))
  · exact ((hfirst.nests trivial).trans (hmid.nests hs)).trans (hnext.nests trivial)

end Grammar

open Grammar

/-! ## The tokens of a text -/

namespace Input

variable {i : Input}

/-- A scan ends with the end mark and has no other one. -/
theorem Scanned.capped (h : i.Scanned) : i.Capped := by
  obtain ⟨ts, htokens, hts⟩ := (Token.tiles_of_scan h).ends (.start _)
  have hsize : i.tokens.size = ts.length + 1 := by
    rw [← Array.length_toList, htokens, List.length_append]
    rfl
  have hlast : i.last = ts.length := by
    rw [last, hsize]
    rfl
  refine ⟨by omega, fun pos => ?_⟩
  rw [hlast]
  constructor
  · intro heof
    refine Nat.le_of_not_lt fun hlt => hts ts[pos] (List.getElem_mem hlt) ?_
    have hat : i.tokens[pos]? = some ts[pos] := by
      rw [← Array.getElem?_toList, htokens, List.getElem?_append_left hlt,
        List.getElem?_eq_getElem hlt]
    rwa [tokenAt, hat] at heof
  · intro hle
    by_contra hne
    obtain ⟨t, ht, htoken⟩ := exists_of_tokenAt hne
    rw [← Array.getElem?_toList, htokens, List.getElem?_append_right hle] at ht
    rw [← htoken, List.mem_singleton.1 (List.mem_of_getElem? ht)] at hne
    exact hne rfl

/-- A fault of a rule covers whole characters. -/
theorem Faults.located {e : Error} (h : i.Faults e) (hi : i.Scanned) : e.Located i.source := by
  cases h with
  | here pos cause hpos hcause =>
    have hlt : pos < i.tokens.size := by
      have hsize := hi.capped.size_pos
      rw [last] at hpos
      omega
    rw [errorAt, Array.getElem?_eq_getElem hlt]
    exact .fault hcause (Token.covers_of_scan hi (Array.getElem_mem_toList hlt))
  | empty =>
    have htext : Text.Remains i.source 0 (i.source.toList ++ []) := ⟨[], by simp, rfl⟩
    have hcovers := htext.covers
    rw [Text.byteSize_toList] at hcovers
    exact .fault (by rintro ⟨⟩) hcovers
  | unsupported construct => exact .unsupported construct

end Input

/-- A rule is safe on an input if it comes to an end from every position up to the end mark: if it succeeds
it stands further on but not behind the end mark, and if it fails it does not stand behind the end mark
either. -/
structure Parse.Safe {α : Type} (p : Parse α) (i : Input) : Prop where
  ok : ∀ pos ≤ i.last, Ends p i pos fun _ next => pos < next ∧ next ≤ i.last
  error : ∀ pos ≤ i.last, ∀ e next, p i pos = (.error e, next) → next ≤ i.last ∧ e.isEndless = false

theorem Parse.Walks.safe {α : Type} {p : Parse α} {i : Input} {closes : α → Prop} (hi : i.Capped)
    (h : ∀ n, Walks n (fun _ => True) closes [] p) : p.Safe i := by
  have hat (pos : Nat) (hpos : pos ≤ i.last) : WalksAt (fun _ => True) closes [] p i pos :=
    h (i.last + 1) i pos ⟨hi, hpos, by omega⟩
  constructor
  · exact fun pos hpos => (hat pos hpos).ok.mono fun _ _ hmoved => ⟨hmoved.lt trivial, hmoved.le_last⟩
  · intro pos hpos e next hrun
    obtain ⟨hnext, hfault⟩ := (hat pos hpos).error e next hrun
    exact ⟨hnext, hfault.not_isEndless⟩

namespace Statement

/-- Errors of reading a text have their place in it. -/
theorem located_of_parse {text : String} {e : Error} (h : parse text = .error e) : e.Located text := by
  rw [parse] at h
  cases hscan : Token.scan text with
  | error e' =>
    rw [hscan] at h
    cases h
    exact Token.located_of_scan hscan
  | ok tokens =>
    rw [hscan] at h
    have hi : Input.Scanned ⟨text, tokens.toArray⟩ := hscan
    have hrun : wholeStatement ⟨text, tokens.toArray⟩ 0 = (.error e, _) := Prod.ext h rfl
    have hwalks := roams_wholeStatement _ 0 ⟨hi.capped, Nat.zero_le _, Nat.lt_succ_self _⟩
    exact (hwalks.error e _ hrun).2.located hi

end Statement

/-- On the tokens of a text the rules come to an end, take a token if they succeed and never pass the end
mark; and reading a text comes to an end for every text. -/
theorem safe_of_scan (text : String) :
    (∀ tokens, Token.scan text = .ok tokens →
      let i : Input := ⟨text, tokens.toArray⟩
      (∀ pos, i.tokenAt pos = .eof ↔ i.last ≤ pos) ∧ statement.Safe i ∧ query.Safe i ∧
        expression.Safe i ∧ dataType.Safe i ∧ (within selectItem).Safe i ∧ (within tableFactor).Safe i ∧
        relation.Safe i ∧ (within window).Safe i ∧ ∀ name, (within (callOf · name)).Safe i) ∧
    ∀ e, Statement.parse text = .error e → e.isEndless = false := by
  refine ⟨fun tokens hscan => ?_, fun e he => (Statement.located_of_parse he).not_isEndless⟩
  have hi : Input.Capped ⟨text, tokens.toArray⟩ := Input.Scanned.capped hscan
  exact ⟨hi.eof_iff, Walks.safe hi fun _ => walks_statement, Walks.safe hi fun _ => takes_query,
    Walks.safe hi fun _ => takes_expression, Walks.safe hi fun _ => takes_dataType,
    Walks.safe hi fun _ => walks_within fun _ _ h => takes_selectItem h,
    Walks.safe hi fun _ => walks_within fun _ _ h => (takes_tableFactor h).mono,
    Walks.safe hi fun _ => takes_relation,
    Walks.safe hi fun _ => walks_within fun _ _ h => (takes_window h).mono,
    fun name => Walks.safe hi fun _ => walks_within fun _ _ h => (takes_callOf h name).mono⟩

/-- A hint, a special form that is read again as a call, and doubled parentheses in front of a query, one of
which is never closed. -/
theorem safe_of_scan_rewound :
    ∃ tokens, Token.scan "SELECT /*+ a */ trim((b)), ((SELECT 1) + 1" = .ok tokens ∧
      statement.Safe ⟨"SELECT /*+ a */ trim((b)), ((SELECT 1) + 1", tokens.toArray⟩ := by
  have hscan : ∃ tokens, Token.scan "SELECT /*+ a */ trim((b)), ((SELECT 1) + 1" = .ok tokens := by
    refine ⟨[⟨.word "SELECT", 0, 6⟩, ⟨.symbol .hintStart, 7, 10⟩, ⟨.word "a", 11, 12⟩,
      ⟨.symbol .hintEnd, 13, 15⟩, ⟨.word "trim", 16, 20⟩, ⟨.symbol .lparen, 20, 21⟩,
      ⟨.symbol .lparen, 21, 22⟩, ⟨.word "b", 22, 23⟩, ⟨.symbol .rparen, 23, 24⟩,
      ⟨.symbol .rparen, 24, 25⟩, ⟨.symbol .comma, 25, 26⟩, ⟨.symbol .lparen, 27, 28⟩,
      ⟨.symbol .lparen, 28, 29⟩, ⟨.word "SELECT", 29, 35⟩, ⟨.number "1", 36, 37⟩,
      ⟨.symbol .rparen, 37, 38⟩, ⟨.symbol .plus, 39, 40⟩, ⟨.number "1", 41, 42⟩, ⟨.eof, 42, 42⟩], ?_⟩
    decide +kernel
  obtain ⟨tokens, hscan⟩ := hscan
  exact ⟨tokens, hscan, ((safe_of_scan _).1 tokens hscan).2.1⟩

/-! ## Brackets -/

/-- Properly nested brackets: every closing bracket is the partner of the last opening one that is still open,
and none is left open. -/
def Token.WellNested (ts : List Token) : Prop := ts.foldlM nest [] = some []

/-- Going over tokens changes nothing about what the tokens ahead come to. -/
theorem Input.Nests.foldlM_ahead {i : Input} {s t : List Symbol} {pos next : Nat}
    (h : i.Nests s pos t next) :
    (i.ahead pos).foldlM Token.nest s = (i.ahead next).foldlM Token.nest t := by
  induction h with
  | nil => rfl
  | token hpos hnest _ ih =>
    rw [ahead_of_ne_eof hpos, List.foldlM_cons, hnest]
    exact ih

/-- At the end mark nothing else is ahead. -/
theorem Input.Capped.ahead_last {i : Input} (h : i.Capped) : i.ahead i.last = [.eof] := by
  have hsize := h.size_pos
  have hlt : i.last < i.tokens.size := by
    rw [last]
    omega
  have hend : i.tokens[i.last + 1]? = none := by
    rw [Array.getElem?_eq_none_iff, last]
    omega
  have heof := (h.eof_iff i.last).2 (Nat.le_refl _)
  rw [ahead_cons (Array.getElem?_eq_getElem hlt), ahead_of_none hend]
  rw [tokenAt, Array.getElem?_eq_getElem hlt] at heof
  exact congrArg (fun t => [t]) heof

namespace Statement

/-- The brackets of a text that is read as a statement are properly nested. -/
theorem wellNested_of_parse {text : String} {tree : Statement} (h : parse text = .ok tree)
    (hsetting : tree.isSetting = false) :
    ∃ tokens, Token.scan text = .ok tokens ∧ Token.WellNested (tokens.map (·.token)) := by
  obtain ⟨tokens, next, hscan, hrun⟩ := exists_run_of_parse h
  refine ⟨tokens, hscan, ?_⟩
  have hi : Input.Capped ⟨text, tokens.toArray⟩ := Input.Scanned.capped hscan
  obtain ⟨hlast, hnests⟩ := ends_wholeStatement_nests hi tree next hrun
  have hfold := (hnests hsetting).foldlM_ahead
  rw [hlast, hi.ahead_last] at hfold
  exact hfold

/-- Parentheses around an argument, a subscript between parentheses, and parentheses of a hint. -/
theorem wellNested_of_parse_hint :
    ∃ tokens, Token.scan "SELECT /*+ a(b) */ (c[f(1)]) FROM d" = .ok tokens ∧
      Token.WellNested (tokens.map (·.token)) := by
  have hread : (parse "SELECT /*+ a(b) */ (c[f(1)]) FROM d").toOption.any (!·.isSetting) = true := by
    decide +kernel
  cases hparse : parse "SELECT /*+ a(b) */ (c[f(1)]) FROM d" with
  | error e =>
    rw [hparse] at hread
    contradiction
  | ok tree =>
    rw [hparse] at hread
    exact wellNested_of_parse hparse (by simpa [Except.toOption] using hread)

end Statement

end SqlTidy
