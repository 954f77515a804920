import Mathlib.Data.List.Nodup
import SqlTidy.Proofs.Clause.Portable
import SqlTidy.Proofs.QueryStart

/-!
# The order of the clauses of a table

**Theorem (`format_of_perm`).** The clauses of a `CREATE TABLE` may stand in any order, if no two of them are of one kind: the
same clauses are read, and the statement around them has the same page.

Each clause ends by itself, so a clause that is read alone is read among others, and the next one starts where it ends
(`runs_clauses`). Each kind of clause sets a field of its own, so their order does not matter
(`TableClauses.foldl_eq_of_perm`). What stands in front of the clauses is read as it is alone, because it waits for none of the
words that clauses start with (`Followed.runs_tableHead`), and what stands behind them is read alike, because it depends on the
tokens from there on only (`runs_same`).
-/

namespace SqlTidy

open Parse

/-! ## Clauses of different kinds -/

/-- The kinds of clauses of a `CREATE TABLE`. -/
inductive TableClause.Kind where
  | primaryKey
  | partitionedBy
  | clusteredBy
  | storedAs
  | location
  | lifecycle
  | options
  | tableProperties
  | comment
  deriving DecidableEq

def TableClause.kind : TableClause → Kind
  | .primaryKey _ => .primaryKey
  | .partitionedBy _ => .partitionedBy
  | .clusteredBy _ => .clusteredBy
  | .storedAs _ => .storedAs
  | .location _ => .location
  | .lifecycle _ => .lifecycle
  | .options _ => .options
  | .tableProperties _ => .tableProperties
  | .comment _ => .comment

/-- Each kind of clause sets a field of its own. -/
theorem TableClauses.add_comm {a b : TableClause} (h : a.kind ≠ b.kind) (clauses : TableClauses) :
    (clauses.add a).add b = (clauses.add b).add a := by
  cases a <;> cases b <;> first | rfl | exact absurd rfl h

theorem TableClauses.foldl_eq_of_perm {as bs : List TableClause} (hperm : as.Perm bs)
    (hkinds : (as.map TableClause.kind).Nodup) (clauses : TableClauses) :
    as.foldl TableClauses.add clauses = bs.foldl TableClauses.add clauses := by
  refine hperm.foldl_eq' (fun a ha b hb clauses => ?_) clauses
  by_cases hkind : a.kind = b.kind
  · rw [List.inj_on_of_nodup_map hkinds ha hb hkind]
  · exact add_comm hkind clauses

namespace Grammar

/-! ## Clauses one after the other -/

/-- Tokens that are one clause: alone they are read to their end, and this clause comes out. -/
structure WrittenClause where
  tokens : List Token
  clause : TableClause
  reads : ∃ i : Input, i.Lists tokens ∧ many (chooseRule tableClauseRules) i 0 = (.ok [clause], tokens.length)

/-- The tokens of some clauses, one after the other. -/
def clauseTokens (gs : List WrittenClause) : List Token := gs.flatMap WrittenClause.tokens

/-- The words that clauses start with. -/
def clauseWords : List String := tableClauseRules.filterMap fun rule => rule.1.head?

/-- None of the clauses starts with these tokens. -/
def StartsNoClause (back : List Token) : Prop := ∀ rule ∈ tableClauseRules, ¬ (Input.ofTokens back).HasWords 0 rule.1

theorem apart_tableClauseRules : (tableClauseRules.map Prod.fst).Pairwise (apart · · = true) := by
  show List.Pairwise (apart · · = true) [["PRIMARY", "KEY"], ["PARTITIONED", "BY"], ["CLUSTERED", "BY"], ["STORED", "AS"],
    ["LOCATION"], ["LIFECYCLE"], ["OPTIONS"], ["TBLPROPERTIES"], ["COMMENT"]]
  decide +kernel

theorem eq_of_chooseRule_none {α : Type} {rules : List (List String × Parse α)} {i : Input} {pos next : Nat}
    (hrun : Runs (chooseRule rules) i pos none next) : next = pos := by
  obtain ⟨found, mid, hfound, hrun⟩ := Runs.exists_of_bind (p := choose rules) hrun
  cases found with
  | none =>
    cases hrun
    exact ends_choose rules _ _ hfound rfl
  | some p =>
    obtain ⟨_, _, -, hend⟩ := Runs.exists_of_bind hrun
    cases hend

namespace WrittenClause

variable (g : WrittenClause)

/-- Alone, the clause is read in one step. -/
theorem exists_runs : ∃ i : Input, i.Lists g.tokens ∧
    Runs (chooseRule tableClauseRules) i 0 (some g.clause) g.tokens.length := by
  obtain ⟨i, hi, hrun⟩ := g.reads
  refine ⟨i, hi, ?_⟩
  obtain ⟨found, mid, hfound, hrest⟩ := Runs.exists_of_bind (p := chooseRule tableClauseRules) hrun
  cases found with
  | none => cases hrest
  | some clause =>
    obtain ⟨clauses, next, hclauses, hend⟩ := Runs.exists_of_bind hrest
    cases hend
    have hnone : Runs (chooseRule tableClauseRules) i mid none g.tokens.length := by
      cases hn : i.remaining 0 with
      | zero =>
        rw [hn] at hclauses
        cases hclauses
      | succ n =>
        rw [hn] at hclauses
        obtain ⟨found, mid', hfound, hrest⟩ := Runs.exists_of_bind hclauses
        cases found with
        | none =>
          cases hrest
          exact hfound
        | some _ =>
          obtain ⟨_, _, -, hend⟩ := Runs.exists_of_bind hrest
          cases hend
    rwa [eq_of_chooseRule_none hnone]

theorem runs {j : Input} {front back : List Token} (hj : j.Lists (front ++ g.tokens ++ back)) :
    Runs (chooseRule tableClauseRules) j front.length (some g.clause) (front ++ g.tokens).length := by
  obtain ⟨i, hi, hrun⟩ := g.exists_runs
  have hrun := Portable.chooseRule apart_tableClauseRules portable_tableClauseRules hi hj hrun
  rw [Nat.zero_add, Nat.add_comm] at hrun
  rwa [List.length_append]

/-- A clause starts with a keyword. -/
theorem exists_keyword : ∃ word rest, g.tokens = .word word :: rest ∧ Text.upper word ∈ clauseWords := by
  obtain ⟨i, hi, hrun⟩ := g.exists_runs
  obtain ⟨rule, hrule, hwords, -⟩ := exists_of_chooseRule hrun
  have hheads : ∀ rule ∈ tableClauseRules, ∃ keyword rest, rule.1 = keyword :: rest ∧ Text.upper keyword = keyword := by
    simp only [tableClauseRules, List.forall_mem_cons]
    refine ⟨?_, ?_, ?_, ?_, ?_, ?_, ?_, ?_, ?_, List.forall_mem_nil _⟩ <;> exact ⟨_, _, rfl, by decide +kernel⟩
  obtain ⟨keyword, rest, hphrase, hupper⟩ := hheads rule hrule
  rw [hphrase] at hwords
  obtain ⟨word, hword, heq⟩ := Token.exists_of_isKeyword hwords.1
  rw [hi.tokenAt] at hword
  cases htokens : g.tokens with
  | nil => simp [htokens] at hword
  | cons t ts =>
    obtain rfl : t = .word word := by simpa [htokens] using hword
    exact ⟨word, ts, rfl, List.mem_filterMap.2 ⟨rule, hrule, by simp [hphrase, heq, hupper]⟩⟩

end WrittenClause

/-- The same tokens without those in front. -/
theorem tokenAt_past {j : Input} {front back : List Token} (hj : j.Lists (front ++ back)) (k : Nat) :
    j.tokenAt (front.length + k) = (Input.ofTokens back).tokenAt k := by
  have hback : (Input.ofTokens back).Lists back :=
    Input.lists_ofTokens fun hmem => hj.eof_not_mem (List.mem_append_right front hmem)
  rw [hj.tokenAt, hback.tokenAt, List.getElem?_append_right (Nat.le_add_right _ _), Nat.add_sub_cancel_left]

theorem StartsNoClause.runs {j : Input} {front back : List Token} (h : StartsNoClause back)
    (hj : j.Lists (front ++ back)) : Runs (chooseRule tableClauseRules) j front.length none front.length := by
  have hwords (keywords : List String) (k : Nat) :
      j.HasWords (front.length + k) keywords → (Input.ofTokens back).HasWords k keywords := by
    induction keywords generalizing k with
    | nil => exact id
    | cons keyword rest ih =>
      intro hwords
      exact ⟨tokenAt_past hj k ▸ hwords.1, ih (k + 1) hwords.2⟩
  exact Runs.bind (p := choose _) (runs_choose_none fun rule hrule hright => h rule hrule (hwords rule.1 0 hright))
    (runs_pure j _ none)

variable {gs gs' : List WrittenClause} {j : Input} {front back : List Token}

/-- Each clause ends where the next one starts. -/
theorem runs_clauses (hj : j.Lists (front ++ clauseTokens gs ++ back)) (hend : StartsNoClause back) {n : Nat}
    (hn : gs.length < n) : Runs (manyUpTo (chooseRule tableClauseRules) n) j front.length (gs.map WrittenClause.clause)
      (front ++ clauseTokens gs).length := by
  induction gs generalizing front n with
  | nil =>
    obtain ⟨n, rfl⟩ : ∃ m, n = m + 1 := ⟨n - 1, by omega⟩
    simp only [clauseTokens, List.flatMap_nil, List.append_nil] at hj ⊢
    exact (hend.runs hj).bind (runs_pure j _ [])
  | cons g gs ih =>
    obtain ⟨n, rfl⟩ : ∃ m, n = m + 1 := ⟨n - 1, by omega⟩
    have hfirst : j.Lists (front ++ g.tokens ++ (clauseTokens gs ++ back)) := by simpa [clauseTokens] using hj
    have hbehind : j.Lists (front ++ g.tokens ++ clauseTokens gs ++ back) := by simpa [clauseTokens] using hj
    have hclause := g.runs hfirst
    have hrest := ih hbehind (Nat.lt_of_succ_lt_succ hn)
    rw [List.append_assoc] at hrest
    exact hclause.bind (hrest.bind (runs_pure j _ _))

theorem length_le_clauseTokens (gs : List WrittenClause) : gs.length ≤ (clauseTokens gs).length := by
  induction gs with
  | nil => exact Nat.zero_le _
  | cons g gs ih =>
    obtain ⟨word, rest, htokens, -⟩ := g.exists_keyword
    simp only [clauseTokens, List.flatMap_cons, List.length_append, List.length_cons, htokens] at ih ⊢
    omega

theorem runs_tableClauses (hj : j.Lists (front ++ clauseTokens gs ++ back)) (hend : StartsNoClause back) :
    Runs tableClauses j front.length ((gs.map WrittenClause.clause).foldl TableClauses.add .empty)
      (front ++ clauseTokens gs).length := by
  have hlength := length_le_clauseTokens gs
  have hmany : Runs (many (chooseRule tableClauseRules)) j front.length (gs.map WrittenClause.clause)
      (front ++ clauseTokens gs).length := by
    refine runs_clauses hj hend ?_
    simp only [Input.remaining, hj.size, List.length_append]
    omega
  exact hmany.bind (runs_pure j _ _)

/-! ## The statement around them -/

/-- The words of a `CREATE TABLE` up to the last of these. -/
def createWords : Parse (CreateMode × Bool) := do
  if ← acceptWord "REPLACE" then
    expectWord "TABLE"
    return (.replace, false)
  else
    expectWord "CREATE"
    let orReplace ← acceptWords ["OR", "REPLACE"]
    let external ← acceptWord "EXTERNAL"
    expectWord "TABLE"
    return (if orReplace then .createOrReplace else .create, external)

/-- What comes between these words and the clauses. -/
def tableHead (mode : CreateMode) (external : Bool) : Parse CreateTable := do
  let ifNotExists ← ifNotExists
  let name ← dottedName
  let columns ← maybe isColumnList columnDefinitions
  let provider ← maybe (acceptWord "USING") identifier
  return { mode, external, ifNotExists, name, columns, provider, clauses := .empty, query := none }

/-- The clauses, and what comes behind them. -/
def tableRest (table : CreateTable) : Parse Statement := do
  let clauses ← tableClauses
  let query ← maybe acceptAsQuery query
  return .createTable { table with clauses, query }

theorem createTable_eq (mode : CreateMode) (external : Bool) :
    createTable mode external = tableHead mode external >>= tableRest := by
  simp only [tableHead, bind_assoc, pure_bind]
  rfl

theorem create_apply {i : Input} {pos next : Nat} {mode : CreateMode} {external : Bool}
    (hrun : Runs createWords i pos (mode, external) next) : create i pos = createTable mode external i next := by
  by_cases hreplace : (i.tokenAt pos).isKeyword "REPLACE"
  · have hrun := Runs.behind (p := acceptWord _) hrun (runs_acceptWord hreplace)
    obtain ⟨_, _, htable, hend⟩ := Runs.exists_of_bind hrun
    cases hend
    exact (bind_apply (runs_acceptWord hreplace)).trans (bind_apply htable)
  · have hrun := Runs.behind (p := acceptWord _) hrun (runs_acceptWord_false hreplace)
    obtain ⟨_, q, hcreate, hrun⟩ := Runs.exists_of_bind hrun
    obtain ⟨orReplace, q', hor, hrun⟩ := Runs.exists_of_bind hrun
    obtain ⟨_, q'', hexternal, hrun⟩ := Runs.exists_of_bind hrun
    obtain ⟨_, _, htable, hend⟩ := Runs.exists_of_bind hrun
    cases hend
    refine (bind_apply (runs_acceptWord_false hreplace)).trans ((bind_apply hcreate).trans ((bind_apply hor).trans ?_))
    refine (bind_apply hexternal).trans ?_
    cases external with
    | true => exact bind_apply htable
    | false =>
      obtain ⟨hword, rfl⟩ := eq_of_runs_expectWord htable
      exact bind_apply (runs_acceptWord hword)

theorem acceptWord_eq (keyword : String) : acceptWord keyword = acceptWords [keyword] := by
  refine funext fun i => funext fun pos => ?_
  by_cases hword : (i.tokenAt pos).isKeyword keyword
  · have hwords : i.HasWords pos [keyword] := ⟨hword, trivial⟩
    exact (runs_acceptWord hword).trans (runs_acceptWords hwords).symm
  · have hwords : ¬ i.HasWords pos [keyword] := fun hwords => hword hwords.1
    exact (runs_acceptWord_false hword).trans (runs_acceptWords_false hwords).symm

theorem portable_createWords : Portable createWords := by
  have hnext {word keyword : String} {rest : Unit → Parse (CreateMode × Bool)} {i : Input} {pos next : Nat}
      {a : CreateMode × Bool} (hrun : Runs (expectWord word >>= rest) i pos a next) (hne : Text.upper word ≠ Text.upper keyword) :
      i.tokenAt pos ≠ .eof ∧ ¬ (i.tokenAt pos).isKeyword keyword := by
    obtain ⟨_, _, hword, -⟩ := Runs.exists_of_bind hrun
    have hword := (eq_of_runs_expectWord hword).1
    exact ⟨ne_eof_of_isKeyword hword, not_isKeyword hword hne⟩
  have htable (result : CreateMode × Bool) : Portable (expectWord "TABLE" >>= fun _ => pure result) := (Portable.expectWord _).map
  simp only [createWords, acceptWord_eq]
  refine .test (htable _) ((Portable.expectWord _).bind fun _ => ?_) fun i pos a next hrun => hnext hrun (by decide +kernel)
  have hexternal (mode : CreateMode) : Portable (do
      let external ← acceptWords ["EXTERNAL"]
      expectWord "TABLE"
      return (mode, external)) :=
    .test (htable _) (htable _) fun i pos a next hrun => hnext hrun (by decide +kernel)
  refine .test (hexternal _) (hexternal _) fun i pos a next hrun => ?_
  by_cases hword : i.HasWords pos ["EXTERNAL"]
  · exact ⟨ne_eof_of_isKeyword hword.1, not_isKeyword hword.1 (by decide +kernel)⟩
  · exact hnext (Runs.behind (p := acceptWords _) hrun (runs_acceptWords_false hword)) (by decide +kernel)

theorem takes_createWords {n : Nat} : Parse.Takes n [] createWords :=
  .ifTake (tests_acceptWord _) (.bind (takes_expectWord _) fun _ => .done _) <|
    .take (takes_expectWord _) fun _ => .bind (tests_acceptWords rfl) fun _ => .bind (tests_acceptWord _) fun _ =>
      .bind (takes_expectWord _) fun _ => .done _

/-! ### In front of the clauses -/

section

variable {i : Input} {c : List Token} {pos next : Nat} (h : i.Followed j c clauseWords)

include h

theorem Followed.runs_dottedPart {name : Ident} (hrun : Runs dottedPart i pos (some name) next) :
    Runs dottedPart j pos (some name) next ∧ next ≤ c.length := by
  have hrun := Runs.behind (p := isSymbol .dot) hrun (runs_isSymbol i pos .dot)
  have hrun := Runs.behind (p := peek 1) hrun (runs_peek i pos 1)
  split at hrun
  · rename_i hpart
    simp only [Bool.and_eq_true, decide_eq_true_eq] at hpart
    obtain ⟨hdot, hname⟩ := hpart
    have hrun := Runs.behind (p := skip) hrun (runs_skip (by simp [hdot]))
    obtain ⟨_, _, hidentifier, hend⟩ := Runs.exists_of_bind hrun
    cases hend
    have hne : i.tokenAt (pos + 1) ≠ .eof := fun heof => by simp [heof, isIdentifier] at hname
    obtain ⟨hidentifier, hnext⟩ := Carries.expectIf h _ _ (h.lt_of_symbol hdot) hidentifier
    refine ⟨(runs_isSymbol j pos .dot).bind ((runs_peek j pos 1).bind ?_), hnext⟩
    rw [h.tokenAt_symbol hdot, h.same _ (h.lt_length hne), hname, if_pos (by simp)]
    exact (runs_skip (by simp [h.tokenAt_symbol hdot])).bind (hidentifier.bind (runs_pure j _ _))
  · cases hrun

/-- A name that no dot follows. -/
theorem Followed.runs_dottedParts {n m : Nat} {names : List Ident} (hnm : n ≤ m) (hpos : pos ≤ c.length)
    (hdot : i.tokenAt next ≠ .symbol .dot) (hrun : Runs (manyUpTo dottedPart n) i pos names next) :
    Runs (manyUpTo dottedPart m) j pos names next ∧ next ≤ c.length := by
  induction n generalizing pos m names with
  | zero => cases hrun
  | succ n ih =>
    obtain ⟨m, rfl⟩ : ∃ k, m = k + 1 := ⟨m - 1, by omega⟩
    obtain ⟨found, mid, hfound, hrest⟩ := Runs.exists_of_bind hrun
    cases found with
    | none =>
      cases hrest
      obtain rfl := ends_dottedPart _ _ hfound rfl
      have hright : j.tokenAt next ≠ .symbol .dot := fun hsym => hdot (h.symbol_of_tokenAt hpos hsym)
      exact ⟨(runs_dottedPart_none hright).bind (runs_pure j _ []), hpos⟩
    | some name =>
      obtain ⟨rest, _, hrest, hend⟩ := Runs.exists_of_bind hrest
      cases hend
      obtain ⟨hfound, hmid⟩ := Followed.runs_dottedPart h hfound
      obtain ⟨hrest, hnext⟩ := ih (Nat.le_of_succ_le_succ hnm) hmid hrest
      exact ⟨hfound.bind (hrest.bind (runs_pure j _ _)), hnext⟩

theorem Followed.runs_dottedName {name : DottedName} (hpos : pos ≤ c.length) (hdot : i.tokenAt next ≠ .symbol .dot)
    (hrun : Runs dottedName i pos name next) : Runs dottedName j pos name next ∧ next ≤ c.length := by
  obtain ⟨first, mid, hfirst, hrun⟩ := Runs.exists_of_bind hrun
  obtain ⟨rest, _, hrest, hend⟩ := Runs.exists_of_bind hrun
  cases hend
  obtain ⟨hfirst, hmid⟩ := Carries.expectIf h _ _ hpos hfirst
  have hsize := h.size
  have hnm : i.remaining mid + 1 ≤ j.remaining mid + 1 := by
    unfold Input.remaining
    omega
  obtain ⟨hrest, hnext⟩ := Followed.runs_dottedParts h hnm hmid hdot hrest
  exact ⟨hfirst.bind (Runs.bind (p := many dottedPart) hrest (runs_pure j _ _)), hnext⟩

/-- The look for a query behind an opening parenthesis ends before the closing one. -/
theorem Followed.runs_isColumnList {stop : Nat} (hopen : i.tokenAt pos = .symbol .lparen)
    (hclose : i.tokenAt stop = .symbol .rparen) (hnests : i.Nests [] (pos + 1) [] stop)
    (hrun : Runs isQueryStart i pos false pos) : Runs isColumnList j pos true pos := by
  have hopen' := h.tokenAt_symbol hopen
  have hat : (h.fence hclose).At [] (pos + 1) := h.fence_at hnests
  obtain ⟨found, hleft, hright⟩ := exists_queryAhead (d := 1) hat
  have hstart {i : Input} (hopen : i.tokenAt pos = .symbol .lparen) (hahead : Runs (queryAhead 1) i pos found pos) :
      Runs isQueryStart i pos found pos := by
    obtain ⟨rfl, -⟩ := (runs_queryAhead i pos 1).unique hahead
    have hquery := runs_isQueryStart i pos
    rwa [hopen, Input.behindParens_of_open hopen, show (Token.symbol .lparen).isKeyword "TABLE" = false from rfl,
      Bool.or_false] at hquery
  obtain ⟨rfl, -⟩ := hrun.unique (hstart hopen hleft)
  refine (runs_isSymbol j pos .lparen).bind ?_
  rw [decide_eq_true hopen', if_pos rfl]
  exact (hstart hopen' hright).bind (runs_pure j pos _)

/-- Columns in parentheses. -/
theorem Followed.runs_columns {columns : List ColumnDefinition} (hpos : pos ≤ c.length)
    (hrun : Runs (maybe isColumnList columnDefinitions) i pos (some columns) next) :
    i.tokenAt pos = .symbol .lparen ∧ Runs (maybe isColumnList columnDefinitions) j pos (some columns) next ∧
      next ≤ c.length := by
  obtain ⟨found, mid, hfound, hrun⟩ := Runs.exists_of_bind hrun
  cases found with
  | false => cases hrun
  | true =>
    have hfound := Runs.behind (p := isSymbol .lparen) hfound (runs_isSymbol i pos .lparen)
    by_cases hopen : i.tokenAt pos = .symbol .lparen
    · rw [decide_eq_true hopen, if_pos rfl] at hfound
      obtain ⟨found, _, hquery, hend⟩ := Runs.exists_of_bind hfound
      obtain ⟨-, rfl⟩ := (runs_isQueryStart i pos).unique hquery
      cases found with
      | true => cases hend
      | false =>
        cases hend
        obtain ⟨_, _, hcolumns, hend⟩ := Runs.exists_of_bind hrun
        cases hend
        have hcarries : Carries i j c columnDefinitions columnDefinitions := (Carries.expect h _).bind fun _ =>
          .parens h (Nat.lt_succ_self _) (takes_commaSeparated takes_columnDefinition).passes
            (fun _ => firm_columnDefinition.commaSeparated) fun _ => .pure _
        obtain ⟨hcolumns', hnext⟩ := hcarries hpos hcolumns
        have hinside := Runs.behind (p := expect .lparen) hcolumns (runs_expect hopen)
        obtain ⟨_, stop, hinside, hrest⟩ := Runs.exists_of_bind hinside
        obtain ⟨_, _, hexpect, -⟩ := Runs.exists_of_bind hrest
        have hclose := (eq_of_runs_expect hexpect).1
        have hleaves : i.Leaves (pos + 1) (c.length + 1) := h.leaves (h.lt_of_symbol hopen) (Nat.lt_succ_self _)
        have hnests := ((takes_commaSeparated takes_columnDefinition i _ hleaves).ok _ _ hinside).nests trivial
        refine ⟨hopen, Runs.bind (Followed.runs_isColumnList h hopen hclose hnests hquery) ?_, hnext⟩
        exact hcolumns'.bind (runs_pure j _ _)
    · rw [decide_eq_false hopen] at hfound
      cases hfound

/-- What is read in front of the clauses, if it reaches up to them. -/
theorem Followed.runs_tableHead {mode : CreateMode} {external : Bool} {table : CreateTable} (hpos : pos ≤ c.length)
    (hrun : Runs (tableHead mode external) i pos table c.length) : Runs (tableHead mode external) j pos table c.length := by
  obtain ⟨there, q, hthere, hrun⟩ := Runs.exists_of_bind hrun
  obtain ⟨name, q', hname, hrun⟩ := Runs.exists_of_bind hrun
  obtain ⟨columns, q'', hcolumns, hrun⟩ := Runs.exists_of_bind hrun
  obtain ⟨provider, _, hprovider, hend⟩ := Runs.exists_of_bind hrun
  cases hend
  obtain ⟨hthere, hq⟩ := Carries.acceptWords h (by decide +kernel) hpos hthere
  have hcarries : Carries i j c (maybe (acceptWord "USING") identifier) (maybe (acceptWord "USING") identifier) :=
    .maybe (.acceptWord h (by decide +kernel)) (.expectIf h _ _)
  have hq' : q' ≤ c.length := by
    have hmoved := (takes_dottedName i q (h.leaves hq (Nat.lt_succ_self _))).ok _ _ hname
    exact h.alone.last ▸ hmoved.le_last
  have hrest {columns : Option (List ColumnDefinition)} (hdot : i.tokenAt q' ≠ .symbol .dot)
      (hcolumns : Runs (maybe isColumnList columnDefinitions) j q' columns q'' ∧ q'' ≤ c.length) :
      Runs (tableHead mode external) j pos ⟨mode, external, there, name, columns, provider, .empty, none⟩ c.length :=
    hthere.bind ((Followed.runs_dottedName h hq hdot hname).1.bind
      (hcolumns.1.bind ((hcarries hcolumns.2 hprovider).1.bind (runs_pure j _ _))))
  cases columns with
  | some columns =>
    obtain ⟨hopen, hcolumns⟩ := Followed.runs_columns h hq' hcolumns
    exact hrest (by simp [hopen]) hcolumns
  | none =>
    obtain rfl : q'' = q' := by
      obtain ⟨found, hfound⟩ := looks_isColumnList i q'
      have hcolumns := Runs.behind (p := isColumnList) hcolumns hfound
      cases found with
      | true =>
        obtain ⟨_, _, -, hend⟩ := Runs.exists_of_bind hcolumns
        cases hend
      | false =>
        cases hcolumns
        rfl
    -- A symbol would be left over in front of the clauses.
    have hleft {sym : Symbol} : i.tokenAt q'' ≠ .symbol sym := by
      intro hsym
      have hprovider := Runs.behind (p := acceptWord "USING") hprovider
        (runs_acceptWord_false (by rw [hsym]; exact Bool.false_ne_true))
      cases hprovider
      simp [h.alone.tokenAt_length] at hsym
    have hright : Runs isColumnList j q'' false q'' := by
      refine (runs_isSymbol j q'' .lparen).bind ?_
      rw [decide_eq_false fun hopen => hleft (h.symbol_of_tokenAt hq' hopen)]
      exact runs_pure j _ false
    exact hrest hleft ⟨hright.bind (runs_pure j _ none), hq'⟩

end

/-! ### Behind the clauses -/

theorem firm_createTable {f : Fence} {u : List Symbol} (h : f.Alike) (mode : CreateMode) (external : Bool) :
    Firm f u (createTable mode external) := by
  refine (firm_acceptWords _).bind fun _ => firm_dottedName.bind fun _ => ?_
  refine (Echoes.maybe firm_isColumnList firm_columnDefinitions).bind fun _ => ?_
  refine (Echoes.maybe (firm_acceptWord _) firm_identifier).bind fun _ => ?_
  exact (firm_tableClauses h).bind fun _ => (Echoes.maybe firm_acceptAsQuery firm_query).map

section

variable {j j' : Input} {pos mid : Nat}

/-- No bracket is opened or closed behind a statement. -/
theorem nests_of_ends (hj : j.Capped) (hmid : mid ≤ j.last)
    (hends : ∀ k, mid ≤ k → endsStatement (j.tokenAt k) = true) : j.Nests [] mid [] j.last := by
  generalize hd : j.last - mid = d
  induction d generalizing mid with
  | zero =>
    obtain rfl : mid = j.last := by omega
    exact .nil
  | succ d ih =>
    have hne : j.tokenAt mid ≠ .eof := fun heof => by
      have hle := (hj.eof_iff mid).1 heof
      omega
    have hsemicolon := (endsStatement_iff.1 (hends mid (Nat.le_refl _))).resolve_left hne
    refine .token hne (by rw [hsemicolon]; rfl) (ih (by omega) (fun k hk => hends k (by omega)) (by omega))

/-- What is read up to the end of a statement depends on the tokens from there on only. -/
theorem runs_same {α : Type} {p : Parse α} {a : α} (hj : j.Capped) (hj' : j'.Capped)
    (hsize : j'.tokens.size = j.tokens.size) (hsame : ∀ k, pos ≤ k → j'.tokenAt k = j.tokenAt k) (hpos : pos ≤ j.last)
    (hwalk : ∀ n, Passes n [] p) (hp : ∀ f : Fence, f.Alike → Firm f [] p) (hrun : Runs p j pos a mid)
    (hends : ∀ k, mid ≤ k → endsStatement (j.tokenAt k) = true) : Runs p j' pos a mid := by
  have hmoved := (hwalk (j.last + 1) j pos ⟨hj, hpos, by omega⟩).ok a mid hrun
  have hnests := (hmoved.nests trivial).trans (nests_of_ends hj hmoved.le_last hends)
  have heof : j.tokenAt j.last = .eof := (hj.eof_iff _).2 (Nat.le_refl _)
  have heof' : j'.tokenAt j.last = .eof := (hj'.eof_iff _).2 (by unfold Input.last; omega)
  let f : Fence :=
    { left := j, right := j', shift := 0, stop := j.last, left_stop := .inl heof, right_stop := .inl heof',
      size := by omega }
  have hat : f.At [] pos := ⟨fun k hk _ => hsame k hk, hnests⟩
  exact ((hp f (heof'.trans heof.symm) pos hat).runs hrun).1

end

/-! ### All of it -/

/-- Tokens that are a `CREATE TABLE` up to its clauses. -/
def IsTableHead (head : List Token) : Prop :=
  ∃ i : Input, i.Lists head ∧ ∃ table,
    (createWords >>= fun (mode, external) => tableHead mode external) i 0 = (.ok table, head.length)

theorem IsTableHead.exists_word {head : List Token} (h : IsTableHead head) :
    ∃ w rest, head = .word w :: rest ∧ (Text.upper w = "REPLACE" ∨ Text.upper w = "CREATE") := by
  obtain ⟨i, hi, table, hrun⟩ := h
  obtain ⟨_, q, hwords, -⟩ := Runs.exists_of_bind hrun
  have hkeyword : (i.tokenAt 0).isKeyword "REPLACE" ∨ (i.tokenAt 0).isKeyword "CREATE" := by
    by_cases hreplace : (i.tokenAt 0).isKeyword "REPLACE"
    · exact .inl hreplace
    · have hwords := Runs.behind (p := acceptWord _) hwords (runs_acceptWord_false hreplace)
      obtain ⟨_, _, hcreate, -⟩ := Runs.exists_of_bind (p := expectWord "CREATE") hwords
      exact .inr (eq_of_runs_expectWord hcreate).1
  have hword {keyword : String} (hupper : Text.upper keyword = keyword) (hkeyword : (i.tokenAt 0).isKeyword keyword) :
      ∃ w rest, head = .word w :: rest ∧ Text.upper w = keyword := by
    obtain ⟨w, hw, heq⟩ := Token.exists_of_isKeyword hkeyword
    rw [hi.tokenAt] at hw
    cases head with
    | nil => simp at hw
    | cons t rest =>
      obtain rfl : t = .word w := by simpa using hw
      exact ⟨w, rest, rfl, heq.trans hupper⟩
  rcases hkeyword with hkeyword | hkeyword
  · obtain ⟨w, rest, hhead, heq⟩ := hword (by decide +kernel) hkeyword
    exact ⟨w, rest, hhead, .inl heq⟩
  · obtain ⟨w, rest, hhead, heq⟩ := hword (by decide +kernel) hkeyword
    exact ⟨w, rest, hhead, .inr heq⟩

theorem clauseTokens_length_of_perm (hperm : gs.Perm gs') : (clauseTokens gs').length = (clauseTokens gs).length :=
  (hperm.flatMap_right WrittenClause.tokens).length_eq.symm

theorem followed_of_cons {i : Input} {head : List Token} {g : WrittenClause} (hi : i.Lists head)
    (hj : j.Lists (head ++ clauseTokens (g :: gs) ++ back)) : i.Followed j head clauseWords := by
  obtain ⟨word, rest, htokens, hword⟩ := g.exists_keyword
  have hj : j.Lists ([] ++ head ++ (clauseTokens (g :: gs) ++ back)) := by simpa using hj
  refine ⟨hi, fun k hk => hi.tokenAt_eq hj hk, ?_, word, ?_, hword⟩
  · simp [hi.size, hj.size]
  · simp [hj.tokenAt, clauseTokens, htokens]

section

variable {j' : Input} {head : List Token} (hkinds : (gs.map fun g => g.clause.kind).Nodup) (hperm : gs.Perm gs')
  (hj : j.Lists (head ++ clauseTokens gs ++ back)) (hj' : j'.Lists (head ++ clauseTokens gs' ++ back))
  (hhead : IsTableHead head) (hend : StartsNoClause back)

include hkinds hperm hj hj' hhead hend

theorem runs_create_of_perm {s : Statement} {mid : Nat} (hrun : Runs create j 0 s mid)
    (hends : ∀ k, mid ≤ k → endsStatement (j.tokenAt k) = true) :
    Runs create j' 0 s mid ∧ ∀ k, mid ≤ k → endsStatement (j'.tokenAt k) = true := by
  obtain ⟨i, hi, table, hhead⟩ := hhead
  obtain ⟨⟨mode, external⟩, q, hwords, hhead⟩ := Runs.exists_of_bind hhead
  have hwords' {j : Input} {gs : List WrittenClause} (hj : j.Lists (head ++ clauseTokens gs ++ back)) :
      Runs createWords j 0 (mode, external) q :=
    portable_createWords hi (show j.Lists ([] ++ head ++ (clauseTokens gs ++ back)) by simpa using hj) hwords
  have hsize : j'.tokens.size = j.tokens.size := by
    simp [hj.size, hj'.size, clauseTokens_length_of_perm hperm]
  have hq : q ≤ head.length := by
    have hmoved := (takes_createWords i 0 hi.leaves).ok _ _ hwords
    exact hi.last ▸ hmoved.le_last
  have hlast : head.length ≤ j.last := by
    rw [hj.last, List.append_assoc, List.length_append]
    exact Nat.le_add_right _ _
  rw [Runs, create_apply (hwords' hj)] at hrun
  rw [Runs, create_apply (hwords' hj')]
  -- Where the tail starts, the tokens are the same from there on.
  suffices htail : ∃ (p : Parse Statement) (pos : Nat), Runs p j pos s mid ∧ pos ≤ j.last ∧
      (∀ k, pos ≤ k → j'.tokenAt k = j.tokenAt k) ∧ (∀ n, Passes n [] p) ∧ (∀ f : Fence, f.Alike → Firm f [] p) ∧
      (Runs p j' pos s mid → Runs (createTable mode external) j' q s mid) by
    obtain ⟨p, pos, hp, hpos, hsame, hwalk, hfirm, hdone⟩ := htail
    have hmoved := (hwalk (j.last + 1) j pos ⟨hj.capped, hpos, by omega⟩).ok s mid hp
    refine ⟨hdone (runs_same hj.capped hj'.capped hsize hsame hpos hwalk hfirm hp hends), fun k hk => ?_⟩
    rw [hsame k (Nat.le_trans hmoved.le hk)]
    exact hends k hk
  cases gs with
  | nil =>
    obtain rfl := hperm.nil_eq
    refine ⟨createTable mode external, q, hrun, Nat.le_trans hq hlast, fun k _ => by rw [hj.tokenAt, hj'.tokenAt],
      fun _ => (takes_createTable _ _).passes, fun f h => firm_createTable h mode external, id⟩
  | cons g gs =>
    obtain ⟨g', gs', rfl⟩ : ∃ g' rest, gs' = g' :: rest := List.exists_cons_of_ne_nil fun hnil => by simp [hnil] at hperm
    have htable := Followed.runs_tableHead (followed_of_cons hi hj) hq hhead
    have htable' := Followed.runs_tableHead (followed_of_cons hi hj') hq hhead
    have hclauses := runs_tableClauses hj hend
    have hclauses' := runs_tableClauses hj' hend
    rw [← TableClauses.foldl_eq_of_perm (hperm.map _) (by rwa [List.map_map])] at hclauses'
    have hlength : (head ++ clauseTokens (g' :: gs')).length = (head ++ clauseTokens (g :: gs)).length := by
      rw [List.length_append, List.length_append, clauseTokens_length_of_perm hperm]
    rw [hlength] at hclauses'
    rw [createTable_eq] at hrun ⊢
    have hrun := Runs.behind (p := tableClauses) (Runs.behind (p := tableHead mode external) hrun htable) hclauses
    refine ⟨_, _, hrun, ?_, fun k hk => ?_,
      fun _ => .mapPasses (steps_maybeIf passes_acceptAsQuery takes_query).passes,
      fun _ _ => (Echoes.maybe firm_acceptAsQuery firm_query).map,
      fun htail => htable'.bind (Runs.bind (p := tableClauses) hclauses' htail)⟩
    · rw [hj.last]
      exact (List.prefix_append _ back).length_le
    · obtain ⟨d, rfl⟩ := Nat.exists_eq_add_of_le hk
      rw [tokenAt_past hj d, ← tokenAt_past hj' d, hlength]

/-- A whole text, up to the semicolons behind the statement. -/
theorem whole_of_perm {s : Statement} {first mid : Nat} (h : Whole j s first mid) : ∃ mid', Whole j' s 0 mid' := by
  obtain ⟨w, rest, rfl, hupper⟩ := hhead.exists_word
  have hw : j.tokenAt 0 = .word w := by simp [hj.tokenAt]
  have hw' : j'.tokenAt 0 = .word w := by simp [hj'.tokenAt]
  have hfirst : first = 0 := by
    by_contra hne
    have hsemicolon := h.before 0 (Nat.pos_of_ne_zero hne)
    simp [hw] at hsemicolon
  subst hfirst
  have hof (inner : Parse Statement) : statementOf inner (Text.upper w) = create := by
    rcases hupper with heq | heq <;> (rw [heq]; rfl)
  obtain ⟨inner, hrun⟩ := exists_runs_statementOf h.runs hw
  rw [hof] at hrun
  obtain ⟨hrun', hends⟩ := runs_create_of_perm hkinds hperm hj hj' hhead hend hrun h.behind
  refine ⟨mid, nofun, by rw [hw']; rfl, runs_statement hw' fun inner => ?_, hends⟩
  rw [hof]
  exact hrun'

end

end Grammar

/-- The tokens of a text, apart from the end mark and from white space around the text. -/
def Scans (text : String) (w : List Token) : Prop :=
  ∃ tokens, Token.scan (Text.trim text) = .ok tokens ∧ Input.Lists ⟨Text.trim text, tokens.toArray⟩ w

open Grammar

variable {gs gs' : List WrittenClause}

theorem format_of_clauses {head back : List Token} {text text' : String}
    (hkinds : (gs.map fun g => g.clause.kind).Nodup) (hperm : gs.Perm gs') (hhead : IsTableHead head)
    (hend : StartsNoClause back) (htext : Scans text (head ++ clauseTokens gs ++ back))
    (htext' : Scans text' (head ++ clauseTokens gs' ++ back)) {style : Style} {out : String}
    (h : format style text = .ok out) : format style text' = .ok out := by
  obtain ⟨tokens, hscan, hj⟩ := htext
  obtain ⟨tokens', hscan', hj'⟩ := htext'
  cases hparse : Statement.parse (Text.trim text) with
  | error fault =>
    rw [format, hparse] at h
    cases h
  | ok tree =>
    obtain ⟨_, _, hscanned, hrun⟩ := Statement.exists_run_of_parse hparse
    obtain rfl := Except.ok.inj (hscan.symm.trans hscanned)
    obtain ⟨first, mid, hwhole⟩ := exists_whole_of_runs hj.capped hrun
    obtain ⟨mid', hwhole'⟩ := whole_of_perm hkinds hperm hj hj' hhead hend hwhole
    obtain ⟨_, hrun'⟩ := hwhole'.exists_runs hj'.capped
    have hparse' : Statement.parse (Text.trim text') = .ok tree := by
      rw [Statement.parse_of_scan hscan', hrun']
    rw [format, hparse] at h
    rw [format, hparse']
    exact h

/-- The clauses of a table may stand in any order: the same clauses are read, up to the token that starts no clause, and the
statement around them has the same page. -/
theorem format_of_perm (hkinds : (gs.map fun g => g.clause.kind).Nodup) (hperm : gs.Perm gs') :
    (∀ (j j' : Input) (front back front' back' : List Token), j.Lists (front ++ clauseTokens gs ++ back) →
      j'.Lists (front' ++ clauseTokens gs' ++ back') → StartsNoClause back → StartsNoClause back' →
      ∃ clauses, tableClauses j front.length = (.ok clauses, (front ++ clauseTokens gs).length) ∧
        tableClauses j' front'.length = (.ok clauses, (front' ++ clauseTokens gs').length)) ∧
    ∀ (head back : List Token) (text text' : String), IsTableHead head → StartsNoClause back →
      Scans text (head ++ clauseTokens gs ++ back) → Scans text' (head ++ clauseTokens gs' ++ back) →
      ∀ style out, format style text = .ok out ↔ format style text' = .ok out := by
  constructor
  · intro j j' front back front' back' hj hj' hend hend'
    have hclauses' := runs_tableClauses hj' hend'
    rw [← TableClauses.foldl_eq_of_perm (hperm.map _) (by rwa [List.map_map])] at hclauses'
    exact ⟨_, runs_tableClauses hj hend, hclauses'⟩
  · intro head back text text' hhead hend htext htext' style out
    have hkinds' : (gs'.map fun g => g.clause.kind).Nodup := (hperm.map _).nodup_iff.1 hkinds
    exact ⟨format_of_clauses hkinds hperm hhead hend htext htext',
      format_of_clauses hkinds' hperm.symm hhead hend htext' htext⟩

theorem scans_of_toOption (text : String) {w : List Token} (hw : .eof ∉ w)
    (h : (Token.scan (Text.trim text)).toOption.map (List.map Spanned.token) = some (w ++ [.eof])) : Scans text w := by
  cases hscan : Token.scan (Text.trim text) with
  | error fault => simp [hscan, Except.toOption] at h
  | ok tokens =>
    rw [hscan] at h
    exact ⟨tokens, hscan, by simpa [Input.ahead, Except.toOption] using h, hw⟩

/-- A table with a comment and a place. -/
theorem format_of_perm_comment :
    format .default "CREATE TABLE t COMMENT 'x' LOCATION 'p' AS SELECT 1" =
      .ok "CREATE TABLE t\nLOCATION 'p'\nCOMMENT 'x' AS\nSELECT 1" ∧
    format .default "CREATE TABLE t LOCATION 'p' COMMENT 'x' AS SELECT 1" =
      .ok "CREATE TABLE t\nLOCATION 'p'\nCOMMENT 'x' AS\nSELECT 1" := by
  let comment : WrittenClause :=
    ⟨[.word "COMMENT", .string "'x'"], .comment "'x'", .ofTokens _, Input.lists_ofTokens (by decide), rfl⟩
  let location : WrittenClause :=
    ⟨[.word "LOCATION", .string "'p'"], .location "'p'", .ofTokens _, Input.lists_ofTokens (by decide), rfl⟩
  have hhead : IsTableHead [.word "CREATE", .word "TABLE", .word "t"] :=
    ⟨.ofTokens _, Input.lists_ofTokens (by decide), _, rfl⟩
  have hend : StartsNoClause [.word "AS", .word "SELECT", .number "1"] := by
    simp only [StartsNoClause, tableClauseRules, List.forall_mem_cons]
    refine ⟨?_, ?_, ?_, ?_, ?_, ?_, ?_, ?_, ?_, List.forall_mem_nil _⟩ <;> exact fun hwords => absurd hwords.1 (by decide +kernel)
  have hperm : [comment, location].Perm [location, comment] := .swap location comment []
  have hboth := (format_of_perm (by decide) hperm).2 _ _ _ _ hhead hend
    (scans_of_toOption "CREATE TABLE t COMMENT 'x' LOCATION 'p' AS SELECT 1" (by decide) (by decide +kernel))
    (scans_of_toOption "CREATE TABLE t LOCATION 'p' COMMENT 'x' AS SELECT 1" (by decide) (by decide +kernel)) .default
  have hpage : format .default "CREATE TABLE t COMMENT 'x' LOCATION 'p' AS SELECT 1" =
      .ok "CREATE TABLE t\nLOCATION 'p'\nCOMMENT 'x' AS\nSELECT 1" := by decide +kernel
  exact ⟨hpage, (hboth _).1 hpage⟩

end SqlTidy
