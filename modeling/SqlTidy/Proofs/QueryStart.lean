import SqlTidy.Proofs.Fence.Sequence
import SqlTidy.Proofs.Ladder
import SqlTidy.Proofs.Reread

/-!
# Where a query starts

Many rules have to decide, before they read anything, whether a query comes next. They look behind all opening
parentheses for the first word (`isQueryStart`). This module compares the look with the grammar.

**Theorem (`isQueryStart_of_query`).** Wherever a query can be read the look finds it, except for a query that starts with
opening parentheses and the word `TABLE` behind them, which is taken for something else. The proof goes down the
levels of nesting: what stands behind an opening parenthesis is a query one level further in.

**Theorem (`reads_inParens_iff`).** A relation in parentheses is a table factor, and a list of expressions in
parentheses is the right side of `IN`, unless the look finds the start of a query there although the parentheses hold
no query. A nested join that starts with a subquery is such a case. Both rules are decided by the look alone and do not
go back. What stands between the parentheses is read as it would be read on its own, because the closing parenthesis
is a fence.
-/

namespace SqlTidy

open Parse

namespace Input

variable {i : Input} {pos : Nat}

/-- The number of opening parentheses in a row. -/
def parens (i : Input) (pos : Nat) : Nat := Grammar.parenRun i (i.remaining pos) pos

/-- The first token that is no opening parenthesis. -/
def behindParens (i : Input) (pos : Nat) : Token := i.tokenAt (pos + i.parens pos)

theorem parens_of_open (h : i.tokenAt pos = .symbol .lparen) : i.parens pos = i.parens (pos + 1) + 1 := by
  have hlt : pos < i.tokens.size := by
    refine Nat.lt_of_not_le fun hle => ?_
    simp [tokenAt, Array.getElem?_eq_none hle] at h
  have hremaining : i.remaining pos = i.remaining (pos + 1) + 1 := by
    unfold remaining
    omega
  rw [parens, hremaining, Grammar.parenRun, if_pos h, parens]

theorem parens_of_ne (h : i.tokenAt pos ≠ .symbol .lparen) : i.parens pos = 0 := Grammar.parenRun_of_ne h _

theorem behindParens_of_open (h : i.tokenAt pos = .symbol .lparen) : i.behindParens pos = i.behindParens (pos + 1) := by
  rw [behindParens, behindParens, parens_of_open h, Nat.add_right_comm, Nat.add_assoc]

theorem behindParens_of_ne (h : i.tokenAt pos ≠ .symbol .lparen) : i.behindParens pos = i.tokenAt pos := by
  rw [behindParens, parens_of_ne h, Nat.add_zero]

theorem behindParens_of_isKeyword {keyword : String} (h : (i.tokenAt pos).isKeyword keyword) :
    i.behindParens pos = i.tokenAt pos := by
  refine behindParens_of_ne fun hopen => ?_
  rw [hopen] at h
  contradiction

end Input

namespace Grammar

/-! ## The first word of a query -/

/-- The words that a query can start with, also in parentheses. -/
def queryWords : List String := ["SELECT", "WITH", "FROM", "VALUES", "TABLE"]

/-- Whether a query can start with a token. -/
def startsQuery (t : Token) : Bool := queryWords.any t.isKeyword

theorem startsQuery_of_isKeyword {t : Token} {keyword : String} (h : t.isKeyword keyword)
    (hmem : keyword ∈ queryWords) : startsQuery t = true :=
  List.any_eq_true.2 ⟨keyword, hmem, h⟩

section

variable {i : Input} {inner : Inner}

/-- An operand of the set operators, given that queries one level further in start with such a word. -/
theorem ends_bodyPrimary_start
    (h : ∀ pos, Ends inner.query i pos fun _ _ => startsQuery (i.behindParens pos) = true) (pos : Nat) :
    Ends (bodyPrimary inner) i pos fun _ _ => startsQuery (i.behindParens pos) = true := by
  have hword {keyword : String} (hmem : keyword ∈ queryWords) (hkeyword : (i.tokenAt pos).isKeyword keyword) :
      startsQuery (i.behindParens pos) = true := by
    rw [Input.behindParens_of_isKeyword hkeyword]
    exact startsQuery_of_isKeyword hkeyword hmem
  intro body next hrun
  by_cases hselect : (i.tokenAt pos).isKeyword "SELECT"
  · exact hword (by simp [queryWords]) hselect
  by_cases hvalues : (i.tokenAt pos).isKeyword "VALUES"
  · exact hword (by simp [queryWords]) hvalues
  by_cases htable : (i.tokenAt pos).isKeyword "TABLE"
  · exact hword (by simp [queryWords]) htable
  by_cases hfrom : (i.tokenAt pos).isKeyword "FROM"
  · exact hword (by simp [queryWords]) hfrom
  -- What is left is a query in parentheses.
  have hparen : Runs (accept .lparen >>= fun found => if found = true then (do
      let query ← inner.query
      expect .rparen
      return .nestedQuery query) else expected "SELECT, VALUES, TABLE, FROM or '('") i pos body next := by
    unfold bodyPrimary at hrun
    have hrun := Runs.behind hrun (runs_isWord i pos "SELECT")
    rw [if_neg hselect] at hrun
    have hrun := Runs.behind hrun (runs_isWord i pos "VALUES")
    rw [if_neg hvalues] at hrun
    have hrun := Runs.behind hrun (runs_acceptWord_false htable)
    rw [if_neg Bool.false_ne_true] at hrun
    have hrun := Runs.behind hrun (runs_isWord i pos "FROM")
    rwa [if_neg hfrom] at hrun
  by_cases hopen : i.tokenAt pos = .symbol .lparen
  · have hbody := hparen.behind (runs_accept hopen)
    obtain ⟨query, mid, hquery, -⟩ := Runs.exists_of_bind hbody
    rw [Input.behindParens_of_open hopen]
    exact h (pos + 1) query mid hquery
  · have hfail := hparen.behind (runs_accept_false hopen)
    cases hfail

theorem ends_setChain_start {C : Prop} {operators : List (List String × SetOp)} {operand : Parse QueryBody} {pos : Nat}
    (h : Ends operand i pos fun _ _ => C) : Ends (setChain operators operand) i pos fun _ _ => C :=
  h.bind fun _ _ hstart _ _ _ => hstart

theorem ends_queryOf_start
    (h : ∀ pos, Ends inner.query i pos fun _ _ => startsQuery (i.behindParens pos) = true) (pos : Nat) :
    Ends (queryOf inner) i pos fun _ _ => startsQuery (i.behindParens pos) = true := by
  by_cases hwith : (i.tokenAt pos).isKeyword "WITH"
  · intro _ _ _
    rw [Input.behindParens_of_isKeyword hwith]
    exact startsQuery_of_isKeyword hwith (by simp [queryWords])
  · intro query next hrun
    have hnone : Runs (maybe (isWord "WITH") (withClause inner)) i pos none pos := by
      refine (runs_isWord i pos "WITH").bind ?_
      rw [if_neg hwith]
      exact runs_pure i pos none
    have hrest : Runs (queryAfterWith inner none) i pos query next := Runs.behind (k := queryAfterWith inner) hrun hnone
    obtain ⟨body, mid, hbody, -⟩ := hrest.exists_of_bind
    exact ends_setChain_start (ends_setChain_start (ends_bodyPrimary_start h pos)) body mid hbody

/-- By induction over the levels of nesting. -/
theorem ends_level_query_start (n pos : Nat) :
    Ends (Inner.level n).query i pos fun _ _ => startsQuery (i.behindParens pos) = true := by
  induction n generalizing pos with
  | zero => exact ends_fail _ _
  | succ n ih => exact ends_queryOf_start ih pos

end

variable {i : Input} {pos : Nat}

theorem runs_queryAhead (i : Input) (pos d : Nat) :
    Runs (queryAhead d) i pos (["SELECT", "WITH", "FROM", "VALUES"].any (i.behindParens (pos + d)).isKeyword) pos := by
  show Runs (pure (["SELECT", "WITH", "FROM", "VALUES"].any
    (i.tokenAt (pos + (d + i.parens (pos + d)))).isKeyword)) i pos _ pos
  rw [← Nat.add_assoc]
  exact runs_pure i pos _

theorem runs_isQueryStart (i : Input) (pos : Nat) : Runs isQueryStart i pos
    (["SELECT", "WITH", "FROM", "VALUES"].any (i.behindParens pos).isKeyword || (i.tokenAt pos).isKeyword "TABLE") pos := by
  refine (runs_queryAhead i pos 0).bind ?_
  rw [Nat.add_zero]
  cases ["SELECT", "WITH", "FROM", "VALUES"].any (i.behindParens pos).isKeyword with
  | true => exact runs_pure i pos true
  | false => exact runs_isWord i pos "TABLE"

/-- The word `TABLE` is none of the words that the look ahead knows behind parentheses. -/
theorem any_isKeyword_of_table {t : Token} (h : t.isKeyword "TABLE") :
    ["SELECT", "WITH", "FROM", "VALUES"].any t.isKeyword = false := by
  obtain ⟨w, rfl, hw⟩ := Token.exists_of_isKeyword h
  simp only [List.any_cons, List.any_nil, Token.isKeyword, hw]
  decide +kernel

theorem startsQuery_iff (t : Token) : startsQuery t = true ↔
    ["SELECT", "WITH", "FROM", "VALUES"].any t.isKeyword = true ∨ t.isKeyword "TABLE" = true := by
  simp [startsQuery, queryWords, or_assoc]

/-- Wherever a query is read the look ahead answers, and it says that no query starts there just if the query starts
with opening parentheses and the word `TABLE` behind them. -/
theorem isQueryStart_of_query {query : Query} {next : Nat} (h : Grammar.query i pos = (.ok query, next)) :
    ∃ found, isQueryStart i pos = (.ok found, pos) ∧
      (found = false ↔ 0 < i.parens pos ∧ (i.behindParens pos).isKeyword "TABLE") := by
  refine ⟨_, runs_isQueryStart i pos, ?_⟩
  have hstart := (startsQuery_iff _).1 (ends_level_query_start _ pos query next h)
  rw [Bool.or_eq_false_iff]
  by_cases hopen : i.tokenAt pos = .symbol .lparen
  · have hparens : 0 < i.parens pos := by
      rw [Input.parens_of_open hopen]
      exact Nat.succ_pos _
    refine ⟨fun hfalse => ⟨hparens, hstart.resolve_left ?_⟩, fun htable => ⟨any_isKeyword_of_table htable.2, ?_⟩⟩
    · rw [hfalse.1]
      exact Bool.false_ne_true
    · rw [hopen]
      rfl
  · rw [Input.behindParens_of_ne hopen] at hstart ⊢
    rw [Input.parens_of_ne hopen]
    refine ⟨fun hfalse => absurd hstart ?_, fun htable => absurd htable.1 (Nat.lt_irrefl 0)⟩
    rw [hfalse.1, hfalse.2]
    simp

/-- Parentheses around an operand, and a `TABLE` that is not the first word. -/
theorem isQueryStart_of_query_union : ∃ tokens query next,
    Token.scan "((SELECT 1) UNION TABLE t)" = .ok tokens ∧
    Grammar.query ⟨"((SELECT 1) UNION TABLE t)", tokens.toArray⟩ 0 = (.ok query, next) ∧
    ∃ found, isQueryStart ⟨"((SELECT 1) UNION TABLE t)", tokens.toArray⟩ 0 = (.ok found, 0) ∧
      (found = false ↔ 0 < Input.parens ⟨"((SELECT 1) UNION TABLE t)", tokens.toArray⟩ 0 ∧
        (Input.behindParens ⟨"((SELECT 1) UNION TABLE t)", tokens.toArray⟩ 0).isKeyword "TABLE") := by
  obtain ⟨tokens, query, next, hscan, hrun⟩ := exists_runs_of_scan Grammar.query "((SELECT 1) UNION TABLE t)"
    (by decide +kernel)
  exact ⟨tokens, query, next, hscan, hrun, isQueryStart_of_query hrun⟩

/-- The whole text is a query, and the look ahead does not find it. -/
theorem not_isQueryStart_of_query : ∃ (i : Input) (pos : Nat) (query : Query) (next : Nat),
    Grammar.query i pos = (.ok query, next) ∧ isQueryStart i pos = (.ok false, pos) := by
  have hfalse : ((Token.scan "(TABLE t)").toOption.all fun tokens =>
      decide (isQueryStart ⟨"(TABLE t)", tokens.toArray⟩ 0 = (.ok false, 0))) = true := by decide +kernel
  obtain ⟨tokens, query, next, hscan, hrun⟩ := exists_runs_of_scan Grammar.query "(TABLE t)" (by decide +kernel)
  rw [hscan] at hfalse
  exact ⟨⟨"(TABLE t)", tokens.toArray⟩, 0, query, next, hrun, by simpa [Except.toOption] using hfalse⟩

/-! ## Between parentheses

Both rules look for a query behind the opening parenthesis. If they see the start of one they read a query, and
otherwise what they are there for. -/

section

variable {α β : Type} {i j : Input} {w front back : List Token} {inner : Inner} {p : Inner → Parse β}
  {onQuery : Query → Parse α} {onItem : β → Parse α}

/-- A query in parentheses or something else, behind the opening parenthesis. -/
def queryOr (inner : Inner) (p : Inner → Parse β) (onQuery : Query → Parse α) (onItem : β → Parse α) : Parse α := do
  if ← isQueryStart then
    let query ← inner.query
    expect .rparen
    onQuery query
  else
    let item ← p inner
    expect .rparen
    onItem item

variable (hi : i.Lists w) (hj : j.Lists (front ++ w ++ .symbol .rparen :: back))

/-- The closing parenthesis stands where the tokens end that stand alone. -/
def closingFence : Fence := .inside hi hj w.length (.inl hi.tokenAt_length) (.inr hj.tokenAt_back)

/-- Brackets are balanced, so the first closing parenthesis that is left over is the last one. -/
theorem eq_length_of_closing {k : Nat} (hat : (closingFence hi hj).At [] k)
    (hclose : j.tokenAt (k + front.length) = .symbol .rparen) : k = w.length := by
  obtain ⟨hsame, hrest⟩ := hat
  cases hrest with
  | nil => rfl
  | token _ hnest hrest =>
    have htoken : i.tokenAt k = .symbol .rparen := (hsame k (Nat.le_refl _) hrest.le).symm.trans hclose
    have hnone : (i.tokenAt k).nest [] = none := by rw [htoken]; rfl
    exact nomatch hnone.symm.trans hnest

variable (hnests : i.Nests [] 0 [] w.length)

include hnests

theorem at_closingFence : (closingFence hi hj).At [] 0 := Fence.inside_at (Nat.le_refl _) hnests

include hi hj

/-- The look ahead says the same about the tokens alone and in parentheses. -/
theorem exists_isQueryStart :
    ∃ found, Runs isQueryStart i 0 found 0 ∧ Runs isQueryStart j front.length found front.length := by
  obtain ⟨found, hleft, hright⟩ := firm_isQueryStart.look_eq looks_isQueryStart (at_closingFence hi hj hnests)
  refine ⟨found, hleft, ?_⟩
  rwa [Nat.zero_add] at hright

variable {m : Nat} (hm : i.remaining 0 + 1 ≤ m)

include hm

/-- A query in parentheses is a query on its own. -/
theorem exists_runs_query {query : Query} {mid : Nat} (h : Runs (Inner.level m).query j front.length query mid) :
    ∃ k, Runs Grammar.query i 0 query k ∧ mid = k + front.length ∧ (closingFence hi hj).At [] k := by
  have hecho := (tracks_level (e := closingFence hi hj) hm).query 0 (at_closingFence hi hj hnests)
  rw [← Nat.zero_add front.length] at h
  refine hecho.exists_runs (fun fault next hfault => ?_) h
  exact ((takes_query i 0 hi.leaves).error fault next hfault).2.not_isEndless

/-- Where the look ahead finds the start of a query, only a query is read. -/
theorem reads_of_queryOr {x : α} {next : Nat} (h : Runs (queryOr (.level m) p onQuery onItem) j front.length x next) :
    Runs isQueryStart i 0 false 0 ∨ ∃ query, Runs Grammar.query i 0 query w.length := by
  obtain ⟨found, hleft, hright⟩ := exists_isQueryStart hi hj hnests
  cases found with
  | false => exact .inl hleft
  | true =>
    have hquery := Runs.behind h hright
    rw [if_pos rfl] at hquery
    obtain ⟨query, mid, hquery, hrest⟩ := Runs.exists_of_bind hquery
    obtain ⟨_, mid', hclose, -⟩ := Runs.exists_of_bind hrest
    obtain ⟨k, hrun, rfl, hat⟩ := exists_runs_query hi hj hnests hm hquery
    have hparen : Ends (expect .rparen) j (k + front.length) fun _ _ => j.tokenAt (k + front.length) = .symbol .rparen :=
      .expect id
    rw [eq_length_of_closing hi hj hat (hparen _ _ hclose)] at hrun
    exact .inr ⟨query, hrun⟩

/-- What is in the parentheses is read, if it is a query or the look ahead finds none. -/
theorem exists_runs_queryOr (onQuery : Query → Parse α) (onItem : β → Parse α) {b : β} (hp : Runs (within p) i 0 b w.length)
    (htracks : ∀ {inner inner'}, inner.Tracks (closingFence hi hj) inner' →
      Tracks (closingFence hi hj) [] (p inner) (p inner'))
    (hend : ∀ q, ∃ a, Runs (onQuery q) j (w.length + front.length + 1) a (w.length + front.length + 1))
    (hend' : ∀ b, ∃ a, Runs (onItem b) j (w.length + front.length + 1) a (w.length + front.length + 1))
    (h : Runs isQueryStart i 0 false 0 ∨ ∃ query, Runs Grammar.query i 0 query w.length) :
    ∃ x, Runs (queryOr (.level m) p onQuery onItem) j front.length x (w.length + front.length + 1) := by
  have hlevel := tracks_level (e := closingFence hi hj) hm
  have hat := at_closingFence hi hj hnests
  have hclose : Runs (expect .rparen) j (w.length + front.length) () (w.length + front.length + 1) :=
    (runs_accept hj.tokenAt_back).bind (runs_pure j _ ())
  obtain ⟨found, hleft, hright⟩ := exists_isQueryStart hi hj hnests
  cases found with
  | false =>
    obtain ⟨hitem, -⟩ := EchoesAt.runs (htracks hlevel 0 hat) hp
    rw [Nat.zero_add] at hitem
    obtain ⟨a, ha⟩ := hend' b
    exact ⟨a, hright.bind (hitem.bind (hclose.bind ha))⟩
  | true =>
    obtain ⟨query, hquery⟩ := h.resolve_left fun hfalse => nomatch (hleft.unique hfalse).1
    obtain ⟨hquery, -⟩ := EchoesAt.runs (hlevel.query 0 hat) hquery
    rw [Nat.zero_add] at hquery
    obtain ⟨a, ha⟩ := hend query
    exact ⟨a, hright.bind (hquery.bind (hclose.bind ha))⟩

end

/-! ### Table factors -/

section

variable {i j : Input} {w : List Token} {pos : Nat}

theorem runs_tableAlias_none (h : i.tokenAt pos = .eof) : Runs tableAlias i pos none pos := by
  refine (runs_acceptWord_false (by rw [h]; exact Bool.false_ne_true)).bind ?_
  have hname : Runs mayBeAlias i pos false pos := (runs_peek i pos 0).bind (by rw [Nat.add_zero, h]; exact runs_pure i pos false)
  exact hname.bind (runs_pure i pos none)

theorem runs_tableSample_none {inner : Inner} (h : i.tokenAt pos = .eof) : Runs (tableSample inner) i pos none pos :=
  (runs_acceptWord_false (by rw [h]; exact Bool.false_ne_true)).bind (runs_pure i pos none)

variable (hi : i.Lists w)

include hi

theorem reads_tableFactor_iff (hj : j.Lists (.symbol .lparen :: w ++ [.symbol .rparen])) {r : Relation}
    (hr : Runs relation i 0 r w.length) :
    (∃ factor, Runs (within tableFactor) j 0 factor (w.length + 2)) ↔
      Runs isQueryStart i 0 false 0 ∨ ∃ query, Runs Grammar.query i 0 query w.length := by
  have hj : j.Lists ([.symbol .lparen] ++ w ++ .symbol .rparen :: []) := hj
  have hnests : i.Nests [] 0 [] w.length := ((takes_relation i 0 hi.leaves).ok r _ hr).nests trivial
  have hm : i.remaining 0 + 1 ≤ j.remaining 0 + 1 := by
    simp [Input.remaining, hi.size, hj.size]
  have hopen : Runs (accept .lparen) j 0 true 1 := runs_accept (by rw [hj.tokenAt]; rfl)
  have heof : j.tokenAt (w.length + 1 + 1) = .eof := by
    rw [hj.tokenAt]
    simp
  constructor
  · rintro ⟨factor, hfactor⟩
    have hfactor : Runs (parenFactor (.level (j.remaining 0 + 1))) j 1 factor (w.length + 2) :=
      Runs.behind (p := accept .lparen) hfactor hopen
    exact reads_of_queryOr hi hj hnests hm hfactor
  · intro h
    obtain ⟨factor, hfactor⟩ := exists_runs_queryOr (p := Inner.relation) hi hj hnests hm
      (fun query => (do
        let sample ← tableSample (.level (j.remaining 0 + 1))
        let asName ← tableAlias
        return .derived query (.ofOption sample) asName : Parse TableFactor))
      (fun relation => (do
        let asName ← tableAlias
        return .nestedRelation relation asName : Parse TableFactor)) hr (fun h => h.relation)
      (fun _ => ⟨_, (runs_tableSample_none heof).bind ((runs_tableAlias_none heof).bind (runs_pure j _ _))⟩)
      (fun _ => ⟨_, (runs_tableAlias_none heof).bind (runs_pure j _ _)⟩) h
    exact ⟨factor, Runs.bind (p := accept .lparen) hopen hfactor⟩

/-! ### The right side of `IN` -/

omit hi in
theorem runs_predicateHead_in (h : i.tokenAt pos = .word "IN") : Runs predicateHead i pos (some (false, .inside)) (pos + 1) := by
  have hno {keyword : String} (hne : Text.upper "IN" ≠ Text.upper keyword) : ¬ (i.tokenAt pos).isKeyword keyword := by
    rw [h]
    simpa [Token.isKeyword] using hne
  have hchoose : Runs (choose predicateWords) i pos (some .inside) (pos + 1) := by
    have hbetween : ¬ i.HasWords pos ["BETWEEN"] := fun hwords => hno (by decide +kernel) hwords.1
    refine (runs_acceptWords_false hbetween).bind ?_
    exact Runs.bind (runs_acceptWords (show i.HasWords pos ["IN"] from ⟨by rw [h]; decide +kernel, trivial⟩)) (runs_pure i _ _)
  exact runs_rewinding_some ((runs_acceptWord_false (hno (by decide +kernel))).bind (hchoose.bind (runs_pure i _ _)))

theorem reads_in_iff (hj : j.Lists (.word "x" :: .word "IN" :: .symbol .lparen :: w ++ [.symbol .rparen]))
    {items : List Expr} (hitems : Runs (within expressions) i 0 items w.length) :
    (∃ e, Runs expression j 0 e (w.length + 4)) ↔
      Runs isQueryStart i 0 false 0 ∨ ∃ query, Runs Grammar.query i 0 query w.length := by
  have hj : j.Lists ([.word "x", .word "IN", .symbol .lparen] ++ w ++ .symbol .rparen :: []) := hj
  have hnests : i.Nests [] 0 [] w.length :=
    (((walks_within fun _ _ h => takes_expressions h : Parse.Takes _ [] (within expressions)) i 0 hi.leaves).ok items _
      hitems).nests trivial
  have hm : i.remaining 0 + 1 ≤ j.remaining 0 := by
    simp [Input.remaining, hi.size, hj.size]
  have hx : j.tokenAt 0 = .word "x" := by rw [hj.tokenAt]; rfl
  have hin : j.tokenAt 1 = .word "IN" := by rw [hj.tokenAt]; rfl
  have hopen : Runs (expect .lparen) j 2 () 3 := (runs_accept (by rw [hj.tokenAt]; rfl)).bind (runs_pure j _ ())
  have heof : j.tokenAt (w.length + 3 + 1) = .eof := by
    rw [hj.tokenAt]
    simp
  have hstart : StartsOperand (j.tokenAt 0) := by
    rw [hx]
    exact ⟨rfl, by decide +kernel, by simp⟩
  have hoperand : EndsOperand (j.tokenAt 1) := .inr ⟨"IN", hin, by rw [hin]; decide +kernel⟩
  have hcolumn : Runs (comparisonExpr (.level (j.remaining 0))) j 0 (.ident ⟨"x", false⟩) 1 :=
    runs_comparisonExpr (runs_primary_ident hx (by decide +kernel) (by decide +kernel) hoperand) hstart.unaryOp hoperand
  constructor
  · rintro ⟨e, hexpression⟩
    rw [Runs, expression_apply] at hexpression
    obtain ⟨_, _, hpredicate⟩ := exists_runs_predicate hexpression hstart
    obtain ⟨found, mid, hstep⟩ := Runs.exists_of_iterate (hpredicate.behind hcolumn)
    have hrest : Runs (do return some (← predicateAfter (.level (j.remaining 0)) (.ident ⟨"x", false⟩) false .inside))
        j 2 found mid := Runs.behind (p := predicateHead) hstep (runs_predicateHead_in hin)
    obtain ⟨_, _, hafter, -⟩ := hrest.exists_of_bind
    exact reads_of_queryOr hi hj hnests hm (Runs.behind (p := expect .lparen) hafter hopen)
  · intro h
    obtain ⟨e, hafter⟩ := exists_runs_queryOr (p := expressions) hi hj hnests hm
      (fun query => (return .inQuery (.ident ⟨"x", false⟩) false query : Parse Expr))
      (fun items => (return .inList (.ident ⟨"x", false⟩) false (.ofList items) : Parse Expr)) hitems tracks_expressions (fun _ => ⟨_, runs_pure j _ _⟩) (fun _ => ⟨_, runs_pure j _ _⟩) h
    have hstep : Runs (predicateStep (.level (j.remaining 0)) (.ident ⟨"x", false⟩)) j 1 (some e) (w.length + 4) :=
      (runs_predicateHead_in hin).bind ((Runs.bind hopen hafter).bind (runs_pure j _ (some e)))
    have hpredicate : Runs (predicate (.level (j.remaining 0))) j 0 e (w.length + 4) :=
      hcolumn.bind (runs_iterate_one hstep (runs_predicateStep_none (.inl heof)) (by simp [hin]))
    refine ⟨e, ?_⟩
    rw [Runs, expression_apply]
    exact runs_expressionOf_of_predicate hpredicate hstart (.inl heof)

end

/-- A relation that stands alone may stand in parentheses as a table factor, and expressions that stand alone may stand in
parentheses behind `IN`, if the look ahead finds no query there or what stands there is a query; and otherwise not. -/
theorem reads_inParens_iff {i : Input} {w : List Token} (hi : i.Lists w) :
    (∀ (j : Input) (r : Relation), j.Lists (.symbol .lparen :: w ++ [.symbol .rparen]) →
      relation i 0 = (.ok r, w.length) →
      ((∃ factor, within tableFactor j 0 = (.ok factor, w.length + 2)) ↔
        isQueryStart i 0 = (.ok false, 0) ∨ ∃ query, Grammar.query i 0 = (.ok query, w.length))) ∧
    ∀ (j : Input) (items : List Expr),
      j.Lists (.word "x" :: .word "IN" :: .symbol .lparen :: w ++ [.symbol .rparen]) →
      within expressions i 0 = (.ok items, w.length) →
      ((∃ e, expression j 0 = (.ok e, w.length + 4)) ↔
        isQueryStart i 0 = (.ok false, 0) ∨ ∃ query, Grammar.query i 0 = (.ok query, w.length)) :=
  ⟨fun _ _ hj hr => reads_tableFactor_iff hi hj hr, fun _ _ hj hitems => reads_in_iff hi hj hitems⟩

/-- A query in parentheses is a relation and an expression, and further parentheses do not change that. -/
theorem reads_inParens_query :
    (∃ factor, within tableFactor (.ofTokens [.symbol .lparen, .symbol .lparen, .word "SELECT", .number "1",
      .symbol .rparen, .symbol .rparen]) 0 = (.ok factor, 6)) ∧
    ∃ e, expression (.ofTokens [.word "x", .word "IN", .symbol .lparen, .symbol .lparen, .word "SELECT", .number "1",
      .symbol .rparen, .symbol .rparen]) 0 = (.ok e, 8) := by
  let w : List Token := [.symbol .lparen, .word "SELECT", .number "1", .symbol .rparen]
  obtain ⟨r, hr⟩ := exists_runs_of_readsAll (p := relation) (w := w) (by decide +kernel)
  obtain ⟨items, hitems⟩ := exists_runs_of_readsAll (p := within expressions) (w := w) (by decide +kernel)
  obtain ⟨query, hquery⟩ := exists_runs_of_readsAll (p := Grammar.query) (w := w) (by decide +kernel)
  have hboth := reads_inParens_iff (Input.lists_ofTokens (w := w) (by decide))
  exact ⟨(hboth.1 _ r (Input.lists_ofTokens (by decide)) hr).2 (.inr ⟨query, hquery⟩),
    (hboth.2 _ items (Input.lists_ofTokens (by decide)) hitems).2 (.inr ⟨query, hquery⟩)⟩

/-- A join whose first table is a subquery. -/
def joinedSubquery : List Token :=
  [.symbol .lparen, .word "SELECT", .number "1", .symbol .rparen, .word "t", .word "JOIN", .word "u"]

/-- A sum whose first operand is a subquery. -/
def addedSubquery : List Token :=
  [.symbol .lparen, .word "SELECT", .number "1", .symbol .rparen, .symbol .plus, .number "1"]

/-- Neither starts with a word that a query starts with, both are read to their end, and neither is read in
parentheses. -/
theorem not_reads_inParens :
    (startsQuery (joinedSubquery.headD .eof) = false ∧ readsAll relation joinedSubquery = true ∧
      readsAll (within tableFactor) (.symbol .lparen :: joinedSubquery ++ [.symbol .rparen]) = false) ∧
    startsQuery (addedSubquery.headD .eof) = false ∧ readsAll (within expressions) addedSubquery = true ∧
      readsAll expression (.word "x" :: .word "IN" :: .symbol .lparen :: addedSubquery ++ [.symbol .rparen]) = false := by
  decide +kernel

end Grammar

end SqlTidy
