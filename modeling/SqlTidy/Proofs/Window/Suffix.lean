import SqlTidy.Proofs.Window.Form

/-!
# A window behind a call

A call is read once with nothing behind it and once with `OVER` and the name of a window (`Windowed`). Up to its closing
parenthesis both inputs have the same tokens, so what is in parentheses is read alike (`Input.Followed.fence`). A form that
resembles a call sees the window (`HasSuffix`) and declines, and then its tokens have to be the arguments of an ordinary call
(`Windowed.exists_form`).

**Main result** (`reads_window_iff`). A function and a form with a unit of time take a window. The other forms take one exactly
if what stands in their parentheses is read as arguments.
-/

namespace SqlTidy

open Parse

/-- Calls that no window follows yet: functions without one, and those forms that look like calls. -/
def Tree.awaitsWindow : Expr → Bool
  | .function (.call _ _ _ _ _ _ .none) | .substring .. | .firstLast .. | .datetime .. => true
  | _ => false

namespace Grammar

variable {inner inner' : Inner} {i : Input} {pos next : Nat} {e : Expr}

/-! ## What only an ordinary call carries -/

/-- Something comes next that only an ordinary call carries. -/
def HasSuffix (i : Input) (pos : Nat) : Prop :=
  (i.tokenAt pos).isKeyword "OVER" ∨ i.HasWords pos ["WITHIN", "GROUP"] ∨
    (i.tokenAt pos).isKeyword "FILTER" ∧ i.tokenAt (pos + 1) = .symbol .lparen

theorem runs_isFilter_true (hword : (i.tokenAt pos).isKeyword "FILTER") (hopen : i.tokenAt (pos + 1) = .symbol .lparen) :
    Runs isFilter i pos true pos := by
  refine (runs_isWord i pos "FILTER").bind ?_
  rw [if_pos hword]
  exact Runs.bind (runs_peek i pos 1) (by rw [hopen]; exact runs_pure i pos true)

theorem runs_isFilter_false (h : ¬ ((i.tokenAt pos).isKeyword "FILTER" ∧ i.tokenAt (pos + 1) = .symbol .lparen)) :
    Runs isFilter i pos false pos := by
  refine (runs_isWord i pos "FILTER").bind ?_
  split
  · rename_i hword
    refine Runs.bind (runs_peek i pos 1) ?_
    rw [decide_eq_false fun hopen => h ⟨hword, hopen⟩]
    exact runs_pure i pos false
  · exact runs_pure i pos false

theorem HasSuffix.runs (h : HasSuffix i pos) : Runs isCallSuffix i pos true pos := by
  refine (runs_isWord i pos "OVER").bind ?_
  split
  · exact runs_pure i pos true
  · rename_i hover
    have h := h.resolve_left hover
    by_cases hgroup : i.HasWords pos ["WITHIN", "GROUP"]
    · exact (runs_peekWords (n := 0) hgroup).bind (runs_pure i pos true)
    · obtain ⟨hfilter, hopen⟩ := h.resolve_left hgroup
      exact (runs_peekWords_false (n := 0) hgroup).bind (runs_isFilter_true hfilter hopen)

theorem runs_isCallSuffix_false (h : ¬ HasSuffix i pos) : Runs isCallSuffix i pos false pos := by
  unfold HasSuffix at h
  simp only [not_or] at h
  obtain ⟨hover, hgroup, hfilter⟩ := h
  refine (runs_isWord i pos "OVER").bind ?_
  rw [if_neg hover]
  exact (runs_peekWords_false (n := 0) hgroup).bind (runs_isFilter_false hfilter)

theorem HasSuffix.runs_formEnd (h : HasSuffix i (pos + 1)) (hclose : i.tokenAt pos = .symbol .rparen)
    (hcall : e.isCall = true) : Runs (formEnd (some e)) i pos none (pos + 1) := by
  refine (runs_expect hclose).bind ?_
  rw [if_pos hcall]
  exact h.runs.bind (runs_pure i _ none)

/-! ## Tokens alone and with a window behind them -/

/-- The second input has the tokens of the first one, and `OVER` with a name behind them. -/
structure Windowed (i j : Input) (c : List Token) : Prop extends i.Followed j c ["OVER"] where
  named : isIdentifier (j.tokenAt (c.length + 1)) = true
  ended : j.tokenAt (c.length + 2) = .eof

theorem Windowed.of_lists {j : Input} {c : List Token} {keyword : String} {w : Token} (hi : i.Lists c)
    (hj : j.Lists (c ++ [.word keyword, w])) (hover : Text.upper keyword = "OVER") (hw : isIdentifier w = true) :
    Windowed i j c where
  alone := hi
  same _ hk := hi.tokenAt_eq (show j.Lists ([] ++ c ++ [.word keyword, w]) from hj) hk
  size := by simp [hi.size, hj.size]
  follower := ⟨keyword, by simp [hj.tokenAt], by simp [hover]⟩
  named := by
    rw [hj.tokenAt, List.getElem?_append_right (by omega)]
    simpa using hw
  ended := by simp [hj.tokenAt]

namespace Windowed

variable {j : Input} {c : List Token} {k stop n m : Nat} (h : Windowed i j c)

include h

theorem isKeyword_over : (j.tokenAt c.length).isKeyword "OVER" := by
  obtain ⟨keyword, hkeyword, hmem⟩ := h.follower
  have hupper : Text.upper "OVER" = "OVER" := by decide +kernel
  rw [hkeyword, Token.isKeyword, hupper, List.mem_singleton.1 hmem]
  exact decide_eq_true rfl

/-- A window that is a name. -/
theorem exists_runs_window (inner : Inner) : ∃ name, Runs (window inner) j (c.length + 1) (.windowName name) (c.length + 2) := by
  obtain ⟨name, hname⟩ := nameOf_isSome h.named
  refine ⟨name, Runs.bind (runs_isSymbol j (c.length + 1) .lparen) ?_⟩
  have hne : j.tokenAt (c.length + 1) ≠ .symbol .lparen := by
    intro hopen
    have hnamed := h.named
    rw [hopen] at hnamed
    contradiction
  rw [decide_eq_false hne]
  exact (runs_identifier hname).bind (runs_pure j _ _)

theorem hasSuffix (hsuffix : HasSuffix i pos) : HasSuffix j pos := by
  rcases hsuffix with hover | hgroup | ⟨hfilter, hopen⟩
  · exact .inl (by rwa [h.same pos (h.lt_length (ne_eof_of_isKeyword hover))])
  · have hpos := h.lt_length (ne_eof_of_isKeyword hgroup.1)
    exact .inr (.inl ((h.hasWords_iff (Nat.le_of_lt hpos) (by decide +kernel)).2 hgroup))
  · refine .inr (.inr ⟨?_, h.tokenAt_symbol hopen⟩)
    rwa [h.same pos (h.lt_length (ne_eof_of_isKeyword hfilter))]

/-- Both inputs read the same in parentheses, or both fail there. -/
theorem echoes_enclosed {α : Type} {p p' : Parse α} {stop : Nat} (hclose : i.tokenAt stop = .symbol .rparen)
    (hnests : i.Nests [] pos [] stop) (hp : ∀ f, Tracks f [] p p') :
    (∃ a k, p i pos = (.ok a, k) ∧ p' j pos = (.ok a, k) ∧ j.tokenAt k = i.tokenAt k) ∨
    ∃ fault k, p i pos = (.error fault, k) ∧
      (fault.isEndless = true ∨ ∃ fault' k', p' j pos = (.error fault', k') ∧ fault'.isEndless = false) := by
  have hecho := hp (h.fence hclose) pos (h.fence_at hnests)
  unfold EchoesAt at hecho
  split at hecho
  · rename_i a k ha
    obtain ⟨k', ha', hk⟩ := hecho
    obtain ⟨rfl, hat⟩ := hk trivial
    exact .inl ⟨a, _, ha, ha', (h.fence_alike hclose).tokenAt_eq hat⟩
  · rename_i fault k hfault
    exact .inr ⟨fault, k, hfault, hecho⟩

/-! ### Behind a call -/

/-- The arguments of a call are read with a window behind the call, and only they are. -/
theorem runs_callArguments_iff {arguments : Option Quantifier × List CallArg} {stop : Nat} (hpos : i.Leaves pos n)
    (hnm : n ≤ m) (hclose : i.tokenAt stop = .symbol .rparen) (hnests : i.Nests [] pos [] stop) :
    Runs (callArguments (.level m)) j pos arguments next ↔ Runs (callArguments (.level n)) i pos arguments next := by
  have hecho := tracks_callArguments (u := []) (h.fence_alike hclose) (tracks_level hnm) pos (h.fence_at hnests)
  refine ⟨fun hright => ?_, fun hleft => (hecho.runs hleft).1⟩
  have hended (fault : Error) (k : Nat) (hfault : callArguments (.level n) i pos = (.error fault, k)) :
      fault.isEndless = false :=
    ((passes_callArguments (Inner.walks_level n) i pos hpos).error fault k hfault).2.not_isEndless
  obtain ⟨k, hleft, rfl, -⟩ := hecho.exists_runs hended hright
  exact hleft

theorem nests_callArguments {arguments : Option Quantifier × List CallArg} {stop : Nat} (hpos : pos ≤ c.length)
    (hn : c.length < n) (hrun : Runs (callArguments (.level n)) i pos arguments stop) : i.Nests [] pos [] stop :=
  ((passes_callArguments (Inner.walks_level n) i pos (h.leaves hpos hn)).ok arguments stop hrun).nests trivial

variable (hn : c.length < n) (hnm : n ≤ m)

include hn hnm

theorem carries_withinGroup : Carries i j c (withinGroup (.level n)) (withinGroup (.level m)) := by
  refine .maybeList (.acceptWords h.toFollowed (by decide +kernel)) ((Carries.expect h.toFollowed _).bind fun _ => ?_)
  simp only [← bind_assoc (x := expectWords _)]
  exact .parens h.toFollowed hn (.bind (takes_expectWords _ _) fun _ => (takes_orderItems (Inner.walks_level n)).passes)
    (fun _ => (firm_expectWords _).bind fun _ => tracks_orderItems (tracks_level hnm)) fun _ => .pure _

theorem carries_callFilter : Carries i j c (callFilter (.level n)) (callFilter (.level m)) := by
  let body (inner : Inner) : Parse Expr := do
    expectWord "WHERE"
    let condition ← inner.expression
    expect .rparen
    return condition
  have hbody : Carries i j c (body (.level n)) (body (.level m)) :=
    (Carries.expectWord h.toFollowed (by decide +kernel)).bind fun _ =>
      .parens h.toFollowed hn (Inner.walks_level n).expression.passes (fun _ => (tracks_level hnm).expression) fun _ => .pure _
  intro pos condition next hpos hrun
  by_cases hfilter : (i.tokenAt pos).isKeyword "FILTER" ∧ i.tokenAt (pos + 1) = .symbol .lparen
  · obtain ⟨hword, hopen⟩ := hfilter
    have hskip {i : Input} (hword : (i.tokenAt pos).isKeyword "FILTER") (hopen : i.tokenAt (pos + 1) = .symbol .lparen) :
        Runs (skipBy 2) i pos () (pos + 2) :=
      (runs_skip (ne_eof_of_isKeyword hword)).bind (Runs.bind (runs_skip (by simp [hopen])) (runs_pure i _ ()))
    have hword' : (j.tokenAt pos).isKeyword "FILTER" := by rwa [h.same _ (h.lt_length (ne_eof_of_isKeyword hword))]
    have hopen' := h.tokenAt_symbol hopen
    have hrun := Runs.behind (p := isFilter) hrun (runs_isFilter_true hword hopen)
    obtain ⟨_, _, hrun, hend⟩ := Runs.exists_of_bind hrun
    cases hend
    obtain ⟨hrun, hnext⟩ := hbody (h.lt_of_symbol hopen) (Runs.behind (p := skipBy 2) hrun (hskip hword hopen))
    refine ⟨(runs_isFilter_true hword' hopen').bind ?_, hnext⟩
    exact Runs.bind (Runs.bind (hskip hword' hopen') hrun) (runs_pure j _ _)
  · have hend := Runs.behind (p := isFilter) hrun (runs_isFilter_false hfilter)
    cases hend
    refine ⟨(runs_isFilter_false fun hright => hfilter ?_).bind (runs_pure j _ _), hpos⟩
    have hleft : i.HasWords pos ["FILTER"] := (h.hasWords_iff hpos (by decide +kernel)).1 ⟨hright.1, trivial⟩
    exact ⟨hleft.1, h.symbol_of_tokenAt (h.lt_length (ne_eof_of_isKeyword hleft.1)) hright.2⟩

/-- What a call carries without a window it carries with one. -/
theorem exists_runs_callEnd {name : DottedName} {arguments : Option Quantifier × List CallArg} {call : Call}
    (hpos : pos ≤ c.length) (hrun : Runs (callEnd (.level n) name arguments) i pos call c.length)
    (hwindow : (Tree.function call).awaitsWindow = true) :
    ∃ call', Runs (callEnd (.level m) name arguments) j pos call' (c.length + 2) := by
  obtain ⟨group, k, hgroup, hrun⟩ := Runs.exists_of_bind hrun
  obtain ⟨filter, k', hfilter, hrun⟩ := Runs.exists_of_bind hrun
  obtain ⟨nulls, k'', hnulls, hrun⟩ := Runs.exists_of_bind hrun
  obtain ⟨found, _, hover, hend⟩ := Runs.exists_of_bind hrun
  cases hend
  obtain ⟨hgroup, hk⟩ := h.carries_withinGroup hn hnm hpos hgroup
  obtain ⟨hfilter, hk⟩ := h.carries_callFilter hn hnm hk hfilter
  obtain ⟨hnulls, hk⟩ := Carries.choose h.toFollowed (by decide +kernel) hk hnulls
  -- Nothing is left in front of the window.
  obtain rfl : k'' = c.length := by
    by_cases hword : (i.tokenAt k'').isKeyword "OVER"
    · have hsome := Runs.behind (p := acceptWord "OVER") hover (runs_acceptWord hword)
      obtain ⟨_, _, -, hsome⟩ := Runs.exists_of_bind hsome
      cases hsome
      cases hwindow
    · have hnone := Runs.behind (p := acceptWord "OVER") hover (runs_acceptWord_false hword)
      exact ((runs_pure i k'' none).unique hnone).2
  obtain ⟨name, hname⟩ := h.exists_runs_window (.level m)
  have hwindow : Runs (maybe (acceptWord "OVER") (window (.level m))) j c.length (some (.windowName name)) (c.length + 2) :=
    (runs_acceptWord h.isKeyword_over).bind (hname.bind (runs_pure j _ _))
  exact ⟨_, hgroup.bind (hfilter.bind (hnulls.bind (hwindow.bind (runs_pure j _ _))))⟩

/-! ### Names, calls and forms -/

/-- A call by its name. -/
theorem exists_runs_nameExpr {call : Call} (hrun : Runs (nameExpr (.level n)) i pos (.function call) c.length)
    (hwindow : (Tree.function call).awaitsWindow = true) :
    ∃ call', Runs (nameExpr (.level m)) j pos (.function call') (c.length + 2) := by
  obtain ⟨first, path, q, hfirst, hpath, hstarred, hopen, hcall⟩ := exists_of_nameExpr hrun
  obtain ⟨arguments, stop, -, harguments, hclose, hend⟩ := exists_of_callOf hcall
  have hq := h.lt_of_symbol hopen
  have hnests := h.nests_callArguments hq hn harguments
  have harguments := (h.runs_callArguments_iff (h.leaves hq hn) hnm hclose hnests).2 harguments
  obtain ⟨call', hend⟩ := h.exists_runs_callEnd hn hnm (h.lt_of_symbol hclose) hend hwindow
  have hsame (k : Nat) (hk : k ≤ q) : j.tokenAt k = i.tokenAt k := h.same _ (Nat.lt_of_le_of_lt hk hq)
  have hremaining := Nat.succ_le_succ ((h.fence hclose).remaining_le (pos + 1))
  obtain ⟨hle, hpath⟩ := runs_names hremaining hsame hopen hstarred hpath
  have hfirst : Runs identifier j pos first (pos + 1) :=
    runs_identifier (by rw [hsame pos (by omega), hfirst, nameOf_token])
  refine ⟨call', hfirst.bind (Runs.bind (p := iterate extendName ⟨[first], false⟩) hpath ?_)⟩
  rw [if_neg (by simp [hstarred])]
  refine (runs_isSymbol j q .lparen).bind ?_
  rw [decide_eq_true (h.tokenAt_symbol hopen), if_pos rfl, callOf_eq]
  refine Runs.bind ((runs_expect (h.tokenAt_symbol hopen)).bind (harguments.bind ?_)) (runs_pure j _ _)
  exact (runs_expect (h.tokenAt_symbol hclose)).bind hend

omit hn in
/-- A form that an ordinary call can stand for gives way to it if a window follows, and a form that has declined declines
again. -/
theorem runs_specialForm_none {word : String} {stop : Nat} {result : Option Expr}
    (hword : i.tokenAt pos = .word word) (hopen : i.tokenAt (pos + 1) = .symbol .lparen)
    (hclose : i.tokenAt stop = .symbol .rparen) (hnests : i.Nests [] (pos + 2) [] stop)
    (hrun : Runs (specialForm (.level n) word) i pos result next)
    (hresult : ∀ e, result = some e → e.isCall = true ∧ next = c.length) :
    Runs (specialForm (.level m) word) j pos none pos := by
  have hword' : j.tokenAt pos = .word word := (h.same _ (h.lt_length (by simp [hword]))).trans hword
  have hopen' := h.tokenAt_symbol hopen
  rcases exists_formBody word with hnone | ⟨body, hbody, hform⟩
  · rw [hnone]
    exact runs_pure j pos none
  rw [hform] at hrun ⊢
  refine GivesUp.runs ?_
  rcases h.echoes_enclosed hclose hnests fun _ => hbody.tracks (tracks_level hnm) with
    ⟨value, k, hleft, hright, hsame⟩ | ⟨fault, k, hleft, hright⟩
  · have hformLeft : formOf (body (.level n)) i pos = formEnd value i k :=
      (formOf_apply hword hopen _).trans (bind_apply hleft)
    have hformRight : formOf (body (.level m)) j pos = formEnd value j k :=
      (formOf_apply hword' hopen' _).trans (bind_apply hright)
    cases value with
    | none => exact .inl ⟨k, hformRight⟩
    | some e =>
      by_cases hend : i.tokenAt k = .symbol .rparen
      · -- The form has been read to its closing parenthesis, so it has looked behind it.
        have hgiven (hsome : Runs (formEnd (some e)) i k (some e) (k + 1)) : e.isCall = true ∧ k + 1 = c.length := by
          have hform : Runs (attempt (formOf (body (.level n)))) i pos (some e) (k + 1) := by
            unfold Runs attempt
            rw [hformLeft, hsome]
          obtain ⟨rfl, rfl⟩ := hform.unique hrun
          exact hresult e rfl
        have hcall : e.isCall = true := by
          by_contra hno
          refine hno (hgiven ((runs_expect hend).bind ?_)).1
          rw [if_neg hno]
          exact runs_pure i _ _
        have hsuffix : HasSuffix j (k + 1) := by
          by_cases hsuffix : HasSuffix i (k + 1)
          · exact h.hasSuffix hsuffix
          · have hsome : Runs (formEnd (some e)) i k (some e) (k + 1) := by
              refine (runs_expect hend).bind ?_
              rw [if_pos hcall]
              exact (runs_isCallSuffix_false hsuffix).bind (runs_pure i _ _)
            rw [(hgiven hsome).2]
            exact .inl h.isKeyword_over
        exact .inl ⟨k + 1, hformRight.trans (hsuffix.runs_formEnd (h.tokenAt_symbol hend) hcall)⟩
      · have hno : expect .rparen j k = (.error (j.errorAt k (.expected (Token.symbol .rparen).describe (j.tokenAt k))), k) :=
          (bind_apply (runs_accept_false (hsame ▸ hend))).trans rfl
        exact .inr ⟨_, k, hformRight.trans (bind_apply_error hno), isEndless_errorAt nofun⟩
  · have hformLeft : formOf (body (.level n)) i pos = (.error fault, k) :=
      (formOf_apply hword hopen _).trans (bind_apply_error hleft)
    have hended : ¬ fault.isEndless = true := by
      intro hendless
      unfold Runs attempt at hrun
      rw [hformLeft] at hrun
      simp [hendless] at hrun
    obtain ⟨fault', k', hright, hended'⟩ := hright.resolve_left hended
    exact .inr ⟨fault', k', (formOf_apply hword' hopen' _).trans (bind_apply_error hright), hended'⟩

omit hn hnm in
/-- A word that is a name or a call is that with a window behind it too. -/
theorem isPlain {word : String} {called : Bool} (hplain : IsPlain i pos word called)
    (hnext : pos + 1 < c.length) (hcalled : called = true → ∃ stop, i.tokenAt (pos + 1) = .symbol .lparen ∧
      i.tokenAt stop = .symbol .rparen ∧ i.Nests [] (pos + 2) [] stop) : IsPlain j pos word called := by
  refine ⟨fun hinterval => ?_, hplain.not_case, hplain.called_form, fun htrue hexists => ?_, hplain.not_called⟩
  · rw [h.same _ hnext]
    exact hplain.interval hinterval
  · obtain ⟨stop, hopen, hclose, hnests⟩ := hcalled htrue
    have hahead := hplain.called_exists htrue hexists
    -- The look ahead does not care whether it starts at the first parenthesis or behind it.
    have hskip {i : Input} (hopen : i.tokenAt (pos + 1) = .symbol .lparen) : queryAhead 1 i pos = queryAhead 2 i pos := by
      rw [runs_queryAhead i pos 1, runs_queryAhead i pos 2, Input.behindParens_of_open hopen]
    have hat : (h.fence hclose).At [] (pos + 2) := h.fence_at hnests
    obtain ⟨found, hleft, hright⟩ := exists_queryAhead hat
    have hleft := (hskip hopen).trans hleft
    rw [hahead] at hleft
    cases hleft
    exact (hskip (h.tokenAt_symbol hopen)).trans hright

omit hn hnm in
/-- A word with a window far behind it is read as a name or as a call. -/
theorem primary_apply {word : String} {called : Bool} (hword : i.tokenAt pos = .word word)
    (hnext : pos + 1 < c.length) (hplain : IsPlain i pos word called)
    (hcalled : called = true → ∃ stop, i.tokenAt (pos + 1) = .symbol .lparen ∧ i.tokenAt stop = .symbol .rparen ∧
      i.Nests [] (pos + 2) [] stop)
    (hright : ∀ (inner' : Inner) (j : Input), j.tokenAt (pos + 1) = i.tokenAt (pos + 1) →
      wordExpr inner' word j pos = keywordExpr inner' word called j pos) :
    primary inner j pos = plainWord inner word called j pos := by
  have hprimary : primary inner j pos = wordExpr inner word j pos := by
    refine (bind_apply (runs_peek j pos 0)).trans ?_
    rw [Nat.add_zero, h.tokenAt_word hword]
  rw [hprimary, hright inner j (h.same _ hnext), (h.isPlain hplain hnext hcalled).apply]

/-- A function without a window. -/
theorem exists_runs_primary_function {call : Call} (hrun : Runs (primary (.level n)) i pos (.function call) c.length)
    (hwindow : (Tree.function call).awaitsWindow = true) :
    ∃ e, Runs (primary (.level m)) j pos e (c.length + 2) := by
  rcases ends_primary_isCall _ _ hrun rfl with ⟨w, hw, hname⟩ | ⟨word, hword, hrun⟩
  · obtain ⟨call', hcall'⟩ := h.exists_runs_nameExpr hn hnm hname hwindow
    refine ⟨.function call', (runs_peek j pos 0).bind ?_⟩
    rw [Nat.add_zero, h.same _ (h.lt_length (by simp [hw])), hw]
    exact hcall'
  obtain ⟨called, hcalled, hplain, hplainRun, hright⟩ := exists_of_wordExpr hrun rfl
  cases called with
  | false =>
    rw [plainWord, if_neg Bool.false_ne_true] at hplainRun
    split at hplainRun
    · cases hplainRun
    rename_i hreserved
    obtain ⟨first, path, q, -, hpath, hstarred, hopen, -⟩ := exists_of_nameExpr hplainRun
    have hle := (runs_names (Nat.le_refl _) (fun _ _ => rfl) hopen hstarred hpath).1
    obtain ⟨call', hcall'⟩ := h.exists_runs_nameExpr hn hnm hplainRun hwindow
    refine ⟨.function call', (h.primary_apply hword (Nat.lt_of_le_of_lt hle (h.lt_of_symbol hopen)) hplain
      (fun hcalled => absurd hcalled Bool.false_ne_true) hright).trans ?_⟩
    rw [plainWord, if_neg Bool.false_ne_true, if_neg hreserved]
    exact hcall'
  | true =>
    have hopen := hcalled.1 rfl
    rw [plainWord, if_pos rfl] at hplainRun
    obtain ⟨form, mid, hform, hname⟩ := Runs.exists_of_bind hplainRun
    cases form with
    | some value =>
      cases hname
      obtain ⟨body, stop, hbody, hvalue, -⟩ := exists_of_specialForm hword hopen hform rfl
      cases hbody.formCall hvalue rfl
    | none =>
      obtain rfl := eq_of_runs_specialForm_none hform
      obtain ⟨first, path, q, -, hpath, -, -, hcallOf⟩ := exists_of_nameExpr hname
      obtain ⟨-, rfl⟩ := hpath.unique (runs_path_of_open hopen)
      obtain ⟨arguments, stop, -, harguments, hclose, -⟩ := exists_of_callOf hcallOf
      have hnests := h.nests_callArguments (h.lt_of_symbol hopen) hn harguments
      obtain ⟨call', hcall'⟩ := h.exists_runs_nameExpr hn hnm hname hwindow
      refine ⟨.function call', (h.primary_apply hword (h.lt_of_symbol hopen) hplain
        (fun _ => ⟨stop, hopen, hclose, hnests⟩) hright).trans ?_⟩
      rw [plainWord, if_pos rfl]
      exact (h.runs_specialForm_none hnm hword hopen hclose hnests hform (by simp)).bind hcall'

omit hn hnm in
/-- Nothing follows a call at the end of the input. -/
theorem runs_callEnd (inner : Inner) (name : DottedName) (arguments : Option Quantifier × List CallArg) :
    Runs (callEnd inner name arguments) i c.length
      (.call name arguments.1 (.ofList arguments.2) .nil .none none .none) c.length := by
  have hno (keyword : String) : ¬ (i.tokenAt c.length).isKeyword keyword := by
    rw [h.alone.tokenAt_length]
    exact Bool.false_ne_true
  have hgroup : Runs (withinGroup inner) i c.length [] c.length :=
    (runs_acceptWords_false fun hwords : i.HasWords c.length ["WITHIN", "GROUP"] => hno _ hwords.1).bind (runs_pure i _ [])
  have hfilter : Runs (callFilter inner) i c.length none c.length :=
    (runs_isFilter_false fun hfilter => hno _ hfilter.1).bind (runs_pure i _ none)
  refine hgroup.bind (hfilter.bind ((runs_choose_none ?_).bind ?_))
  · simp [Input.HasWords, hno]
  · exact Runs.bind (p := maybe (acceptWord "OVER") (window inner))
      ((runs_acceptWord_false (hno _)).bind (runs_pure i _ none)) (runs_pure i _ _)

omit h hn hnm in
theorem exists_function_of_nameExpr (hrun : Runs (nameExpr inner) i pos e next) (hcall : e.isCall = true) :
    ∃ call, e = .function call := by
  suffices hends : Ends (nameExpr inner) i pos fun e _ => e.isCall = true → ∃ call, e = .function call from
    hends e next hrun hcall
  refine .step fun _ _ => .step fun path _ => .ite (fun _ => .pure nofun) fun _ => .step fun _ _ => .ite (fun _ => ?_) fun _ => ?_
  · exact .step fun call _ => .pure fun _ => ⟨call, rfl⟩
  · exact (ends_bareName_isCall path.parts).mono fun _ _ hfalse htrue => nomatch hfalse.symm.trans htrue

omit h hn hnm in
/-- A name with a parenthesis right behind it is called. -/
theorem exists_of_nameExpr_open {word : String} (hword : i.tokenAt pos = .word word)
    (hopen : i.tokenAt (pos + 1) = .symbol .lparen) (hrun : Runs (nameExpr inner) i pos e next) :
    ∃ call, Runs (callOf inner ⟨[⟨word, false⟩]⟩) i (pos + 1) call next := by
  have hname : Runs identifier i pos ⟨word, false⟩ (pos + 1) := runs_identifier (by rw [hword]; rfl)
  have hrun := Runs.behind (p := identifier) hrun hname
  have hrun := Runs.behind (p := iterate extendName _) hrun (runs_path_of_open hopen)
  have hrun := Runs.behind (p := isSymbol .lparen) hrun (runs_isSymbol i (pos + 1) .lparen)
  rw [decide_eq_true hopen, if_pos rfl] at hrun
  obtain ⟨call, _, hcall, hend⟩ := Runs.exists_of_bind hrun
  cases hend
  exact ⟨call, hcall⟩

omit h hn hnm in
theorem runs_nameExpr_open {word : String} {call : Call} (hword : i.tokenAt pos = .word word)
    (hopen : i.tokenAt (pos + 1) = .symbol .lparen) (hrun : Runs (callOf inner ⟨[⟨word, false⟩]⟩) i (pos + 1) call next) :
    Runs (nameExpr inner) i pos (.function call) next := by
  have hname : Runs identifier i pos ⟨word, false⟩ (pos + 1) := runs_identifier (by rw [hword]; rfl)
  refine hname.bind ((runs_path_of_open hopen).bind (Runs.bind (runs_isSymbol i (pos + 1) .lparen) ?_))
  rw [decide_eq_true hopen, if_pos rfl]
  exact hrun.bind (runs_pure i _ _)

/-- A form that a window follows is read as an ordinary call or not at all. -/
theorem exists_form (hrun : Runs (primary (.level n)) i pos e c.length) (hcall : e.isCall = true)
    (hfunction : ∀ call, e ≠ .function call) : ∃ body stop, FormCall body e ∧
      Runs (body (.level n)) i (pos + 2) (some e) stop ∧ i.tokenAt stop = .symbol .rparen ∧ c.length = stop + 1 ∧
      i.Nests [] (pos + 2) [] stop ∧
      (∀ e' next, Runs (primary (.level m)) j pos e' next →
        ∃ arguments, Runs (callArguments (.level n)) i (pos + 2) arguments stop) ∧
      ∀ arguments, Runs (callArguments (.level n)) i (pos + 2) arguments stop →
        ∃ e', Runs (primary (.level m)) j pos e' (c.length + 2) := by
  have hnotName (hname : Runs (nameExpr (.level n)) i pos e c.length) : False := by
    obtain ⟨call, hcall⟩ := exists_function_of_nameExpr hname hcall
    exact hfunction call hcall
  rcases ends_primary_isCall _ _ hrun hcall with ⟨_, -, hname⟩ | ⟨word, hword, hrun⟩
  · exact (hnotName hname).elim
  obtain ⟨called, hcalled, hplain, hplainRun, hright⟩ := exists_of_wordExpr hrun hcall
  cases called with
  | false =>
    rw [plainWord, if_neg Bool.false_ne_true] at hplainRun
    split at hplainRun
    · cases hplainRun
    · exact (hnotName hplainRun).elim
  | true =>
    have hopen := hcalled.1 rfl
    rw [plainWord, if_pos rfl] at hplainRun
    obtain ⟨form, mid, hform, hname⟩ := Runs.exists_of_bind hplainRun
    cases form with
    | none =>
      obtain rfl := eq_of_runs_specialForm_none hform
      exact (hnotName hname).elim
    | some value =>
      obtain ⟨rfl, rfl⟩ := (runs_pure i mid value).unique hname
      obtain ⟨body, stop, hbody, hvalue, hclose, hend⟩ := exists_of_specialForm hword hopen hform hcall
      have hstart := h.lt_of_symbol hopen
      have hnests := ((hbody.passes (Inner.walks_level n) i (pos + 2) (h.leaves hstart hn)).ok _ stop hvalue).nests trivial
      have hprimary : primary (.level m) j pos = nameExpr (.level m) j pos := by
        rw [h.primary_apply hword hstart hplain (fun _ => ⟨stop, hopen, hclose, hnests⟩) hright, plainWord, if_pos rfl]
        exact bind_apply (h.runs_specialForm_none hnm hword hopen hclose hnests hform fun e he =>
          ⟨Option.some.inj he ▸ hcall, rfl⟩)
      have hword' := h.tokenAt_word hword
      have hopen' := h.tokenAt_symbol hopen
      have hback {e' : Expr} {next : Nat} (hrun : Runs (primary (.level m)) j pos e' next) :
          ∃ arguments, Runs (callArguments (.level n)) i (pos + 2) arguments stop := by
        obtain ⟨call, hcallOf⟩ := exists_of_nameExpr_open hword' hopen' (hprimary.symm.trans hrun)
        obtain ⟨arguments, stop', -, harguments, hclose', -⟩ := exists_of_callOf hcallOf
        have harguments := (h.runs_callArguments_iff (h.leaves hstart hn) hnm hclose hnests).1 harguments
        have hmoved := (passes_callArguments (Inner.walks_level n) i (pos + 2) (h.leaves hstart hn)).ok _ _ harguments
        have hclose' := h.symbol_of_tokenAt (h.alone.last ▸ hmoved.le_last) hclose'
        obtain rfl := hnests.eq_of_closing (hmoved.nests trivial) hclose hclose'
        exact ⟨arguments, harguments⟩
      refine ⟨body, stop, hbody.formCall hvalue hcall, hvalue, hclose, hend, hnests, fun _ _ => hback, ?_⟩
      intro arguments harguments
      have harguments := (h.runs_callArguments_iff (h.leaves hstart hn) hnm hclose hnests).2 harguments
      have hsuffix := h.runs_callEnd (.level n) ⟨[⟨word, false⟩]⟩ arguments
      obtain ⟨call, hsuffix⟩ := h.exists_runs_callEnd hn hnm (Nat.le_refl _) hsuffix rfl
      refine ⟨.function call, hprimary.trans (runs_nameExpr_open hword' hopen' ?_)⟩
      rw [callOf_eq]
      exact (runs_expect hopen').bind (harguments.bind ((hend ▸ runs_expect (h.tokenAt_symbol hclose)).bind hsuffix))

end Windowed

/-! ## The window -/

section

variable {j : Input} {c : List Token} (h : Windowed i j c) (hrun : Runs expression i 0 e c.length) (hcall : e.isCall = true)

include h hrun hcall

/-- The whole expression takes a window if the call that it is does. -/
theorem Windowed.expression_iff : Runs (primary (.level (i.remaining 0))) i 0 e c.length ∧
    ((∃ e', Runs (primary (.level (j.remaining 0))) j 0 e' (c.length + 2)) → ∃ e', Runs expression j 0 e' (c.length + 2)) ∧
    ((∃ e', Runs expression j 0 e' (c.length + 2)) → ∃ e' next, Runs (primary (.level (j.remaining 0))) j 0 e' next) := by
  rw [Runs, expression_apply] at hrun
  simp only [Runs, expression_apply]
  obtain ⟨hstart, hprimary⟩ := runs_primary_of_isCall hrun hcall
  have hpos : 0 < c.length := by
    refine Nat.pos_of_ne_zero fun hempty => ?_
    have heof : i.tokenAt 0 = .eof := hempty ▸ h.alone.tokenAt_length
    rcases ends_primary_isCall _ _ hprimary hcall with ⟨_, htoken, -⟩ | ⟨_, htoken, -⟩ <;> simp [heof] at htoken
  have hstart' : StartsOperand (j.tokenAt 0) := by rwa [h.same _ hpos]
  refine ⟨hprimary, ?_, ?_⟩
  · rintro ⟨e', hrun'⟩
    exact ⟨e', runs_expressionOf hrun' hstart' (.inl h.ended)⟩
  · rintro ⟨e', hrun'⟩
    exact exists_runs_primary hrun' hstart'

end

/-- A call that stands alone and has no window may have one if it is a function or has a unit of time; other forms that look
like calls may if their parentheses hold the arguments of an ordinary call. That is so if no keyword stands between them and
the first word there is not taken for a quantifier. -/
theorem reads_window_iff {i j : Input} {c : List Token} {keyword : String} {w : Token} {e : Expr} (hi : i.Lists c)
    (hj : j.Lists (c ++ [.word keyword, w])) (hover : Text.upper keyword = "OVER") (hw : isIdentifier w = true)
    (hrun : expression i 0 = (.ok e, c.length)) (hwindow : e.awaitsWindow = true) :
    ((∃ call, e = .function call) ∨ (∃ name unit args, e = .datetime name unit args) →
      ∃ e', expression j 0 = (.ok e', c.length + 2)) ∧
    ((∀ call, e ≠ .function call) → ((∃ e', expression j 0 = (.ok e', c.length + 2)) ↔
      ∃ arguments, within callArguments i 2 = (.ok arguments, c.length - 1))) ∧
    (callQuantifier i 2 = (.ok none, 2) →
      ((∃ e', expression j 0 = (.ok e', c.length + 2)) ↔ e.takesWindow = true)) := by
  have h : Windowed i j c := .of_lists hi hj hover hw
  have hcall : e.isCall = true := by
    cases e <;> first | rfl | cases hwindow
  have hn : c.length < i.remaining 0 := by simp [Input.remaining, hi.size]
  have hnm : i.remaining 0 ≤ j.remaining 0 := by simp [Input.remaining, hi.size, hj.size]
  obtain ⟨hprimary, hup, hdown⟩ := h.expression_iff hrun hcall
  by_cases hfunction : ∃ call, e = .function call
  · obtain ⟨call, rfl⟩ := hfunction
    have haccepted := hup (h.exists_runs_primary_function hn hnm hprimary hwindow)
    exact ⟨fun _ => haccepted, fun hno => absurd rfl (hno call), fun _ => iff_of_true haccepted rfl⟩
  · have hfunction := not_exists.1 hfunction
    obtain ⟨body, stop, hform, hbody, hclose, hend, hnests, hback, hforth⟩ := h.exists_form hn hnm hprimary hcall hfunction
    have hstart : i.Leaves 2 (i.remaining 0) := h.leaves (by have := hnests.le; omega) hn
    have hiff : (∃ e', Runs expression j 0 e' (c.length + 2)) ↔
        ∃ arguments, Runs (callArguments (.level (i.remaining 0))) i 2 arguments stop := by
      constructor
      · intro haccepted
        obtain ⟨e', next, hrun'⟩ := hdown haccepted
        exact hback e' next hrun'
      · rintro ⟨arguments, harguments⟩
        exact hup (hforth arguments harguments)
    have hwithin (arguments : Option Quantifier × List CallArg) : Runs (within callArguments) i 2 arguments stop ↔
        Runs (callArguments (.level (i.remaining 0))) i 2 arguments stop := by
      have hstart' : i.Leaves 2 (i.remaining 2 + 1) :=
        ⟨hstart.capped, hstart.le_last, by simp only [Input.remaining, Input.last]; omega⟩
      have hnm' : i.remaining 2 + 1 ≤ j.remaining 0 := by
        simp only [Input.remaining, hi.size, hj.size, List.length_append, List.length_cons, List.length_nil]
        omega
      exact (h.runs_callArguments_iff hstart' hnm' hclose hnests).symm.trans
        (h.runs_callArguments_iff hstart hnm hclose hnests)
    refine ⟨?_, fun _ => hiff.trans ?_, fun hquantifier => ?_⟩
    · rintro (⟨call, rfl⟩ | ⟨name, unit, args, rfl⟩)
      · exact absurd rfl (hfunction call)
      · cases hform
        exact hiff.2 (exists_runs_callArguments_of_datetime hstart hclose hbody)
    · rw [hend, Nat.add_sub_cancel]
      exact exists_congr fun arguments => (hwithin arguments).symm
    · exact hiff.trans (hform.arguments_iff hstart hbody hclose hquantifier)

theorem reads_window_substring : ∃ e, expression (.ofTokens [.word "substring", .symbol .lparen, .word "a", .symbol .comma,
    .number "1", .symbol .rparen, .word "OVER", .word "w"]) 0 = (.ok e, 8) := by
  have hrun : expression (.ofTokens [.word "substring", .symbol .lparen, .word "a", .symbol .comma, .number "1",
      .symbol .rparen]) 0 = (.ok (.substring "substring" (.ident ⟨"a", false⟩) (.literal (.number "1")) .none false), 6) := rfl
  have hover : Text.upper "OVER" = "OVER" := by decide +kernel
  have hw : isIdentifier (.word "w") = true := rfl
  have hboth := reads_window_iff (Input.lists_ofTokens (by decide)) (Input.lists_ofTokens (by decide)) hover hw hrun rfl
  exact (hboth.2.2 (by decide +kernel)).2 rfl

/-- The last value that is not null. -/
def lastValue : List Token :=
  [.word "last", .symbol .lparen, .word "x", .word "IGNORE", .word "NULLS", .symbol .rparen]

/-- A substring of a column whose name is a quantifier elsewhere. -/
def distinctSubstring : List Token :=
  [.word "substring", .symbol .lparen, .word "distinct", .symbol .comma, .number "1", .symbol .rparen]

/-- Both are calls without a window, and neither takes one. -/
theorem not_reads_window :
    (∃ e, expression (.ofTokens lastValue) 0 = (.ok e, lastValue.length) ∧ e.awaitsWindow = true) ∧
    readsAll expression (lastValue ++ [.word "OVER", .word "w"]) = false ∧
    (∃ e, expression (.ofTokens distinctSubstring) 0 = (.ok e, distinctSubstring.length) ∧ e.awaitsWindow = true) ∧
    readsAll expression (distinctSubstring ++ [.word "OVER", .word "w"]) = false :=
  ⟨⟨_, rfl, rfl⟩, by decide +kernel, ⟨_, rfl, rfl⟩, by decide +kernel⟩

end Grammar

end SqlTidy
