import SqlTidy.Proofs.Fence.Followed
import SqlTidy.Proofs.QueryStart

/-!
# Calls and forms that look like calls

Some functions have a grammar of their own, which is tried first and may decline (`specialForm`). Then the same tokens are
read as an ordinary call. Here is what a run of either says about the tokens between the parentheses (`FormBody`,
`callArguments`), and which forms can be read as calls.

**Arguments** (`exists_runs_callArguments_of_datetime`, `exists_runs_callArguments_of_substring`). Units and expressions with
commas between them are arguments, unless the first of them is taken for a quantifier.

**No arguments** (`not_runs_callArguments`). An expression with a word behind it is no list of arguments.

So `FormCall.arguments_iff`: a form that resembles a call is one unless keywords stand in it.
-/

namespace SqlTidy

open Parse

/-! ## Lists with commas -/

namespace Parse

variable {α β : Type} {i : Input} {p : Parse α} {q : Parse β} {pos next : Nat} {items : List α}

/-- Items from a position on, with commas between them and none behind them. -/
inductive Separated (p : Parse α) (i : Input) : Nat → List α → Nat → Prop
  | one {pos next : Nat} {a : α} (h : Runs p i pos a next) (hend : i.tokenAt next ≠ .symbol .comma) :
      Separated p i pos [a] next
  | cons {pos mid next : Nat} {a : α} {as : List α} (h : Runs p i pos a mid) (hcomma : i.tokenAt mid = .symbol .comma)
      (hrest : Separated p i (mid + 1) as next) : Separated p i pos (a :: as) next

theorem Separated.of_manyUpTo {n mid : Nat} {a : α} (h : Runs p i pos a mid)
    (hrest : Runs (manyUpTo (maybe (accept .comma) p) n) i mid items next) : Separated p i pos (a :: items) next := by
  induction n generalizing pos mid a items with
  | zero => cases hrest
  | succ n ih =>
    by_cases hcomma : i.tokenAt mid = .symbol .comma
    · obtain ⟨found, mid', hstep, hrest⟩ := Runs.exists_of_bind hrest
      have hstep := Runs.behind (p := accept .comma) hstep (runs_accept hcomma)
      obtain ⟨b, mid'', hb, hfound⟩ := Runs.exists_of_bind hstep
      cases hfound
      obtain ⟨rest, _, hrest, hitems⟩ := Runs.exists_of_bind hrest
      cases hitems
      exact .cons h hcomma (ih hb hrest)
    · have hnone : Runs (maybe (accept .comma) p) i mid none mid := (runs_accept_false hcomma).bind (runs_pure i mid none)
      have hend := Runs.behind hrest hnone
      cases hend
      exact .one h hcomma

theorem separated_of_runs (h : Runs (commaSeparated p) i pos items next) : Separated p i pos items next := by
  obtain ⟨a, mid, ha, hrest⟩ := Runs.exists_of_bind h
  obtain ⟨rest, _, hrest, hitems⟩ := Runs.exists_of_bind hrest
  cases hitems
  exact .of_manyUpTo ha hrest

/-- A comma is a token, so there are fewer items than tokens. -/
theorem Separated.runs {n : Nat} (h : Separated p i pos items next) (hp : Takes n [] p) (hpos : i.Leaves pos n) :
    Runs (commaSeparated p) i pos items next := by
  suffices hmany : ∃ a rest mid, items = a :: rest ∧ Runs p i pos a mid ∧
      ∀ n, i.remaining mid < n → Runs (manyUpTo (maybe (accept .comma) p) n) i mid rest next by
    obtain ⟨a, rest, mid, rfl, ha, hrest⟩ := hmany
    exact ha.bind (Runs.bind (p := many _) (hrest _ (Nat.lt_succ_self _)) (runs_pure i next _))
  induction h with
  | @one pos next a h hend =>
    refine ⟨a, [], next, rfl, h, fun n hn => ?_⟩
    obtain ⟨n, rfl⟩ : ∃ m, n = m + 1 := ⟨n - 1, by omega⟩
    have hnone : Runs (maybe (accept .comma) p) i next none next := (runs_accept_false hend).bind (runs_pure i next none)
    exact hnone.bind (runs_pure i next [])
  | @cons pos mid next a as h hcomma _ ih =>
    have hmid := (hp i pos hpos).ok a mid h
    have hlast : mid < i.last := hpos.capped.lt_last (by simp [hcomma])
    have hleaves : i.Leaves (mid + 1) n := hpos.ahead (Nat.le_succ_of_le hmid.le) hlast
    obtain ⟨b, rest, mid', rfl, hb, hrest⟩ := ih hleaves
    refine ⟨a, b :: rest, mid, rfl, h, fun n hn => ?_⟩
    obtain ⟨n, rfl⟩ : ∃ m, n = m + 1 := ⟨n - 1, by omega⟩
    have hsome : Runs (maybe (accept .comma) p) i mid (some b) mid' :=
      (runs_accept hcomma).bind (hb.bind (runs_pure i mid' (some b)))
    have hle := ((hp i (mid + 1) hleaves).ok b mid' hb).le
    refine hsome.bind ((hrest n ?_).bind (runs_pure i next _))
    unfold Input.remaining at hn ⊢
    unfold Input.last at hlast
    omega

/-- What reads every item reads the list. -/
theorem Separated.map {f : α → β} (h : Separated p i pos items next)
    (hitem : ∀ pos a mid, Runs p i pos a mid → i.tokenAt mid = .symbol .comma ∨ mid = next → Runs q i pos (f a) mid) :
    Separated q i pos (items.map f) next := by
  induction h with
  | one h hend => exact .one (hitem _ _ _ h (.inr rfl)) hend
  | cons h hcomma _ ih => exact .cons (hitem _ _ _ h (.inl hcomma)) hcomma (ih hitem)

/-- A rule that gives back nothing, or fails. -/
def GivesUp {α : Type} (p : Parse (Option α)) (i : Input) (pos : Nat) : Prop :=
  (∃ next, p i pos = (.ok none, next)) ∨ ∃ fault next, p i pos = (.error fault, next) ∧ fault.isEndless = false

theorem GivesUp.runs {α : Type} {p : Parse (Option α)} (h : GivesUp p i pos) : Runs (attempt p) i pos none pos := by
  unfold Runs attempt
  rcases h with ⟨_, h⟩ | ⟨fault, _, h, hended⟩
  · simp [h]
  · simp [h, hended]

end Parse

/-- Calls, and those forms that read like one: there is no keyword in their parentheses. -/
def Tree.takesWindow : Expr → Bool
  | .function _ | .datetime .. => true
  | .substring _ _ _ _ keywordForm => !keywordForm
  | _ => false

namespace Grammar

variable {inner inner' : Inner} {i : Input} {pos next : Nat} {e : Expr}

/-! ## Arguments -/

/-- No expression starts with a fat arrow. -/
theorem not_runs_level_of_fatArrow (n : Nat) (h : i.tokenAt pos = .symbol .fatArrow) :
    ¬ Runs (Inner.level n).expression i pos e next ∧ ¬ Runs (Inner.level n).negation i pos e next := by
  have hstart : StartsOperand (i.tokenAt pos) := by
    rw [h]
    exact ⟨rfl, rfl, nofun⟩
  have hprimary {inner : Inner} {e : Expr} {next : Nat} : ¬ Runs (primary inner) i pos e next := by
    intro hrun
    have hrun := hrun.behind (runs_peek i pos 0)
    rw [Nat.add_zero, h] at hrun
    cases hrun
  cases n with
  | zero => exact ⟨nofun, nofun⟩
  | succ n =>
    constructor
    · intro hrun
      obtain ⟨_, _, hrun⟩ := exists_runs_primary hrun hstart
      exact hprimary hrun
    · intro hrun
      have hpredicate := Runs.behind (p := acceptNot) hrun hstart.runs_acceptNot
      obtain ⟨_, _, hrun⟩ := exists_runs_primary_of_predicate hpredicate hstart.unaryOp
      exact hprimary hrun

theorem nameOf_isSome {t : Token} (h : isIdentifier t = true) : ∃ name, nameOf t = some name := by
  match t, h with
  | .word w, _ => exact ⟨⟨w, false⟩, rfl⟩
  | .quoted w, _ => exact ⟨⟨w, true⟩, rfl⟩

section

variable {n : Nat} (hname : isIdentifier (i.tokenAt pos) = true) (harrow : i.tokenAt (pos + 1) = .symbol .fatArrow)

include hname harrow

theorem ends_nameExpr_of_fatArrow : Ends (nameExpr inner) i pos fun _ next => next = pos + 1 := by
  intro e next hrun
  obtain ⟨name, hname⟩ := nameOf_isSome hname
  exact (Runs.unique hrun (runs_nameExpr_ident hname (.inl (.inr (.inr harrow))))).2

theorem ends_keywordExpr_of_fatArrow (word : String) :
    Ends (keywordExpr (.level n) word false) i pos fun _ next => next = pos + 1 := by
  have hne : i.tokenAt pos ≠ .eof := fun heof => by simp [heof, isIdentifier] at hname
  have htake (value : Expr) : Ends (takeFor value) i pos fun _ next => next = pos + 1 := .skip_bind hne (.pure rfl)
  have hplain : Ends (plainWord (.level n) word false) i pos fun _ next => next = pos + 1 :=
    .ite (fun hcalled => absurd hcalled Bool.false_ne_true) fun _ =>
      .ite (fun _ => ends_expected _ _) fun _ => ends_nameExpr_of_fatArrow hname harrow
  unfold keywordExpr
  split
  · exact htake _
  · exact htake _
  · exact htake _
  · exact htake _
  · exact htake _
  · exact htake _
  · refine .peek_bind ?_
    rw [harrow]
    exact hplain
  · -- No operand and no branch of a `CASE` starts here.
    refine Ends.bind (P := fun _ mid => mid = pos + 1) (.expectWord fun _ => rfl) fun _ mid hmid => ?_
    obtain rfl := hmid
    have hoperand : Ends (maybe (do return !(← isWord "WHEN")) (Inner.level n).expression) i (pos + 1)
        fun _ _ => False := by
      intro operand next hrun
      have htest : Runs (do return !(← isWord "WHEN")) i (pos + 1) true (pos + 1) :=
        (runs_isWord i (pos + 1) "WHEN").bind (by rw [harrow]; exact runs_pure i _ true)
      have hrun := Runs.behind (p := do return !(← isWord "WHEN")) hrun htest
      obtain ⟨_, _, hexpression, -⟩ := Runs.exists_of_bind hrun
      exact (not_runs_level_of_fatArrow n harrow).1 hexpression
    exact hoperand.bind fun _ _ hfalse => hfalse.elim
  · contradiction
  · contradiction
  · contradiction
  · contradiction
  · contradiction
  · exact hplain

/-- An expression that starts with a name ends in front of a fat arrow. -/
theorem eq_succ_of_fatArrow (h : Runs (Inner.level n).expression i pos e next) : next = pos + 1 := by
  cases n with
  | zero => cases h
  | succ n =>
    have hend : EndsExpression (i.tokenAt (pos + 1)) := .inr (.inr harrow)
    by_cases hnot : (i.tokenAt pos).isKeyword "NOT"
    · obtain ⟨_, _, hand⟩ := Runs.exists_of_chain h
      obtain ⟨_, _, hnegation⟩ := Runs.exists_of_chain hand
      have htaken : Runs acceptNot i pos true (pos + 1) := (runs_acceptWord hnot).bind (runs_pure i _ true)
      have hnegation := Runs.behind (p := acceptNot) hnegation htaken
      obtain ⟨_, _, hoperand, -⟩ := Runs.exists_of_bind hnegation
      exact absurd hoperand (not_runs_level_of_fatArrow n harrow).2
    have hstart : StartsOperand (i.tokenAt pos) := by
      refine ⟨?_, Bool.eq_false_iff.2 hnot, ?_⟩
      · revert hname
        cases i.tokenAt pos <;> simp [isIdentifier, unaryOp]
      · intro hbang
        rw [hbang] at hname
        contradiction
    have hends : Ends (primary (.level n)) i pos fun _ next => next = pos + 1 := by
      refine .current_bind ?_
      cases ht : i.tokenAt pos with
      | quoted _ => exact ends_nameExpr_of_fatArrow hname harrow
      | word word =>
        intro e next hrun
        have hrun := (EndsOperand.wordExpr_apply (.inl hend)).symm.trans hrun
        exact ends_keywordExpr_of_fatArrow hname harrow word e next hrun
      | _ =>
        rw [ht] at hname
        contradiction
    obtain ⟨e', mid, hprimary⟩ := exists_runs_primary h hstart
    obtain rfl := hends e' mid hprimary
    exact (h.unique (runs_expressionOf hprimary hstart hend)).2

end

/-- What is an expression and not a name in front of a fat arrow is an argument. -/
theorem runs_callArg {n : Nat} (h : Runs (Inner.level n).expression i pos e next)
    (hend : i.tokenAt next ≠ .symbol .fatArrow) : Runs (callArg (.level n)) i pos (.positional e) next := by
  have hplain : ¬ (isIdentifier (i.tokenAt (pos + 0)) && decide (i.tokenAt (pos + 1) = .symbol .fatArrow)) = true := by
    rw [Bool.and_eq_true, decide_eq_true_eq, Nat.add_zero]
    rintro ⟨hname, harrow⟩
    obtain rfl := eq_succ_of_fatArrow hname harrow h
    exact hend harrow
  refine (runs_peek i pos 0).bind (Runs.bind (p := peekSymbol 1 .fatArrow) rfl ?_)
  rw [if_neg hplain]
  exact h.bind (runs_pure i next _)

/-- Everything between the parentheses of a call. -/
def callArguments (inner : Inner) : Parse (Option Quantifier × List CallArg) := do
  if ← isSymbol .rparen then
    return (none, [])
  else
    let quantifier ← callQuantifier
    return (quantifier, ← callArgs inner)

/-- What a call carries behind its closing parenthesis. -/
def callEnd (inner : Inner) (name : DottedName) (arguments : Option Quantifier × List CallArg) : Parse Call := do
  let group ← withinGroup inner
  let filter ← callFilter inner
  let nulls ← choose [(["IGNORE", "NULLS"], NullTreatment.ignoreNulls), (["RESPECT", "NULLS"], .respectNulls)]
  let overWindow ← maybe (acceptWord "OVER") (window inner)
  return .call name arguments.1 (.ofList arguments.2) (.ofList group) (.ofOption filter) nulls (.ofOption overWindow)

theorem callOf_eq (name : DottedName) : callOf inner name = (do
    expect .lparen
    let arguments ← callArguments inner
    expect .rparen
    callEnd inner name arguments) := rfl

theorem passes_callArguments {n : Nat} (h : inner.Walks n) : Passes n [] (callArguments inner) :=
  .look (.isSymbol _) fun _ => .ite (.done _) (.bind steps_callQuantifier fun _ => .map (takes_callArgs h))

theorem tracks_callArguments {f : Fence} {u : List Symbol} (hstop : f.Alike) (hinner : inner.Tracks f inner') :
    Tracks f u (callArguments inner) (callArguments inner') := by
  have hquantifier : Firm f u callQuantifier := by
    refine (firm_acceptWord _).bind fun _ => .ite (.pure _) fun pos hat => ?_
    refine .isWord hat (.ite (fun hall => .peek ?_) fun _ => .of hat (.pure none))
    have hbefore := hat.before_of_isKeyword hall
    rw [hstop.tokenAt_eq (hbefore.next_isKeyword hall)]
    split
    · exact .of hat (.pure none)
    · exact .of hat (.pure none)
    · exact .skip hbefore rfl (Token.nest_of_isKeyword hall _) fun hat => .of hat (.pure _)
  intro pos hat
  refine .ask rfl rfl (by rw [Nat.add_zero, hstop.tokenAt_eq hat, Nat.add_zero]) ?_
  exact .ite (fun _ => .of hat (.pure _)) fun _ => .of hat (hquantifier.bind fun _ => (tracks_callArgs hinner).map)

theorem exists_of_callOf {name : DottedName} {call : Call} (hrun : Runs (callOf inner name) i pos call next) :
    ∃ arguments stop, i.tokenAt pos = .symbol .lparen ∧ Runs (callArguments inner) i (pos + 1) arguments stop ∧
      i.tokenAt stop = .symbol .rparen ∧ Runs (callEnd inner name arguments) i (stop + 1) call next := by
  rw [callOf_eq] at hrun
  obtain ⟨_, _, hexpect, hrun⟩ := Runs.exists_of_bind hrun
  obtain ⟨hopen, rfl⟩ := eq_of_runs_expect hexpect
  obtain ⟨arguments, stop, harguments, hrun⟩ := Runs.exists_of_bind hrun
  obtain ⟨_, mid, hexpect', hend⟩ := Runs.exists_of_bind hrun
  obtain ⟨hclose, rfl⟩ := eq_of_runs_expect hexpect'
  exact ⟨arguments, stop, hopen, harguments, hclose, hend⟩

/-! ## Names -/

theorem nameOf_token (name : Ident) : nameOf name.token = some name := by
  obtain ⟨text, quoted⟩ := name
  cases quoted <;> rfl

theorem runs_nameStep_part {name : Ident} (hdot : i.tokenAt pos = .symbol .dot) (hname : i.tokenAt (pos + 1) = name.token) :
    Runs nameStep i pos (some (.part name)) (pos + 2) := by
  have hident : nameOf (i.tokenAt (pos + 1)) = some name := hname ▸ nameOf_token name
  refine (runs_isSymbol i pos .dot).bind ?_
  rw [decide_eq_true hdot, if_pos rfl]
  refine (runs_peek i pos 1).bind ?_
  have hrest : Runs (skip >>= fun _ => do return some (NameStep.part (← identifier))) i pos (some (.part name)) (pos + 2) :=
    (runs_skip (by simp [hdot])).bind ((runs_identifier hident).bind (runs_pure i _ _))
  rw [hname, Ident.token]
  obtain ⟨text, quoted⟩ := name
  cases quoted <;> exact hrest

/-- A name in front of a parenthesis. -/
theorem runs_names {j : Input} {n m : Nat} {path path' : NamePath} (hnm : n ≤ m)
    (hsame : ∀ k ≤ next, j.tokenAt k = i.tokenAt k) (hopen : i.tokenAt next = .symbol .lparen)
    (hstar : path'.starred = false) (h : Runs (iterateUpTo extendName n path) i pos path' next) :
    pos ≤ next ∧ Runs (iterateUpTo extendName m path) j pos path' next := by
  induction n generalizing m pos path with
  | zero => cases h
  | succ n ih =>
    obtain ⟨m, rfl⟩ : ∃ k, m = k + 1 := ⟨m - 1, by omega⟩
    obtain ⟨longer, mid, hextend, hrest⟩ := Runs.exists_of_bind h
    by_cases hstarred : path.starred
    · rw [extendName, if_pos hstarred] at hextend
      cases hextend
      cases hrest
      simp [hstar] at hstarred
    rw [extendName, if_neg hstarred] at hextend
    obtain ⟨step, mid', hname, hstep⟩ := Runs.exists_of_bind hextend
    clear hextend
    obtain ⟨hnone, hstarStep, hpart⟩ := ends_nameStep step mid' hname
    match step with
    | none =>
      cases hstep
      obtain ⟨rfl, rfl⟩ := (runs_pure i mid path).unique hrest
      rw [hnone rfl] at hopen hsame ⊢
      have hnext : Runs nameStep j pos none pos := by
        refine (runs_isSymbol j pos .dot).bind ?_
        rw [hsame pos (Nat.le_refl _), hopen]
        exact runs_pure j pos none
      refine ⟨Nat.le_refl _, Runs.bind (p := extendName path) (a := none) ?_ (runs_pure j pos path)⟩
      rw [extendName, if_neg hstarred]
      exact hnext.bind (runs_pure j pos none)
    | some .star =>
      cases hstep
      cases n with
      | zero => cases hrest
      | succ n =>
        cases hrest
        cases hstar
    | some (.part name) =>
      obtain ⟨hdot, hident, rfl⟩ := hpart name rfl
      cases hstep
      obtain ⟨hle, hrest⟩ := ih (Nat.le_of_succ_le_succ hnm) hrest
      have hdot : j.tokenAt pos = .symbol .dot := (hsame pos (by omega)).trans hdot
      have hident : j.tokenAt (pos + 1) = name.token := (hsame (pos + 1) (by omega)).trans hident
      refine ⟨by omega, Runs.bind (p := extendName path) (a := some _) ?_ hrest⟩
      rw [extendName, if_neg hstarred]
      exact (runs_nameStep_part hdot hident).bind (runs_pure j _ _)

/-- A name with a parenthesis right behind it. -/
theorem runs_path_of_open {first : Ident} (hopen : i.tokenAt (pos + 1) = .symbol .lparen) :
    Runs (iterate extendName ⟨[first], false⟩) i (pos + 1) ⟨[first], false⟩ (pos + 1) := by
  refine runs_iterate_none (Runs.bind (p := nameStep) (a := none) ?_ (runs_pure i _ none))
  refine (runs_isSymbol i (pos + 1) .dot).bind ?_
  rw [hopen]
  exact runs_pure i _ none

theorem ends_bareName_isCall (parts : List Ident) : Ends (bareName inner parts) i pos fun e _ => e.isCall = false := by
  match parts with
  | [] => exact .pure rfl
  | [name] => exact .step fun found _ => .ite (fun _ => .step fun _ _ => .pure rfl) fun _ => .pure rfl
  | _ :: _ :: _ => exact .pure rfl

theorem exists_of_nameExpr {call : Call} (hrun : Runs (nameExpr inner) i pos (.function call) next) :
    ∃ first path q, i.tokenAt pos = first.token ∧ Runs (iterate extendName ⟨[first], false⟩) i (pos + 1) path q ∧
      path.starred = false ∧ i.tokenAt q = .symbol .lparen ∧ Runs (callOf inner ⟨path.parts⟩) i q call next := by
  obtain ⟨first, mid, hidentifier, hrun⟩ := Runs.exists_of_bind hrun
  obtain ⟨hfirst, rfl⟩ := ends_identifier first mid hidentifier
  obtain ⟨path, q, hpath, hrun⟩ := Runs.exists_of_bind hrun
  by_cases hstarred : path.starred = true
  · rw [if_pos hstarred] at hrun
    cases hrun
  rw [if_neg hstarred] at hrun
  have hrun := Runs.behind (p := isSymbol .lparen) hrun (runs_isSymbol i q .lparen)
  by_cases hopen : i.tokenAt q = .symbol .lparen
  · rw [decide_eq_true hopen, if_pos rfl] at hrun
    obtain ⟨_, _, hcall, hend⟩ := Runs.exists_of_bind hrun
    cases hend
    exact ⟨first, path, q, hfirst, hpath, Bool.eq_false_iff.2 hstarred, hopen, hcall⟩
  · rw [decide_eq_false hopen, if_neg Bool.false_ne_true] at hrun
    exact nomatch ends_bareName_isCall path.parts _ _ hrun

/-! ## Forms of their own

All of them are a name and something in parentheses, and those that resemble an ordinary call look behind the closing
parenthesis. -/

/-- A name, and a form in parentheses behind it. -/
def formOf (body : Parse (Option Expr)) : Parse (Option Expr) := do
  skip
  expect .lparen
  match ← body with
  | none => return none
  | some e =>
    expect .rparen
    if e.isCall then unlessSuffix e else return some e

def substringBody (name : String) (inner : Inner) : Parse (Option Expr) := do
  let source ← inner.expression
  match ← substringRange inner with
  | none => return none
  | some (start, length, keywordForm) => return some (.substring name source start (.ofOption length) keywordForm)

def trimBody (inner : Inner) : Parse (Option Expr) := do
  let side ← choose [(["BOTH"], TrimSide.both), (["LEADING"], .leading), (["TRAILING"], .trailing)]
  match ← trimOperands inner side with
  | none => return none
  | some (characters, source) => return some (.trim side (.ofOption characters) source)

def positionBody (inner : Inner) : Parse (Option Expr) := do
  let needle ← comparison inner.unary
  maybe (acceptWord "IN") do return .position needle (← inner.expression)

def overlayBody (inner : Inner) : Parse (Option Expr) := do
  let target ← inner.expression
  maybe (acceptWord "PLACING") do
    let placing ← inner.expression
    expectWord "FROM"
    let start ← inner.expression
    let length ← maybe (acceptWord "FOR") inner.expression
    return .overlay target placing start (.ofOption length)

def firstLastBody (last : Bool) (inner : Inner) : Parse (Option Expr) := do
  let operand ← inner.expression
  maybe (acceptWords ["IGNORE", "NULLS"]) (return .firstLast last operand true)

def datetimeBody (name : String) (inner : Inner) : Parse (Option Expr) := do
  match ← datetimeUnit with
  | none => return none
  | some unit => return some (.datetime name unit (.ofList (← expressions inner)))

/-- What a form reads between its parentheses. -/
inductive FormBody : (Inner → Parse (Option Expr)) → Prop
  | substring (name : String) : FormBody (substringBody name)
  | trim : FormBody trimBody
  | position : FormBody positionBody
  | overlay : FormBody overlayBody
  | firstLast (last : Bool) : FormBody (firstLastBody last)
  | datetime (name : String) : FormBody (datetimeBody name)

theorem substringForm_eq (name : String) : substringForm inner name = formOf (substringBody name inner) := by
  unfold substringForm formOf substringBody
  simp only [bind_assoc]
  refine bind_congr fun _ => bind_congr fun _ => bind_congr fun _ => bind_congr fun range => ?_
  cases range <;> rfl

theorem trimForm_eq : trimForm inner = formOf (trimBody inner) := by
  unfold trimForm formOf trimBody
  simp only [bind_assoc]
  refine bind_congr fun _ => bind_congr fun _ => bind_congr fun _ => bind_congr fun operands => ?_
  cases operands <;> rfl

theorem positionForm_eq : positionForm inner = formOf (positionBody inner) := by
  unfold positionForm formOf positionBody maybe
  simp only [bind_assoc]
  refine bind_congr fun _ => bind_congr fun _ => bind_congr fun _ => bind_congr fun found => ?_
  cases found <;> simp [Tree.isCall]

theorem overlayForm_eq : overlayForm inner = formOf (overlayBody inner) := by
  unfold overlayForm formOf overlayBody
  simp only [bind_assoc, maybe]
  refine bind_congr fun _ => bind_congr fun _ => bind_congr fun _ => bind_congr fun found => ?_
  cases found <;> simp [Tree.isCall]

theorem firstLastForm_eq (last : Bool) : firstLastForm inner last = formOf (firstLastBody last inner) := by
  unfold firstLastForm formOf firstLastBody maybe
  simp only [bind_assoc]
  refine bind_congr fun _ => bind_congr fun _ => bind_congr fun _ => bind_congr fun found => ?_
  cases found <;> simp [Tree.isCall]

theorem datetimeForm_eq (name : String) : datetimeForm inner name = formOf (datetimeBody name inner) := by
  unfold datetimeForm formOf datetimeBody
  simp only [bind_assoc]
  refine bind_congr fun _ => bind_congr fun _ => bind_congr fun unit => ?_
  cases unit <;> simp [Tree.isCall]

theorem exists_formBody (word : String) : (∀ inner, specialForm inner word = pure none) ∨
    ∃ body, FormBody body ∧ ∀ inner, specialForm inner word = attempt (formOf (body inner)) := by
  unfold specialForm
  split
  · exact .inr ⟨_, .substring _, fun _ => congrArg attempt (substringForm_eq _)⟩
  · exact .inr ⟨_, .substring _, fun _ => congrArg attempt (substringForm_eq _)⟩
  · exact .inr ⟨_, .trim, fun _ => congrArg attempt trimForm_eq⟩
  · exact .inr ⟨_, .position, fun _ => congrArg attempt positionForm_eq⟩
  · exact .inr ⟨_, .overlay, fun _ => congrArg attempt overlayForm_eq⟩
  · exact .inr ⟨_, .firstLast false, fun _ => congrArg attempt (firstLastForm_eq _)⟩
  · exact .inr ⟨_, .firstLast true, fun _ => congrArg attempt (firstLastForm_eq _)⟩
  · split
    · exact .inr ⟨_, .datetime _, fun _ => congrArg attempt (datetimeForm_eq _)⟩
    · exact .inl fun _ => rfl

theorem FormBody.tracks {body : Inner → Parse (Option Expr)} {e : Fence} {u : List Symbol} (h : FormBody body)
    (hinner : inner.Tracks e inner') : Tracks e u (body inner) (body inner') := by
  cases h with
  | substring name =>
    refine hinner.expression.bind fun _ => (tracks_substringRange hinner).bind fun range => ?_
    cases range with
    | none => exact .pure none
    | some range => exact .pure _
  | trim =>
    refine (firm_choose _).bind fun side => (tracks_trimOperands hinner side).bind fun operands => ?_
    cases operands with
    | none => exact .pure none
    | some operands => exact .pure _
  | position => exact (tracks_comparison hinner.unary).bind fun _ => .maybe (firm_acceptWord _) hinner.expression.map
  | overlay =>
    refine hinner.expression.bind fun _ => .maybe (firm_acceptWord _) ?_
    refine hinner.expression.bind fun _ => (firm_expectWord _).bind fun _ => ?_
    exact hinner.expression.bind fun _ => (Echoes.maybe (firm_acceptWord _) hinner.expression).map
  | firstLast last => exact hinner.expression.bind fun _ => .maybe (firm_acceptWords _) (.pure _)
  | datetime name =>
    refine firm_datetimeUnit.bind fun unit => ?_
    cases unit with
    | none => exact .pure none
    | some unit => exact (tracks_expressions hinner).map

theorem FormBody.passes {body : Inner → Parse (Option Expr)} {n : Nat} (h : FormBody body) (hinner : inner.Walks n) :
    Passes n [] (body inner) := by
  cases h with
  | substring name =>
    refine .bind hinner.expression fun _ => .bind (passes_substringRange hinner) fun range => ?_
    cases range with
    | none => exact .done _
    | some range => exact .done _
  | trim =>
    refine .bind (steps_choose rfl) fun side => .bind (passes_trimOperands hinner side) fun operands => ?_
    cases operands with
    | none => exact .done _
    | some operands => exact .done _
  | position =>
    have hsource := hinner.expression.passes
    exact .bind (takes_comparison hinner.unary) fun _ => (steps_maybe (tests_acceptWord _) (.mapPasses hsource)).passes
  | overlay =>
    refine .bind hinner.expression fun _ => (steps_maybe (tests_acceptWord _) ?_).passes
    refine .bind hinner.expression fun _ => .bind (takes_expectWord _) fun _ => ?_
    refine .bind hinner.expression fun _ => .mapPasses ?_
    exact (steps_maybe (tests_acceptWord _) hinner.expression.passes).passes
  | firstLast last => exact .bind hinner.expression fun _ => (steps_maybe (tests_acceptWords rfl) (.done _)).passes
  | datetime name =>
    refine .bind steps_datetimeUnit fun unit => ?_
    cases unit with
    | none => exact .done _
    | some unit => exact .mapPasses (takes_expressions hinner).passes

/-- The forms that resemble an ordinary call, with what is read between their parentheses. -/
inductive FormCall : (Inner → Parse (Option Expr)) → Expr → Prop
  | substring (name : String) (source start : Expr) (length : Tree (.option .expr)) (keywordForm : Bool) :
      FormCall (substringBody name) (.substring name source start length keywordForm)
  | firstLast (last : Bool) (operand : Expr) : FormCall (firstLastBody last) (.firstLast last operand true)
  | datetime (name unit : String) (args : Tree (.list .expr)) : FormCall (datetimeBody name) (.datetime name unit args)

theorem FormBody.formCall {body : Inner → Parse (Option Expr)} (hbody : FormBody body)
    (hrun : Runs (body inner) i pos (some e) next) (hcall : e.isCall = true) : FormCall body e := by
  suffices hends : Ends (body inner) i pos fun value _ => ∀ e ∈ value, e.isCall = true → FormCall body e from
    hends _ _ hrun e rfl hcall
  have hnone {pos : Nat} : Ends (pure none) i pos fun value _ => ∀ e ∈ value, e.isCall = true → FormCall body e :=
    .pure nofun
  have hsome {pos : Nat} {e : Expr} (he : e.isCall = true → FormCall body e) :
      Ends (pure (some e)) i pos fun value _ => ∀ e ∈ value, e.isCall = true → FormCall body e :=
    .pure fun _ hmem => Option.some.inj hmem ▸ he
  cases hbody with
  | substring name =>
    refine .step fun source _ => .step fun range _ => ?_
    cases range with
    | none => exact hnone
    | some range => exact hsome fun _ => .substring ..
  | trim =>
    refine .step fun _ _ => .step fun operands _ => ?_
    cases operands with
    | none => exact hnone
    | some operands => exact hsome nofun
  | position =>
    refine .step fun needle _ => .step fun found _ => .ite (fun _ => ?_) fun _ => hnone
    exact Ends.bind (P := fun e _ => e.isCall = false) (.step fun _ _ => .pure rfl) fun e _ hfalse => hsome (by simp [hfalse])
  | overlay =>
    refine .step fun _ _ => .step fun found _ => .ite (fun _ => ?_) fun _ => hnone
    refine Ends.bind (P := fun e _ => e.isCall = false) ?_ fun e _ hfalse => hsome (by simp [hfalse])
    exact .step fun _ _ => .step fun _ _ => .step fun _ _ => .step fun _ _ => .pure rfl
  | firstLast last =>
    refine .step fun operand _ => .step fun found _ => .ite (fun _ => ?_) fun _ => hnone
    exact Ends.bind (P := fun e _ => e = .firstLast last operand true) (.pure rfl) fun e _ he => hsome fun _ => he ▸ .firstLast ..
  | datetime name =>
    refine .step fun unit _ => ?_
    cases unit with
    | none => exact hnone
    | some unit => exact .step fun args _ => hsome fun _ => .datetime ..

/-- The end of a form, behind what stands in its parentheses. -/
def formEnd : Option Expr → Parse (Option Expr)
  | none => return none
  | some e => do
    expect .rparen
    if e.isCall then unlessSuffix e else return some e

theorem formOf_apply {word : String} (hword : i.tokenAt pos = .word word) (hopen : i.tokenAt (pos + 1) = .symbol .lparen)
    (body : Parse (Option Expr)) : formOf body i pos = (body >>= formEnd) i (pos + 2) := by
  have hformOf : formOf body = skip >>= fun _ => expect .lparen >>= fun _ => body >>= formEnd := by
    refine bind_congr fun _ => bind_congr fun _ => bind_congr fun e => ?_
    cases e <;> rfl
  have hskip : skip i pos = (.ok (), pos + 1) := runs_skip (by simp [hword])
  have hexpect : expect .lparen i (pos + 1) = (.ok (), pos + 2) := runs_expect hopen
  rw [hformOf]
  simp only [Bind.bind, hskip, hexpect]

theorem exists_of_specialForm {word : String} (hword : i.tokenAt pos = .word word)
    (hopen : i.tokenAt (pos + 1) = .symbol .lparen) (hrun : Runs (specialForm inner word) i pos (some e) next)
    (hcall : e.isCall = true) : ∃ body stop, FormBody body ∧ Runs (body inner) i (pos + 2) (some e) stop ∧
      i.tokenAt stop = .symbol .rparen ∧ next = stop + 1 := by
  rcases exists_formBody word with hnone | ⟨body, hbody, hform⟩
  · rw [hnone] at hrun
    cases hrun
  rw [hform] at hrun
  have hrun : Runs (formOf (body inner)) i pos (some e) next := by
    unfold Runs attempt at hrun
    split at hrun
    · cases hrun
      assumption
    · cases hrun
    · split at hrun <;> cases hrun
  have hrun := (formOf_apply hword hopen _).symm.trans hrun
  obtain ⟨value, stop, hvalue, hend⟩ := Runs.exists_of_bind hrun
  cases value with
  | none => cases hend
  | some value =>
    obtain ⟨_, _, hexpect, hend⟩ := Runs.exists_of_bind hend
    obtain ⟨hclose, rfl⟩ := eq_of_runs_expect hexpect
    by_cases hvalueCall : value.isCall = true
    · rw [if_pos hvalueCall] at hend
      obtain ⟨found, hfound⟩ := looks_isCallSuffix i (stop + 1)
      have hend := Runs.behind (p := isCallSuffix) hend hfound
      cases found with
      | true => cases hend
      | false =>
        cases hend
        exact ⟨body, stop, hbody, hvalue, hclose, rfl⟩
    · rw [if_neg hvalueCall] at hend
      cases hend
      contradiction

theorem eq_of_runs_specialForm_none {word : String} (hrun : Runs (specialForm inner word) i pos none next) : next = pos := by
  rcases exists_formBody word with hnone | ⟨body, -, hform⟩
  · rw [hnone] at hrun
    cases hrun
    rfl
  · rw [hform] at hrun
    unfold Runs attempt at hrun
    split at hrun
    · cases hrun
    · cases hrun
      rfl
    · split at hrun
      · cases hrun
      · cases hrun
        rfl

/-! ## Words -/

/-- The word is read as a name or as a call. -/
structure IsPlain (i : Input) (pos : Nat) (word : String) (called : Bool) : Prop where
  interval : Text.upper word = "INTERVAL" → startsInterval (i.tokenAt (pos + 1)) = false
  not_case : Text.upper word ≠ "CASE"
  called_form : called = true → Text.upper word ∉ ["CAST", "TRY_CAST", "EXTRACT", "STRUCT"]
  called_exists : called = true → Text.upper word = "EXISTS" → queryAhead 1 i pos = (.ok false, pos)
  not_called : called = false →
    Text.upper word ∉ ["NULL", "TRUE", "FALSE", "CURRENT_DATE", "CURRENT_TIMESTAMP", "CURRENT_USER"]

theorem IsPlain.apply {word : String} {called : Bool} (h : IsPlain i pos word called) :
    keywordExpr inner word called i pos = plainWord inner word called i pos := by
  obtain ⟨hinterval, hcase, hform, hexists, hvalue⟩ := h
  generalize hp : keywordExpr inner word called = p
  unfold keywordExpr at hp
  split at hp
  · rename_i heq
    exact absurd (hvalue rfl) (by simp [heq])
  · rename_i heq
    exact absurd (hvalue rfl) (by simp [heq])
  · rename_i heq
    exact absurd (hvalue rfl) (by simp [heq])
  · rename_i heq
    exact absurd (hvalue rfl) (by simp [heq])
  · rename_i heq
    exact absurd (hvalue rfl) (by simp [heq])
  · rename_i heq
    exact absurd (hvalue rfl) (by simp [heq])
  · rename_i heq
    rw [← hp]
    refine (bind_apply (runs_peek i pos 1)).trans ?_
    rw [hinterval heq, if_neg Bool.false_ne_true]
  · rename_i heq
    exact absurd heq hcase
  · rename_i heq
    exact absurd (hform rfl) (by simp [heq])
  · rename_i heq
    exact absurd (hform rfl) (by simp [heq])
  · rename_i heq
    exact absurd (hform rfl) (by simp [heq])
  · rename_i heq
    rw [← hp]
    exact (bind_apply (hexists rfl heq)).trans rfl
  · rename_i heq
    exact absurd (hform rfl) (by simp [heq])
  · rw [← hp]

theorem ends_keywordExpr_isCall (word : String) (called : Bool) :
    Ends (keywordExpr inner word called) i pos fun e next =>
      e.isCall = true → IsPlain i pos word called ∧ Runs (plainWord inner word called) i pos e next := by
  have hnever {p : Parse Expr} (hp : Ends p i pos fun e _ => e.isCall = false) : Ends p i pos fun e next =>
      e.isCall = true → IsPlain i pos word called ∧ Runs (plainWord inner word called) i pos e next :=
    hp.mono fun e _ hfalse htrue => by simp [hfalse] at htrue
  have htake (value : Expr) (hvalue : value.isCall = false) : Ends (takeFor value) i pos fun e _ => e.isCall = false :=
    .step fun _ _ => .pure hvalue
  unfold keywordExpr
  split
  · exact hnever (htake _ rfl)
  · exact hnever (htake _ rfl)
  · exact hnever (htake _ rfl)
  · exact hnever (htake _ rfl)
  · exact hnever (htake _ rfl)
  · exact hnever (htake _ rfl)
  · rename_i heq
    refine .peek_bind (.ite (fun _ => hnever ?_) fun hno e next hrun _ => ⟨?_, hrun⟩)
    · refine .step fun _ _ => .step fun _ _ => .ite (fun _ => ends_expected _ _) fun _ => .step fun _ _ => .pure rfl
    · exact ⟨fun _ => Bool.eq_false_iff.2 hno, by simp [heq], by simp [heq], by simp [heq], by simp [heq]⟩
  · refine hnever (.step fun _ _ => .step fun _ _ => .step fun _ _ => .ite (fun _ => ends_expected _ _) fun _ => ?_)
    exact .step fun _ _ => .step fun _ _ => .pure rfl
  · exact hnever (.step fun _ _ => .step fun _ _ => .step fun _ _ => .step fun _ _ => .step fun _ _ => .step fun _ _ => .pure rfl)
  · exact hnever (.step fun _ _ => .step fun _ _ => .step fun _ _ => .step fun _ _ => .step fun _ _ => .step fun _ _ => .pure rfl)
  · exact hnever (.step fun _ _ => .step fun _ _ => .step fun _ _ => .step fun _ _ => .step fun _ _ => .step fun _ _ => .pure rfl)
  · rename_i heq
    obtain ⟨found, hfound⟩ := looks_queryAhead 1 i pos
    intro e next hrun
    have hrun := Runs.behind (p := queryAhead 1) hrun hfound
    cases found with
    | true =>
      rw [if_pos rfl] at hrun
      exact hnever (.step fun _ _ => .step fun _ _ => .pure rfl) e next hrun
    | false => exact fun _ => ⟨⟨by simp [heq], by simp [heq], by simp [heq], fun _ _ => hfound, nofun⟩, hrun⟩
  · exact hnever (.step fun _ _ => .step fun _ _ => .step fun _ _ => .pure rfl)
  · intro e next hrun _
    refine ⟨⟨?_, ?_, ?_, ?_, ?_⟩, hrun⟩ <;> intros <;> simp_all

theorem ends_parenExpr_isCall : Ends (parenExpr inner) i pos fun e _ => e.isCall = false := by
  have hrow : ∀ pos, Ends (rowOrParen inner) i pos fun e _ => e.isCall = false := fun _ =>
    .step fun _ _ => .step fun _ _ => .step fun _ _ => .step fun _ _ => .ite
      (fun _ => .step fun _ _ => .pure rfl) fun _ => .step fun _ _ => .step fun _ _ => .pure rfl
  have hlambda : ∀ pos, Ends (lambdaOrRow inner) i pos fun e _ => e.isCall = false := fun _ =>
    .step fun params _ => by
      cases params with
      | none => exact hrow _
      | some params => exact .step fun _ _ => .pure rfl
  refine .step fun _ _ => .ite (fun _ => hlambda _) fun _ => .step fun _ _ => .ite (fun _ => ?_) fun _ => ?_
  · refine .step fun query _ => ?_
    cases query with
    | none => exact hlambda _
    | some query => exact .pure rfl
  · exact .step fun _ _ => .pure rfl

/-- A call starts with a name. -/
theorem ends_primary_isCall : Ends (primary inner) i pos fun e next => e.isCall = true →
    (∃ w, i.tokenAt pos = .quoted w ∧ Runs (nameExpr inner) i pos e next) ∨
    ∃ word, i.tokenAt pos = .word word ∧ Runs (wordExpr inner word) i pos e next := by
  have hnever {p : Parse Expr} {Q : Expr → Nat → Prop} (hp : Ends p i pos fun e _ => e.isCall = false) :
      Ends p i pos fun e next => e.isCall = true → Q e next :=
    hp.mono fun e _ hfalse htrue => by simp [hfalse] at htrue
  refine .current_bind ?_
  split
  · exact hnever (.step fun _ _ => .pure rfl)
  · exact hnever (.step fun _ _ => .pure rfl)
  · exact hnever (.step fun _ _ => .pure rfl)
  · exact hnever ends_parenExpr_isCall
  · rename_i w hw
    exact fun e next hrun _ => .inl ⟨w, hw, hrun⟩
  · rename_i w hw
    exact fun e next hrun _ => .inr ⟨w, hw, hrun⟩
  · exact ends_expected _ _

/-- A word in front of what makes it a call or not. -/
theorem exists_of_wordExpr {word : String} (hrun : Runs (wordExpr inner word) i pos e next) (hcall : e.isCall = true) :
    ∃ called, (called = true ↔ i.tokenAt (pos + 1) = .symbol .lparen) ∧ IsPlain i pos word called ∧
      Runs (plainWord inner word called) i pos e next ∧
      ∀ (inner' : Inner) (j : Input), j.tokenAt (pos + 1) = i.tokenAt (pos + 1) →
        wordExpr inner' word j pos = keywordExpr inner' word called j pos := by
  by_cases htyped : ∃ value, i.tokenAt (pos + 1) = .string value
  · obtain ⟨value, hvalue⟩ := htyped
    have hword (inner' : Inner) (j : Input) : wordExpr inner' word j pos = _ := bind_apply (runs_peek j pos 1)
    have hrun := (hword inner i).symm.trans hrun
    simp only [hvalue] at hrun
    by_cases hmem : Text.upper word ∈ typedLiteralWords
    · rw [if_pos hmem] at hrun
      have hfalse : Ends (skipBy 2 >>= fun _ => pure (Tree.typedLiteral (Text.upper word) value)) i pos
        fun e _ => e.isCall = false := .step fun _ _ => .pure rfl
      simp [hfalse e next hrun] at hcall
    · rw [if_neg hmem] at hrun
      obtain ⟨hplain, hrun⟩ := ends_keywordExpr_isCall word false e next hrun hcall
      refine ⟨false, by simp [hvalue], hplain, hrun, fun inner' j hsame => ?_⟩
      rw [hword, hsame, hvalue]
      simp only [if_neg hmem]
  · have hnot {j : Input} (hsame : j.tokenAt (pos + 1) = i.tokenAt (pos + 1)) (value : String) :
        j.tokenAt (pos + 1) ≠ .string value := fun hvalue => htyped ⟨value, hsame ▸ hvalue⟩
    have hrun := (wordExpr_apply (hnot rfl)).symm.trans hrun
    obtain ⟨hplain, hrun⟩ := ends_keywordExpr_isCall word _ e next hrun hcall
    refine ⟨_, decide_eq_true_iff, hplain, hrun, fun inner' j hsame => ?_⟩
    rw [wordExpr_apply (hnot hsame), hsame]

/-! ## Forms as calls -/

theorem runs_callQuantifier_none {word : String} (hword : i.tokenAt pos = .word word)
    (hdistinct : Text.upper word ≠ "DISTINCT") (hall : Text.upper word ≠ "ALL") : Runs callQuantifier i pos none pos := by
  have hno {keyword : String} (hupper : Text.upper keyword = keyword) (hne : Text.upper word ≠ keyword) :
      (i.tokenAt pos).isKeyword keyword = false := by
    rw [hword, Token.isKeyword, hupper]
    exact decide_eq_false hne
  refine (runs_acceptWord_false (by simp [hno (by decide +kernel) hdistinct])).bind ?_
  refine Runs.bind (runs_isWord i pos "ALL") ?_
  rw [hno (by decide +kernel) hall]
  exact runs_pure i pos none

theorem ends_datetimeUnit : Ends datetimeUnit i pos fun unit next => unit.isSome = true →
    (∃ word, i.tokenAt pos = .word word ∧ Text.upper word ∈ datetimeUnits) ∧ i.tokenAt (pos + 1) = .symbol .comma ∧
      next = pos + 2 := by
  intro unit next hrun hsome
  obtain ⟨w, mid, hw, hrest⟩ := Runs.exists_of_bind (p := currentWord) hrun
  cases w with
  | none =>
    cases hrest
    contradiction
  | some w =>
    obtain ⟨word, hword⟩ := (ends_currentWord _ _ hw).2 rfl
    obtain ⟨hupper, rfl⟩ := (runs_currentWord hword).unique hw
    cases hupper
    have hpeek : Runs (peekSymbol 1 .comma) i pos (decide (i.tokenAt (pos + 1) = .symbol .comma)) pos := rfl
    have hrest := Runs.behind (p := peekSymbol 1 .comma) hrest hpeek
    split at hrest
    · rename_i hunit
      rw [Bool.and_eq_true, decide_eq_true_eq, decide_eq_true_eq] at hunit
      obtain ⟨_, _, hskip, hend⟩ := Runs.exists_of_bind hrest
      cases hend
      have htwo := ends_skipBy_two (by simp [hword]) (by simp [hunit.2]) () next hskip
      exact ⟨⟨word, hword, hunit.1⟩, hunit.2, htwo⟩
    · cases hrest
      contradiction

/-- No closing parenthesis comes first where something is read. -/
theorem ne_closing_of_nests (h : i.Nests [] pos [] next) (hlt : pos < next) : i.tokenAt pos ≠ .symbol .rparen := by
  intro hclose
  cases h with
  | nil => exact Nat.lt_irrefl _ hlt
  | token _ hnest _ =>
    rw [hclose] at hnest
    contradiction

theorem callArguments_apply (hquantifier : callQuantifier i pos = (.ok none, pos))
    (hclose : i.tokenAt pos ≠ .symbol .rparen) :
    callArguments inner i pos = (do return (none, ← callArgs inner) : Parse (Option Quantifier × List CallArg)) i pos := by
  refine (bind_apply (runs_isSymbol i pos .rparen)).trans ?_
  rw [decide_eq_false hclose, if_neg Bool.false_ne_true]
  exact bind_apply hquantifier

section

variable {n stop : Nat} (hpos : i.Leaves pos n)

include hpos

theorem ne_closing_of_runs {α : Type} {p : Parse α} {a : α} (hp : Parse.Takes n [] p) (hrun : Runs p i pos a next) :
    i.tokenAt pos ≠ .symbol .rparen := by
  have hmoved := (hp i pos hpos).ok a next hrun
  exact ne_closing_of_nests (hmoved.nests trivial) (hmoved.lt trivial)

theorem runs_callArguments_of_separated {items : List CallArg} (h : Separated (callArg (.level n)) i pos items stop)
    (hquantifier : callQuantifier i pos = (.ok none, pos)) :
    Runs (callArguments (.level n)) i pos (none, items) stop := by
  have hargs := h.runs (takes_callArg (Inner.walks_level n)) hpos
  have hclose := ne_closing_of_runs hpos (takes_callArgs (Inner.walks_level n)) hargs
  exact (callArguments_apply hquantifier hclose).trans (Runs.bind (p := callArgs _) hargs (runs_pure i _ _))

/-- A unit is a column, so a unit with expressions behind it is a list of arguments. -/
theorem exists_runs_callArguments_of_datetime {name : String} (hclose : i.tokenAt stop = .symbol .rparen)
    (hrun : Runs (datetimeBody name (.level n)) i pos (some e) stop) :
    ∃ arguments, Runs (callArguments (.level n)) i pos arguments stop := by
  obtain ⟨unit, mid, hunit, hrest⟩ := Runs.exists_of_bind (p := datetimeUnit) hrun
  cases unit with
  | none => cases hrest
  | some unit =>
    obtain ⟨⟨word, hword, hmem⟩, hcomma, rfl⟩ := ends_datetimeUnit _ _ hunit rfl
    obtain ⟨args, _, hargs, hend⟩ := Runs.exists_of_bind hrest
    cases hend
    have hunits : ∀ u ∈ datetimeUnits, u ∉ formWords ∧ u ∉ reservedInExpr ∧ u ≠ "DISTINCT" ∧ u ≠ "ALL" ∧
      u ≠ Text.upper "NOT" := by decide +kernel
    obtain ⟨hform, hreserved, hdistinct, hall, hnot⟩ := hunits _ hmem
    have hfirst : Runs (Inner.level n).expression i pos (.ident ⟨word, false⟩) (pos + 1) := by
      obtain ⟨n, rfl⟩ : ∃ k, n = k + 1 := ⟨n - 1, by have := hpos.lt; omega⟩
      have hend : EndsExpression (i.tokenAt (pos + 1)) := .inr (.inl hcomma)
      have hstart : StartsOperand (i.tokenAt pos) := by
        rw [hword]
        exact ⟨rfl, decide_eq_false hnot, nofun⟩
      exact runs_expressionOf (runs_primary_ident hword hform hreserved (.inl hend)) hstart hend
    have hrest := (separated_of_runs hargs).map (q := callArg (.level n)) (f := Tree.positional) fun q a k ha hk => by
      refine runs_callArg ha ?_
      rcases hk with hk | rfl <;> simp [*]
    have hitems : Separated (callArg (.level n)) i pos _ stop := .cons (runs_callArg hfirst (by simp [hcomma])) hcomma hrest
    exact ⟨_, runs_callArguments_of_separated hpos hitems (runs_callQuantifier_none hword hdistinct hall)⟩

theorem exists_runs_callArguments_of_substring {name name' : String} {source start : Expr} {length : Tree (.option .expr)}
    (hclose : i.tokenAt stop = .symbol .rparen) (hquantifier : callQuantifier i pos = (.ok none, pos))
    (hrun : Runs (substringBody name (.level n)) i pos (some (.substring name' source start length false)) stop) :
    ∃ arguments, Runs (callArguments (.level n)) i pos arguments stop := by
  suffices hitems : ∃ items, Separated (callArg (.level n)) i pos items stop by
    obtain ⟨items, hitems⟩ := hitems
    exact ⟨_, runs_callArguments_of_separated hpos hitems hquantifier⟩
  have hend : i.tokenAt stop ≠ .symbol .comma := by simp [hclose]
  obtain ⟨_, mid, hsource, hrest⟩ := Runs.exists_of_bind hrun
  obtain ⟨range, _, hrange, hrest⟩ := Runs.exists_of_bind hrest
  cases range with
  | none => cases hrest
  | some range =>
    obtain ⟨_, _, _⟩ := range
    cases hrest
    by_cases hfrom : (i.tokenAt mid).isKeyword "FROM"
    · have hrange := Runs.behind (p := acceptWord "FROM") hrange (runs_acceptWord hfrom)
      obtain ⟨_, _, -, hrange⟩ := Runs.exists_of_bind hrange
      obtain ⟨_, _, -, hrange⟩ := Runs.exists_of_bind hrange
      cases hrange
    have hrange := Runs.behind (p := acceptWord "FROM") hrange (runs_acceptWord_false hfrom)
    by_cases hcomma : i.tokenAt mid = .symbol .comma
    · have hrange := Runs.behind (p := accept .comma) hrange (runs_accept hcomma)
      obtain ⟨_, mid', hstart, hrange⟩ := Runs.exists_of_bind hrange
      obtain ⟨_, _, hlength, hrange⟩ := Runs.exists_of_bind hrange
      cases hrange
      have hsource := runs_callArg hsource (by simp [hcomma])
      by_cases hcomma' : i.tokenAt mid' = .symbol .comma
      · have hlength := Runs.behind (p := accept .comma) hlength (runs_accept hcomma')
        obtain ⟨_, _, hlength, hrange⟩ := Runs.exists_of_bind hlength
        cases hrange
        have hstart := runs_callArg hstart (by simp [hcomma'])
        exact ⟨_, .cons hsource hcomma (.cons hstart hcomma' (.one (runs_callArg hlength (by simp [hclose])) hend))⟩
      · have hlength := Runs.behind (p := accept .comma) hlength (runs_accept_false hcomma')
        cases hlength
        exact ⟨_, .cons hsource hcomma (.one (runs_callArg hstart (by simp [hclose])) hend)⟩
    · have hrange := Runs.behind (p := accept .comma) hrange (runs_accept_false hcomma)
      cases hrange

theorem not_runs_callArguments {operand : Expr} {mid : Nat} {word : String} (hclose : i.tokenAt stop = .symbol .rparen)
    (hquantifier : callQuantifier i pos = (.ok none, pos)) (hoperand : Runs (Inner.level n).expression i pos operand mid)
    (hword : i.tokenAt mid = .word word) : ¬ ∃ arguments, Runs (callArguments (.level n)) i pos arguments stop := by
  rintro ⟨arguments, hrun⟩
  have hopen := ne_closing_of_runs hpos (Inner.walks_level n).expression hoperand
  have hrun := (callArguments_apply hquantifier hopen).symm.trans hrun
  obtain ⟨args, _, hargs, hend⟩ := Runs.exists_of_bind hrun
  cases hend
  have hfirst := runs_callArg hoperand (by simp [hword])
  cases separated_of_runs hargs with
  | one h _ =>
    obtain ⟨-, rfl⟩ := h.unique hfirst
    simp [hword] at hclose
  | cons h hcomma _ =>
    obtain ⟨-, rfl⟩ := h.unique hfirst
    simp [hword] at hcomma

/-- A form that resembles a call is one, unless keywords stand in it. -/
theorem FormCall.arguments_iff {body : Inner → Parse (Option Expr)} (h : FormCall body e)
    (hrun : Runs (body (.level n)) i pos (some e) stop) (hclose : i.tokenAt stop = .symbol .rparen)
    (hquantifier : callQuantifier i pos = (.ok none, pos)) :
    (∃ arguments, Runs (callArguments (.level n)) i pos arguments stop) ↔ e.takesWindow = true := by
  cases h with
  | datetime name unit args => exact iff_of_true (exists_runs_callArguments_of_datetime hpos hclose hrun) rfl
  | firstLast last operand =>
    refine iff_of_false ?_ Bool.false_ne_true
    obtain ⟨_, mid, hoperand, hrest⟩ := Runs.exists_of_bind hrun
    by_cases hwords : i.HasWords mid ["IGNORE", "NULLS"]
    · obtain ⟨word, hword, -⟩ := Token.exists_of_isKeyword hwords.1
      exact not_runs_callArguments hpos hclose hquantifier hoperand hword
    · cases Runs.behind (p := acceptWords _) hrest (runs_acceptWords_false hwords)
  | substring name source start length keywordForm =>
    cases keywordForm with
    | false => exact iff_of_true (exists_runs_callArguments_of_substring hpos hclose hquantifier hrun) rfl
    | true =>
      refine iff_of_false ?_ Bool.false_ne_true
      obtain ⟨_, mid, hsource, hrest⟩ := Runs.exists_of_bind hrun
      by_cases hfrom : (i.tokenAt mid).isKeyword "FROM"
      · obtain ⟨word, hword, -⟩ := Token.exists_of_isKeyword hfrom
        exact not_runs_callArguments hpos hclose hquantifier hsource hword
      · -- Without `FROM` only the form with commas is left.
        have hends : Ends (substringRange (.level n)) i mid fun range _ => ∀ r ∈ range, r.2.2 = false := by
          refine Ends.bind (P := fun found _ => found = false) (.acceptWord rfl fun hword => absurd hword hfrom) ?_
          rintro _ _ rfl
          exact .step fun _ _ => .ite (fun _ => .step fun _ _ => .step fun _ _ => .pure (by simp)) fun _ => .pure nofun
        obtain ⟨range, _, hrange, hrest⟩ := Runs.exists_of_bind hrest
        cases range with
        | none => cases hrest
        | some range =>
          obtain ⟨_, _, keywordForm⟩ := range
          obtain rfl : keywordForm = false := hends _ _ hrange _ rfl
          cases hrest

end

end Grammar

end SqlTidy
