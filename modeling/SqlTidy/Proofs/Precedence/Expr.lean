import SqlTidy.Proofs.Trees
import SqlTidy.Proofs.Yield

/-!
# Precedence of expressions

The printer writes a tree without adding parentheses, so a tree may be printed and read again only if its
operands bind tightly enough where they stand. `Tree.level` says how tightly the root of an expression binds,
from `OR` (1) to what no operator can break up (13), and `Tree.Fits` what a node asks of its operands.
`Normal x` says that every node in `x` fits, however deep it stands.

The grammar has one rule per level, and the rule of a level reads its operands by the rule of the next tighter
level. So the invariant of the rules is `Above k`: what a rule of level `k` gives back is normal and binds at
least as tightly as `k`. The loop of a level keeps it because its left operand is what the loop has built so far
(level `k`) and its right operand comes from the next rule (level `k + 1`).
-/

namespace SqlTidy

/-! ## Levels -/

def BinaryOp.level : BinaryOp → Nat
  | .or => 1
  | .and => 2
  | .eq | .doubleEq | .notEq | .bangEq | .lt | .ltEq | .gt | .gtEq | .nullSafeEq => 5
  | .bitOr => 6
  | .bitXor => 7
  | .bitAnd => 8
  | .plus | .minus | .concat => 9
  | .multiply | .divide | .modulo | .integerDivide => 10

def UnaryOp.level : UnaryOp → Nat
  | .not => 3
  | .minus | .plus | .bitNot => 11

/-- Set operators have levels of their own: they combine bodies of queries and no expressions. -/
def SetOp.level : SetOp → Nat
  | .union | .except | .minus => 1
  | .intersect => 2

namespace Tree

variable {c : Category}

/-- How tightly the root of an expression or of a body binds. -/
def level : {c : Category} → Tree c → Nat
  | _, .binary op _ _ => op.level
  | _, .unary op _ => op.level
  | _, .between _ _ _ _ => 4
  | _, .inList _ _ _ => 4
  | _, .inQuery _ _ _ => 4
  | _, .like _ _ _ _ _ => 4
  | _, .is _ _ _ => 4
  | _, .distinctFrom _ _ _ => 4
  | _, .subscript _ _ => 12
  | _, .field _ _ => 12
  | _, .cast .shorthand _ _ => 12
  | _, .setOperation _ op _ _ => op.level
  | _, _ => 13

/-- The operands of a node bind tightly enough to stand there without parentheses. Binary operators and set
operators group to the left, so their right operand has to bind tighter than they do. -/
def Fits : NodeProperty
  | _, .binary op left right => op.level ≤ left.level ∧ op.level < right.level
  | _, .unary op operand => op.level ≤ operand.level
  | _, .between tested _ low high => 4 ≤ tested.level ∧ 5 ≤ low.level ∧ 5 ≤ high.level
  | _, .inList tested _ _ => 4 ≤ tested.level
  | _, .inQuery tested _ _ => 4 ≤ tested.level
  | _, .like tested _ _ pattern _ => 4 ≤ tested.level ∧ 5 ≤ pattern.level
  | _, .is tested _ _ => 4 ≤ tested.level
  | _, .distinctFrom tested _ other => 4 ≤ tested.level ∧ 5 ≤ other.level
  | _, .subscript base _ => 12 ≤ base.level
  | _, .field base _ => 12 ≤ base.level
  | _, .cast .shorthand base _ => 12 ≤ base.level
  | _, .setOperation left op _ right => op.level ≤ left.level ∧ op.level < right.level
  | _, _ => True

/-- A sum is no factor unless it is in parentheses. -/
example (a b c : Expr) : ¬ Fits (.binary .multiply (.binary .plus a b) c) := by
  rintro ⟨h, -⟩
  exact absurd h (show ¬ 10 ≤ 9 by decide)

end Tree

/-- All operands in all trees of a value bind tightly enough. -/
abbrev Normal {α : Type} [Trees α] (a : α) : Prop := every Tree.Fits a

/-- A tree is normal and binds at least as tightly as a level. -/
structure Tree.Above {c : Category} (k : Nat) (t : Tree c) : Prop where
  normal : Normal t
  le_level : k ≤ t.level

theorem Tree.Above.mono {c : Category} {j k : Nat} {t : Tree c} (h : t.Above k) (hjk : j ≤ k) :
    t.Above j :=
  ⟨h.normal, Nat.le_trans hjk h.le_level⟩

/-! ## The rules for what is nested inside something -/

/-- The rules one level further in give back normal trees, of the level that their names promise. -/
structure Inner.Normal (inner : Inner) : Prop where
  expression : Parse.Yields SqlTidy.Normal inner.expression
  negation : Parse.Yields (Tree.Above 3) inner.negation
  unary : Parse.Yields (Tree.Above 11) inner.unary
  query : Parse.Yields SqlTidy.Normal inner.query
  relation : Parse.Yields SqlTidy.Normal inner.relation

namespace Grammar

open Parse SqlTidy.Tree

variable {inner : Inner} (h : inner.Normal)

/-! ## Lists of expressions -/

include h

theorem yields_expressions : Yields Normal (expressions inner) := h.expression.commaSeparated

theorem yields_expressionsBeforeParen : Yields Normal (expressionsBeforeParen inner) :=
  .andThen fun _ => .ite yields_nil (yields_expressions h)

theorem yields_selectItem : Yields Normal (selectItem inner) := by
  refine h.expression.bind fun value hvalue => ?_
  exact .andThen fun _ => .pure ⟨trivial, hvalue⟩

theorem yields_selectItems : Yields Normal (selectItems inner) := (yields_selectItem h).commaSeparated

theorem yields_orderItem : Yields Normal (orderItem inner) := by
  refine h.expression.bind fun key hkey => ?_
  exact .andThen fun _ => .andThen fun _ => .pure ⟨trivial, hkey⟩

theorem yields_orderItems : Yields Normal (orderItems inner) := (yields_orderItem h).commaSeparated

omit h

/-! ## Chains of binary operators -/

/-- One level of binary operators over the next tighter one. -/
theorem yields_chain {k : Nat} {operators : Token → Option BinaryOp} {operand : Parse Expr}
    (hop : ∀ t, ∀ op ∈ operators t, op.level = k) (hoperand : Yields (Above (k + 1)) operand) :
    Yields (Above k) (chain operators operand) := by
  refine hoperand.bind fun first hfirst => ?_
  -- The loop starts from an operand, which is more than it has to keep.
  refine Yields.iterate (fun left hleft => ?_) first (hfirst.mono (Nat.le_succ k))
  refine (yields_acceptIf fun t _ op => hop t op).bind fun op hlevel => ?_
  cases op with
  | none => exact .pure nofun
  | some op =>
    obtain rfl := hlevel op rfl
    refine hoperand.bind fun right hright => .pure ?_
    rintro _ ⟨⟩
    have hfits : Fits (.binary op left right) := ⟨hleft.le_level, hright.le_level⟩
    exact ⟨⟨hfits, hleft.normal, hright.normal⟩, Nat.le_refl _⟩

theorem level_of_multiplicativeOp (t : Token) : ∀ op ∈ multiplicativeOp t, op.level = 10 := by
  intro op hop
  unfold multiplicativeOp at hop
  split at hop
  case h_4 =>
    split at hop <;> cases hop
    rfl
  all_goals
    cases hop
    rfl

theorem level_of_additiveOp (t : Token) : ∀ op ∈ additiveOp t, op.level = 9 := by
  intro op hop
  unfold additiveOp at hop
  split at hop <;> cases hop <;> rfl

theorem level_of_bitAndOp (t : Token) : ∀ op ∈ bitAndOp t, op.level = 8 := by
  intro op hop
  unfold bitAndOp at hop
  split at hop <;> cases hop
  rfl

theorem level_of_bitXorOp (t : Token) : ∀ op ∈ bitXorOp t, op.level = 7 := by
  intro op hop
  unfold bitXorOp at hop
  split at hop <;> cases hop
  rfl

theorem level_of_bitOrOp (t : Token) : ∀ op ∈ bitOrOp t, op.level = 6 := by
  intro op hop
  unfold bitOrOp at hop
  split at hop <;> cases hop
  rfl

theorem level_of_comparisonOp (t : Token) : ∀ op ∈ comparisonOp t, op.level = 5 := by
  intro op hop
  unfold comparisonOp at hop
  split at hop <;> cases hop <;> rfl

theorem level_of_andOp (t : Token) : ∀ op ∈ andOp t, op.level = 2 := by
  intro op hop
  unfold andOp at hop
  split at hop <;> cases hop
  rfl

theorem level_of_orOp (t : Token) : ∀ op ∈ orOp t, op.level = 1 := by
  intro op hop
  unfold orOp at hop
  split at hop <;> cases hop
  rfl

theorem yields_additive {unary : Parse Expr} (hunary : Yields (Above 11) unary) :
    Yields (Above 9) (additive unary) :=
  yields_chain level_of_additiveOp (yields_chain level_of_multiplicativeOp hunary)

theorem yields_comparison {unary : Parse Expr} (hunary : Yields (Above 11) unary) :
    Yields (Above 5) (comparison unary) := by
  refine yields_chain level_of_comparisonOp (yields_chain level_of_bitOrOp ?_)
  exact yields_chain level_of_bitXorOp (yields_chain level_of_bitAndOp (yields_additive hunary))

/-! ## Calls and windows -/

include h

theorem yields_callArg : Yields Normal (callArg inner) := by
  refine .andThen fun _ => .andThen fun _ => .ite ?_ ?_
  · refine .andThen fun _ => .andThen fun _ => h.expression.bind fun value hvalue => ?_
    exact .pure ⟨trivial, hvalue⟩
  · exact h.expression.bind fun value hvalue => .pure ⟨trivial, hvalue⟩

theorem yields_callArgs : Yields Normal (callArgs inner) := (yields_callArg h).commaSeparated

theorem yields_callArgsBeforeParen : Yields Normal (callArgsBeforeParen inner) :=
  .andThen fun _ => .ite yields_nil (yields_callArgs h)

theorem yields_frameBound : Yields Normal (frameBound inner) := by
  have hwords : ∀ r ∈ [(["UNBOUNDED", "PRECEDING"], (Tree.unboundedPreceding : FrameBound)),
      (["UNBOUNDED", "FOLLOWING"], .unboundedFollowing), (["CURRENT", "ROW"], .currentRow)],
      Normal r.2 := by
    simp only [List.forall_mem_cons, List.not_mem_nil, false_implies, implies_true, and_true]
    exact ⟨trivial, trivial, trivial⟩
  refine (yields_choose hwords).bind fun bound hbound => ?_
  cases bound with
  | some bound => exact .pure (hbound bound rfl)
  | none =>
    refine (yields_additive h.unary).bind fun distance hdistance => ?_
    refine .andThen fun _ => .ite (.pure ⟨trivial, hdistance.normal⟩) (.andThen fun _ => ?_)
    exact .ite (.pure ⟨trivial, hdistance.normal⟩) (yields_expected _)

theorem yields_frameOf (unit : FrameUnit) : Yields Normal (frameOf inner unit) := by
  refine .andThen fun _ => .ite ?_ ?_
  · refine (yields_frameBound h).bind fun start hstart => .andThen fun _ => ?_
    exact (yields_frameBound h).bind fun stop hstop => .pure ⟨trivial, hstart, hstop⟩
  · exact (yields_frameBound h).bind fun start hstart => .pure ⟨trivial, hstart, trivial⟩

theorem yields_optionalFrame : Yields Normal (optionalFrame inner) := by
  refine .andThen fun unit => ?_
  cases unit with
  | none => exact yields_none
  | some unit => exact (yields_frameOf h unit).toSome

theorem yields_windowPartition : Yields Normal (windowPartition inner) := by
  refine .andThen fun distribute => ?_
  cases distribute with
  | none => exact .pure ⟨Trees.every_nil, trivial⟩
  | some distribute =>
    exact (yields_expressions h).bind fun keys hkeys => .pure ⟨hkeys, trivial⟩

theorem yields_windowOrder : Yields Normal (windowOrder inner) := by
  have hordered (sort : Bool) :
      Yields Normal (do return (← orderItems inner, sort, []) :
        Parse (List OrderItem × Bool × List Expr)) :=
    (yields_orderItems h).bind fun items hitems => .pure ⟨hitems, trivial, Trees.every_nil⟩
  refine .andThen fun ordering => ?_
  cases ordering with
  | none => exact .pure ⟨Trees.every_nil, trivial, Trees.every_nil⟩
  | some ordering =>
    cases ordering with
    | order => exact hordered false
    | sort => exact hordered true
    | cluster =>
      exact (yields_expressions h).bind fun keys hkeys => .pure ⟨Trees.every_nil, trivial, hkeys⟩

theorem yields_windowDefinition : Yields Normal (windowDefinition inner) := by
  refine .andThen fun _ => ?_
  refine (yields_windowPartition h).bind fun (keys, _) ⟨hkeys, _⟩ => ?_
  refine (yields_windowOrder h).bind fun (items, _, clusters) ⟨hitems, _, hclusters⟩ => ?_
  refine (yields_optionalFrame h).bind fun bounds hbounds => .andThen fun _ => .pure ?_
  exact ⟨trivial, every_ofList hkeys, every_ofList hitems, every_ofList hclusters,
    every_ofOption hbounds⟩

theorem yields_window : Yields Normal (window inner) := by
  refine .andThen fun _ => .ite (.andThen fun _ => .pure trivial) ?_
  refine .andThen fun _ => .andThen fun _ => .ite ?_ ?_
  · exact .andThen fun _ => .andThen fun _ => .andThen fun _ => .pure trivial
  · exact (yields_windowDefinition h).bind fun definition hdefinition =>
      .pure ⟨trivial, hdefinition⟩

theorem yields_withinGroup : Yields Normal (withinGroup inner) := by
  refine .maybeList (.andThen fun _ => .andThen fun _ => ?_)
  exact (yields_orderItems h).bind fun items hitems => .andThen fun _ => .pure hitems

theorem yields_callFilter : Yields Normal (callFilter inner) := by
  refine .maybe (.andThen fun _ => .andThen fun _ => ?_)
  exact h.expression.bind fun condition hcondition => .andThen fun _ => .pure hcondition

theorem yields_callOf (name : DottedName) : Yields Normal (callOf inner name) := by
  have hargs : Yields Normal (do
      if ← isSymbol .rparen then
        return (none, [])
      else
        let quantifier ← callQuantifier
        return (quantifier, ← callArgs inner) : Parse (Option Quantifier × List CallArg)) := by
    refine .andThen fun _ => .ite (.pure ⟨Trees.every_none, Trees.every_nil⟩) (.andThen fun _ => ?_)
    exact (yields_callArgs h).bind fun args hargs => .pure ⟨fun _ _ => trivial, hargs⟩
  refine .andThen fun _ => hargs.bind fun (quantifier, args) ⟨_, hargs⟩ => .andThen fun _ => ?_
  refine (yields_withinGroup h).bind fun group hgroup => ?_
  refine (yields_callFilter h).bind fun filter hfilter => .andThen fun _ => ?_
  refine (yields_window h).maybe.bind fun overWindow hwindow => .pure ?_
  exact ⟨trivial, every_ofList hargs, every_ofList hgroup, every_ofOption hfilter,
    every_ofOption hwindow⟩

/-! ## Functions with a grammar of their own -/

omit h in
theorem yields_interval : Yields (Above 13) interval := by
  refine .andThen fun _ => .andThen fun _ => .ite (yields_expected _) ?_
  exact .andThen fun _ => .pure ⟨trivial, Nat.le_refl _⟩

theorem yields_caseBranch : Yields Normal (caseBranch inner) := by
  refine .maybe (h.expression.bind fun condition hcondition => .andThen fun _ => ?_)
  exact h.expression.bind fun result hresult => .pure ⟨trivial, hcondition, hresult⟩

theorem yields_caseExpr : Yields (Above 13) (caseExpr inner) := by
  refine .andThen fun _ => h.expression.maybe.bind fun operand hoperand => ?_
  refine (Yields.many (yields_caseBranch h)).bind fun branches hbranches => ?_
  refine .ite (yields_expected _) ?_
  refine h.expression.maybe.bind fun otherwise hotherwise => .andThen fun _ => .pure ?_
  exact ⟨⟨trivial, every_ofOption hoperand, every_ofList hbranches, every_ofOption hotherwise⟩,
    Nat.le_refl _⟩

theorem yields_castExpr {form : CastForm} (hform : form ≠ .shorthand) :
    Yields (Above 13) (castExpr inner form) := by
  refine .andThen fun _ => .andThen fun _ => h.expression.bind fun operand hoperand => ?_
  refine .andThen fun _ => .andThen fun type => .andThen fun _ => .pure ?_
  cases form with
  | cast => exact ⟨⟨trivial, hoperand⟩, Nat.le_refl _⟩
  | tryCast => exact ⟨⟨trivial, hoperand⟩, Nat.le_refl _⟩
  | shorthand => contradiction

theorem yields_extractExpr : Yields (Above 13) (extractExpr inner) := by
  refine .andThen fun _ => .andThen fun _ => .andThen fun _ => .andThen fun _ => ?_
  refine h.expression.bind fun source hsource => .andThen fun _ => .pure ?_
  exact ⟨⟨trivial, hsource⟩, Nat.le_refl _⟩

omit h in
theorem yields_unlessSuffix {e : Expr} (he : e.Above 13) :
    Yields (fun o => ∀ e ∈ o, Above 13 e) (unlessSuffix e) :=
  .andThen fun _ => .ite yields_none (Yields.toSome (.pure he))

theorem yields_substringRange : Yields Normal (substringRange inner) := by
  have hrange (test : Parse Bool) (keywordForm : Bool) : Yields Normal (do
      let start ← inner.expression
      let length ← maybe test inner.expression
      return some (start, length, keywordForm) : Parse (Option (Expr × Option Expr × Bool))) := by
    refine h.expression.bind fun start hstart => ?_
    refine h.expression.maybe.bind fun length hlength => .pure ?_
    exact Trees.every_some ⟨hstart, hlength, trivial⟩
  refine .andThen fun _ => .ite (hrange _ true) (.andThen fun _ => ?_)
  exact .ite (hrange _ false) yields_none

theorem yields_substringForm (name : String) :
    Yields (fun o => ∀ e ∈ o, Above 13 e) (substringForm inner name) := by
  refine .andThen fun _ => .andThen fun _ => h.expression.bind fun source hsource => ?_
  refine (yields_substringRange h).bind fun range hrange => ?_
  cases range with
  | none => exact yields_none
  | some range =>
    obtain ⟨hstart, hlength, -⟩ := hrange range rfl
    refine .andThen fun _ => yields_unlessSuffix ?_
    exact ⟨⟨trivial, hsource, hstart, every_ofOption hlength⟩, Nat.le_refl _⟩

theorem yields_trimOperands (side : Option TrimSide) : Yields Normal (trimOperands inner side) := by
  refine .andThen fun _ => .ite ?_ ?_
  · refine h.expression.bind fun source hsource => .pure ?_
    exact Trees.every_some ⟨Trees.every_none, hsource⟩
  · refine h.expression.bind fun first hfirst => .andThen fun _ => .ite ?_ (.ite yields_none ?_)
    · refine h.expression.bind fun source hsource => .pure ?_
      exact Trees.every_some ⟨Trees.every_some hfirst, hsource⟩
    · exact .pure (Trees.every_some ⟨Trees.every_none, hfirst⟩)

theorem yields_trimForm : Yields (fun o => ∀ e ∈ o, Above 13 e) (trimForm inner) := by
  refine .andThen fun _ => .andThen fun _ => .andThen fun side => ?_
  refine (yields_trimOperands h side).bind fun operands hoperands => ?_
  cases operands with
  | none => exact yields_none
  | some operands =>
    obtain ⟨hcharacters, hsource⟩ := hoperands operands rfl
    refine .andThen fun _ => Yields.toSome (.pure ?_)
    exact ⟨⟨trivial, every_ofOption hcharacters, hsource⟩, Nat.le_refl _⟩

theorem yields_positionForm : Yields (fun o => ∀ e ∈ o, Above 13 e) (positionForm inner) := by
  refine .andThen fun _ => .andThen fun _ => (yields_comparison h.unary).bind fun needle hneedle => ?_
  refine .andThen fun _ => .ite ?_ yields_none
  refine h.expression.bind fun haystack hhaystack => .andThen fun _ => Yields.toSome (.pure ?_)
  exact ⟨⟨trivial, hneedle.normal, hhaystack⟩, Nat.le_refl _⟩

theorem yields_overlayForm : Yields (fun o => ∀ e ∈ o, Above 13 e) (overlayForm inner) := by
  refine .andThen fun _ => .andThen fun _ => h.expression.bind fun target htarget => ?_
  refine .andThen fun _ => .ite ?_ yields_none
  refine h.expression.bind fun placing hplacing => .andThen fun _ => ?_
  refine h.expression.bind fun start hstart => ?_
  refine h.expression.maybe.bind fun length hlength => .andThen fun _ => Yields.toSome (.pure ?_)
  exact ⟨⟨trivial, htarget, hplacing, hstart, every_ofOption hlength⟩, Nat.le_refl _⟩

theorem yields_firstLastForm (last : Bool) :
    Yields (fun o => ∀ e ∈ o, Above 13 e) (firstLastForm inner last) := by
  refine .andThen fun _ => .andThen fun _ => h.expression.bind fun operand hoperand => ?_
  refine .andThen fun _ => .ite (.andThen fun _ => yields_unlessSuffix ?_) yields_none
  exact ⟨⟨trivial, hoperand⟩, Nat.le_refl _⟩

theorem yields_datetimeForm (name : String) :
    Yields (fun o => ∀ e ∈ o, Above 13 e) (datetimeForm inner name) := by
  refine .andThen fun _ => .andThen fun _ => .andThen fun unit => ?_
  cases unit with
  | none => exact yields_none
  | some unit =>
    refine (yields_expressions h).bind fun args hargs => .andThen fun _ => yields_unlessSuffix ?_
    exact ⟨⟨trivial, every_ofList hargs⟩, Nat.le_refl _⟩

theorem yields_specialForm (word : String) :
    Yields (fun o => ∀ e ∈ o, Above 13 e) (specialForm inner word) := by
  unfold specialForm
  split
  · exact (yields_substringForm h _).attempt
  · exact (yields_substringForm h _).attempt
  · exact (yields_trimForm h).attempt
  · exact (yields_positionForm h).attempt
  · exact (yields_overlayForm h).attempt
  · exact (yields_firstLastForm h false).attempt
  · exact (yields_firstLastForm h true).attempt
  · exact .ite (yields_datetimeForm h _).attempt yields_none

/-! ## Primary expressions -/

theorem yields_bareName (parts : List Ident) : Yields (Above 13) (bareName inner parts) := by
  unfold bareName
  split
  · refine .andThen fun _ => .ite ?_ (.pure ⟨trivial, Nat.le_refl _⟩)
    exact h.expression.bind fun body hbody => .pure ⟨⟨trivial, hbody⟩, Nat.le_refl _⟩
  · exact .pure ⟨trivial, Nat.le_refl _⟩

theorem yields_nameExpr : Yields (Above 13) (nameExpr inner) := by
  refine .andThen fun _ => .andThen fun path => .ite (.pure ⟨trivial, Nat.le_refl _⟩) ?_
  refine .andThen fun _ => .ite ?_ (yields_bareName h path.parts)
  exact (yields_callOf h _).bind fun call hcall => .pure ⟨⟨trivial, hcall⟩, Nat.le_refl _⟩

theorem yields_parenQuery : Yields Normal (parenQuery inner) :=
  .andThen fun _ => h.query.bind fun _ hquery => .andThen fun _ => .pure hquery

theorem yields_plainWord (word : String) (called : Bool) :
    Yields (Above 13) (plainWord inner word called) := by
  refine .ite ?_ (.ite (yields_expected _) (yields_nameExpr h))
  refine (yields_specialForm h word).bind fun form hform => ?_
  cases form with
  | none => exact yields_nameExpr h
  | some e => exact .pure (hform e rfl)

theorem yields_structExpr : Yields (Above 13) (structExpr inner) := by
  refine .andThen fun _ => (yields_selectItems h).maybeList.bind fun fields hfields => ?_
  exact .andThen fun _ => .pure ⟨⟨trivial, every_ofList hfields⟩, Nat.le_refl _⟩

omit h in
theorem yields_takeFor {e : Expr} (he : e.Above 13) : Yields (Above 13) (takeFor e) :=
  .andThen fun _ => .pure he

theorem yields_keywordExpr (word : String) (called : Bool) :
    Yields (Above 13) (keywordExpr inner word called) := by
  unfold keywordExpr
  split
  · exact yields_takeFor ⟨trivial, Nat.le_refl _⟩
  · exact yields_takeFor ⟨trivial, Nat.le_refl _⟩
  · exact yields_takeFor ⟨trivial, Nat.le_refl _⟩
  · exact yields_takeFor ⟨trivial, Nat.le_refl _⟩
  · exact yields_takeFor ⟨trivial, Nat.le_refl _⟩
  · exact yields_takeFor ⟨trivial, Nat.le_refl _⟩
  · exact .andThen fun _ => .ite yields_interval (yields_plainWord h word _)
  · exact yields_caseExpr h
  · exact yields_castExpr h nofun
  · exact yields_castExpr h nofun
  · exact yields_extractExpr h
  · refine .andThen fun _ => .ite (.andThen fun _ => ?_) (yields_plainWord h word _)
    exact (yields_parenQuery h).bind fun query hquery => .pure ⟨⟨trivial, hquery⟩, Nat.le_refl _⟩
  · exact yields_structExpr h
  · exact yields_plainWord h word _

theorem yields_wordExpr (word : String) : Yields (Above 13) (wordExpr inner word) := by
  refine .andThen fun next => ?_
  split
  · refine .ite (.andThen fun _ => .pure ⟨trivial, Nat.le_refl _⟩) (yields_keywordExpr h word false)
  · exact yields_keywordExpr h word _

theorem yields_rowOrParen : Yields (Above 13) (rowOrParen inner) := by
  refine .andThen fun _ => h.expression.bind fun value hvalue => .andThen fun asName => ?_
  refine .andThen fun _ => .ite (yields_takeFor ⟨⟨trivial, hvalue⟩, Nat.le_refl _⟩) ?_
  refine (Yields.many (yields_selectItem h).maybe).bind fun rest hrest => .andThen fun _ => .pure ?_
  have hitem : Normal (Tree.selectItem value asName) := ⟨trivial, hvalue⟩
  exact ⟨⟨trivial, every_ofList (Trees.every_cons hitem hrest)⟩, Nat.le_refl _⟩

theorem yields_lambdaOrRow : Yields (Above 13) (lambdaOrRow inner) := by
  refine .andThen fun params => ?_
  cases params with
  | none => exact yields_rowOrParen h
  | some params =>
    exact h.expression.bind fun body hbody => .pure ⟨⟨trivial, hbody⟩, Nat.le_refl _⟩

theorem yields_parenExpr : Yields (Above 13) (parenExpr inner) := by
  refine .andThen fun _ => .ite (yields_lambdaOrRow h) (.andThen fun _ => .ite ?_ ?_)
  · -- Behind a doubled parenthesis a query that does not end well is given up.
    refine (yields_parenQuery h).toSome.attempt.bind fun query hquery => ?_
    cases query with
    | none => exact yields_lambdaOrRow h
    | some query => exact .pure ⟨⟨trivial, hquery query rfl⟩, Nat.le_refl _⟩
  · exact (yields_parenQuery h).bind fun query hquery => .pure ⟨⟨trivial, hquery⟩, Nat.le_refl _⟩

theorem yields_primary : Yields (Above 13) (primary inner) := by
  refine .andThen fun t => ?_
  split
  · exact yields_takeFor ⟨trivial, Nat.le_refl _⟩
  · exact .andThen fun _ => .pure ⟨trivial, Nat.le_refl _⟩
  · exact yields_takeFor ⟨trivial, Nat.le_refl _⟩
  · exact yields_parenExpr h
  · exact yields_nameExpr h
  · exact yields_wordExpr h _
  · exact yields_expected _

/-! ## The levels above them -/

/-- A postfix form binds as tightly as its base has to. -/
theorem yields_postfixStep {base : Expr} (hbase : base.Above 12) :
    Yields (fun o => ∀ e ∈ o, Above 12 e) (postfixStep inner base) := by
  refine .andThen fun _ => .ite ?_ (.andThen fun _ => .ite ?_ (.andThen fun name => ?_))
  · refine h.expression.bind fun index hindex => .andThen fun _ => Yields.toSome (.pure ?_)
    exact ⟨⟨hbase.le_level, hbase.normal, hindex⟩, Nat.le_refl _⟩
  · refine .andThen fun type => Yields.toSome (.pure ?_)
    exact ⟨⟨hbase.le_level, hbase.normal⟩, Nat.le_refl _⟩
  · cases name with
    | none => exact yields_none
    | some name =>
      exact Yields.toSome (.pure ⟨⟨hbase.le_level, hbase.normal⟩, Nat.le_refl _⟩)

theorem yields_postfixExpr : Yields (Above 12) (postfixExpr inner) := by
  refine (yields_primary h).bind fun base hbase => ?_
  exact Yields.iterate (fun _ => yields_postfixStep h) base (hbase.mono (by decide))

omit h in
theorem level_of_unaryOp (t : Token) : ∀ op ∈ unaryOp t, op.level = 11 := by
  intro op hop
  unfold unaryOp at hop
  split at hop <;> cases hop <;> rfl

theorem yields_unaryExpr : Yields (Above 11) (unaryExpr inner) := by
  refine (yields_acceptIf fun t _ op => level_of_unaryOp t op).bind fun op hlevel => ?_
  cases op with
  | none => exact (yields_postfixExpr h).imp fun _ he => he.mono (by decide)
  | some op =>
    have hop : op.level = 11 := hlevel op rfl
    refine h.unary.bind fun operand hoperand => .pure ?_
    have hfits : Fits (.unary op operand) := Nat.le_trans (Nat.le_of_eq hop) hoperand.le_level
    exact ⟨⟨hfits, hoperand.normal⟩, Nat.le_of_eq hop.symm⟩

theorem yields_comparisonExpr : Yields (Above 5) (comparisonExpr inner) :=
  yields_comparison (yields_unaryExpr h)

theorem yields_predicateAfter {tested : Expr} (htested : tested.Above 4) (negated : Bool)
    (word : PredicateWord) : Yields (Above 4) (predicateAfter inner tested negated word) := by
  cases word with
  | between =>
    refine (yields_comparisonExpr h).bind fun low hlow => .andThen fun _ => ?_
    refine (yields_comparisonExpr h).bind fun high hhigh => .pure ?_
    have hfits : Fits (.between tested negated low high) :=
      ⟨htested.le_level, hlow.le_level, hhigh.le_level⟩
    exact ⟨⟨hfits, htested.normal, hlow.normal, hhigh.normal⟩, Nat.le_refl _⟩
  | inside =>
    refine .andThen fun _ => .andThen fun _ => .ite ?_ ?_
    · refine h.query.bind fun query hquery => .andThen fun _ => .pure ?_
      exact ⟨⟨htested.le_level, htested.normal, hquery⟩, Nat.le_refl _⟩
    · refine (yields_expressions h).bind fun items hitems => .andThen fun _ => .pure ?_
      exact ⟨⟨htested.le_level, htested.normal, every_ofList hitems⟩, Nat.le_refl _⟩
  | like op =>
    refine (yields_comparisonExpr h).bind fun pattern hpattern => .andThen fun escape => .pure ?_
    have hfits : Fits (.like tested negated op pattern escape) :=
      ⟨htested.le_level, hpattern.le_level⟩
    exact ⟨⟨hfits, htested.normal, hpattern.normal⟩, Nat.le_refl _⟩

theorem yields_predicateAfterIs {tested : Expr} (htested : tested.Above 4) :
    Yields (Above 4) (predicateAfterIs inner tested) := by
  refine .andThen fun negated => .andThen fun _ => .ite ?_ (.andThen fun test => ?_)
  · refine (yields_comparisonExpr h).bind fun other hother => .pure ?_
    have hfits : Fits (.distinctFrom tested negated other) := ⟨htested.le_level, hother.le_level⟩
    exact ⟨⟨hfits, htested.normal, hother.normal⟩, Nat.le_refl _⟩
  · cases test with
    | none => exact yields_expected _
    | some test => exact .pure ⟨⟨htested.le_level, htested.normal⟩, Nat.le_refl _⟩

theorem yields_predicateStep {tested : Expr} (htested : tested.Above 4) :
    Yields (fun o => ∀ e ∈ o, Above 4 e) (predicateStep inner tested) := by
  refine .andThen fun head => ?_
  cases head with
  | none => exact (yields_predicateAfterIs h htested).maybe
  | some head =>
    obtain ⟨negated, word⟩ := head
    exact (yields_predicateAfter h htested negated word).toSome

theorem yields_predicate : Yields (Above 4) (predicate inner) := by
  refine (yields_comparisonExpr h).bind fun tested htested => ?_
  exact Yields.iterate (fun _ => yields_predicateStep h) tested (htested.mono (by decide))

theorem yields_negationExpr : Yields (Above 3) (negationExpr inner) := by
  refine .andThen fun _ => .ite ?_ ?_
  · refine h.negation.bind fun operand hoperand => .pure ?_
    exact ⟨⟨hoperand.le_level, hoperand.normal⟩, Nat.le_refl _⟩
  · exact (yields_predicate h).imp fun _ he => he.mono (by decide)

theorem yields_expressionOf : Yields Normal (expressionOf inner) := by
  have hconnective := yields_chain level_of_orOp (yields_chain level_of_andOp (yields_negationExpr h))
  exact hconnective.imp fun _ he => he.normal

end Grammar

end SqlTidy
