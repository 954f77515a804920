import SqlTidy.Grammar.Expr
import SqlTidy.Proofs.Case.Name

/-!
# Expressions do not see letter case

One lemma per rule of the grammar, all under the assumption that the rules one level further in do not
see letter case either (`Inner.Blind`).
-/

namespace SqlTidy

open Text

namespace Parse

/-- A parser of trees that does not see letter case. -/
abbrev Blind {c : Category} (p : Parse (Tree c)) : Prop := Mirrors Tree.foldCase p p

end Parse

open Parse

/-- Rules for what is nested inside that do not see letter case. -/
structure Inner.Blind (inner : Inner) : Prop where
  expression : inner.expression.Blind
  negation : inner.negation.Blind
  unary : inner.unary.Blind
  query : inner.query.Blind
  relation : inner.relation.Blind

namespace Grammar

/-! ## Looking ahead for a query -/

theorem parenRun_foldCase (i : Input) (bound pos : Nat) :
    parenRun i.foldCase bound pos = parenRun i bound pos := by
  induction bound generalizing pos with
  | zero => rfl
  | succ bound ih => simp [parenRun, ih]

theorem steady_parensAhead (n : Nat) : Steady (parensAhead n) := by
  intro i _ pos
  simp [parensAhead, parenRun_foldCase, mapResult]

theorem steady_queryAhead (n : Nat) : Steady (queryAhead n) :=
  (steady_parensAhead n).andThen fun _ => (mirrors_peek _).bind fun _ => .pure (by simp)

theorem steady_isQueryStart : Steady isQueryStart :=
  (steady_queryAhead 0).andThen fun _ => .ite (.pure rfl) (steady_isWord _)

/-! ## Items of lists -/

section

variable {inner : Inner} (h : inner.Blind)

include h

theorem mirrors_expressions :
    Mirrors (List.map Tree.foldCase) (expressions inner) (expressions inner) :=
  h.expression.commaSeparated

theorem mirrors_expressionsBeforeParen :
    Mirrors (List.map Tree.foldCase) (expressionsBeforeParen inner)
      (expressionsBeforeParen inner) :=
  (steady_isSymbol _).andThen fun _ => .ite (.pure rfl) (mirrors_expressions h)

omit h in
theorem mirrors_aliasName : Mirrors AliasName.foldCase aliasName aliasName :=
  (steady_isSymbol _).andThen fun _ => .ite (mirrors_identifierList.map fun _ => rfl)
    (mirrors_identifier.map fun _ => rfl)

omit h in
theorem mirrors_selectAlias : Mirrors (Option.map Alias.foldCase) selectAlias selectAlias :=
  (steady_acceptWord _).andThen fun _ => .ite (mirrors_aliasName.map fun _ => rfl) <|
    steady_mayBeAlias.andThen fun _ => .ite (mirrors_identifier.map fun _ => rfl) (.pure rfl)

theorem blind_selectItem : Blind (selectItem inner) :=
  h.expression.bind fun _ => mirrors_selectAlias.map fun _ => rfl

theorem mirrors_selectItems :
    Mirrors (List.map Tree.foldCase) (selectItems inner) (selectItems inner) :=
  (blind_selectItem h).commaSeparated

theorem blind_orderItem : Blind (orderItem inner) :=
  h.expression.bind fun _ => (steady_choose _).andThen fun _ => (steady_choose _).andThen fun _ =>
    .pure rfl

theorem mirrors_orderItems :
    Mirrors (List.map Tree.foldCase) (orderItems inner) (orderItems inner) :=
  (blind_orderItem h).commaSeparated

end

/-! ## Binary operators -/

/-- Operators that are symbols or keywords mean the same in any case. -/
def CaselessOp {α : Type} (operators : Token → Option α) : Prop :=
  ∀ t : Token, operators t.foldCase = operators t

theorem caselessOp_multiplicativeOp : CaselessOp multiplicativeOp := by
  intro t
  cases t with
  | word w => simp [Token.foldCase, multiplicativeOp, Token.isKeyword]
  | _ => rfl

theorem caselessOp_andOp : CaselessOp andOp := fun t => by simp [andOp]

theorem caselessOp_orOp : CaselessOp orOp := fun t => by simp [orOp]

/-- Operators that no word is. -/
theorem caselessOp_of_word {α : Type} {operators : Token → Option α}
    (h : ∀ w, operators (.word w) = none) : CaselessOp operators := by
  intro t
  cases t with
  | word w => rw [Token.foldCase, h, h]
  | _ => rfl

theorem steady_acceptIf {α : Type} {operators : Token → Option α} (h : CaselessOp operators) :
    Steady (acceptIf operators) :=
  (mirrors_acceptIf (f := id) fun t _ => by simpa using h t).congr fun _ => by simp

theorem blind_chain {operators : Token → Option BinaryOp} {operand : Parse Expr}
    (hop : CaselessOp operators) (h : operand.Blind) : Blind (chain operators operand) := by
  refine h.bind fun first => .iterate (fun left => ?_) first
  refine (steady_acceptIf hop).andThen fun op => ?_
  cases op with
  | none => exact .pure rfl
  | some op => exact h.map fun _ => rfl

theorem blind_additive {unary : Parse Expr} (h : unary.Blind) : Blind (additive unary) :=
  blind_chain (caselessOp_of_word fun _ => rfl) (blind_chain caselessOp_multiplicativeOp h)

theorem blind_comparison {unary : Parse Expr} (h : unary.Blind) : Blind (comparison unary) :=
  blind_chain (caselessOp_of_word fun _ => rfl) <|
    blind_chain (caselessOp_of_word fun _ => rfl) <|
      blind_chain (caselessOp_of_word fun _ => rfl) <|
        blind_chain (caselessOp_of_word fun _ => rfl) <| blind_additive h

/-! ## Calls and windows -/

section

variable {inner : Inner} (h : inner.Blind)

include h

theorem blind_callArg : Blind (callArg inner) := by
  refine mirrors_current.bind fun t => (steady_peekSymbol _ _).andThen fun arrow => ?_
  rw [isIdentifier_foldCase]
  refine .ite ?_ (h.expression.map fun _ => rfl)
  exact mirrors_identifier.bind fun _ => steady_skip.andThen fun _ => h.expression.map fun _ => rfl

theorem mirrors_callArgs : Mirrors (List.map Tree.foldCase) (callArgs inner) (callArgs inner) :=
  (blind_callArg h).commaSeparated

theorem mirrors_callArgsBeforeParen :
    Mirrors (List.map Tree.foldCase) (callArgsBeforeParen inner) (callArgsBeforeParen inner) :=
  (steady_isSymbol _).andThen fun _ => .ite (.pure rfl) (mirrors_callArgs h)

omit h in
theorem steady_callQuantifier : Steady callQuantifier := by
  refine (steady_acceptWord _).andThen fun _ => .ite (.pure rfl) ?_
  refine (steady_isWord _).andThen fun _ => .ite ?_ (.pure rfl)
  refine (mirrors_peek 1).bind fun t => ?_
  cases t with
  | word w => exact steady_skip.andThen fun _ => .pure rfl
  | symbol s =>
    simp only [Token.foldCase]
    split
    · exact .pure rfl
    · exact .pure rfl
    · exact steady_skip.andThen fun _ => .pure rfl
  | _ => exact steady_skip.andThen fun _ => .pure rfl

theorem blind_frameBound : Blind (frameBound inner) := by
  have hbounds : ∀ p ∈ [(["UNBOUNDED", "PRECEDING"], (Tree.unboundedPreceding : FrameBound)),
      (["UNBOUNDED", "FOLLOWING"], .unboundedFollowing), (["CURRENT", "ROW"], .currentRow)],
      p.2.foldCase = p.2 := by
    simp only [List.mem_cons, List.not_mem_nil, or_false]
    rintro p (rfl | rfl | rfl) <;> rfl
  refine (mirrors_choose hbounds).bind fun bound => ?_
  cases bound with
  | some bound => exact .pure rfl
  | none =>
    refine (blind_additive h.unary).bind fun _ => (steady_acceptWord _).andThen fun _ => ?_
    refine .ite (.pure rfl) ((steady_acceptWord _).andThen fun _ => ?_)
    exact .ite (.pure rfl) (mirrors_expected _)

theorem blind_frameOf (unit : FrameUnit) : Blind (frameOf inner unit) :=
  (steady_acceptWord _).andThen fun _ => .ite
    ((blind_frameBound h).bind fun _ => (steady_expectWord _).andThen fun _ =>
      (blind_frameBound h).map fun _ => rfl)
    ((blind_frameBound h).map fun _ => rfl)

theorem mirrors_optionalFrame :
    Mirrors (Option.map Tree.foldCase) (optionalFrame inner) (optionalFrame inner) := by
  refine (steady_choose _).andThen fun unit => ?_
  cases unit with
  | none => exact .pure rfl
  | some unit => exact (blind_frameOf h unit).map fun _ => rfl

theorem mirrors_windowPartition :
    Mirrors (fun p => (p.1.map Tree.foldCase, p.2)) (windowPartition inner)
      (windowPartition inner) := by
  refine (steady_choose _).andThen fun distribute => ?_
  cases distribute with
  | none => exact .pure rfl
  | some distribute => exact (mirrors_expressions h).map fun _ => rfl

theorem mirrors_windowOrder :
    Mirrors (fun p => (p.1.map Tree.foldCase, p.2.1, p.2.2.map Tree.foldCase))
      (windowOrder inner) (windowOrder inner) := by
  refine (steady_choose _).andThen fun ordering => ?_
  match ordering with
  | none => exact .pure rfl
  | some .order => exact (mirrors_orderItems h).map fun _ => rfl
  | some .sort => exact (mirrors_orderItems h).map fun _ => rfl
  | some .cluster => exact (mirrors_expressions h).map fun _ => rfl

theorem blind_windowDefinition : Blind (windowDefinition inner) :=
  (steady_expect _).andThen fun _ => (mirrors_windowPartition h).bind fun _ =>
    (mirrors_windowOrder h).bind fun _ => (mirrors_optionalFrame h).bind fun _ =>
      (steady_expect _).andThen fun _ =>
        .pure (by simp only [← Tree.foldCase_ofList, ← Tree.foldCase_ofOption]; rfl)

theorem blind_window : Blind (window inner) := by
  refine (steady_isSymbol _).andThen fun _ => .ite (mirrors_identifier.map fun _ => rfl) ?_
  refine (mirrors_peek 1).bind fun t => (steady_peekSymbol _ _).andThen fun _ => ?_
  rw [isIdentifier_foldCase]
  refine .ite ?_ ((blind_windowDefinition h).map fun _ => rfl)
  exact steady_skip.andThen fun _ => mirrors_identifier.bind fun _ =>
    steady_skip.andThen fun _ => .pure rfl

theorem mirrors_withinGroup :
    Mirrors (List.map Tree.foldCase) (withinGroup inner) (withinGroup inner) :=
  .maybeList (steady_acceptWords _) <|
    (steady_expect _).andThen fun _ => (steady_expectWords _).andThen fun _ =>
      (mirrors_orderItems h).bind fun _ => (steady_expect _).andThen fun _ => .pure rfl

omit h in
theorem steady_isFilter : Steady isFilter :=
  (steady_isWord _).andThen fun _ => .ite (steady_peekSymbol _ _) (.pure rfl)

theorem mirrors_callFilter :
    Mirrors (Option.map Tree.foldCase) (callFilter inner) (callFilter inner) :=
  .maybe steady_isFilter <|
    (steady_skipBy _).andThen fun _ => (steady_expectWord _).andThen fun _ =>
      h.expression.bind fun _ => (steady_expect _).andThen fun _ => .pure rfl

omit h in
theorem steady_isCallSuffix : Steady isCallSuffix :=
  (steady_isWord _).andThen fun _ => .ite (.pure rfl) <|
    (steady_isWords _).andThen fun _ => .ite (.pure rfl) steady_isFilter

theorem mirrors_callOf (name : DottedName) :
    Mirrors Tree.foldCase (callOf inner name) (callOf inner name.foldCase) := by
  refine (steady_expect _).andThen fun _ => ?_
  refine Mirrors.bind (f := fun p => (p.1, p.2.map Tree.foldCase)) ?_ fun args => ?_
  · refine (steady_isSymbol _).andThen fun _ => .ite (.pure rfl) ?_
    exact steady_callQuantifier.andThen fun _ => (mirrors_callArgs h).map fun _ => rfl
  · refine (steady_expect _).andThen fun _ => (mirrors_withinGroup h).bind fun _ => ?_
    refine (mirrors_callFilter h).bind fun _ => (steady_choose _).andThen fun _ => ?_
    refine (Mirrors.maybe (steady_acceptWord _) (blind_window h)).bind fun _ => .pure ?_
    simp only [← Tree.foldCase_ofList, ← Tree.foldCase_ofOption]
    rfl

end

/-! ## Functions with a grammar of their own -/

theorem steady_intervalValue : Steady intervalValue := by
  refine mirrors_current.bind fun t => (mirrors_peek 1).bind fun next => ?_
  cases t with
  | symbol s =>
    cases next with
    | number n =>
      simp only [Token.foldCase]
      split
      · exact (steady_skipBy _).andThen fun _ => .pure rfl
      · exact steady_acceptIf fun t => by cases t <;> rfl
    | _ =>
      simp only [Token.foldCase]
      exact steady_acceptIf fun t => by cases t <;> rfl
  | _ => exact steady_acceptIf fun t => by cases t <;> rfl

theorem steady_intervalPart : Steady intervalPart := by
  refine steady_intervalValue.andThen fun value => ?_
  cases value with
  | none => exact .pure rfl
  | some value =>
    exact Mirrors.andThen ((mirrors_acceptIf (caseless_capitalsAmong _)).congr fun _ => by simp)
      fun _ => .pure rfl

theorem blind_interval : Blind interval := by
  refine (steady_expectWord _).andThen fun _ => (steady_many steady_intervalPart).andThen fun _ => ?_
  refine .ite (mirrors_expected _) (Mirrors.andThen ?_ fun _ => .pure rfl)
  exact steady_maybe (steady_acceptWord _) (mirrors_expectIf (caseless_capitalsAmong _))

section

variable {inner : Inner} (h : inner.Blind)

include h

theorem mirrors_caseBranch :
    Mirrors (Option.map Tree.foldCase) (caseBranch inner) (caseBranch inner) :=
  .maybe (steady_acceptWord _) <| h.expression.bind fun _ => (steady_expectWord _).andThen fun _ =>
    h.expression.map fun _ => rfl

theorem blind_caseExpr : Blind (caseExpr inner) := by
  refine (steady_expectWord _).andThen fun _ => ?_
  refine (Mirrors.maybe (steady_not (steady_isWord _)) h.expression).bind fun operand => ?_
  refine (mirrors_caseBranch h).many.bind fun branches => ?_
  rw [List.isEmpty_map]
  refine .ite (mirrors_expected _) ?_
  refine (Mirrors.maybe (steady_acceptWord _) h.expression).bind fun _ => ?_
  refine (steady_expectWord _).andThen fun _ => .pure ?_
  simp only [← Tree.foldCase_ofList, ← Tree.foldCase_ofOption]
  rfl

theorem blind_castExpr (form : CastForm) : Blind (castExpr inner form) :=
  steady_skip.andThen fun _ => (steady_expect _).andThen fun _ => h.expression.bind fun _ =>
    (steady_expectWord _).andThen fun _ => mirrors_dataType.bind fun _ =>
      (steady_expect _).andThen fun _ => .pure rfl

theorem blind_extractExpr : Blind (extractExpr inner) :=
  steady_skip.andThen fun _ => (steady_expect _).andThen fun _ =>
    (mirrors_expectIf caseless_capitals).andThen fun _ => (steady_expectWord _).andThen fun _ =>
      h.expression.bind fun _ => (steady_expect _).andThen fun _ => .pure rfl

omit h in
theorem mirrors_unlessSuffix (e : Expr) :
    Mirrors (Option.map Tree.foldCase) (unlessSuffix e) (unlessSuffix e.foldCase) :=
  steady_isCallSuffix.andThen fun _ => .ite (.pure rfl) (.pure rfl)

theorem mirrors_substringRange :
    Mirrors (Option.map fun r => (r.1.foldCase, r.2.1.map Tree.foldCase, r.2.2))
      (substringRange inner) (substringRange inner) := by
  refine (steady_acceptWord _).andThen fun _ => .ite ?_ ?_
  · exact h.expression.bind fun _ =>
      (Mirrors.maybe (steady_acceptWord _) h.expression).map fun _ => rfl
  · refine (steady_accept _).andThen fun _ => .ite ?_ (.pure rfl)
    exact h.expression.bind fun _ => (Mirrors.maybe (steady_accept _) h.expression).map fun _ => rfl

theorem mirrors_substringForm (name : String) :
    Mirrors (Option.map Tree.foldCase) (substringForm inner name) (substringForm inner name) := by
  refine steady_skip.andThen fun _ => (steady_expect _).andThen fun _ => h.expression.bind fun _ => ?_
  refine (mirrors_substringRange h).bind fun range => ?_
  cases range with
  | none => exact .pure rfl
  | some range =>
    refine (steady_expect _).andThen fun _ => ?_
    rw [← Tree.foldCase_ofOption]
    exact mirrors_unlessSuffix (.substring name _ range.1 (.ofOption range.2.1) range.2.2)

theorem mirrors_trimOperands (side : Option TrimSide) :
    Mirrors (Option.map fun r => (r.1.map Tree.foldCase, r.2.foldCase)) (trimOperands inner side)
      (trimOperands inner side) := by
  refine (steady_acceptWord _).andThen fun _ => .ite (h.expression.map fun _ => rfl) ?_
  refine h.expression.bind fun _ => (steady_acceptWord _).andThen fun _ => ?_
  exact .ite (h.expression.map fun _ => rfl) (.ite (.pure rfl) (.pure rfl))

theorem mirrors_trimForm :
    Mirrors (Option.map Tree.foldCase) (trimForm inner) (trimForm inner) := by
  refine steady_skip.andThen fun _ => (steady_expect _).andThen fun _ => ?_
  refine (steady_choose _).andThen fun side => (mirrors_trimOperands h side).bind fun operands => ?_
  cases operands with
  | none => exact .pure rfl
  | some operands => exact (steady_expect _).andThen fun _ => .pure (by rw [← Tree.foldCase_ofOption]; rfl)

theorem mirrors_positionForm :
    Mirrors (Option.map Tree.foldCase) (positionForm inner) (positionForm inner) := by
  refine steady_skip.andThen fun _ => (steady_expect _).andThen fun _ => ?_
  refine (blind_comparison h.unary).bind fun _ => (steady_acceptWord _).andThen fun _ => ?_
  refine .ite ?_ (.pure rfl)
  exact h.expression.bind fun _ => (steady_expect _).andThen fun _ => .pure rfl

theorem mirrors_overlayForm :
    Mirrors (Option.map Tree.foldCase) (overlayForm inner) (overlayForm inner) := by
  refine steady_skip.andThen fun _ => (steady_expect _).andThen fun _ => h.expression.bind fun _ => ?_
  refine (steady_acceptWord _).andThen fun _ => .ite ?_ (.pure rfl)
  refine h.expression.bind fun _ => (steady_expectWord _).andThen fun _ => ?_
  refine h.expression.bind fun _ => (Mirrors.maybe (steady_acceptWord _) h.expression).bind fun _ => ?_
  exact (steady_expect _).andThen fun _ => .pure (by rw [← Tree.foldCase_ofOption]; rfl)

theorem mirrors_firstLastForm (last : Bool) :
    Mirrors (Option.map Tree.foldCase) (firstLastForm inner last) (firstLastForm inner last) := by
  refine steady_skip.andThen fun _ => (steady_expect _).andThen fun _ => h.expression.bind fun _ => ?_
  refine (steady_acceptWords _).andThen fun _ => .ite ?_ (.pure rfl)
  exact (steady_expect _).andThen fun _ => mirrors_unlessSuffix _

omit h in
theorem steady_datetimeUnit : Steady datetimeUnit := by
  refine steady_currentWord.andThen fun word => ?_
  cases word with
  | none => exact .pure rfl
  | some w =>
    refine (steady_peekSymbol _ _).andThen fun _ => .ite ?_ (.pure rfl)
    exact (steady_skipBy _).andThen fun _ => .pure rfl

theorem mirrors_datetimeForm (name : String) :
    Mirrors (Option.map Tree.foldCase) (datetimeForm inner name) (datetimeForm inner name) := by
  refine steady_skip.andThen fun _ => (steady_expect _).andThen fun _ => ?_
  refine steady_datetimeUnit.andThen fun unit => ?_
  cases unit with
  | none => exact .pure rfl
  | some unit =>
    refine (mirrors_expressions h).bind fun args => (steady_expect _).andThen fun _ => ?_
    rw [← Tree.foldCase_ofList]
    exact mirrors_unlessSuffix (.datetime name unit (.ofList args))

theorem mirrors_specialForm (word : String) :
    Mirrors (Option.map Tree.foldCase) (specialForm inner word) (specialForm inner (lower word)) := by
  simp only [specialForm, upper_lower, lower_lower]
  split
  · exact (mirrors_substringForm h _).attempt
  · exact (mirrors_substringForm h _).attempt
  · exact (mirrors_trimForm h).attempt
  · exact (mirrors_positionForm h).attempt
  · exact (mirrors_overlayForm h).attempt
  · exact (mirrors_firstLastForm h false).attempt
  · exact (mirrors_firstLastForm h true).attempt
  · exact .ite (mirrors_datetimeForm h _).attempt (.pure rfl)

end

/-! ## Primary expressions -/

def NameStep.foldCase : NameStep → NameStep
  | .part name => .part name.foldCase
  | .star => .star

def NamePath.foldCase (path : NamePath) : NamePath :=
  ⟨path.parts.map Ident.foldCase, path.starred⟩

theorem mirrors_nameStep : Mirrors (Option.map NameStep.foldCase) nameStep nameStep := by
  have hpart {t : Token} : Mirrors (Option.map NameStep.foldCase)
      (if isIdentifier t then do
        skip
        return some (.part (← identifier))
      else
        return none)
      (if isIdentifier t.foldCase then do
        skip
        return some (.part (← identifier))
      else
        return none) := by
    rw [isIdentifier_foldCase]
    exact .ite (steady_skip.andThen fun _ => mirrors_identifier.map fun _ => rfl) (.pure rfl)
  refine (steady_isSymbol _).andThen fun _ => .ite ((mirrors_peek 1).bind fun t => ?_) (.pure rfl)
  cases t with
  | symbol s =>
    simp only [Token.foldCase]
    split
    · exact (steady_skipBy _).andThen fun _ => .pure rfl
    · exact hpart
  | _ => exact hpart

theorem mirrors_extendName (path : NamePath) :
    Mirrors (Option.map NamePath.foldCase) (extendName path) (extendName path.foldCase) := by
  refine .ite (.pure rfl) (mirrors_nameStep.bind fun step => ?_)
  match step with
  | none => exact .pure rfl
  | some .star => exact .pure rfl
  | some (.part name) => exact .pure (by simp [NamePath.foldCase])

/-- Takes a token for a whole expression in both runs. -/
theorem mirrors_takeFor {e e' : Expr} (h : e' = e.foldCase) :
    Mirrors Tree.foldCase (takeFor e) (takeFor e') :=
  steady_skip.andThen fun _ => .pure h

theorem startsInterval_foldCase (t : Token) : startsInterval t.foldCase = startsInterval t := by
  cases t <;> rfl

theorem mirrors_lambdaParams :
    Mirrors (Option.map (List.map Ident.foldCase)) lambdaParams lambdaParams :=
  mirrors_identifierList.bind fun _ => (steady_expect _).andThen fun _ => .pure rfl

theorem steady_stringPiece : Steady stringPiece := by
  refine (mirrors_acceptIf (f := id) fun t _ => ?_).congr fun _ => by simp
  cases t <;> rfl

section

variable {inner : Inner} (h : inner.Blind)

include h

theorem mirrors_bareName (parts : List Ident) :
    Mirrors Tree.foldCase (bareName inner parts) (bareName inner (parts.map Ident.foldCase)) := by
  match parts with
  | [] => exact .pure rfl
  | [name] =>
    exact (steady_accept _).andThen fun _ => .ite (h.expression.map fun _ => rfl) (.pure rfl)
  | _ :: _ :: _ => exact .pure rfl

theorem blind_nameExpr : Blind (nameExpr inner) := by
  refine mirrors_identifier.bind fun first => ?_
  refine (Mirrors.iterate mirrors_extendName ⟨[first], false⟩).bind fun path => ?_
  refine .ite (.pure rfl) ((steady_isSymbol _).andThen fun _ => .ite ?_ (mirrors_bareName h _))
  exact (mirrors_callOf h ⟨path.parts⟩).map fun _ => rfl

theorem blind_parenQuery : Blind (parenQuery inner) :=
  steady_skip.andThen fun _ => h.query.bind fun _ => (steady_expect _).andThen fun _ => .pure rfl

-- The type is given by its short name, as in the rules: the two words make the unifier evaluate
-- both runs if it has to compare them under different names for the type.
theorem mirrors_plainWord (word : String) (called : Bool) :
    Mirrors (α := Expr) (β := Expr) Tree.foldCase (plainWord inner word called)
      (plainWord inner (lower word) called) := by
  unfold plainWord
  rw [upper_lower]
  refine .ite ?_ ?_
  · refine Mirrors.bind (mirrors_specialForm h word) fun form => ?_
    cases form with
    | none => exact blind_nameExpr h
    | some e => exact .pure rfl
  · exact .ite (mirrors_expected _) (blind_nameExpr h)

theorem blind_structExpr : Blind (structExpr inner) := by
  refine (steady_skipBy _).andThen fun _ => ?_
  refine (Mirrors.maybeList (steady_not (steady_isSymbol _)) (mirrors_selectItems h)).bind fun _ => ?_
  exact (steady_expect _).andThen fun _ => .pure (by rw [← Tree.foldCase_ofList]; rfl)

theorem mirrors_keywordExpr (word : String) (called : Bool) :
    Mirrors (α := Expr) (β := Expr) Tree.foldCase (keywordExpr inner word called)
      (keywordExpr inner (lower word) called) := by
  unfold keywordExpr
  rw [upper_lower, lower_lower]
  split
  · exact mirrors_takeFor rfl
  · exact mirrors_takeFor rfl
  · exact mirrors_takeFor rfl
  · exact mirrors_takeFor rfl
  · exact mirrors_takeFor rfl
  · exact mirrors_takeFor rfl
  · refine (mirrors_peek 1).bind fun t => ?_
    rw [startsInterval_foldCase]
    exact .ite blind_interval (mirrors_plainWord h word _)
  · exact blind_caseExpr h
  · exact blind_castExpr h .cast
  · exact blind_castExpr h .tryCast
  · exact blind_extractExpr h
  · refine (steady_queryAhead _).andThen fun _ => .ite ?_ (mirrors_plainWord h word _)
    exact steady_skip.andThen fun _ => (blind_parenQuery h).map fun _ => rfl
  · exact blind_structExpr h
  · exact mirrors_plainWord h word _

theorem mirrors_wordExpr (word : String) :
    Mirrors (α := Expr) (β := Expr) Tree.foldCase (wordExpr inner word)
      (wordExpr inner (lower word)) := by
  refine (mirrors_peek 1).bind fun t => ?_
  cases t with
  | string value =>
    simp only [Token.foldCase, upper_lower]
    exact .ite ((steady_skipBy _).andThen fun _ => .pure rfl) (mirrors_keywordExpr h word _)
  | _ => exact mirrors_keywordExpr h word _

theorem blind_rowOrParen : Blind (rowOrParen inner) := by
  refine (steady_expect _).andThen fun _ => h.expression.bind fun value => ?_
  refine mirrors_selectAlias.bind fun asName => (steady_isSymbol _).andThen fun _ => ?_
  rw [Option.isNone_map]
  refine .ite (mirrors_takeFor rfl) ?_
  refine (Mirrors.many (.maybe (steady_accept _) (blind_selectItem h))).bind fun rest => ?_
  refine (steady_expect _).andThen fun _ => .pure ?_
  exact congrArg (fun items => Tree.row (.cons _ items)) (Tree.foldCase_ofList rest).symm

theorem blind_lambdaOrRow : Blind (lambdaOrRow inner) := by
  refine mirrors_lambdaParams.attempt.bind fun params => ?_
  cases params with
  | none => exact blind_rowOrParen h
  | some params => exact h.expression.map fun _ => rfl

theorem blind_parenExpr : Blind (parenExpr inner) := by
  refine (steady_queryAhead _).andThen fun _ => .ite (blind_lambdaOrRow h) ?_
  refine (steady_peekSymbol _ _).andThen fun _ => .ite ?_ ((blind_parenQuery h).map fun _ => rfl)
  refine (Mirrors.attempt ((blind_parenQuery h).map fun _ => rfl)).bind fun query => ?_
  cases query with
  | none => exact blind_lambdaOrRow h
  | some query => exact .pure rfl

theorem blind_primary : Blind (primary inner) := by
  refine mirrors_current.bind fun t => ?_
  cases t with
  | number n => exact mirrors_takeFor rfl
  | string s => exact (steady_many steady_stringPiece).andThen fun _ => .pure rfl
  | quoted w => exact blind_nameExpr h
  | word w => exact mirrors_wordExpr h w
  | eof => exact mirrors_expected _
  | symbol s =>
    simp only [Token.foldCase]
    split
    · contradiction
    · contradiction
    · exact mirrors_takeFor rfl
    · exact blind_parenExpr h
    · contradiction
    · contradiction
    · exact mirrors_expected _

/-! ## Operators and predicates -/

theorem mirrors_postfixStep (base : Expr) :
    Mirrors (Option.map Tree.foldCase) (postfixStep inner base)
      (postfixStep inner base.foldCase) := by
  refine (steady_accept _).andThen fun _ => .ite ?_ ((steady_accept _).andThen fun _ => .ite ?_ ?_)
  · exact h.expression.bind fun _ => (steady_expect _).andThen fun _ => .pure rfl
  · exact mirrors_dataType.map fun _ => rfl
  · refine mirrors_dottedPart.bind fun name => ?_
    cases name with
    | none => exact .pure rfl
    | some name => exact .pure rfl

theorem blind_postfixExpr : Blind (postfixExpr inner) :=
  (blind_primary h).bind fun base => .iterate (mirrors_postfixStep h) base

theorem blind_unaryExpr : Blind (unaryExpr inner) := by
  refine (steady_acceptIf (caselessOp_of_word fun _ => rfl)).andThen fun op => ?_
  cases op with
  | none => exact blind_postfixExpr h
  | some op => exact h.unary.map fun _ => rfl

theorem blind_comparisonExpr : Blind (comparisonExpr inner) :=
  blind_comparison (blind_unaryExpr h)

theorem mirrors_predicateAfter (tested : Expr) (negated : Bool) (word : PredicateWord) :
    Mirrors Tree.foldCase (predicateAfter inner tested negated word)
      (predicateAfter inner tested.foldCase negated word) := by
  cases word with
  | between =>
    exact (blind_comparisonExpr h).bind fun _ => (steady_expectWord _).andThen fun _ =>
      (blind_comparisonExpr h).map fun _ => rfl
  | inside =>
    refine (steady_expect _).andThen fun _ => steady_isQueryStart.andThen fun _ => .ite ?_ ?_
    · exact h.query.bind fun _ => (steady_expect _).andThen fun _ => .pure rfl
    · exact (mirrors_expressions h).bind fun _ => (steady_expect _).andThen fun _ =>
        .pure (by rw [← Tree.foldCase_ofList]; rfl)
  | like op =>
    exact (blind_comparisonExpr h).bind fun _ => (steady_optionalString _).andThen fun _ =>
      .pure rfl

theorem mirrors_predicateAfterIs (tested : Expr) :
    Mirrors Tree.foldCase (predicateAfterIs inner tested)
      (predicateAfterIs inner tested.foldCase) := by
  refine (steady_acceptWord _).andThen fun _ => (steady_acceptWords _).andThen fun _ => ?_
  refine .ite ((blind_comparisonExpr h).map fun _ => rfl) ((steady_choose _).andThen fun test => ?_)
  cases test with
  | none => exact mirrors_expected _
  | some test => exact .pure rfl

omit h in
theorem steady_predicateHead : Steady predicateHead := by
  refine (Mirrors.rewinding (f := id) ?_).congr fun _ => by simp
  refine (steady_acceptWord _).andThen fun _ => (steady_choose _).andThen fun word => ?_
  cases word with
  | none => exact .pure rfl
  | some word => exact .pure rfl

theorem mirrors_predicateStep (tested : Expr) :
    Mirrors (Option.map Tree.foldCase) (predicateStep inner tested)
      (predicateStep inner tested.foldCase) := by
  refine steady_predicateHead.andThen fun head => ?_
  cases head with
  | none => exact .maybe (steady_acceptWord _) (mirrors_predicateAfterIs h tested)
  | some head => exact (mirrors_predicateAfter h tested head.1 head.2).map fun _ => rfl

theorem blind_predicate : Blind (predicate inner) :=
  (blind_comparisonExpr h).bind fun tested => .iterate (mirrors_predicateStep h) tested

omit h in
theorem steady_acceptNot : Steady acceptNot :=
  (steady_acceptWord _).andThen fun _ => .ite (.pure rfl) (steady_accept _)

theorem blind_negationExpr : Blind (negationExpr inner) :=
  steady_acceptNot.andThen fun _ => .ite (h.negation.map fun _ => rfl) (blind_predicate h)

theorem blind_expressionOf : Blind (expressionOf inner) :=
  blind_chain caselessOp_orOp (blind_chain caselessOp_andOp (blind_negationExpr h))

end

end Grammar

end SqlTidy
