import SqlTidy.Proofs.Abreast.Basic

/-!
# Names, data types and expressions abreast

One lemma per rule of the grammar. A rule is compared with itself over two records of inner rules that agree
(`Inner.Agrees`); those of the second input are the same rules at a higher level of nesting.
-/

namespace SqlTidy

open Parse

/-- The rules for what is nested inside read the same in both inputs. -/
structure Inner.Agrees (e : Pair) (inner inner' : Inner) : Prop where
  expression : Parse.Agrees e inner.expression inner'.expression
  negation : Parse.Agrees e inner.negation inner'.negation
  unary : Parse.Agrees e inner.unary inner'.unary
  query : Parse.Agrees e inner.query inner'.query
  relation : Parse.Agrees e inner.relation inner'.relation

namespace Grammar

variable {e : Pair}

/-! ## Names and literals -/

theorem stable_mayBeAlias : Stable e mayBeAlias :=
  .current (fun t => by cases t <;> exact .pure _) (.pure false)

theorem stable_identifier : Stable e identifier := stable_expectIf _ _ rfl

theorem stable_dottedPart : Stable e dottedPart :=
  (stable_isSymbol _).bind fun _ => .peek
    (fun _ => .ite (stable_skip.bind fun _ => stable_identifier.map) (.pure none))
    (.ite (stable_skip.bind fun _ => stable_identifier.map) (.pure none))

theorem stable_dottedName : Stable e dottedName :=
  stable_identifier.bind fun _ => stable_dottedPart.many.map

theorem stable_identifierList : Stable e identifierList :=
  (stable_expect _).bind fun _ => stable_identifier.commaSeparated.bind fun _ =>
    (stable_expect _).bind fun _ => .pure _

theorem stable_optionalIdentifierList : Stable e optionalIdentifierList :=
  .maybeList (stable_isSymbol _) stable_identifierList

theorem stable_stringLiteral : Stable e stringLiteral := stable_expectIf _ _ rfl

theorem stable_optionalString (keyword : String) : Stable e (optionalString keyword) :=
  .maybe (stable_acceptWord keyword) stable_stringLiteral

theorem stable_number : Stable e number := stable_expectIf _ _ rfl

/-! ## Data types -/

theorem stable_typeParameter : Stable e typeParameter := stable_expectIf _ _ rfl

theorem stable_primitiveType (name : String) : Stable e (primitiveType name) :=
  (stable_accept _).bind fun _ => .ite
    (stable_typeParameter.commaSeparated.bind fun _ => (stable_expect _).bind fun _ => .pure _)
    (.pure _)

section

variable {inner inner' : Parse DataType} (h : Agrees e inner inner')

include h

theorem agrees_structField : Agrees e (structField inner) (structField inner') :=
  stable_identifier.bind fun _ => (stable_accept _).bind fun _ => h.bind fun _ =>
    (stable_acceptWords _).bind fun _ => (stable_optionalString _).bind fun _ => .pure _

omit h in
theorem stable_intervalType : Stable e intervalType :=
  (stable_expectIf _ _ (by rfl)).bind fun _ => (Agrees.maybe (stable_acceptWord _) (stable_expectIf _ _ (by rfl))).map

theorem agrees_typeAfter (name : String) : Agrees e (typeAfter inner name) (typeAfter inner' name) := by
  refine (stable_isSymbol _).bind fun bracket => ?_
  split
  · exact stable_skip.bind fun _ => h.bind fun _ => (stable_expect _).bind fun _ => .pure _
  · exact stable_skip.bind fun _ => h.bind fun _ => (stable_expect _).bind fun _ =>
      h.bind fun _ => (stable_expect _).bind fun _ => .pure _
  · exact stable_skip.bind fun _ => (agrees_structField h).commaSeparated.bind fun _ =>
      (stable_expect _).bind fun _ => .pure _
  · exact (stable_accept _).bind fun _ => .ite (.pure _) (stable_primitiveType name)
  · exact stable_intervalType
  · exact stable_primitiveType name

end

theorem stable_dataType : Stable e dataType :=
  stable_fix fun _ _ h => (stable_expectIf _ _ (by rfl)).bind fun name => agrees_typeAfter h name

/-! ## Looking ahead for a query -/

theorem parenRun_of_ne {i : Input} {pos : Nat} (h : i.tokenAt pos ≠ .symbol .lparen) (bound : Nat) :
    parenRun i bound pos = 0 := by
  cases bound with
  | zero => rfl
  | succ bound => simp [parenRun, h]

theorem parenRun_eq {pos pos' bound bound' : Nat} (h : e.Abreast pos pos')
    (hbound : e.left.remaining pos ≤ bound) (hbound' : e.right.remaining pos' ≤ bound') :
    parenRun e.right bound' pos' = parenRun e.left bound pos := by
  induction bound generalizing pos pos' bound' with
  | zero =>
    have heof : e.left.tokenAt pos = .eof := by
      unfold Input.remaining at hbound
      simp [Input.tokenAt, Array.getElem?_eq_none (show e.left.tokens.size ≤ pos by omega)]
    refine parenRun_of_ne (fun hparen => ?_) bound'
    have halike : Token.Alike e.closed (e.left.tokenAt pos) (e.right.tokenAt pos') := h.alike 0
    simp [heof, hparen, Token.Alike] at halike
  | succ bound ih =>
    by_cases hparen : e.left.tokenAt pos = .symbol .lparen
    · have hright : e.right.tokenAt pos' = .symbol .lparen :=
        (h.tokenAt_eq (by simp [hparen])).trans hparen
      have hlt : pos' < e.right.last := e.capped_right.lt_last (by simp [hright])
      unfold Input.remaining at hbound hbound' ih
      unfold Input.last at hlt
      obtain ⟨bound', rfl⟩ : ∃ k, bound' = k + 1 := ⟨bound' - 1, by omega⟩
      rw [parenRun, if_pos hright, parenRun, if_pos hparen,
        ih h.succ (by omega) (by omega)]
    · rw [parenRun_of_ne hparen]
      refine parenRun_of_ne (fun hright => hparen ?_) bound'
      have halike : Token.Alike e.closed (e.left.tokenAt pos) (e.right.tokenAt pos') := h.alike 0
      simpa [hright, Token.Alike, eq_comm] using halike

theorem stable_parensAhead (n : Nat) : Stable e (parensAhead n) :=
  fun _ _ h => .of_ok rfl (by rw [parensAhead, parenRun_eq (h.add n) (Nat.le_refl _) (Nat.le_refl _)]) h

theorem stable_queryAhead (n : Nat) : Stable e (queryAhead n) :=
  (stable_parensAhead n).bind fun _ => stable_ask rfl

theorem stable_isQueryStart : Stable e isQueryStart :=
  (stable_queryAhead 0).bind fun _ => .ite (.pure true) (stable_isWord _)

/-! ## Items of lists -/

section

variable {inner inner' : Inner} (h : inner.Agrees e inner')

include h

theorem agrees_expressions : Agrees e (expressions inner) (expressions inner') :=
  h.expression.commaSeparated

theorem agrees_expressionsBeforeParen :
    Agrees e (expressionsBeforeParen inner) (expressionsBeforeParen inner') :=
  (stable_isSymbol _).bind fun _ => .ite (.pure []) (agrees_expressions h)

omit h in
theorem stable_aliasName : Stable e aliasName :=
  (stable_isSymbol _).bind fun _ => .ite stable_identifierList.map stable_identifier.map

omit h in
theorem stable_selectAlias : Stable e selectAlias :=
  (stable_acceptWord _).bind fun _ => .ite stable_aliasName.map <|
    stable_mayBeAlias.bind fun _ => .ite stable_identifier.map (.pure none)

theorem agrees_selectItem : Agrees e (selectItem inner) (selectItem inner') :=
  h.expression.bind fun _ => stable_selectAlias.map

theorem agrees_selectItems : Agrees e (selectItems inner) (selectItems inner') :=
  (agrees_selectItem h).commaSeparated

theorem agrees_orderItem : Agrees e (orderItem inner) (orderItem inner') :=
  h.expression.bind fun _ => (stable_choose _).bind fun _ => (stable_choose _).bind fun _ => .pure _

theorem agrees_orderItems : Agrees e (orderItems inner) (orderItems inner') :=
  (agrees_orderItem h).commaSeparated

end

/-! ## Binary operators -/

theorem agrees_chain {operators : Token → Option BinaryOp} {operand operand' : Parse Expr}
    (h : Agrees e operand operand') (hop : operators (.symbol .semicolon) = none) :
    Agrees e (chain operators operand) (chain operators operand') := by
  refine h.bind fun first => .iterate (fun left => ?_) first
  refine (stable_acceptIf operators hop).bind fun op => ?_
  cases op with
  | none => exact .pure none
  | some op => exact h.map

theorem agrees_additive {unary unary' : Parse Expr} (h : Agrees e unary unary') :
    Agrees e (additive unary) (additive unary') :=
  agrees_chain (agrees_chain h rfl) rfl

theorem agrees_comparison {unary unary' : Parse Expr} (h : Agrees e unary unary') :
    Agrees e (comparison unary) (comparison unary') :=
  agrees_chain (agrees_chain (agrees_chain (agrees_chain (agrees_additive h) rfl) rfl) rfl) rfl

/-! ## Calls and windows -/

section

variable {inner inner' : Inner} (h : inner.Agrees e inner')

include h

theorem agrees_callArg : Agrees e (callArg inner) (callArg inner') :=
  .current
    (fun _ => (stable_peekSymbol _ _).bind fun _ => .ite
      (stable_identifier.bind fun _ => stable_skip.bind fun _ => h.expression.map) h.expression.map)
    ((stable_peekSymbol _ _).bind fun _ => .ite
      (stable_identifier.bind fun _ => stable_skip.bind fun _ => h.expression.map) h.expression.map)

theorem agrees_callArgs : Agrees e (callArgs inner) (callArgs inner') :=
  (agrees_callArg h).commaSeparated

theorem agrees_callArgsBeforeParen :
    Agrees e (callArgsBeforeParen inner) (callArgsBeforeParen inner') :=
  (stable_isSymbol _).bind fun _ => .ite (.pure []) (agrees_callArgs h)

omit h in
theorem stable_callQuantifier : Stable e callQuantifier := by
  refine (stable_acceptWord _).bind fun _ => .ite (.pure _) ?_
  refine (stable_isWord _).bind fun _ => .ite ?_ (.pure none)
  refine .peek (fun t => ?_) (stable_skip.bind fun _ => .pure _)
  split
  · exact .pure none
  · exact .pure none
  · exact stable_skip.bind fun _ => .pure _

theorem agrees_frameBound : Agrees e (frameBound inner) (frameBound inner') := by
  refine (stable_choose _).bind fun bound => ?_
  cases bound with
  | some bound => exact .pure bound
  | none =>
    refine (agrees_additive h.unary).bind fun _ => (stable_acceptWord _).bind fun _ => ?_
    refine .ite (.pure _) ((stable_acceptWord _).bind fun _ => ?_)
    exact .ite (.pure _) (agrees_expected _ _)

theorem agrees_frameOf (unit : FrameUnit) : Agrees e (frameOf inner unit) (frameOf inner' unit) :=
  (stable_acceptWord _).bind fun _ => .ite
    ((agrees_frameBound h).bind fun _ => (stable_expectWord _).bind fun _ => (agrees_frameBound h).map)
    (agrees_frameBound h).map

theorem agrees_optionalFrame : Agrees e (optionalFrame inner) (optionalFrame inner') := by
  refine (stable_choose _).bind fun unit => ?_
  cases unit with
  | none => exact .pure none
  | some unit => exact (agrees_frameOf h unit).map

theorem agrees_windowPartition : Agrees e (windowPartition inner) (windowPartition inner') := by
  refine (stable_choose _).bind fun distribute => ?_
  cases distribute with
  | none => exact .pure _
  | some distribute => exact (agrees_expressions h).map

theorem agrees_windowOrder : Agrees e (windowOrder inner) (windowOrder inner') := by
  refine (stable_choose _).bind fun ordering => ?_
  match ordering with
  | none => exact .pure _
  | some .order => exact (agrees_orderItems h).map
  | some .sort => exact (agrees_orderItems h).map
  | some .cluster => exact (agrees_expressions h).map

theorem agrees_windowDefinition : Agrees e (windowDefinition inner) (windowDefinition inner') :=
  (stable_expect _).bind fun _ => (agrees_windowPartition h).bind fun _ =>
    (agrees_windowOrder h).bind fun _ => (agrees_optionalFrame h).bind fun _ =>
      (stable_expect _).bind fun _ => .pure _

theorem agrees_window : Agrees e (window inner) (window inner') := by
  refine (stable_isSymbol _).bind fun _ => .ite stable_identifier.map ?_
  have hname : Stable e (do
      skip
      let name ← identifier
      skip
      return .windowNameParen name : Parse Window) :=
    stable_skip.bind fun _ => stable_identifier.bind fun _ => stable_skip.bind fun _ => .pure _
  exact .peek
    (fun _ => (stable_peekSymbol _ _).bind fun _ => .ite hname (agrees_windowDefinition h).map)
    ((stable_peekSymbol _ _).bind fun _ => .ite hname (agrees_windowDefinition h).map)

theorem agrees_withinGroup : Agrees e (withinGroup inner) (withinGroup inner') :=
  .maybeList (stable_acceptWords _) <|
    (stable_expect _).bind fun _ => (stable_expectWords _).bind fun _ =>
      (agrees_orderItems h).bind fun _ => (stable_expect _).bind fun _ => .pure _

omit h in
theorem stable_isFilter : Stable e isFilter :=
  (stable_isWord _).bind fun _ => .ite (stable_peekSymbol _ _) (.pure false)

theorem agrees_callFilter : Agrees e (callFilter inner) (callFilter inner') :=
  .maybe stable_isFilter <|
    (stable_skipBy _).bind fun _ => (stable_expectWord _).bind fun _ =>
      h.expression.bind fun _ => (stable_expect _).bind fun _ => .pure _

omit h in
theorem stable_isCallSuffix : Stable e isCallSuffix :=
  (stable_isWord _).bind fun _ => .ite (.pure true) <|
    (stable_isWords _).bind fun _ => .ite (.pure true) stable_isFilter

theorem agrees_callOf (name : DottedName) : Agrees e (callOf inner name) (callOf inner' name) := by
  refine (stable_expect _).bind fun _ => ?_
  refine Agrees.bind ?_ fun args => ?_
  · refine (stable_isSymbol _).bind fun _ => .ite (.pure _) ?_
    exact stable_callQuantifier.bind fun _ => (agrees_callArgs h).map
  · refine (stable_expect _).bind fun _ => (agrees_withinGroup h).bind fun _ => ?_
    refine (agrees_callFilter h).bind fun _ => (stable_choose _).bind fun _ => ?_
    exact (Agrees.maybe (stable_acceptWord _) (agrees_window h)).map

end

/-! ## Functions with a grammar of their own -/

theorem stable_intervalValue : Stable e intervalValue := by
  refine .current (fun t => .peek (fun next => ?_) ?_) (.peek (fun next => ?_) ?_)
  · split
    · exact (stable_skipBy _).bind fun _ => .pure _
    · exact stable_acceptIf _ rfl
  · split
    · contradiction
    · split
      · contradiction
      · exact stable_acceptIf _ rfl
  · exact stable_acceptIf _ rfl
  · exact stable_acceptIf _ rfl

theorem stable_intervalPart : Stable e intervalPart := by
  refine stable_intervalValue.bind fun value => ?_
  cases value with
  | none => exact .pure none
  | some value => exact Agrees.map (stable_acceptIf _ (by rfl))

theorem stable_interval : Stable e interval := by
  refine (stable_expectWord _).bind fun _ => stable_intervalPart.many.bind fun _ => ?_
  exact .ite (agrees_expected _ _) (Agrees.maybe (stable_acceptWord _) (stable_expectIf _ _ (by rfl))).map

section

variable {inner inner' : Inner} (h : inner.Agrees e inner')

include h

theorem agrees_caseBranch : Agrees e (caseBranch inner) (caseBranch inner') :=
  .maybe (stable_acceptWord _) <| h.expression.bind fun _ => (stable_expectWord _).bind fun _ =>
    h.expression.map

theorem agrees_caseExpr : Agrees e (caseExpr inner) (caseExpr inner') := by
  refine (stable_expectWord _).bind fun _ => ?_
  refine (Agrees.maybe (stable_isWord _).map h.expression).bind fun _ => ?_
  refine (agrees_caseBranch h).many.bind fun _ => .ite (agrees_expected _ _) ?_
  refine (Agrees.maybe (stable_acceptWord _) h.expression).bind fun _ => ?_
  exact (stable_expectWord _).bind fun _ => .pure _

theorem agrees_castExpr (form : CastForm) : Agrees e (castExpr inner form) (castExpr inner' form) :=
  stable_skip.bind fun _ => (stable_expect _).bind fun _ => h.expression.bind fun _ =>
    (stable_expectWord _).bind fun _ => stable_dataType.bind fun _ =>
      (stable_expect _).bind fun _ => .pure _

theorem agrees_extractExpr : Agrees e (extractExpr inner) (extractExpr inner') :=
  stable_skip.bind fun _ => (stable_expect _).bind fun _ => (stable_expectIf _ _ (by rfl)).bind fun _ =>
    (stable_expectWord _).bind fun _ => h.expression.bind fun _ =>
      (stable_expect _).bind fun _ => .pure _

omit h in
theorem stable_unlessSuffix (value : Expr) : Stable e (unlessSuffix value) :=
  stable_isCallSuffix.bind fun _ => .ite (.pure none) (.pure _)

theorem agrees_substringRange : Agrees e (substringRange inner) (substringRange inner') := by
  refine (stable_acceptWord _).bind fun _ => .ite ?_ ?_
  · exact h.expression.bind fun _ => (Agrees.maybe (stable_acceptWord _) h.expression).map
  · refine (stable_accept _).bind fun _ => .ite ?_ (.pure none)
    exact h.expression.bind fun _ => (Agrees.maybe (stable_accept _) h.expression).map

theorem agrees_substringForm (name : String) :
    Agrees e (substringForm inner name) (substringForm inner' name) := by
  refine stable_skip.bind fun _ => (stable_expect _).bind fun _ => h.expression.bind fun _ => ?_
  refine (agrees_substringRange h).bind fun range => ?_
  cases range with
  | none => exact .pure none
  | some range => exact (stable_expect _).bind fun _ => stable_unlessSuffix _

theorem agrees_trimOperands (side : Option TrimSide) :
    Agrees e (trimOperands inner side) (trimOperands inner' side) := by
  refine (stable_acceptWord _).bind fun _ => .ite h.expression.map ?_
  refine h.expression.bind fun _ => (stable_acceptWord _).bind fun _ => ?_
  exact .ite h.expression.map (.ite (.pure none) (.pure _))

theorem agrees_trimForm : Agrees e (trimForm inner) (trimForm inner') := by
  refine stable_skip.bind fun _ => (stable_expect _).bind fun _ => (stable_choose _).bind fun side => ?_
  refine (agrees_trimOperands h side).bind fun operands => ?_
  cases operands with
  | none => exact .pure none
  | some operands => exact (stable_expect _).bind fun _ => .pure _

theorem agrees_positionForm : Agrees e (positionForm inner) (positionForm inner') := by
  refine stable_skip.bind fun _ => (stable_expect _).bind fun _ => ?_
  refine (agrees_comparison h.unary).bind fun _ => (stable_acceptWord _).bind fun _ => ?_
  exact .ite (h.expression.bind fun _ => (stable_expect _).bind fun _ => .pure _) (.pure none)

theorem agrees_overlayForm : Agrees e (overlayForm inner) (overlayForm inner') := by
  refine stable_skip.bind fun _ => (stable_expect _).bind fun _ => h.expression.bind fun _ => ?_
  refine (stable_acceptWord _).bind fun _ => .ite ?_ (.pure none)
  refine h.expression.bind fun _ => (stable_expectWord _).bind fun _ => ?_
  refine h.expression.bind fun _ => (Agrees.maybe (stable_acceptWord _) h.expression).bind fun _ => ?_
  exact (stable_expect _).bind fun _ => .pure _

theorem agrees_firstLastForm (last : Bool) :
    Agrees e (firstLastForm inner last) (firstLastForm inner' last) := by
  refine stable_skip.bind fun _ => (stable_expect _).bind fun _ => h.expression.bind fun _ => ?_
  refine (stable_acceptWords _).bind fun _ => .ite ?_ (.pure none)
  exact (stable_expect _).bind fun _ => stable_unlessSuffix _

omit h in
theorem stable_datetimeUnit : Stable e datetimeUnit := by
  refine stable_currentWord.bind fun word => ?_
  cases word with
  | none => exact .pure none
  | some w =>
    refine (stable_peekSymbol _ _).bind fun _ => .ite ?_ (.pure none)
    exact (stable_skipBy _).bind fun _ => .pure _

theorem agrees_datetimeForm (name : String) :
    Agrees e (datetimeForm inner name) (datetimeForm inner' name) := by
  refine stable_skip.bind fun _ => (stable_expect _).bind fun _ => ?_
  refine stable_datetimeUnit.bind fun unit => ?_
  cases unit with
  | none => exact .pure none
  | some unit =>
    exact (agrees_expressions h).bind fun _ => (stable_expect _).bind fun _ => stable_unlessSuffix _

theorem agrees_specialForm (word : String) :
    Agrees e (specialForm inner word) (specialForm inner' word) := by
  unfold specialForm
  split
  · exact (agrees_substringForm h _).attempt
  · exact (agrees_substringForm h _).attempt
  · exact (agrees_trimForm h).attempt
  · exact (agrees_positionForm h).attempt
  · exact (agrees_overlayForm h).attempt
  · exact (agrees_firstLastForm h false).attempt
  · exact (agrees_firstLastForm h true).attempt
  · exact .ite (agrees_datetimeForm h _).attempt (.pure none)

end

/-! ## Primary expressions -/

theorem stable_nameStep : Stable e nameStep := by
  refine (stable_isSymbol _).bind fun _ => .ite (.peek (fun t => ?_) (.pure none)) (.pure none)
  split
  · exact (stable_skipBy _).bind fun _ => .pure _
  · exact .ite (stable_skip.bind fun _ => stable_identifier.map) (.pure none)

theorem stable_extendName (path : NamePath) : Stable e (extendName path) := by
  refine .ite (.pure none) (stable_nameStep.bind fun step => ?_)
  match step with
  | none => exact .pure none
  | some .star => exact .pure _
  | some (.part name) => exact .pure _

theorem stable_takeFor (value : Expr) : Stable e (takeFor value) :=
  stable_skip.bind fun _ => .pure value

theorem stable_lambdaParams : Stable e lambdaParams :=
  stable_identifierList.bind fun _ => (stable_expect _).bind fun _ => .pure _

theorem stable_stringPiece : Stable e stringPiece := stable_acceptIf _ rfl

section

variable {inner inner' : Inner} (h : inner.Agrees e inner')

include h

theorem agrees_bareName (parts : List Ident) :
    Agrees e (bareName inner parts) (bareName inner' parts) := by
  match parts with
  | [] => exact .pure _
  | [name] => exact (stable_accept _).bind fun _ => .ite h.expression.map (.pure _)
  | _ :: _ :: _ => exact .pure _

theorem agrees_nameExpr : Agrees e (nameExpr inner) (nameExpr inner') := by
  refine stable_identifier.bind fun first => ?_
  refine (Agrees.iterate stable_extendName ⟨[first], false⟩).bind fun path => ?_
  refine .ite (.pure _) ((stable_isSymbol _).bind fun _ => .ite ?_ (agrees_bareName h _))
  exact (agrees_callOf h _).map

theorem agrees_parenQuery : Agrees e (parenQuery inner) (parenQuery inner') :=
  stable_skip.bind fun _ => h.query.bind fun _ => (stable_expect _).bind fun _ => .pure _

theorem agrees_plainWord (word : String) (called : Bool) :
    Agrees e (plainWord inner word called) (plainWord inner' word called) := by
  refine .ite ?_ (.ite (agrees_expected _ _) (agrees_nameExpr h))
  refine (agrees_specialForm h word).bind fun form => ?_
  cases form with
  | none => exact agrees_nameExpr h
  | some value => exact .pure value

theorem agrees_structExpr : Agrees e (structExpr inner) (structExpr inner') := by
  refine (stable_skipBy _).bind fun _ => ?_
  refine (Agrees.maybeList (stable_isSymbol _).map (agrees_selectItems h)).bind fun _ => ?_
  exact (stable_expect _).bind fun _ => .pure _

theorem agrees_keywordExpr (word : String) (called : Bool) :
    Agrees e (keywordExpr inner word called) (keywordExpr inner' word called) := by
  unfold keywordExpr
  split
  · exact stable_takeFor _
  · exact stable_takeFor _
  · exact stable_takeFor _
  · exact stable_takeFor _
  · exact stable_takeFor _
  · exact stable_takeFor _
  · exact .peek (fun _ => .ite stable_interval (agrees_plainWord h word _)) (agrees_plainWord h word _)
  · exact agrees_caseExpr h
  · exact agrees_castExpr h .cast
  · exact agrees_castExpr h .tryCast
  · exact agrees_extractExpr h
  · refine (stable_queryAhead _).bind fun _ => .ite ?_ (agrees_plainWord h word _)
    exact stable_skip.bind fun _ => (agrees_parenQuery h).map
  · exact agrees_structExpr h
  · exact agrees_plainWord h word _

theorem agrees_wordExpr (word : String) : Agrees e (wordExpr inner word) (wordExpr inner' word) := by
  refine .peek (fun t => ?_) (agrees_keywordExpr h word false)
  split
  · exact .ite ((stable_skipBy _).bind fun _ => .pure _) (agrees_keywordExpr h word _)
  · exact agrees_keywordExpr h word _

theorem agrees_rowOrParen : Agrees e (rowOrParen inner) (rowOrParen inner') := by
  refine (stable_expect _).bind fun _ => h.expression.bind fun _ => ?_
  refine stable_selectAlias.bind fun _ => (stable_isSymbol _).bind fun _ => ?_
  refine .ite (stable_takeFor _) ?_
  refine (Agrees.many (.maybe (stable_accept _) (agrees_selectItem h))).bind fun _ => ?_
  exact (stable_expect _).bind fun _ => .pure _

theorem agrees_lambdaOrRow : Agrees e (lambdaOrRow inner) (lambdaOrRow inner') := by
  refine stable_lambdaParams.attempt.bind fun params => ?_
  cases params with
  | none => exact agrees_rowOrParen h
  | some params => exact h.expression.map

theorem agrees_parenExpr : Agrees e (parenExpr inner) (parenExpr inner') := by
  refine (stable_queryAhead _).bind fun _ => .ite (agrees_lambdaOrRow h) ?_
  refine (stable_peekSymbol _ _).bind fun _ => .ite ?_ (agrees_parenQuery h).map
  refine (Agrees.attempt (agrees_parenQuery h).map).bind fun query => ?_
  cases query with
  | none => exact agrees_lambdaOrRow h
  | some query => exact .pure _

theorem agrees_primary : Agrees e (primary inner) (primary inner') := by
  refine .current (fun t => ?_) (agrees_expected _ _)
  split
  · exact stable_takeFor _
  · exact stable_stringPiece.many.map
  · exact stable_takeFor _
  · exact agrees_parenExpr h
  · exact agrees_nameExpr h
  · exact agrees_wordExpr h _
  · exact agrees_expected _ _

/-! ## Operators and predicates -/

theorem agrees_postfixStep (base : Expr) :
    Agrees e (postfixStep inner base) (postfixStep inner' base) := by
  refine (stable_accept _).bind fun _ => .ite ?_ ((stable_accept _).bind fun _ => .ite ?_ ?_)
  · exact h.expression.bind fun _ => (stable_expect _).bind fun _ => .pure _
  · exact stable_dataType.map
  · refine stable_dottedPart.bind fun name => ?_
    cases name with
    | none => exact .pure none
    | some name => exact .pure _

theorem agrees_postfixExpr : Agrees e (postfixExpr inner) (postfixExpr inner') :=
  (agrees_primary h).bind fun base => .iterate (agrees_postfixStep h) base

theorem agrees_unaryExpr : Agrees e (unaryExpr inner) (unaryExpr inner') := by
  refine (stable_acceptIf _ (by rfl)).bind fun op => ?_
  cases op with
  | none => exact agrees_postfixExpr h
  | some op => exact h.unary.map

theorem agrees_comparisonExpr : Agrees e (comparisonExpr inner) (comparisonExpr inner') :=
  agrees_comparison (agrees_unaryExpr h)

theorem agrees_predicateAfter (tested : Expr) (negated : Bool) (word : PredicateWord) :
    Agrees e (predicateAfter inner tested negated word)
      (predicateAfter inner' tested negated word) := by
  cases word with
  | between =>
    exact (agrees_comparisonExpr h).bind fun _ => (stable_expectWord _).bind fun _ =>
      (agrees_comparisonExpr h).map
  | inside =>
    refine (stable_expect _).bind fun _ => stable_isQueryStart.bind fun _ => .ite ?_ ?_
    · exact h.query.bind fun _ => (stable_expect _).bind fun _ => .pure _
    · exact (agrees_expressions h).bind fun _ => (stable_expect _).bind fun _ => .pure _
  | like op =>
    exact (agrees_comparisonExpr h).bind fun _ => (stable_optionalString _).bind fun _ => .pure _

theorem agrees_predicateAfterIs (tested : Expr) :
    Agrees e (predicateAfterIs inner tested) (predicateAfterIs inner' tested) := by
  refine (stable_acceptWord _).bind fun _ => (stable_acceptWords _).bind fun _ => ?_
  refine .ite (agrees_comparisonExpr h).map ((stable_choose _).bind fun test => ?_)
  cases test with
  | none => exact agrees_expected _ _
  | some test => exact .pure _

omit h in
theorem stable_predicateHead : Stable e predicateHead := by
  refine Agrees.rewinding ((stable_acceptWord _).bind fun _ => (stable_choose _).bind fun word => ?_)
  cases word with
  | none => exact .pure none
  | some word => exact .pure _

theorem agrees_predicateStep (tested : Expr) :
    Agrees e (predicateStep inner tested) (predicateStep inner' tested) := by
  refine stable_predicateHead.bind fun head => ?_
  cases head with
  | none => exact .maybe (stable_acceptWord _) (agrees_predicateAfterIs h tested)
  | some head => exact (agrees_predicateAfter h tested head.1 head.2).map

theorem agrees_predicate : Agrees e (predicate inner) (predicate inner') :=
  (agrees_comparisonExpr h).bind fun tested => .iterate (agrees_predicateStep h) tested

omit h in
theorem stable_acceptNot : Stable e acceptNot :=
  (stable_acceptWord _).bind fun _ => .ite (.pure true) (stable_accept _)

theorem agrees_negationExpr : Agrees e (negationExpr inner) (negationExpr inner') :=
  stable_acceptNot.bind fun _ => .ite h.negation.map (agrees_predicate h)

theorem agrees_expressionOf : Agrees e (expressionOf inner) (expressionOf inner') :=
  agrees_chain (agrees_chain (agrees_negationExpr h) rfl) rfl

end

end Grammar

end SqlTidy
