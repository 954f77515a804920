import SqlTidy.Proofs.Keep.Expr
import SqlTidy.Proofs.Walk.Basic

/-!
# Expressions walk

One lemma per rule, from names and types up to whole expressions. A rule that is written against the rules one
level further in is good for one token more than they are, if it takes a token before it calls them, and for
as many as they are if it calls them at once.
-/

namespace SqlTidy

open Parse

namespace Grammar

variable {i : Input} {pos n : Nat}

/-! ## Looking ahead -/

theorem looks_queryAhead (d : Nat) : Looks (queryAhead d) :=
  .bind (fun _ _ => ⟨_, rfl⟩) fun _ => .bind (.peek _) fun _ => .pure _

theorem looks_isQueryStart : Looks isQueryStart :=
  .bind (looks_queryAhead 0) fun _ => .ite (.pure _) (.isWord _)

theorem looks_mayBeAlias : Looks mayBeAlias := by
  refine .bind .current fun t => ?_
  split
  · exact .pure _
  · exact .pure _
  · exact .pure _

theorem looks_isFilter : Looks isFilter :=
  .bind (.isWord _) fun _ => .ite (.peekSymbol _ _) (.pure _)

theorem looks_isCallSuffix : Looks isCallSuffix :=
  .bind (.isWord _) fun _ => .ite (.pure _) (.bind (.isWords _) fun _ => .ite (.pure _) looks_isFilter)

/-! ## Names and literals -/

/-- What is no symbol is no bracket. -/
theorem nest_of_meaning {α : Type} {meaning : Token → Option α} (h : ∀ sym, meaning (.symbol sym) = none)
    (t : Token) (a : α) (ht : meaning t = some a) : t.nest [] = some [] := by
  cases t with
  | symbol sym =>
    rw [h sym] at ht
    contradiction
  | _ => rfl

theorem takes_identifier : Takes n [] identifier := takes_expectIf (nest_of_meaning fun _ => rfl)

/-- An identifier takes one token. -/
theorem walksAt_identifier {α : Type} {advances closes : α → Prop} {s : List Symbol}
    {k : Ident → Parse α} (h : isIdentifier (i.tokenAt pos))
    (hk : ∀ name, WalksAt (fun _ => False) closes s (k name) i (pos + 1)) :
    WalksAt advances closes s (identifier >>= k) i pos := by
  have hne := ne_eof_of_isIdentifier h
  have hrun : ∃ name, identifier i pos = (.ok name, pos + 1) := by
    simp only [identifier, expectIf, Bind.bind, acceptIf_of_ne_eof hne]
    cases ht : i.tokenAt pos with
    | word w => exact ⟨⟨w, false⟩, rfl⟩
    | quoted w => exact ⟨⟨w, true⟩, rfl⟩
    | _ =>
      rw [ht] at h
      contradiction
  obtain ⟨name, hrun⟩ := hrun
  refine .token hne ?_ hrun (hk name)
  cases ht : i.tokenAt pos with
  | word w => rfl
  | quoted w => rfl
  | _ =>
    rw [ht] at h
    contradiction

theorem takes_stringLiteral : Takes n [] stringLiteral :=
  takes_expectIf (nest_of_meaning fun _ => rfl)

theorem takes_number : Takes n [] number := takes_expectIf (nest_of_meaning fun _ => rfl)

theorem steps_optionalString (keyword : String) : Steps n [] (optionalString keyword) :=
  steps_maybe (tests_acceptWord keyword) takes_stringLiteral.passes

theorem steps_dottedPart : Steps n [] dottedPart := by
  intro i pos hpos
  refine .isSymbol (.peek (.ite (fun h => ?_) fun _ => .of hpos .decline))
  rw [Bool.and_eq_true, decide_eq_true_eq] at h
  exact .skipFirst hpos.succ h.1 nofun rfl (.map takes_identifier)

theorem takes_dottedName : Takes n [] dottedName :=
  .take takes_identifier fun _ => .mapPasses (passes_many steps_dottedPart)

theorem takes_identifierList : Takes n [] identifierList :=
  .expect rfl <| .bind (takes_commaSeparated takes_identifier) fun _ => .expect rfl (.done _)

theorem passes_optionalIdentifierList : Passes n [] optionalIdentifierList :=
  passes_maybeList (Looks.isSymbol _).passes takes_identifierList.passes

/-! ## Data types -/

theorem takes_typeParameter : Takes n [] typeParameter :=
  takes_expectIf (nest_of_meaning fun _ => rfl)

theorem passes_primitiveType (name : String) : Passes n [] (primitiveType name) :=
  .accept rfl (.bind (takes_commaSeparated takes_typeParameter) fun _ => .expect rfl (.done _))
    (.done _)

theorem takes_capitals (what : String) : Takes n [] (expectIf what capitals) :=
  takes_expectIf (nest_of_meaning fun _ => rfl)

theorem takes_capitalsAmong (what : String) (words : List String) :
    Takes n [] (expectIf what (capitalsAmong words)) :=
  takes_expectIf (nest_of_meaning fun _ => rfl)

theorem takes_intervalType : Takes n [] intervalType :=
  .take (takes_capitalsAmong _ _) fun _ =>
    .mapPasses (steps_maybe (tests_acceptWord _) (takes_capitals _).passes).passes

section

variable {inner : Parse DataType} (h : Takes n [] inner)

include h

theorem takes_structField : Takes n [] (structField inner) :=
  .take takes_identifier fun _ => .bind (tests_accept rfl) fun _ => .bind h fun _ =>
    .bind (tests_acceptWords rfl) fun _ => .mapPasses (steps_optionalString _).passes

theorem passes_typeAfter (name : String) : Passes n [] (typeAfter inner name) := by
  intro i pos hpos
  refine .isSymbol ?_
  split
  · rename_i hbracket
    refine .skipFirst hpos.succ (of_decide_eq_true hbracket) nofun rfl ?_
    exact .bind h fun _ => .expect rfl (.done _)
  · rename_i hbracket
    refine .skipFirst hpos.succ (of_decide_eq_true hbracket) nofun rfl ?_
    exact .bind h fun _ => .expect rfl (.bind h fun _ => .expect rfl (.done _))
  · rename_i hbracket
    refine .skipFirst hpos.succ (of_decide_eq_true hbracket) nofun rfl ?_
    exact .bind (takes_commaSeparated (takes_structField h)) fun _ => .expect rfl (.done _)
  · exact .of hpos (.accept rfl (.done _) (passes_primitiveType name))
  · exact .of hpos takes_intervalType.passes
  · exact .of hpos (passes_primitiveType name)

end

theorem takes_dataType : Takes n [] dataType :=
  walks_fix fun _ _ h => .first (takes_expectIf (nest_of_meaning fun _ => rfl)) fun name =>
    passes_typeAfter h name

/-! ## Lists of expressions -/

section

variable {inner : Inner} (h : inner.Walks n)

include h

theorem takes_expressions : Takes n [] (expressions inner) := takes_commaSeparated h.expression

theorem passes_expressionsBeforeParen : Passes n [] (expressionsBeforeParen inner) :=
  .look (.isSymbol _) fun _ => .ite (.done _) (takes_expressions h).passes

omit h in
theorem takes_aliasName : Takes n [] aliasName :=
  .look (.isSymbol _) fun _ => .ite (.map takes_identifierList) (.map takes_identifier)

omit h in
theorem steps_selectAlias : Steps n [] selectAlias :=
  .ifTake (tests_acceptWord _) (.map takes_aliasName)
    (.look looks_mayBeAlias fun _ => .ite (.map takes_identifier) .decline)

theorem takes_selectItem : Takes n [] (selectItem inner) :=
  .take h.expression fun _ => .mapPasses steps_selectAlias.passes

theorem takes_selectItems : Takes n [] (selectItems inner) :=
  takes_commaSeparated (takes_selectItem h)

theorem takes_orderItem : Takes n [] (orderItem inner) :=
  .take h.expression fun _ => .bind (steps_choose rfl) fun _ => .bind (steps_choose rfl) fun _ => .done _

theorem takes_orderItems : Takes n [] (orderItems inner) := takes_commaSeparated (takes_orderItem h)

end

/-! ## Binary operators -/

/-- Behind the first operand the operators and the further operands are followed, so the operand may well be
good for one token more than is needed there. -/
theorem takes_chain {operators : Token → Option BinaryOp} {operand : Parse Expr}
    (hop : ∀ t op, operators t = some op → t.nest [] = some []) (h : Takes n [] operand) :
    Takes n [] (chain operators operand) := by
  refine .take h fun first => passes_iterate (fun left => ?_) first
  exact .matchTake (steps_acceptIf hop) (fun _ => .bind h fun _ => .done _) .decline

/-- Operators are no brackets. -/
theorem nest_of_operator (t : Token) (op : BinaryOp)
    (h : multiplicativeOp t = some op ∨ additiveOp t = some op ∨ bitAndOp t = some op ∨
      bitXorOp t = some op ∨ bitOrOp t = some op ∨ comparisonOp t = some op ∨ andOp t = some op ∨
      orOp t = some op) : t.nest [] = some [] := by
  cases t with
  | symbol sym =>
    cases sym with
    | lparen | rparen | lbracket | rbracket =>
      simp [multiplicativeOp, additiveOp, bitAndOp, bitXorOp, bitOrOp, comparisonOp, andOp, orOp,
        Token.isKeyword] at h
    | _ => rfl
  | _ => rfl

theorem takes_additive {unary : Parse Expr} (h : Takes n [] unary) : Takes n [] (additive unary) :=
  takes_chain (fun t op hop => nest_of_operator t op (by simp [hop]))
    (takes_chain (fun t op hop => nest_of_operator t op (by simp [hop])) h)

theorem takes_comparison {unary : Parse Expr} (h : Takes n [] unary) :
    Takes n [] (comparison unary) := by
  refine takes_chain ?_ (takes_chain ?_ (takes_chain ?_ (takes_chain ?_ (takes_additive h))))
  all_goals exact fun t op hop => nest_of_operator t op (by simp [hop])

/-! ## Calls and windows -/

section

variable {inner : Inner} (h : inner.Walks n)

include h

theorem takes_callArg : Takes n [] (callArg inner) := by
  intro i pos hpos
  refine .current (.peekSymbol (.ite (fun hnamed => ?_) fun _ => .of hpos (.map h.expression)))
  rw [Bool.and_eq_true, decide_eq_true_eq] at hnamed
  have hlast := hpos.lt_last (ne_eof_of_isIdentifier hnamed.1)
  refine walksAt_identifier hnamed.1 fun name => ?_
  exact .skipFirst (hpos.ahead (Nat.le_succ pos) hlast).succ hnamed.2 nofun rfl (.map h.expression)

theorem takes_callArgs : Takes n [] (callArgs inner) := takes_commaSeparated (takes_callArg h)

theorem passes_callArgsBeforeParen : Passes n [] (callArgsBeforeParen inner) :=
  .look (.isSymbol _) fun _ => .ite (.done _) (takes_callArgs h).passes

omit h in
theorem steps_callQuantifier : Steps n [] callQuantifier := by
  refine .ifTake (tests_acceptWord _) (.done _) fun i pos hpos => ?_
  refine .isWord (.ite (fun hall => .peek ?_) fun _ => .of hpos .decline)
  split
  · exact .of hpos .decline
  · exact .of hpos .decline
  · exact .skipFirst hpos.succ rfl (ne_eof_of_isKeyword hall) (Token.nest_of_isKeyword hall []) (.done _)

theorem takes_frameBound : Takes n [] (frameBound inner) := by
  refine .matchTake (steps_choose rfl) (fun _ => .done _) ?_
  refine .take (takes_additive h.unary) fun _ => .ifTake (tests_acceptWord _) (.done _) ?_
  exact .ifTake (tests_acceptWord _) (.done _) (walks_expected _)

theorem takes_frameOf (unit : FrameUnit) : Takes n [] (frameOf inner unit) :=
  .ifTake (tests_acceptWord _)
    (.bind (takes_frameBound h) fun _ => .bind (takes_expectWord _) fun _ => .map (takes_frameBound h))
    (.map (takes_frameBound h))

theorem steps_optionalFrame : Steps n [] (optionalFrame inner) :=
  .matchTake (steps_choose rfl) (fun unit => .map (takes_frameOf h unit)) .decline

theorem passes_windowPartition : Passes n [] (windowPartition inner) :=
  .matchTake (steps_choose rfl) (fun _ => .map (takes_expressions h)) (.done _)

theorem passes_windowOrder : Passes n [] (windowOrder inner) := by
  refine .matchTake (steps_choose rfl) (fun ordering => ?_) (.done _)
  cases ordering with
  | order => exact .map (takes_orderItems h)
  | sort => exact .map (takes_orderItems h)
  | cluster => exact .map (takes_expressions h)

theorem takes_windowDefinition : Takes (n + 1) [] (windowDefinition inner) := by
  refine .expectFirst rfl <| .bind (passes_windowPartition h) fun ⟨partitionBy, distribute⟩ => ?_
  refine .bind (passes_windowOrder h) fun ⟨orderBy, sort, clusterBy⟩ => ?_
  exact .bind (steps_optionalFrame h) fun _ => .expect rfl (.done _)

theorem takes_window : Takes (n + 1) [] (window inner) := by
  intro i pos hpos
  refine .isSymbol (.ite (fun _ => .of hpos (.map takes_identifier)) fun hopen => ?_)
  refine .peek (.peekSymbol (.ite (fun hname => ?_) fun _ => .of hpos (.map (takes_windowDefinition h))))
  simp only [Bool.not_eq_true', decide_eq_false_iff_not, Decidable.not_not] at hopen
  rw [Bool.and_eq_true, decide_eq_true_eq] at hname
  have hfirst := hpos.lt_last (hopen ▸ nofun : i.tokenAt pos ≠ .eof)
  have hsecond := hpos.capped.lt_last (ne_eof_of_isIdentifier hname.1)
  refine .skip hopen nofun rfl (walksAt_identifier hname.1 fun name => ?_)
  refine .skipFirst (hpos.ahead ?_ hsecond) hname.2 nofun rfl (.done _)
  exact Nat.le_add_right pos 2

theorem passes_withinGroup : Passes n [] (withinGroup inner) :=
  passes_maybeList (tests_acceptWords rfl) <| .expect rfl <| .bind (passes_expectWords _) fun _ =>
    .bind (takes_orderItems h) fun _ => .expect rfl (.done _)

theorem steps_callFilter : Steps n [] (callFilter inner) := by
  intro i pos hpos
  obtain ⟨found, hfound⟩ := looks_isFilter i pos
  refine .stay hfound (.ite (fun htrue => .map ?_) fun _ => .of hpos .decline)
  obtain ⟨hword, hopen⟩ := (ends_isFilter_seen found pos hfound).2 htrue
  refine .skipTwo hpos.succ rfl hopen (ne_eof_of_isKeyword hword) nofun
    (Token.nest_of_isKeyword hword []) rfl ?_
  exact .bind (takes_expectWord _) fun _ => .bind h.expression fun _ => .expect rfl (.done _)

theorem takes_callOf (name : DottedName) : Takes (n + 1) [] (callOf inner name) := by
  have hargs : Passes n [] (do
      if ← isSymbol .rparen then
        return (none, [])
      else
        let quantifier ← callQuantifier
        return (quantifier, ← callArgs inner) : Parse (Option Quantifier × List CallArg)) :=
    .look (.isSymbol _) fun _ => .ite (.done _)
      (.bind steps_callQuantifier fun _ => .map (takes_callArgs h))
  refine .expectFirst rfl <| .bind hargs fun ⟨quantifier, args⟩ => .expect rfl ?_
  refine .bind (passes_withinGroup h) fun _ => .bind (steps_callFilter h) fun _ => ?_
  refine .bind (steps_choose rfl) fun _ => .mapPasses ?_
  exact (steps_maybe (tests_acceptWord _) (takes_window h).mono.passes).passes

/-! ## Functions with a grammar of their own -/

omit h in
theorem steps_intervalValue : Steps n [] intervalValue := by
  intro i pos hpos
  refine .current (.peek ?_)
  split
  · rename_i hminus hn
    exact .skipTwo hpos.succ hminus hn nofun nofun rfl rfl (.done _)
  · exact .of hpos (steps_acceptIf (nest_of_meaning fun _ => rfl))

omit h in
theorem steps_intervalPart : Steps n [] intervalPart :=
  .matchTake steps_intervalValue
    (fun _ => .mapPasses (steps_acceptIf (nest_of_meaning fun _ => rfl)).passes) .decline

omit h in
theorem takes_interval : Takes n [] interval := by
  refine .take (takes_expectWord _) fun _ => .bind (passes_many steps_intervalPart) fun parts => ?_
  refine .ite (walks_expected _) (.mapPasses ?_)
  exact (steps_maybe (tests_acceptWord _) (takes_capitalsAmong _ _).passes).passes

theorem steps_caseBranch : Steps n [] (caseBranch inner) :=
  steps_maybe (tests_acceptWord _) <| .bind h.expression fun _ => .bind (takes_expectWord _) fun _ =>
    .map h.expression

theorem takes_caseExpr : Takes (n + 1) [] (caseExpr inner) := by
  refine .first (takes_expectWord _) fun _ => ?_
  refine .bind (steps_maybeIf (Looks.isWord _).not.passes h.expression) fun _ => ?_
  refine .bind (passes_many (steps_caseBranch h)) fun branches => .ite (walks_expected _) ?_
  refine .bind (steps_maybe (tests_acceptWord _) h.expression.passes) fun _ => ?_
  exact .bind (takes_expectWord _) fun _ => .done _

variable {word : String} (hpos : i.Leaves pos (n + 1)) (hword : i.tokenAt pos = .word word)

include hpos hword

theorem walksAt_castExpr (form : CastForm) :
    WalksAt (fun _ => True) (fun _ => True) [] (castExpr inner form) i pos :=
  .skipFirst hpos hword nofun rfl <| .expect rfl <| .bind h.expression fun _ =>
    .bind (takes_expectWord _) fun _ => .bind takes_dataType fun _ => .expect rfl (.done _)

theorem walksAt_extractExpr :
    WalksAt (fun _ => True) (fun _ => True) [] (extractExpr inner) i pos :=
  .skipFirst hpos hword nofun rfl <| .expect rfl <| .bind (takes_capitals _) fun _ =>
    .bind (takes_expectWord _) fun _ => .bind h.expression fun _ => .expect rfl (.done _)

/-! ### Forms that may decline -/

omit h hpos hword in
theorem tries_unlessSuffix (e : Expr) :
    Walks n (fun _ => False) (fun a => a.isSome = true) [] (unlessSuffix e) :=
  .look looks_isCallSuffix fun _ => .ite (.done _) (.done _)

omit hpos hword in
theorem passes_substringRange : Passes n [] (substringRange inner) :=
  .ifTake (tests_acceptWord _)
    (.bind h.expression fun _ => .mapPasses (steps_maybe (tests_acceptWord _) h.expression.passes).passes)
    (.ifTake (tests_accept rfl)
      (.bind h.expression fun _ => .mapPasses (steps_maybe (tests_accept rfl) h.expression.passes).passes)
      (.done _))

theorem triesAt_substringForm (name : String) :
    WalksAt (fun a => a.isSome = true) (fun a => a.isSome = true) [] (substringForm inner name) i
      pos := by
  refine .skipFirst hpos hword nofun rfl <| .expect rfl <| .bind h.expression fun _ => ?_
  refine .bind (passes_substringRange h) fun range => ?_
  cases range with
  | none => exact .abandon id
  | some range => exact .expect rfl (tries_unlessSuffix _)

omit hpos hword in
theorem passes_trimOperands (side : Option TrimSide) : Passes n [] (trimOperands inner side) :=
  .ifTake (tests_acceptWord _) (.map h.expression) <| .bind h.expression fun _ =>
    .ifTake (tests_acceptWord _) (.map h.expression) (.ite (.done _) (.done _))

theorem triesAt_trimForm :
    WalksAt (fun a => a.isSome = true) (fun a => a.isSome = true) [] (trimForm inner) i pos := by
  refine .skipFirst hpos hword nofun rfl <| .expect rfl <| .bind (steps_choose rfl) fun side => ?_
  refine .bind (passes_trimOperands h side) fun operands => ?_
  cases operands with
  | none => exact .abandon id
  | some operands => exact .expect rfl (.done _)

theorem triesAt_positionForm :
    WalksAt (fun a => a.isSome = true) (fun a => a.isSome = true) [] (positionForm inner) i pos := by
  refine .skipFirst hpos hword nofun rfl <| .expect rfl <| .bind (takes_comparison h.unary) fun _ => ?_
  exact .ifTake (tests_acceptWord _) (.bind h.expression fun _ => .expect rfl (.done _)) (.abandon id)

theorem triesAt_overlayForm :
    WalksAt (fun a => a.isSome = true) (fun a => a.isSome = true) [] (overlayForm inner) i pos := by
  refine .skipFirst hpos hword nofun rfl <| .expect rfl <| .bind h.expression fun _ => ?_
  refine .ifTake (tests_acceptWord _) ?_ (.abandon id)
  refine .bind h.expression fun _ => .bind (takes_expectWord _) fun _ => .bind h.expression fun _ => ?_
  exact .bind (steps_maybe (tests_acceptWord _) h.expression.passes) fun _ => .expect rfl (.done _)

theorem triesAt_firstLastForm (last : Bool) :
    WalksAt (fun a => a.isSome = true) (fun a => a.isSome = true) [] (firstLastForm inner last) i
      pos := by
  refine .skipFirst hpos hword nofun rfl <| .expect rfl <| .bind h.expression fun _ => ?_
  exact .ifTake (tests_acceptWords rfl) (.expect rfl (tries_unlessSuffix _)) (.abandon id)

omit h hpos hword in
theorem steps_datetimeUnit : Steps n [] datetimeUnit := by
  intro i pos hpos
  obtain ⟨w, hw⟩ := Looks.currentWord i pos
  refine .stay hw ?_
  cases w with
  | none => exact .of hpos .decline
  | some w =>
    obtain ⟨word, hword⟩ := (ends_currentWord _ _ hw).2 rfl
    refine .peekSymbol (.ite (fun hunit => ?_) fun _ => .of hpos .decline)
    rw [Bool.and_eq_true, decide_eq_true_eq, decide_eq_true_eq] at hunit
    exact .skipTwo hpos.succ hword hunit.2 nofun nofun rfl rfl (.done _)

theorem triesAt_datetimeForm (name : String) :
    WalksAt (fun a => a.isSome = true) (fun a => a.isSome = true) [] (datetimeForm inner name) i
      pos := by
  refine .skipFirst hpos hword nofun rfl <| .expect rfl <| .bind steps_datetimeUnit fun unit => ?_
  cases unit with
  | none => exact .abandon id
  | some unit => exact .bind (takes_expressions h) fun _ => .expect rfl (tries_unlessSuffix _)

/-- A special form that declines has taken nothing. -/
theorem stepsAt_specialForm :
    WalksAt (fun a => a.isSome = true) (fun _ => True) [] (specialForm inner word) i pos := by
  unfold specialForm
  split
  · exact .attempt hpos.le_last (triesAt_substringForm h hpos hword _)
  · exact .attempt hpos.le_last (triesAt_substringForm h hpos hword _)
  · exact .attempt hpos.le_last (triesAt_trimForm h hpos hword)
  · exact .attempt hpos.le_last (triesAt_positionForm h hpos hword)
  · exact .attempt hpos.le_last (triesAt_overlayForm h hpos hword)
  · exact .attempt hpos.le_last (triesAt_firstLastForm h hpos hword _)
  · exact .attempt hpos.le_last (triesAt_firstLastForm h hpos hword _)
  · exact .ite (fun _ => .attempt hpos.le_last (triesAt_datetimeForm h hpos hword _)) fun _ =>
      .of hpos .decline

/-! ## Names -/

omit h hpos hword in
theorem steps_nameStep : Steps n [] nameStep := by
  intro i pos hpos
  refine .isSymbol (.ite (fun hdot => .peek ?_) fun _ => .of hpos .decline)
  rw [decide_eq_true_eq] at hdot
  split
  · rename_i hstar
    exact .skipTwo hpos.succ hdot hstar nofun nofun rfl rfl (.done _)
  · exact .ite (fun _ => .skipFirst hpos.succ hdot nofun rfl (.map takes_identifier)) fun _ =>
      .of hpos .decline

omit h hpos hword in
theorem steps_extendName (path : NamePath) : Steps n [] (extendName path) := by
  refine .ite .decline (.matchTake steps_nameStep (fun step => ?_) .decline)
  cases step with
  | star => exact .done _
  | part name => exact .done _

omit hpos hword in
theorem passes_bareName (parts : List Ident) : Passes n [] (bareName inner parts) := by
  unfold bareName
  split
  · exact .accept rfl (.map h.expression) (.done _)
  · exact .done _

omit hpos hword in
theorem takes_nameExpr : Takes (n + 1) [] (nameExpr inner) := by
  refine .first takes_identifier fun first => ?_
  refine .bind (passes_iterate steps_extendName ⟨[first], false⟩) fun path => .ite (.done _) ?_
  exact .look (.isSymbol _) fun _ => .ite (.map (takes_callOf h _).mono) (passes_bareName h _)

/-! ## Words -/

omit hword in
theorem walksAt_parenQuery (hopen : i.tokenAt pos = .symbol .lparen) :
    WalksAt (fun _ => True) (fun _ => True) [] (parenQuery inner) i pos :=
  .skipFirst hpos hopen nofun rfl <| .bind h.query fun _ => .expect rfl (.done _)

theorem walksAt_plainWord (called : Bool) :
    WalksAt (fun _ => True) (fun _ => True) [] (plainWord inner word called) i pos := by
  refine .ite (fun _ => ?_) fun _ => .of hpos (.ite (walks_expected _) (takes_nameExpr h))
  refine .bind (fun _ _ => trivial) (stepsAt_specialForm h hpos hword) fun form mid hmid hlast _ => ?_
  cases form with
  | none => exact ((takes_nameExpr h) i mid (hpos.ahead hmid hlast)).imp (fun _ _ => trivial) fun _ => id
  | some e => exact .pure hlast (fun h => h.2 rfl) fun _ => rfl

omit h hword in
theorem walksAt_takeFor {t : Token} (ht : i.tokenAt pos = t) (hne : t ≠ .eof)
    (hnest : t.nest [] = some []) (e : Expr) :
    WalksAt (fun _ => True) (fun _ => True) [] (takeFor e) i pos :=
  .skipFirst hpos ht hne hnest (.done _)

theorem walksAt_keywordExpr (called : Bool)
    (hcalled : called → i.tokenAt (pos + 1) = .symbol .lparen) :
    WalksAt (fun _ => True) (fun _ => True) [] (keywordExpr inner word called) i pos := by
  have htake := walksAt_takeFor hpos hword nofun rfl
  unfold keywordExpr
  split
  · exact htake _
  · exact htake _
  · exact htake _
  · exact htake _
  · exact htake _
  · exact htake _
  · exact .peek (.ite (fun _ => .of hpos takes_interval) fun _ => walksAt_plainWord h hpos hword _)
  · exact .of hpos (takes_caseExpr h)
  · exact walksAt_castExpr h hpos hword _
  · exact walksAt_castExpr h hpos hword _
  · exact walksAt_extractExpr h hpos hword
  · refine .look (looks_queryAhead 1) fun _ => .ite (fun _ => ?_) fun _ =>
      walksAt_plainWord h hpos hword _
    have hlast := hpos.lt_last (hword ▸ nofun : i.tokenAt pos ≠ .eof)
    have hquery := walksAt_parenQuery h (hpos.ahead (Nat.le_succ pos) hlast) (hcalled rfl)
    exact .skip hword nofun rfl (.map (hquery.imp (fun _ _ => trivial) fun _ => id))
  · refine .skipTwo hpos hword (hcalled rfl) nofun nofun rfl rfl ?_
    exact .bind (passes_maybeList (Looks.isSymbol _).not.passes (takes_selectItems h).passes) fun _ =>
      .expect rfl (.done _)
  · exact walksAt_plainWord h hpos hword _

theorem walksAt_wordExpr :
    WalksAt (fun _ => True) (fun _ => True) [] (wordExpr inner word) i pos := by
  refine .peek ?_
  cases hnext : i.tokenAt (pos + 1) with
  | string value =>
    refine .ite (fun _ => ?_) fun _ => walksAt_keywordExpr h hpos hword false (by simp)
    exact .skipTwo hpos hword hnext nofun nofun rfl rfl (.done _)
  | _ =>
    exact walksAt_keywordExpr h hpos hword _ fun hcalled => hnext.trans (of_decide_eq_true hcalled)

/-! ## Parentheses -/

omit h hpos hword in
theorem steps_lambdaParams : Steps n [] (attempt lambdaParams) :=
  steps_attempt <| .take takes_identifierList fun _ => .expect rfl (.done _)

omit hpos hword in
theorem takes_rowOrParen : Takes (n + 1) [] (rowOrParen inner) := by
  refine .expectFirst rfl <| .bind h.expression fun value => .bind steps_selectAlias fun asName => ?_
  intro i pos hpos
  refine .isSymbol (.ite (fun hclose => ?_) fun _ => .of hpos ?_)
  · rw [Bool.and_eq_true, decide_eq_true_eq] at hclose
    exact .skipFirst hpos.succ hclose.2 nofun rfl (.done _)
  · refine .bind (passes_many (steps_maybe (tests_accept rfl) (takes_selectItem h).passes)) fun rest => ?_
    exact .expect rfl (.done _)

omit hpos hword in
theorem takes_lambdaOrRow : Takes (n + 1) [] (lambdaOrRow inner) :=
  .matchFirst steps_lambdaParams (fun _ => .map h.expression) (takes_rowOrParen h)

omit hword in
theorem walksAt_parenExpr (hopen : i.tokenAt pos = .symbol .lparen) :
    WalksAt (fun _ => True) (fun _ => True) [] (parenExpr inner) i pos := by
  have hquery := walksAt_parenQuery h hpos hopen
  refine .look (looks_queryAhead 1) fun _ => .ite (fun _ => .of hpos (takes_lambdaOrRow h)) fun _ => ?_
  refine .peekSymbol (.ite (fun _ => ?_) fun _ => .map hquery)
  have hattempt : WalksAt (fun a => a.isSome = true) (fun _ => True) []
      (attempt do return some (← parenQuery inner)) i pos :=
    .attempt hpos.le_last (.map (hquery.imp (fun _ _ => trivial) fun _ _ => trivial))
  refine .bind (fun _ _ => trivial) hattempt fun query mid hmid hlast _ => ?_
  cases query with
  | none => exact ((takes_lambdaOrRow h) i mid (hpos.ahead hmid hlast)).imp (fun _ _ => trivial) fun _ => id
  | some query => exact .pure hlast (fun h => h.2 rfl) fun _ => rfl

/-! ## Primary expressions -/

omit h hpos hword in
theorem steps_stringPiece : Steps n [] stringPiece :=
  steps_acceptIf (nest_of_meaning fun _ => rfl)

omit h hword in
/-- The first piece is there, so the loop takes it. -/
theorem walksAt_stringPieces {text : String} (ht : i.tokenAt pos = .string text) :
    WalksAt (fun _ => True) (fun _ => True) [] (many stringPiece) i pos := by
  have hwalks := walks_many steps_stringPiece i pos hpos
  refine ⟨?_, hwalks.error⟩
  have hpiece : Ends stringPiece i pos fun a _ => a ≠ none := by
    refine .acceptIf (fun hnone => ?_) fun _ _ _ => nofun
    simp [ht] at hnone
  exact (hwalks.ok.and (ends_many_ne_nil hpiece)).mono fun _ _ hmoved =>
    hmoved.1.imp (fun _ => hmoved.2) id

omit hpos hword in
theorem takes_primary : Takes (n + 1) [] (primary inner) := by
  intro i pos hpos
  refine .current ?_
  split
  · rename_i ht
    exact walksAt_takeFor hpos ht nofun rfl _
  · rename_i ht
    exact .map (walksAt_stringPieces hpos ht)
  · rename_i ht
    exact walksAt_takeFor hpos ht nofun rfl _
  · rename_i hopen
    exact walksAt_parenExpr h hpos hopen
  · exact .of hpos (takes_nameExpr h)
  · rename_i hw
    exact walksAt_wordExpr h hpos hw
  · exact .of hpos (walks_expected _)

/-! ## Postfix forms and unary operators -/

omit hpos hword in
theorem steps_postfixStep (base : Expr) : Steps n [] (postfixStep inner base) :=
  .accept rfl (.bind h.expression fun _ => .expect rfl (.done _)) <|
    .ifTake (tests_accept rfl) (.map takes_dataType) <|
      .matchTake steps_dottedPart (fun _ => .done _) .decline

omit hpos hword in
theorem takes_postfixExpr : Takes (n + 1) [] (postfixExpr inner) :=
  .first (takes_primary h) fun base => passes_iterate (steps_postfixStep h) base

omit h hpos hword in
theorem nest_of_unaryOp (t : Token) (op : UnaryOp) (h : unaryOp t = some op) : t.nest [] = some [] := by
  unfold unaryOp at h
  split at h
  · rfl
  · rfl
  · rfl
  · contradiction

omit hpos hword in
theorem takes_unaryExpr : Takes (n + 1) [] (unaryExpr inner) :=
  .matchFirst (steps_acceptIf nest_of_unaryOp) (fun _ => .map h.unary) (takes_postfixExpr h)

omit hpos hword in
theorem takes_comparisonExpr : Takes (n + 1) [] (comparisonExpr inner) :=
  takes_comparison (takes_unaryExpr h)

/-! ## Predicates -/

omit hpos hword in
theorem passes_predicateAfter (tested : Expr) (negated : Bool) (predicate : PredicateWord) :
    Passes n [] (predicateAfter inner tested negated predicate) := by
  have hoperand := (takes_comparisonExpr h).mono
  cases predicate with
  | between => exact .bind hoperand fun _ => .bind (takes_expectWord _) fun _ => .map hoperand
  | inside =>
    refine .expect rfl <| .look looks_isQueryStart fun _ => .ite ?_ ?_
    · exact .bind h.query fun _ => .expect rfl (.done _)
    · exact .bind (takes_expressions h) fun _ => .expect rfl (.done _)
  | like op => exact .bind hoperand fun _ => .mapPasses (steps_optionalString _).passes

omit hpos hword in
theorem passes_predicateAfterIs (tested : Expr) : Passes n [] (predicateAfterIs inner tested) :=
  .bind (tests_acceptWord _) fun _ =>
    .ifTake (tests_acceptWords rfl) (.map (takes_comparisonExpr h).mono) <|
      .matchTake (steps_choose rfl) (fun _ => .done _) (walks_expected _)

omit h hpos hword in
theorem steps_predicateHead : Steps n [] predicateHead :=
  steps_rewinding <| .bind (tests_acceptWord _) fun _ =>
    .matchTake (steps_choose rfl) (fun _ => .done _) .decline

omit hpos hword in
theorem steps_predicateStep (tested : Expr) : Steps n [] (predicateStep inner tested) :=
  .matchTake steps_predicateHead (fun _ => .mapPasses (passes_predicateAfter h tested _ _)) <|
    steps_maybe (tests_acceptWord _) (passes_predicateAfterIs h tested)

omit hpos hword in
theorem takes_predicate : Takes (n + 1) [] (predicate inner) :=
  .first (takes_comparisonExpr h) fun tested => passes_iterate (steps_predicateStep h) tested

omit h hpos hword in
theorem tests_acceptNot : Tests n acceptNot :=
  .ifTake (tests_acceptWord _) (.done _) (tests_accept rfl)

omit hpos hword in
theorem takes_negationExpr : Takes (n + 1) [] (negationExpr inner) :=
  .ifFirst tests_acceptNot (.map h.negation) (takes_predicate h)

omit hpos hword in
theorem takes_expressionOf : Takes (n + 1) [] (expressionOf inner) := by
  refine takes_chain ?_ (takes_chain ?_ (takes_negationExpr h))
  all_goals exact fun t op hop => nest_of_operator t op (by simp [hop])

end

end Grammar

end SqlTidy
