import SqlTidy.Proofs.Consume
import SqlTidy.Proofs.Keep.Basic

/-!
# Expressions keep their literals

One lemma per rule, from names and types up to whole expressions. The rules are written against the rules
one level further in, so the lemmas assume that those keep literals (`Inner.Keeping`).
-/

namespace SqlTidy

open Parse

/-- Rules for what is nested inside that keep literals. -/
structure Inner.Keeping (lost : Input → Nat → Prop) (inner : Inner) : Prop where
  expression : Keeps lost [] inner.expression
  negation : Keeps lost [] inner.negation
  unary : Keeps lost [] inner.unary
  query : Keeps lost [] inner.query
  relation : Keeps lost [] inner.relation

namespace Grammar

instance : Stored NameStep := ⟨fun
  | .part name => stored name
  | .star => []⟩

instance : Stored NamePath := ⟨fun path => stored path.parts⟩

variable {lost : Input → Nat → Prop} {fine : Input → Expr → Nat → Prop} {given : List String}
  {i : Input} {start mid : Nat}

/-! ## Names and literals -/

theorem stored_of_token {t : Token} (name : Ident) (ht : t = name.token) (hlit : t.isLiteral) :
    ∃ s ∈ stored name, t.lexeme <:+: s.toList := by
  subst ht
  obtain ⟨w, quoted⟩ := name
  cases quoted with
  | false => contradiction
  | true =>
    refine ⟨_, List.mem_singleton_self _, ?_⟩
    simp [Token.lexeme, Ident.token, Ident.written]

theorem keeps_identifier : Keeps lost [] identifier := by
  refine keeps_expectIf fun t name hname hlit => stored_of_token name ?_ hlit
  split at hname
  · cases hname
    rfl
  · cases hname
    rfl
  · contradiction

/-- An identifier takes one token. -/
theorem savesAt_identifier {α : Type} {fine : Input → α → Nat → Prop} {k : Ident → Parse α}
    (hk : ∀ name, SavesAt lost fine (given ++ stored name) (k name) i start (mid + 1)) :
    SavesAt lost fine given (identifier >>= k) i start mid := by
  intro hgiven
  refine ends_identifier.bind fun name next hname => ?_
  obtain ⟨htoken, rfl⟩ := hname
  refine hk name fun k hstart hk => ?_
  rcases Nat.lt_or_ge k mid with hmid | hmid
  · exact (hgiven k hstart hmid).mono (List.subset_append_left _ _)
  · obtain rfl : k = mid := by omega
    exact fun h => .inr ((stored_of_token name htoken h).imp fun s hs =>
      ⟨List.mem_append_right _ hs.1, hs.2⟩)

theorem keeps_stringLiteral : Keeps lost [] stringLiteral := by
  refine keeps_expectIf fun t s hs _ => ?_
  split at hs
  · cases hs
    exact ⟨s, List.mem_singleton_self s, List.infix_rfl⟩
  · contradiction

theorem keeps_number : Keeps lost [] number := by
  refine keeps_expectIf fun t n hn _ => ?_
  split at hn
  · cases hn
    exact ⟨n, List.mem_singleton_self n, List.infix_rfl⟩
  · contradiction

theorem keeps_optionalString (keyword : String) : Keeps lost [] (optionalString keyword) :=
  keeps_maybe (.acceptWord keyword) keeps_stringLiteral

/-- A dot and the identifier behind it. -/
theorem keeps_dottedPart : Keeps lost [] dottedPart := by
  intro i hi start mid
  refine .isSymbol (.peek (.ite (fun h => ?_) fun _ => .of hi (.empty _)))
  rw [Bool.and_eq_true, decide_eq_true_eq] at h
  exact .skipSymbol h.1 (.of hi (.map keeps_identifier fun _ => rfl))

theorem keeps_dottedName : Keeps lost [] dottedName :=
  .bind keeps_identifier fun _ => .bind (keeps_many keeps_dottedPart) fun _ => .wrap rfl

theorem keeps_identifierList : Keeps lost [] identifierList :=
  .step (.expect _) fun _ => .bind (keeps_commaSeparated keeps_identifier) fun _ =>
    .step (.expect _) fun _ => .wrap rfl

theorem keeps_optionalIdentifierList : Keeps lost [] optionalIdentifierList :=
  keeps_maybeList (.isSymbol _) keeps_identifierList

theorem not_isLiteral_of_capitals {t : Token} {w : String} (h : capitals t = some w) :
    t.isLiteral = false := by
  cases t with
  | word => rfl
  | _ => contradiction

theorem not_isLiteral_of_capitalsAmong {words : List String} {t : Token} {w : String}
    (h : capitalsAmong words t = some w) : t.isLiteral = false :=
  not_isLiteral_of_capitals (Option.eq_some_of_filter_eq_some h)

theorem quiet_mayBeAlias : Quiet mayBeAlias := .of_stays fun _ _ => stays_mayBeAlias

theorem quiet_isQueryStart : Quiet isQueryStart := .of_stays fun _ _ => stays_isQueryStart

/-! ## Data types -/

theorem keeps_typeParameter : Keeps lost [] typeParameter := by
  refine keeps_expectIf fun t s hs hlit => ?_
  split at hs
  · cases hs
    exact ⟨s, List.mem_singleton_self s, List.infix_rfl⟩
  · contradiction
  · contradiction

theorem keeps_primitiveType (name : String) : Keeps lost [] (primitiveType name) :=
  .step (.accept _) fun _ => .ite
    (.bind (keeps_commaSeparated keeps_typeParameter) fun _ => .step (.expect _) fun _ =>
      .result fun _ _ h => h.mono (List.subset_cons_self _ _))
    (.empty _)

theorem keeps_intervalType : Keeps lost [] intervalType :=
  .step (.expectIf fun _ _ => not_isLiteral_of_capitalsAmong) fun _ =>
    .step (.maybe (.acceptWord _) (.expectIf fun _ _ => not_isLiteral_of_capitals)) fun _ => .empty _

section

variable {inner : Parse DataType} (h : Keeps lost [] inner)

include h

theorem keeps_structField : Keeps lost [] (structField inner) :=
  .bind keeps_identifier fun _ => .step (.accept _) fun _ => .bind h fun _ =>
    .step (.acceptWords _) fun _ => .bind (keeps_optionalString _) fun _ => .build rfl (by simp)

theorem keeps_typeAfter (name : String) : Keeps lost [] (typeAfter inner name) := by
  intro i hi start mid
  refine .isSymbol ?_
  split
  · rename_i hbracket
    refine .skipSymbol (of_decide_eq_true hbracket) (.of hi ?_)
    exact .bind h fun _ => .step (.expect _) fun _ => .build rfl (by simp)
  · rename_i hbracket
    refine .skipSymbol (of_decide_eq_true hbracket) (.of hi ?_)
    exact .bind h fun _ => .step (.expect _) fun _ => .bind h fun _ => .step (.expect _) fun _ =>
      .build rfl (by simp)
  · rename_i hbracket
    refine .skipSymbol (of_decide_eq_true hbracket) (.of hi ?_)
    exact .bind (keeps_commaSeparated (keeps_structField h)) fun fields => .step (.expect _) fun _ =>
      .build rfl (by simp)
  · exact .of hi (.step (.accept _) fun _ => .ite (.empty _) (keeps_primitiveType name))
  · exact .of hi keeps_intervalType
  · exact .of hi (keeps_primitiveType name)

end

theorem keeps_dataType : Keeps lost [] dataType := by
  refine saves_fix fun inner h => .step (.expectIf fun t w hw => ?_) (keeps_typeAfter h)
  cases t with
  | word => rfl
  | _ => contradiction

/-! ## Lists of expressions -/

section

variable {inner : Inner} (h : inner.Keeping lost)

include h

theorem keeps_expressions : Keeps lost [] (expressions inner) := keeps_commaSeparated h.expression

theorem keeps_expressionsBeforeParen : Keeps lost [] (expressionsBeforeParen inner) :=
  .step (.isSymbol _) fun _ => .ite (.empty _) (keeps_expressions h)

omit h in
theorem keeps_aliasName : Keeps lost [] aliasName :=
  .step (.isSymbol _) fun _ => .ite (.map keeps_identifierList fun _ => rfl)
    (.map keeps_identifier fun _ => rfl)

omit h in
theorem keeps_selectAlias : Keeps lost [] selectAlias :=
  .step (.acceptWord _) fun _ => .ite (.map keeps_aliasName fun _ => rfl)
    (.step quiet_mayBeAlias fun _ => .ite (.map keeps_identifier fun _ => rfl) (.empty _))

theorem keeps_selectItem : Keeps lost [] (selectItem inner) :=
  .bind h.expression fun _ => .bind keeps_selectAlias fun _ => .build rfl (by simp)

theorem keeps_selectItems : Keeps lost [] (selectItems inner) :=
  keeps_commaSeparated (keeps_selectItem h)

theorem keeps_orderItem : Keeps lost [] (orderItem inner) :=
  .bind h.expression fun _ => .step (.choose _) fun _ => .step (.choose _) fun _ => .wrap rfl

theorem keeps_orderItems : Keeps lost [] (orderItems inner) := keeps_commaSeparated (keeps_orderItem h)

end

/-! ## Binary operators -/

theorem keeps_chain {operators : Token → Option BinaryOp} {operand : Parse Expr}
    (hop : ∀ t op, operators t = some op → t.isLiteral = false) (h : Keeps lost [] operand) :
    Keeps lost [] (chain operators operand) := by
  refine .bind h fun first => keeps_iterate (fun left => ?_) first
  refine .step (.acceptIf hop) fun op => ?_
  cases op with
  | none => exact .stop
  | some op => exact .bind h fun right => .extend rfl (by simp)

/-- Operators are symbols and keywords. -/
theorem not_isLiteral_of_operator (t : Token) (op : BinaryOp)
    (h : multiplicativeOp t = some op ∨ additiveOp t = some op ∨ bitAndOp t = some op ∨
      bitXorOp t = some op ∨ bitOrOp t = some op ∨ comparisonOp t = some op ∨ andOp t = some op ∨
      orOp t = some op) : t.isLiteral = false := by
  cases t with
  | word | symbol | eof => rfl
  | string | number | quoted =>
    simp [multiplicativeOp, additiveOp, bitAndOp, bitXorOp, bitOrOp, comparisonOp, andOp, orOp,
      Token.isKeyword] at h

theorem keeps_additive {unary : Parse Expr} (h : Keeps lost [] unary) :
    Keeps lost [] (additive unary) :=
  keeps_chain (fun t op hop => not_isLiteral_of_operator t op (by simp [hop]))
    (keeps_chain (fun t op hop => not_isLiteral_of_operator t op (by simp [hop])) h)

theorem keeps_comparison {unary : Parse Expr} (h : Keeps lost [] unary) :
    Keeps lost [] (comparison unary) := by
  refine keeps_chain ?_ (keeps_chain ?_ (keeps_chain ?_ (keeps_chain ?_ (keeps_additive h))))
  all_goals exact fun t op hop => not_isLiteral_of_operator t op (by simp [hop])

/-! ## Calls and windows -/

section

variable {inner : Inner} (h : inner.Keeping lost)

include h

theorem keeps_callArg : Keeps lost [] (callArg inner) := by
  intro i hi start mid
  refine .current (.peekSymbol (.ite (fun hnamed => ?_) fun _ => ?_))
  · rw [Bool.and_eq_true, decide_eq_true_eq] at hnamed
    refine savesAt_identifier fun name => .skipSymbol hnamed.2 (.of hi ?_)
    exact .bind h.expression fun _ => .build rfl (by simp)
  · exact .of hi (.map h.expression fun _ => rfl)

theorem keeps_callArgs : Keeps lost [] (callArgs inner) := keeps_commaSeparated (keeps_callArg h)

theorem keeps_callArgsBeforeParen : Keeps lost [] (callArgsBeforeParen inner) :=
  .step (.isSymbol _) fun _ => .ite (.empty _) (keeps_callArgs h)

omit h in
theorem quiet_callQuantifier : Quiet callQuantifier := by
  refine .bind (.acceptWord _) fun _ => .ite (.pure _) fun i mid => ?_
  show Ends (if (i.tokenAt mid).isKeyword "ALL" = true then _ else _) i mid _
  refine .ite (fun hall => .peek_bind ?_) fun _ => Quiet.pure _ i mid
  split
  · exact Quiet.pure _ i mid
  · exact Quiet.pure _ i mid
  · exact (quietAt_skip (Token.isLiteral_of_isKeyword hall)).bind fun _ _ h => .pure h

theorem keeps_frameBound : Keeps lost [] (frameBound inner) := by
  refine .step (.choose _) fun bound => ?_
  cases bound with
  | some bound => exact .empty bound
  | none =>
    refine .bind (keeps_additive h.unary) fun distance => .step (.acceptWord _) fun _ => ?_
    exact .ite (.wrap rfl) (.step (.acceptWord _) fun _ => .ite (.wrap rfl) (saves_expected _))

theorem keeps_frameOf (unit : FrameUnit) : Keeps lost [] (frameOf inner unit) :=
  .step (.acceptWord _) fun _ => .ite
    (.bind (keeps_frameBound h) fun _ => .step (.expectWord _) fun _ =>
      .bind (keeps_frameBound h) fun _ => .build rfl (by simp))
    (.bind (keeps_frameBound h) fun _ => .build rfl (by simp))

theorem keeps_optionalFrame : Keeps lost [] (optionalFrame inner) := by
  refine .step (.choose _) fun unit => ?_
  cases unit with
  | none => exact .empty _
  | some unit => exact .map (keeps_frameOf h unit) fun _ => rfl

theorem keeps_windowPartition : Keeps lost [] (windowPartition inner) := by
  refine .step (.choose _) fun distribute => ?_
  cases distribute with
  | none => exact .empty _
  | some distribute => exact .bind (keeps_expressions h) fun _ => .result fun _ _ hheld => by simpa using hheld

theorem keeps_windowOrder : Keeps lost [] (windowOrder inner) := by
  refine .step (.choose _) fun ordering => ?_
  match ordering with
  | none => exact .empty _
  | some .order => exact .bind (keeps_orderItems h) fun _ => .result fun _ _ hheld => by simpa using hheld
  | some .sort => exact .bind (keeps_orderItems h) fun _ => .result fun _ _ hheld => by simpa using hheld
  | some .cluster => exact .bind (keeps_expressions h) fun _ => .result fun _ _ hheld => by simpa using hheld

theorem keeps_windowDefinition : Keeps lost [] (windowDefinition inner) := by
  refine .step (.expect _) fun _ => .bind (keeps_windowPartition h) fun ⟨partitionBy, distribute⟩ => ?_
  refine .bind (keeps_windowOrder h) fun ⟨orderBy, sort, clusterBy⟩ => ?_
  exact .bind (keeps_optionalFrame h) fun frame => .step (.expect _) fun _ => .build rfl (by simp)

theorem keeps_window : Keeps lost [] (window inner) := by
  intro i hi start mid
  refine .isSymbol (.ite (fun _ => ?_) fun hopen => .peek (.peekSymbol (.ite (fun hname => ?_) fun _ => ?_)))
  · exact .of hi (.map keeps_identifier fun _ => rfl)
  · simp only [Bool.not_eq_true', decide_eq_false_iff_not, Decidable.not_not] at hopen
    rw [Bool.and_eq_true, decide_eq_true_eq] at hname
    refine .skipSymbol hopen (savesAt_identifier fun name => ?_)
    exact .skipSymbol hname.2 (.of hi (.wrap rfl))
  · exact .of hi (.map (keeps_windowDefinition h) fun _ => rfl)

theorem keeps_withinGroup : Keeps lost [] (withinGroup inner) :=
  keeps_maybeList (.acceptWords _) <| .step (.expect _) fun _ => .step (.expectWords _) fun _ =>
    .bind (keeps_orderItems h) fun _ => .step (.expect _) fun _ => .wrap rfl

omit h in
theorem ends_isFilter_seen : Ends isFilter i mid fun found next =>
    next = mid ∧ (found → (i.tokenAt mid).isKeyword "FILTER" ∧ i.tokenAt (mid + 1) = .symbol .lparen) := by
  show Ends (if (i.tokenAt mid).isKeyword "FILTER" = true then _ else _) i mid _
  refine .ite (fun hword => .peek_bind (.pure ⟨rfl, fun hopen => ⟨hword, ?_⟩⟩)) fun _ =>
    .pure ⟨rfl, nofun⟩
  exact of_decide_eq_true hopen

theorem keeps_callFilter : Keeps lost [] (callFilter inner) := by
  intro i hi start mid
  refine .lookFor ends_isFilter_seen fun found hfound => .ite (fun htrue => ?_) fun _ => .of hi (.empty _)
  obtain ⟨hword, hopen⟩ := hfound htrue
  refine .bind (.skipTwoPlain (ne_eof_of_isKeyword hword) (Token.isLiteral_of_isKeyword hword)
    (by simp [hopen]) (by simp [hopen, Token.isLiteral]) (.of hi ?_)) fun _ _ => .of hi (.wrap rfl)
  exact .step (.expectWord _) fun _ => .bind h.expression fun _ => .step (.expect _) fun _ => .wrap rfl

omit h in
theorem quiet_isCallSuffix : Quiet isCallSuffix :=
  .bind (.isWord _) fun _ => .ite (.pure _) (.bind (.isWords _) fun _ =>
    .ite (.pure _) (.of_stays fun _ _ => ends_isFilter_seen.mono fun _ _ h => h.1))

theorem keeps_callOf (name : DottedName) : Keeps lost (stored name) (callOf inner name) := by
  refine .step (.expect _) fun _ => ?_
  have hargs : Keeps lost [] (do
      if ← isSymbol .rparen then
        return (none, [])
      else
        let quantifier ← callQuantifier
        return (quantifier, ← callArgs inner) : Parse (Option Quantifier × List CallArg)) := by
    refine .step (.isSymbol _) fun _ => .ite (.empty _) (.step quiet_callQuantifier fun quantifier => ?_)
    exact .bind (keeps_callArgs h) fun _ => .result fun _ _ hheld => by simpa using hheld
  refine .bind hargs fun ⟨quantifier, args⟩ => .step (.expect _) fun _ => ?_
  refine .bind (keeps_withinGroup h) fun _ => .bind (keeps_callFilter h) fun _ => ?_
  refine .step (.choose _) fun _ => .bind (keeps_maybe (.acceptWord _) (keeps_window h)) fun _ => ?_
  exact .build rfl (by simp)

/-! ## Functions with a grammar of their own -/

omit h in
theorem keeps_intervalValue : Keeps lost [] intervalValue := by
  intro i hi start mid
  refine .current (.peek ?_)
  split
  · rename_i n hminus hn
    refine .skipTwo ["-" ++ n] (by simp [hminus]) (by simp [hminus, Token.isLiteral]) (by simp [hn]) ?_
      (.of hi (.wrap rfl))
    intro _
    refine ⟨"-" ++ n, List.mem_singleton_self _, ?_⟩
    rw [hn, String.toList_append]
    exact (List.suffix_append _ _).isInfix
  · refine .of hi (keeps_acceptIf fun t s hs hlit => ⟨s, List.mem_singleton_self _, ?_⟩)
    split at hs
    · cases hs
      exact List.infix_rfl
    · cases hs
      exact List.infix_rfl
    · contradiction

omit h in
theorem quiet_capitalsAmong (words : List String) : Quiet (acceptIf (capitalsAmong words)) :=
  .acceptIf fun _ _ => not_isLiteral_of_capitalsAmong

omit h in
theorem keeps_intervalPart : Keeps lost [] intervalPart := by
  refine .bind keeps_intervalValue fun value => ?_
  cases value with
  | none => exact .empty _
  | some value =>
    exact .step (quiet_capitalsAmong _) fun unit => .result fun _ _ hheld =>
      hheld.mono (List.subset_append_left _ _)

omit h in
theorem keeps_interval : Keeps lost [] interval := by
  refine .step (.expectWord _) fun _ => .bind (keeps_many keeps_intervalPart) fun parts => ?_
  refine .ite (saves_expected _) (.step (.maybe (.acceptWord _) ?_) fun _ => .build rfl (by simp))
  exact .expectIf fun _ _ => not_isLiteral_of_capitalsAmong

theorem keeps_caseBranch : Keeps lost [] (caseBranch inner) :=
  keeps_maybe (.acceptWord _) <| .bind h.expression fun _ => .step (.expectWord _) fun _ =>
    .bind h.expression fun _ => .build rfl (by simp)

theorem keeps_caseExpr : Keeps lost [] (caseExpr inner) := by
  refine .step (.expectWord _) fun _ => ?_
  refine .bind (keeps_maybe (.bind (.isWord _) fun _ => .pure _) h.expression) fun operand => ?_
  refine .bind (keeps_many (keeps_caseBranch h)) fun branches => .ite (saves_expected _) ?_
  refine .bind (keeps_maybe (.acceptWord _) h.expression) fun otherwise => ?_
  exact .step (.expectWord _) fun _ => .build rfl (by simp)

variable {word : String}

theorem keepsAt_castExpr (hi : i.Scanned) (hword : i.tokenAt mid = .word word) (form : CastForm) :
    KeepsAt lost [] (castExpr inner form) i start mid :=
  .skipWord hword <| .of hi <| .step (.expect _) fun _ => .bind h.expression fun _ =>
    .step (.expectWord _) fun _ => .bind keeps_dataType fun _ => .step (.expect _) fun _ =>
      .build rfl (by simp)

theorem keepsAt_extractExpr (hi : i.Scanned) (hword : i.tokenAt mid = .word word) :
    KeepsAt lost [] (extractExpr inner) i start mid :=
  .skipWord hword <| .of hi <| .step (.expect _) fun _ =>
    .step (.expectIf fun _ _ => not_isLiteral_of_capitals) fun _ => .step (.expectWord _) fun _ =>
      .bind h.expression fun _ => .step (.expect _) fun _ => .build rfl (by simp)

/-! ### Forms that may decline -/

omit h in
theorem keepsSome_unlessSuffix {e : Expr} {sss : List (List String)} (he : stored e = sss.flatten)
    (hsub : given ⊆ sss.flatten) : KeepsSome lost given (unlessSuffix e) :=
  .step quiet_isCallSuffix fun _ => .ite .decline (.offer he hsub)

theorem keepsSome_substringRange : KeepsSome lost [] (substringRange inner) := by
  have hoffer (start : Expr) (length : Option Expr) (keywordForm : Bool) :
      KeepsSome lost ([] ++ stored start ++ stored length)
        (pure (some (start, length, keywordForm))) := by
    refine .result fun _ _ hheld x hx => ?_
    cases hx
    simpa using hheld
  refine .step (.acceptWord _) fun _ => .ite ?_ (.step (.accept _) fun _ => .ite ?_ .decline)
  · exact .bind h.expression fun _ =>
      .bind (keeps_maybe (.acceptWord _) h.expression) fun _ => hoffer _ _ _
  · exact .bind h.expression fun _ =>
      .bind (keeps_maybe (.accept _) h.expression) fun _ => hoffer _ _ _

theorem keepsSomeAt_substringForm (hi : i.Scanned) (hword : i.tokenAt mid = .word word)
    (name : String) : KeepsSomeAt lost [] (substringForm inner name) i start mid := by
  refine .skipWord hword <| .of hi <| .step (.expect _) fun _ => .bind h.expression fun _ => ?_
  refine .bindSome (keepsSome_substringRange h) rfl fun ⟨start, length, keywordForm⟩ => ?_
  exact .step (.expect _) fun _ => keepsSome_unlessSuffix rfl (by simp)

theorem keepsSome_trimOperands (side : Option TrimSide) :
    KeepsSome lost [] (trimOperands inner side) := by
  refine .step (.acceptWord _) fun _ => .ite ?_ (.bind h.expression fun first => ?_)
  · refine .bind h.expression fun _ => .result fun _ _ hheld x hx => ?_
    cases hx
    simpa using hheld
  · refine .step (.acceptWord _) fun _ => .ite ?_ (.ite .decline ?_)
    · refine .bind h.expression fun _ => .result fun _ _ hheld x hx => ?_
      cases hx
      simpa using hheld
    · refine .result fun _ _ hheld x hx => ?_
      cases hx
      simpa using hheld

theorem keepsSomeAt_trimForm (hi : i.Scanned) (hword : i.tokenAt mid = .word word) :
    KeepsSomeAt lost [] (trimForm inner) i start mid := by
  refine .skipWord hword <| .of hi <| .step (.expect _) fun _ => .step (.choose _) fun side => ?_
  refine .bindSome (keepsSome_trimOperands h side) rfl fun ⟨characters, source⟩ => ?_
  exact .step (.expect _) fun _ => .offer rfl (by simp)

theorem keepsSomeAt_positionForm (hi : i.Scanned) (hword : i.tokenAt mid = .word word) :
    KeepsSomeAt lost [] (positionForm inner) i start mid := by
  refine .skipWord hword <| .of hi <| .step (.expect _) fun _ => ?_
  refine .bind (keeps_comparison h.unary) fun _ => .step (.acceptWord _) fun _ => .ite ?_ .decline
  exact .bind h.expression fun _ => .step (.expect _) fun _ => .offer rfl (by simp)

theorem keepsSomeAt_overlayForm (hi : i.Scanned) (hword : i.tokenAt mid = .word word) :
    KeepsSomeAt lost [] (overlayForm inner) i start mid := by
  refine .skipWord hword <| .of hi <| .step (.expect _) fun _ => .bind h.expression fun _ => ?_
  refine .step (.acceptWord _) fun _ => .ite ?_ .decline
  refine .bind h.expression fun _ => .step (.expectWord _) fun _ => .bind h.expression fun _ => ?_
  refine .bind (keeps_maybe (.acceptWord _) h.expression) fun _ => .step (.expect _) fun _ => ?_
  exact .offer rfl (by simp)

theorem keepsSomeAt_firstLastForm (hi : i.Scanned) (hword : i.tokenAt mid = .word word) (last : Bool) :
    KeepsSomeAt lost [] (firstLastForm inner last) i start mid := by
  refine .skipWord hword <| .of hi <| .step (.expect _) fun _ => .bind h.expression fun operand => ?_
  refine .step (.acceptWords _) fun _ => .ite (.step (.expect _) fun _ => ?_) .decline
  have hstored : stored (Tree.firstLast last operand true) = [stored operand].flatten :=
    (List.append_nil _).symm
  exact keepsSome_unlessSuffix hstored (by simp)

omit h in
theorem ends_currentWord : Ends currentWord i mid fun w next =>
    next = mid ∧ (w.isSome → ∃ word, i.tokenAt mid = .word word) := by
  refine .current_bind ?_
  split
  · rename_i w hw
    exact .pure ⟨rfl, fun _ => ⟨w, hw⟩⟩
  · exact .pure ⟨rfl, nofun⟩

omit h in
theorem quiet_datetimeUnit : Quiet datetimeUnit := by
  intro i mid
  refine ends_currentWord.bind fun w next hw => ?_
  obtain ⟨rfl, hw⟩ := hw
  cases w with
  | none => exact Quiet.pure _ i next
  | some w =>
    obtain ⟨word, hword⟩ := hw rfl
    show Ends (if (decide (w ∈ datetimeUnits) &&
      decide (i.tokenAt (next + 1) = .symbol .comma)) = true then _ else _) i next _
    refine .ite (fun hunit => ?_) fun _ => Quiet.pure _ i next
    rw [Bool.and_eq_true, decide_eq_true_eq, decide_eq_true_eq] at hunit
    refine (ends_skipBy_two (by simp [hword]) (by simp [hunit.2])).bind fun _ last hlast => ?_
    subst hlast
    refine .pure fun k hk hk' => ?_
    obtain rfl | rfl : k = next ∨ k = next + 1 := by omega
    · rw [hword]
      rfl
    · rw [hunit.2]
      rfl

theorem keepsSomeAt_datetimeForm (hi : i.Scanned) (hword : i.tokenAt mid = .word word)
    (name : String) : KeepsSomeAt lost [] (datetimeForm inner name) i start mid := by
  refine .skipWord hword <| .of hi <| .step (.expect _) fun _ => .step quiet_datetimeUnit fun unit => ?_
  cases unit with
  | none => exact .decline
  | some unit =>
    refine .bind (keeps_expressions h) fun args => .step (.expect _) fun _ => ?_
    exact keepsSome_unlessSuffix rfl (by simp)

/-- A special form that declines has taken nothing. -/
theorem keepsAt_specialForm (hi : i.Scanned) (hword : i.tokenAt mid = .word word) :
    KeepsAt lost [] (specialForm inner word) i start mid := by
  unfold specialForm
  split
  · exact keepsAt_attempt (keepsSomeAt_substringForm h hi hword _)
  · exact keepsAt_attempt (keepsSomeAt_substringForm h hi hword _)
  · exact keepsAt_attempt (keepsSomeAt_trimForm h hi hword)
  · exact keepsAt_attempt (keepsSomeAt_positionForm h hi hword)
  · exact keepsAt_attempt (keepsSomeAt_overlayForm h hi hword)
  · exact keepsAt_attempt (keepsSomeAt_firstLastForm h hi hword _)
  · exact keepsAt_attempt (keepsSomeAt_firstLastForm h hi hword _)
  · exact .ite (fun _ => keepsAt_attempt (keepsSomeAt_datetimeForm h hi hword _)) fun _ =>
      .of hi (.empty _)

/-! ## Names -/

omit h in
theorem keeps_nameStep : Keeps lost [] nameStep := by
  intro i hi start mid
  refine .isSymbol (.ite (fun hdot => .peek ?_) fun _ => .of hi (.empty _))
  rw [decide_eq_true_eq] at hdot
  split
  · rename_i hstar
    exact .skipTwoPlain (by simp [hdot]) (by simp [hdot, Token.isLiteral]) (by simp [hstar])
      (by simp [hstar, Token.isLiteral]) (.of hi (.empty _))
  · refine .ite (fun _ => .skipSymbol hdot (.of hi ?_)) fun _ => .of hi (.empty _)
    exact .map keeps_identifier fun _ => rfl

omit h in
theorem keepsNext_extendName (path : NamePath) :
    KeepsNext lost path (stored path) (extendName path) := by
  refine .ite .stop (.bind keeps_nameStep fun step => ?_)
  cases step with
  | none => exact .result fun _ _ hheld => by simpa using hheld
  | some step =>
    cases step with
    | star => exact .result fun _ _ hheld => hheld.congr (List.append_nil (stored path))
    | part name =>
      exact .result fun _ _ hheld => hheld.congr (Stored.stored_concat path.parts name).symm

theorem keeps_bareName (parts : List Ident) : Keeps lost (stored parts) (bareName inner parts) := by
  unfold bareName
  split
  · refine .step (.accept _) fun _ => .ite ?_ (.wrap ?_)
    · exact .bind h.expression fun _ => .build rfl (by simp)
    · exact (List.append_nil _).symm
  · exact .wrap rfl

theorem keeps_nameExpr : Keeps lost [] (nameExpr inner) := by
  refine .bind keeps_identifier fun first => ?_
  refine .pass (keeps_iterate keepsNext_extendName ⟨[first], false⟩) fun path => ?_
  refine .ite (.wrap rfl) (.step (.isSymbol _) fun _ => .ite ?_ (keeps_bareName h _))
  exact .pass (keeps_callOf h ⟨path.parts⟩) fun _ => .wrap rfl

/-! ## Words -/

theorem keepsAt_parenQuery (hi : i.Scanned) (hopen : i.tokenAt mid = .symbol .lparen) :
    KeepsAt lost [] (parenQuery inner) i start mid :=
  .skipSymbol hopen <| .of hi <| .bind h.query fun _ => .step (.expect _) fun _ => .wrap rfl

theorem keepsAt_plainWord (hi : i.Scanned) (hword : i.tokenAt mid = .word word) (called : Bool) :
    KeepsAt lost [] (plainWord inner word called) i start mid := by
  refine .ite (fun _ => ?_) fun _ => .of hi (.ite (saves_expected _) (keeps_nameExpr h))
  refine .bind (keepsAt_specialForm h hi hword) fun form next => ?_
  cases form with
  | none => exact .of hi (keeps_nameExpr h)
  | some e => exact .of hi (.wrap rfl)

omit h in
theorem keepsAt_takeFor {e : Expr} (hi : i.Scanned) (hpos : i.tokenAt mid ≠ .eof)
    (hlit : (i.tokenAt mid).isLiteral → ∃ s ∈ stored e, (i.tokenAt mid).lexeme <:+: s.toList) :
    KeepsAt lost [] (takeFor e) i start mid :=
  .skip (stored e) hpos hlit (.of hi (.wrap rfl))

theorem keepsAt_keywordExpr (hi : i.Scanned) (hword : i.tokenAt mid = .word word) (called : Bool)
    (hcalled : called → i.tokenAt (mid + 1) = .symbol .lparen) :
    KeepsAt lost [] (keywordExpr inner word called) i start mid := by
  have hpos : i.tokenAt mid ≠ .eof := by simp [hword]
  have hplain : (i.tokenAt mid).isLiteral = false := by simp [hword, Token.isLiteral]
  have htake (e : Expr) : KeepsAt lost [] (takeFor e) i start mid :=
    keepsAt_takeFor hi hpos (by simp [hplain])
  unfold keywordExpr
  split
  · exact htake _
  · exact htake _
  · exact htake _
  · exact htake _
  · exact htake _
  · exact htake _
  · exact .peek (.ite (fun _ => .of hi keeps_interval) fun _ => keepsAt_plainWord h hi hword _)
  · exact .of hi (keeps_caseExpr h)
  · exact keepsAt_castExpr h hi hword _
  · exact keepsAt_castExpr h hi hword _
  · exact keepsAt_extractExpr h hi hword
  · refine .look (stays_queryAhead 1) fun _ => .ite (fun _ => ?_) fun _ => keepsAt_plainWord h hi hword _
    refine .skipWord hword (.bind (keepsAt_parenQuery h hi (hcalled rfl)) fun _ _ => .of hi (.wrap rfl))
  · refine .skipTwoPlain hpos hplain (by simp [hcalled rfl]) (by simp [hcalled rfl, Token.isLiteral])
      (.of hi ?_)
    refine .bind (keeps_maybeList (.bind (.isSymbol _) fun _ => .pure _) (keeps_selectItems h))
      fun fields => .step (.expect _) fun _ => .wrap ?_
    exact (Tree.strings_ofList fields)
  · exact keepsAt_plainWord h hi hword _

theorem keepsAt_wordExpr (hi : i.Scanned) (hword : i.tokenAt mid = .word word) :
    KeepsAt lost [] (wordExpr inner word) i start mid := by
  have hpos : i.tokenAt mid ≠ .eof := by simp [hword]
  have hplain : (i.tokenAt mid).isLiteral = false := by simp [hword, Token.isLiteral]
  refine .peek ?_
  cases hnext : i.tokenAt (mid + 1) with
  | string value =>
    refine .ite (fun _ => ?_) fun _ => keepsAt_keywordExpr h hi hword false (by simp)
    refine .skipTwo [value] hpos hplain (by simp [hnext]) (fun _ => ⟨value, by simp, ?_⟩)
      (.of hi (.build rfl (by simp)))
    rw [hnext]
    exact List.infix_rfl
  | _ =>
    exact keepsAt_keywordExpr h hi hword _ fun hcalled => hnext.trans (of_decide_eq_true hcalled)

/-! ## Parentheses -/

omit h in
theorem keeps_lambdaParams : Keeps lost [] (attempt lambdaParams) :=
  keeps_attempt <| .bind keeps_identifierList fun params => .step (.expect _) fun _ =>
    .result fun _ _ hheld x hx => by cases hx; simpa using hheld

theorem keeps_rowOrParen : Keeps lost [] (rowOrParen inner) := by
  refine .step (.expect _) fun _ => .bind h.expression fun value => .bind keeps_selectAlias fun asName => ?_
  intro i hi start mid
  refine .isSymbol (.ite (fun hclose => ?_) fun _ => .of hi ?_)
  · simp only [Bool.and_eq_true, Option.isNone_iff_eq_none, decide_eq_true_eq] at hclose
    obtain ⟨rfl, hclose⟩ := hclose
    exact .skipSymbol hclose (.of hi (.wrap (List.append_nil (stored value)).symm))
  · refine .bind (keeps_many (keeps_maybe (.accept _) (keeps_selectItem h))) fun rest => ?_
    refine .step (.expect _) fun _ => .wrap ((Tree.strings_ofList _).trans ?_)
    have hitem : (Tree.selectItem value asName).strings = stored value ++ stored asName :=
      congrArg (stored value ++ ·) (List.append_nil _)
    simp [hitem]

theorem keeps_lambdaOrRow : Keeps lost [] (lambdaOrRow inner) := by
  refine .bind keeps_lambdaParams fun params => ?_
  cases params with
  | none => exact keeps_rowOrParen h
  | some params => exact .bind h.expression fun _ => .build rfl (by simp)

theorem keepsAt_parenExpr (hi : i.Scanned) (hopen : i.tokenAt mid = .symbol .lparen) :
    KeepsAt lost [] (parenExpr inner) i start mid := by
  refine .look (stays_queryAhead 1) fun _ => .ite (fun _ => .of hi (keeps_lambdaOrRow h)) fun _ => ?_
  refine .peekSymbol (.ite (fun _ => ?_) fun _ => ?_)
  · have hquery : KeepsAt lost [] (attempt do return some (← parenQuery inner)) i mid mid := by
      refine keepsAt_attempt (.bind (keepsAt_parenQuery h hi hopen) fun query next => .of hi ?_)
      refine .result fun _ _ hheld x hx => ?_
      cases hx
      exact hheld
    refine .bind hquery fun query next => ?_
    cases query with
    | none => exact .of hi (keeps_lambdaOrRow h)
    | some query => exact .of hi (.wrap rfl)
  · exact .bind (keepsAt_parenQuery h hi hopen) fun _ _ => .of hi (.wrap rfl)

/-! ## Primary expressions -/

omit h in
theorem keeps_stringPiece : Keeps lost [] stringPiece := by
  refine keeps_acceptIf fun t s hs hlit => ?_
  split at hs
  · cases hs
    exact ⟨s, List.mem_singleton_self s, List.infix_rfl⟩
  · contradiction

theorem keeps_primary : Keeps lost [] (primary inner) := by
  intro i hi start mid
  refine .current ?_
  split
  · rename_i n hn
    refine keepsAt_takeFor hi (by simp [hn]) fun _ => ⟨n, List.mem_singleton_self n, ?_⟩
    rw [hn]
    exact List.infix_rfl
  · exact .of hi (.map (keeps_many keeps_stringPiece) fun _ => rfl)
  · rename_i hstar
    exact keepsAt_takeFor hi (by simp [hstar]) (by simp [hstar, Token.isLiteral])
  · rename_i hopen
    exact keepsAt_parenExpr h hi hopen
  · exact .of hi (keeps_nameExpr h)
  · rename_i w hw
    exact keepsAt_wordExpr h hi hw
  · exact .of hi (saves_expected _)

/-! ## Postfix forms and unary operators -/

theorem keepsNext_postfixStep (base : Expr) : KeepsNext lost base (stored base) (postfixStep inner base) := by
  refine .step (.accept _) fun _ => .ite ?_ (.step (.accept _) fun _ => .ite ?_ ?_)
  · exact .bind h.expression fun _ => .step (.expect _) fun _ => .extend rfl (by simp)
  · exact .bind keeps_dataType fun _ => .extend rfl (by simp)
  · refine .bind keeps_dottedPart fun name => ?_
    cases name with
    | none => exact .result fun _ _ hheld => by simpa using hheld
    | some name => exact .extend rfl (by simp)

theorem keeps_postfixExpr : Keeps lost [] (postfixExpr inner) :=
  .bind (keeps_primary h) fun base => keeps_iterate (keepsNext_postfixStep h) base

theorem keeps_unaryExpr : Keeps lost [] (unaryExpr inner) := by
  refine .step (.acceptIf fun t op hop => ?_) fun op => ?_
  · cases t with
    | symbol => rfl
    | _ => contradiction
  · cases op with
    | none => exact keeps_postfixExpr h
    | some op => exact .map h.unary fun _ => rfl

theorem keeps_comparisonExpr : Keeps lost [] (comparisonExpr inner) :=
  keeps_comparison (keeps_unaryExpr h)

/-! ## Predicates -/

theorem keeps_predicateAfter (tested : Expr) (negated : Bool) (word : PredicateWord) :
    Keeps lost (stored tested) (predicateAfter inner tested negated word) := by
  cases word with
  | between =>
    exact .bind (keeps_comparisonExpr h) fun _ => .step (.expectWord _) fun _ =>
      .bind (keeps_comparisonExpr h) fun _ => .build rfl (by simp)
  | inside =>
    refine .step (.expect _) fun _ => .step quiet_isQueryStart fun _ => .ite ?_ ?_
    · exact .bind h.query fun _ => .step (.expect _) fun _ => .build rfl (by simp)
    · exact .bind (keeps_expressions h) fun _ => .step (.expect _) fun _ => .build rfl (by simp)
  | like op =>
    exact .bind (keeps_comparisonExpr h) fun _ => .bind (keeps_optionalString _) fun _ =>
      .build rfl (by simp)

theorem keeps_predicateAfterIs (tested : Expr) :
    Keeps lost (stored tested) (predicateAfterIs inner tested) := by
  refine .step (.acceptWord _) fun _ => .step (.acceptWords _) fun _ => .ite ?_ ?_
  · exact .bind (keeps_comparisonExpr h) fun _ => .build rfl (by simp)
  · refine .step (.choose _) fun test => ?_
    cases test with
    | none => exact saves_expected _
    | some test => exact .wrap rfl

omit h in
theorem quiet_predicateHead : Quiet predicateHead := by
  refine .rewinding (.bind (.acceptWord _) fun _ => .bind (.choose _) fun word => ?_)
  cases word with
  | none => exact .pure _
  | some word => exact .pure _

theorem keepsNext_predicateStep (tested : Expr) :
    KeepsNext lost tested (stored tested) (predicateStep inner tested) := by
  refine .step quiet_predicateHead fun head => ?_
  cases head with
  | none => exact keepsNext_maybe (.acceptWord _) (keeps_predicateAfterIs h tested)
  | some head =>
    exact .pass (keeps_predicateAfter h tested head.1 head.2) fun _ => .result fun _ _ hheld => hheld

theorem keeps_predicate : Keeps lost [] (predicate inner) :=
  .bind (keeps_comparisonExpr h) fun tested => keeps_iterate (keepsNext_predicateStep h) tested

theorem keeps_negationExpr : Keeps lost [] (negationExpr inner) := by
  have hnot : Quiet acceptNot := .bind (.acceptWord _) fun _ => .ite (.pure _) (.accept _)
  exact .step hnot fun _ => .ite (.map h.negation fun _ => rfl) (keeps_predicate h)

theorem keeps_expressionOf : Keeps lost [] (expressionOf inner) := by
  refine keeps_chain ?_ (keeps_chain ?_ (keeps_negationExpr h))
  all_goals exact fun t op hop => not_isLiteral_of_operator t op (by simp [hop])

end

end Grammar
end SqlTidy
