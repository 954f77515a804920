import SqlTidy.Grammar.Command
import SqlTidy.Proofs.Case.Definition

/-!
# Commands do not see letter case

Maintenance, settings, questions to the catalog, and moving data. A setting is the one statement that
looks at the source text itself.
-/

namespace SqlTidy

open Text Parse

namespace Grammar

/-! ## Maintenance -/

theorem mirrors_truncate : Mirrors Truncate.foldCase truncate truncate :=
  (steady_expectWords _).andThen fun _ => mirrors_dottedName.bind fun _ =>
    mirrors_optionalPartition.map fun _ => rfl

theorem steady_repairOption : Steady repairOption := by
  refine (steady_choose _).andThen fun option => ?_
  cases option with
  | none => exact .pure rfl
  | some option => exact (steady_expectWord _).andThen fun _ => .pure rfl

theorem mirrors_repair : Mirrors RepairTable.foldCase repair repair :=
  (steady_acceptWord _).andThen fun _ => (steady_expectWords _).andThen fun _ =>
    mirrors_dottedName.bind fun _ => steady_repairOption.andThen fun _ => .pure rfl

theorem mirrors_scope : Mirrors (Option.map Scope.foldCase) scope scope := by
  refine (steady_choose _).andThen fun word => ?_
  cases word with
  | none => exact .pure rfl
  | some word => exact mirrors_dottedName.map fun _ => rfl

theorem mirrors_analyzeTarget : Mirrors AnalyzeTarget.foldCase analyzeTarget analyzeTarget := by
  refine (Mirrors.rule (f := AnalyzeTarget.foldCase) (.pure (by rfl)) <| .rule (.pure (by rfl)) <|
    .rule (mirrors_dottedName.commaSeparated.map fun _ => by rfl) .noRule).bind fun target => ?_
  cases target with
  | none => exact .pure rfl
  | some target => exact .pure rfl

theorem mirrors_analyzeTable : Mirrors Statement.foldCase analyzeTable analyzeTable := by
  refine (steady_expectWord _).andThen fun _ => mirrors_dottedName.bind fun _ => ?_
  refine mirrors_optionalPartition.bind fun _ => (steady_expectWords _).andThen fun _ => ?_
  exact mirrors_analyzeTarget.map fun _ => rfl

theorem mirrors_analyzeTables : Mirrors Statement.foldCase analyzeTables analyzeTables :=
  mirrors_scope.bind fun _ => (steady_expectWords _).andThen fun _ =>
    (steady_acceptWord _).andThen fun _ => .pure rfl

theorem mirrors_analyze : Mirrors Statement.foldCase analyze analyze :=
  (steady_expectWord _).andThen fun _ => (steady_acceptWord _).andThen fun _ =>
    .ite mirrors_analyzeTables mirrors_analyzeTable

theorem steady_commentTarget : Steady commentTarget := by
  refine (steady_acceptWord _).andThen fun _ => .ite (.pure rfl) ?_
  refine steady_namespaceWord.andThen fun word => ?_
  cases word with
  | none => exact mirrors_expected _
  | some word => exact .pure rfl

theorem steady_nullableString : Steady nullableString :=
  (steady_acceptWord _).andThen fun _ => .ite (.pure rfl) (steady_stringLiteral.map fun _ => rfl)

theorem mirrors_commentOn : Mirrors CommentOn.foldCase commentOn commentOn := by
  refine (steady_expectWords _).andThen fun _ => steady_commentTarget.andThen fun _ => ?_
  refine mirrors_dottedName.bind fun _ => (steady_expectWord _).andThen fun _ => ?_
  exact steady_nullableString.andThen fun _ => .pure rfl

theorem mirrors_use : Mirrors Use.foldCase use use := by
  refine (steady_expectWord _).andThen fun _ => (mirrors_peek 1).bind fun t => ?_
  rw [isIdentifier_foldCase]
  refine .ite (steady_namespaceWord.andThen fun _ => ?_) ?_
  · exact mirrors_dottedName.map fun _ => rfl
  · exact mirrors_dottedName.map fun _ => rfl

/-! ## Settings

What a setting keeps of the source is forgotten by folding, so on a folded input there is none of it. -/

theorem steady_inStatement : Steady inStatement := by
  refine mirrors_current.bind fun t => ?_
  cases t with
  | symbol s =>
    simp only [Token.foldCase]
    split <;> exact .pure rfl
  | _ => exact .pure rfl

theorem steady_skipToken : Steady skipToken := steady_maybe steady_inStatement steady_skip

theorem steady_skipKeyToken : Steady skipKeyToken :=
  (steady_isSymbol _).andThen fun _ => .ite (.pure rfl) steady_skipToken

theorem mirrors_offset : Mirrors (fun _ => 0) offset offset := by
  intro i _ pos
  simp only [offset, Input.startAt, Input.foldCase, Array.getElem?_map]
  cases i.tokens[pos]? <;> rfl

theorem mirrors_previousEnd : Mirrors (fun _ => 0) previousEnd previousEnd := by
  intro i _ pos
  cases pos with
  | zero => rfl
  | succ pos =>
    simp only [previousEnd, Input.endBefore, Input.foldCase, Array.getElem?_map]
    cases i.tokens[pos]? <;> rfl

theorem mirrors_slice (start stop : Nat) : Mirrors (fun _ => "") (slice start stop) (slice 0 0) := by
  intro i _ pos
  simp only [slice, Input.foldCase]
  rfl

theorem mirrors_rawText (start stop : Nat) :
    Mirrors (fun _ => none) (rawText start stop) (rawText 0 0) :=
  (mirrors_slice start stop).bind fun _ => .pure rfl

theorem mirrors_rawSetting : Mirrors (fun _ => (none, none)) rawSetting rawSetting := by
  refine mirrors_offset.bind fun start => (steady_many steady_skipKeyToken).andThen fun skipped => ?_
  refine (steady_isSymbol _).andThen fun _ => .ite ?_ (.ite (.pure rfl) ?_)
  · refine mirrors_offset.bind fun stop => (mirrors_rawText start stop).bind fun _ => ?_
    refine steady_skip.andThen fun _ => mirrors_offset.bind fun start => ?_
    refine (steady_many steady_skipToken).andThen fun _ => .ite (.pure rfl) ?_
    exact mirrors_previousEnd.bind fun stop => (mirrors_rawText start stop).bind fun _ => .pure rfl
  · exact mirrors_previousEnd.bind fun stop => (mirrors_rawText start stop).bind fun _ => .pure rfl

theorem mirrors_catalogName : Mirrors (fun _ => "") catalogName catalogName :=
  mirrors_offset.bind fun start => (steady_many steady_skipToken).andThen fun _ =>
    mirrors_previousEnd.bind fun stop => mirrors_slice start stop

theorem steady_isSetCatalog : Steady isSetCatalog :=
  (mirrors_peek 1).bind fun _ => (steady_isWord _).andThen fun _ =>
    .ite (.pure (by simp)) (.pure rfl)

theorem mirrors_set : Mirrors Statement.foldCase set set := by
  refine (steady_expectWord _).andThen fun _ => steady_isSetCatalog.andThen fun _ => .ite ?_ ?_
  · exact steady_skip.andThen fun _ => mirrors_catalogName.map fun _ => rfl
  · exact mirrors_rawSetting.map fun _ => rfl

theorem mirrors_reset : Mirrors Statement.foldCase reset reset :=
  steady_skip.andThen fun _ => mirrors_rawSetting.map fun _ => rfl

/-! ## Questions to the catalog -/

theorem steady_showPattern : Steady showPattern := by
  refine (steady_acceptWord _).andThen fun _ => .ite (steady_stringLiteral.map fun _ => rfl) ?_
  refine mirrors_current.bind fun t => ?_
  cases t with
  | string s => exact steady_stringLiteral.map fun _ => rfl
  | _ => exact .pure rfl

theorem mirrors_scopeAndPattern {make : Option Scope → Option ShowPattern → Show}
    (h : ∀ scope pattern, make (scope.map Scope.foldCase) pattern = (make scope pattern).foldCase) :
    Mirrors Show.foldCase (scopeAndPattern make) (scopeAndPattern make) :=
  mirrors_scope.bind fun _ => steady_showPattern.andThen fun _ => .pure (h _ _)

theorem mirrors_showTableExtended : Mirrors Show.foldCase showTableExtended showTableExtended := by
  refine (steady_expectWord _).andThen fun _ => mirrors_scope.bind fun _ => ?_
  refine (steady_expectWord _).andThen fun _ => steady_stringLiteral.andThen fun _ => ?_
  exact mirrors_optionalPartition.map fun _ => rfl

theorem mirrors_showColumns : Mirrors Show.foldCase showColumns showColumns := by
  refine mirrors_scope.bind fun table => ?_
  cases table with
  | none => exact mirrors_expected _
  | some table => exact mirrors_scope.map fun _ => rfl

theorem mirrors_showPartitions : Mirrors Show.foldCase showPartitions showPartitions :=
  mirrors_dottedName.bind fun _ => mirrors_optionalPartition.map fun _ => rfl

theorem mirrors_showTableProperties :
    Mirrors Show.foldCase showTableProperties showTableProperties := by
  refine mirrors_dottedName.bind fun _ => ?_
  refine (Mirrors.maybe (f := foldWritten) (steady_accept _) ?_).bind fun _ => .pure rfl
  exact mirrors_propertyKey.bind fun _ => (steady_expect _).andThen fun _ => .pure rfl

theorem mirrors_showFunctions (kind : FunctionKind) :
    Mirrors Show.foldCase (showFunctions kind) (showFunctions kind) :=
  (steady_expectWord _).andThen fun _ => mirrors_scopeAndPattern fun _ _ => rfl

theorem mirrors_showCreateTable : Mirrors Show.foldCase showCreateTable showCreateTable :=
  (steady_expectWord _).andThen fun _ => mirrors_dottedName.bind fun _ =>
    (steady_acceptWords _).andThen fun _ => .pure rfl

theorem mirrors_showCurrent : Mirrors Show.foldCase showCurrent showCurrent :=
  (steady_expectWord _).andThen fun _ => .pure rfl

theorem mirrors_showRules :
    Mirrors (Option.map Show.foldCase) (chooseRule showRules) (chooseRule showRules) := by
  refine .rule (mirrors_scopeAndPattern fun _ _ => rfl) ?_
  refine .rule (mirrors_scopeAndPattern fun _ _ => rfl) ?_
  refine .rule (mirrors_scopeAndPattern fun _ _ => rfl) ?_
  refine .rule (mirrors_scopeAndPattern fun _ _ => rfl) (.rule mirrors_showTableExtended ?_)
  refine .rule (mirrors_scopeAndPattern fun _ _ => rfl) (.rule mirrors_showColumns ?_)
  refine .rule mirrors_showPartitions (.rule mirrors_showTableProperties ?_)
  refine .rule (mirrors_showFunctions _) (.rule (mirrors_showFunctions _) ?_)
  refine .rule (mirrors_showFunctions _) (.rule (mirrors_scopeAndPattern fun _ _ => rfl) ?_)
  refine .rule mirrors_showCreateTable (.rule ?_ (.rule mirrors_showCurrent .noRule))
  exact steady_showPattern.map fun _ => rfl

theorem mirrors_show : Mirrors Show.foldCase show? show? := by
  refine (steady_expectWord _).andThen fun _ => mirrors_showRules.bind fun target => ?_
  cases target with
  | none => exact mirrors_expected _
  | some target => exact .pure rfl

theorem steady_isDescribedQuery : Steady isDescribedQuery :=
  (steady_isWord _).andThen fun _ => .ite (.pure rfl) <| (steady_isWord _).andThen fun _ =>
    .ite (.pure rfl) steady_isQueryStart

theorem mirrors_describeQuery : Mirrors DescribeTarget.foldCase describeQuery describeQuery :=
  (steady_acceptWord _).andThen fun _ => blind_query.map fun _ => rfl

theorem mirrors_describeFunction :
    Mirrors DescribeTarget.foldCase describeFunction describeFunction :=
  (steady_acceptWord _).andThen fun _ => mirrors_dottedName.map fun _ => rfl

theorem mirrors_describeNamespace (word : NamespaceWord) :
    Mirrors DescribeTarget.foldCase (describeNamespace word) (describeNamespace word) :=
  (steady_acceptWord _).andThen fun _ => mirrors_dottedName.map fun _ => rfl

theorem mirrors_describeTable : Mirrors DescribeTarget.foldCase describeTable describeTable := by
  refine (steady_acceptWord _).andThen fun _ => (steady_choose _).andThen fun _ => ?_
  refine mirrors_dottedName.bind fun _ => mirrors_optionalPartition.bind fun _ => ?_
  refine (Mirrors.maybe ?_ mirrors_dottedName).bind fun _ => .pure rfl
  exact mirrors_current.bind fun t => .pure (isIdentifier_foldCase t)

theorem mirrors_describeTarget :
    Mirrors DescribeTarget.foldCase describeTarget describeTarget := by
  refine steady_isDescribedQuery.andThen fun _ => .ite mirrors_describeQuery ?_
  refine (steady_acceptWord _).andThen fun _ => .ite mirrors_describeFunction ?_
  refine (mirrors_peek 1).bind fun t => ?_
  rw [isIdentifier_foldCase]
  refine .ite (steady_namespaceWord.andThen fun word => ?_) mirrors_describeTable
  cases word with
  | none => exact mirrors_describeTable
  | some word => exact mirrors_describeNamespace word

theorem mirrors_describe : Mirrors Describe.foldCase describe describe :=
  (steady_isWord _).andThen fun _ => steady_skip.andThen fun _ =>
    mirrors_describeTarget.map fun _ => rfl

/-! ## Moving data -/

theorem mirrors_call : Mirrors CallProcedure.foldCase call call := by
  refine (steady_expectWord _).andThen fun _ => mirrors_dottedName.bind fun _ => ?_
  refine (steady_expect _).andThen fun _ => ?_
  exact (mirrors_within fun _ h => mirrors_callArgsBeforeParen h).bind fun _ =>
    (steady_expect _).andThen fun _ => .pure rfl

theorem mirrors_loadData : Mirrors LoadData.foldCase loadData loadData := by
  refine (steady_acceptWord _).andThen fun _ => (steady_expectWord _).andThen fun _ => ?_
  refine steady_stringLiteral.andThen fun _ => (steady_acceptWord _).andThen fun _ => ?_
  refine (steady_expectWords _).andThen fun _ => mirrors_dottedName.bind fun _ => ?_
  exact mirrors_optionalPartition.map fun _ => rfl

theorem mirrors_loadFile : Mirrors LoadFile.foldCase loadFile loadFile :=
  steady_stringLiteral.andThen fun _ => (steady_acceptWord _).andThen fun _ =>
    mirrors_dottedName.bind fun _ => mirrors_optionalOptions.map fun _ => rfl

theorem mirrors_load : Mirrors Statement.foldCase load load := by
  refine (steady_expectWords _).andThen fun _ => mirrors_current.bind fun t => ?_
  cases t with
  | string s => exact mirrors_loadFile.map fun _ => rfl
  | _ => exact mirrors_loadData.map fun _ => rfl

theorem mirrors_exportTable (tables : Option WithClause) :
    Mirrors ExportTable.foldCase (exportTable tables) (exportTable (tables.map Tree.foldCase)) := by
  refine (steady_expectWords _).andThen fun _ => mirrors_dottedName.bind fun _ => ?_
  refine mirrors_optionalPartition.bind fun _ => (steady_expectWord _).andThen fun _ => ?_
  exact steady_stringLiteral.andThen fun _ => mirrors_optionalOptions.map fun _ => rfl

theorem mirrors_mergeFiles : Mirrors MergeFiles.foldCase mergeFiles mergeFiles :=
  (steady_expectWords _).andThen fun _ => mirrors_dottedName.bind fun _ =>
    mirrors_optionalPartition.bind fun _ => mirrors_optionalOptions.map fun _ => rfl

theorem mirrors_tunnelScalar {f : String → String}
    (hword : ∀ w, (Token.word w).WellFormed → f w = lower w)
    (hliteral : ∀ s, startsLiteral s.toList → f s = s) :
    Mirrors f tunnelScalar tunnelScalar := by
  refine mirrors_expectIf fun t ht => ?_
  cases t with
  | word w => exact congrArg some (hword w ht).symm
  | number n => exact congrArg some (hliteral n (startsLiteral_number ht)).symm
  | string s => exact congrArg some (hliteral s (startsLiteral_string ht)).symm
  | _ => rfl

theorem mirrors_tunnelValue : Mirrors TunnelValue.foldCase tunnelValue tunnelValue := by
  refine mirrors_fix fun inner h => (steady_accept _).andThen fun _ => .ite ?_ ?_
  · refine (Mirrors.maybeList (steady_not (steady_isSymbol _)) h.commaSeparated).bind fun _ => ?_
    refine (steady_expect _).andThen fun _ => .pure ?_
    rw [TunnelValue.foldCase, TunnelValue.foldItems_eq_map]
  refine (steady_accept _).andThen fun _ => .ite ?_ ?_
  -- Behind a sign the scalar is folded without looking for another sign.
  · refine (mirrors_tunnelScalar (f := fun s => String.ofList (foldPlain s.toList)) ?_ ?_).map
      fun s => ?_
    · intro w hw
      rw [(Token.foldPlain_word hw).1, String.ofList_toList]
    · intro s hs
      rw [foldPlain_of_startsLiteral hs, String.ofList_toList]
    · rw [TunnelValue.foldCase, foldWritten_minus]
  · refine (mirrors_tunnelScalar (f := foldWritten) ?_ ?_).map fun s => ?_
    · exact fun w hw => (Token.foldPlain_word hw).2
    · exact fun s hs => foldWritten_of_startsLiteral hs
    · rw [TunnelValue.foldCase]

theorem mirrors_tunnelProperty : Mirrors TunnelProperty.foldCase tunnelProperty tunnelProperty :=
  mirrors_propertyKey.bind fun _ => (steady_expect _).andThen fun _ =>
    mirrors_tunnelValue.map fun _ => rfl

theorem mirrors_tunnelOptions :
    Mirrors (List.map TunnelProperty.foldCase) tunnelOptions tunnelOptions := by
  refine (steady_expectWord _).andThen fun _ => (steady_expect _).andThen fun _ => ?_
  refine (steady_accept _).andThen fun _ => .ite (.pure rfl) ?_
  exact mirrors_tunnelProperty.commaSeparated.bind fun _ => (steady_expect _).andThen fun _ =>
    .pure rfl

theorem steady_tunnelEnd (keyword : String) : Steady (tunnelEnd keyword) :=
  (steady_expectWord _).andThen fun _ => (steady_expect _).andThen fun _ =>
    steady_stringLiteral.andThen fun _ => (steady_expect _).andThen fun _ => .pure rfl

theorem steady_tunnelTransform : Steady tunnelTransform :=
  steady_maybe (steady_acceptWord _) ((steady_expect _).andThen fun _ => steady_stringLiteral)

theorem mirrors_dataTunnel : Mirrors DataTunnel.foldCase dataTunnel dataTunnel := by
  refine (steady_expectWord _).andThen fun _ => (steady_tunnelEnd _).andThen fun _ => ?_
  refine mirrors_tunnelOptions.bind fun _ => steady_tunnelTransform.andThen fun _ => ?_
  exact (steady_tunnelEnd _).andThen fun _ => mirrors_tunnelOptions.map fun _ => rfl

end Grammar

end SqlTidy
