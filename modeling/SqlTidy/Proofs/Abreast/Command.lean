import SqlTidy.Proofs.Abreast.Define
import SqlTidy.Proofs.Runs

/-!
# Commands abreast

Maintenance, settings, questions to the catalog, and moving data. A setting is cut out of the source text between two
tokens, and the texts agree there. Only `SET CATALOG` tells a semicolon from the end: behind the word it looks for a name,
and any token but an equals sign and the end mark counts as one.
-/

namespace SqlTidy

open Parse

namespace Grammar

variable {e : Pair}

/-! ## Maintenance -/

theorem stable_truncate : Stable e truncate :=
  (stable_expectWords _).bind fun _ => stable_dottedName.bind fun _ => stable_optionalPartition.map

theorem stable_repairOption : Stable e repairOption := by
  refine (stable_choose _).bind fun option => ?_
  cases option with
  | none => exact .pure _
  | some option => exact (stable_expectWord _).bind fun _ => .pure _

theorem stable_repair : Stable e repair :=
  (stable_acceptWord _).bind fun _ => (stable_expectWords _).bind fun _ =>
    stable_dottedName.bind fun _ => stable_repairOption.bind fun _ => .pure _

theorem stable_scope : Stable e scope := by
  refine (stable_choose _).bind fun word => ?_
  cases word with
  | none => exact .pure _
  | some word => exact stable_dottedName.map

theorem stable_analyzeTarget : Stable e analyzeTarget := by
  refine (Agrees.rule (.pure _) <| .rule (.pure _) <|
    .rule stable_dottedName.commaSeparated.map stable_noRule).bind fun target => ?_
  cases target with
  | none => exact .pure _
  | some target => exact .pure _

theorem stable_analyzeTable : Stable e analyzeTable := by
  refine (stable_expectWord _).bind fun _ => stable_dottedName.bind fun _ => ?_
  refine stable_optionalPartition.bind fun _ => (stable_expectWords _).bind fun _ => ?_
  exact stable_analyzeTarget.map

theorem stable_analyzeTables : Stable e analyzeTables :=
  stable_scope.bind fun _ => (stable_expectWords _).bind fun _ =>
    (stable_acceptWord _).bind fun _ => .pure _

theorem stable_analyze : Stable e analyze :=
  (stable_expectWord _).bind fun _ => (stable_acceptWord _).bind fun _ =>
    .ite stable_analyzeTables stable_analyzeTable

theorem stable_commentTarget : Stable e commentTarget := by
  refine (stable_acceptWord _).bind fun _ => .ite (.pure _) ?_
  refine stable_namespaceWord.bind fun word => ?_
  cases word with
  | none => exact agrees_expected _ _
  | some word => exact .pure _

theorem stable_nullableString : Stable e nullableString :=
  (stable_acceptWord _).bind fun _ => .ite (.pure _) stable_stringLiteral.map

theorem stable_commentOn : Stable e commentOn := by
  refine (stable_expectWords _).bind fun _ => stable_commentTarget.bind fun _ => ?_
  refine stable_dottedName.bind fun _ => (stable_expectWord _).bind fun _ => ?_
  exact stable_nullableString.bind fun _ => .pure _

theorem stable_use : Stable e use := by
  refine (stable_expectWord _).bind fun _ => .peek (fun t => ?_) stable_dottedName.map
  exact .ite (stable_namespaceWord.bind fun _ => stable_dottedName.map) stable_dottedName.map

/-! ## Settings -/

section

variable {pos pos' n : Nat}

theorem span_right {ends : Token → Bool} (h : e.Abreast pos pos') (heof : ends .eof = true)
    (hsemicolon : ends (.symbol .semicolon) = true) (hspan : Span e.left ends pos n) :
    Span e.right ends pos' n where
  inside k hk := by
    rw [(h.alike k).eq_of_ne_eof (hspan.ne_eof heof hk)]
    exact hspan.inside k hk
  stop := by
    rcases h.alike n with heq | ⟨-, -, hright⟩
    · rw [heq]
      exact hspan.stop
    · rw [hright, hsemicolon]

/-- What is cut out between two tokens is the same in both texts. -/
theorem trimmed_eq {start stop start' stop' : Nat} (hstart : start' = start + e.shift)
    (hstop : stop' = stop + e.shift) (hle : stop ≤ e.left.source.utf8ByteSize) :
    e.right.trimmed start' stop' = e.left.trimmed start stop := by
  rw [hstart, hstop, Input.trimmed, e.slice start stop hle, Input.trimmed]

theorem textOf_eq (h : e.Abreast pos pos') (hne : ∀ k < n, e.left.tokenAt (pos + k) ≠ .eof) :
    e.right.textOf pos' n = e.left.textOf pos n := by
  cases n with
  | zero => rw [Input.textOf_zero, Input.textOf_zero]
  | succ n =>
    have hlast := hne n (Nat.lt_succ_self n)
    rw [Input.textOf_succ, Input.textOf_succ]
    exact trimmed_eq (h.start 0 (hne 0 (Nat.zero_lt_succ n))) (h.stop n hlast)
      (e.scanned_left.endBefore_le_size hlast)

theorem stable_rawSetting : Stable e rawSetting := by
  intro pos pos' h
  obtain ⟨n, hkey⟩ := exists_span endsKey e.capped_left rfl pos
  have hkey' := span_right h rfl rfl hkey
  by_cases heq : e.left.tokenAt (pos + n) = .symbol .eq
  · have heq' : e.right.tokenAt (pos' + n) = .symbol .eq :=
      ((h.add n).tokenAt_eq (by simp [heq])).trans heq
    have hnext : e.Abreast (pos + n + 1) (pos' + n + 1) := (h.add n).succ
    obtain ⟨m, hvalue⟩ := exists_span endsStatement e.capped_left rfl (pos + n + 1)
    have hright := runs_rawSetting_value e.capped_right hkey' heq' (span_right hnext rfl rfl hvalue)
    have hfirst : e.left.tokenAt (pos + 0) ≠ .eof := by
      cases n with
      | zero => exact heq ▸ nofun
      | succ n => exact hkey.ne_eof rfl (Nat.zero_lt_succ n)
    have hstart : e.right.startAt pos' = e.left.startAt pos + e.shift := h.start 0 hfirst
    rw [trimmed_eq hstart (h.start n (by simp [heq])) (e.scanned_left.startAt_le_size _),
      textOf_eq hnext fun k hk => hvalue.ne_eof rfl hk] at hright
    exact .of_ok (runs_rawSetting_value e.capped_left hkey heq hvalue) hright (hnext.add m)
  · have heq' : e.right.tokenAt (pos' + n) ≠ .symbol .eq := by
      rcases h.alike n with ht | ⟨-, -, ht⟩
      · rwa [ht]
      · simp [ht]
    have hright := runs_rawSetting_key e.capped_right hkey' heq'
    rw [textOf_eq h fun k hk => hkey.ne_eof rfl hk] at hright
    exact .of_ok (runs_rawSetting_key e.capped_left hkey heq) hright (h.add n)

theorem stable_reset : Stable e reset := stable_skip.bind fun _ => stable_rawSetting.map

end

/-! ## Questions to the catalog -/

theorem stable_showPattern : Stable e showPattern := by
  refine (stable_acceptWord _).bind fun _ => .ite stable_stringLiteral.map ?_
  refine .current (fun t => ?_) (.pure none)
  split
  · exact stable_stringLiteral.map
  · exact .pure none

theorem stable_scopeAndPattern (make : Option Scope → Option ShowPattern → Show) :
    Stable e (scopeAndPattern make) :=
  stable_scope.bind fun _ => stable_showPattern.map

theorem stable_showTableExtended : Stable e showTableExtended := by
  refine (stable_expectWord _).bind fun _ => stable_scope.bind fun _ => ?_
  refine (stable_expectWord _).bind fun _ => stable_stringLiteral.bind fun _ => ?_
  exact stable_optionalPartition.map

theorem stable_showColumns : Stable e showColumns := by
  refine stable_scope.bind fun table => ?_
  cases table with
  | none => exact agrees_expected _ _
  | some table => exact stable_scope.map

theorem stable_showPartitions : Stable e showPartitions :=
  stable_dottedName.bind fun _ => stable_optionalPartition.map

theorem stable_showTableProperties : Stable e showTableProperties := by
  refine stable_dottedName.bind fun _ => ?_
  refine (Agrees.maybe (stable_accept _) ?_).bind fun _ => .pure _
  exact stable_propertyKey.bind fun _ => (stable_expect _).bind fun _ => .pure _

theorem stable_showFunctions (kind : FunctionKind) : Stable e (showFunctions kind) :=
  (stable_expectWord _).bind fun _ => stable_scopeAndPattern _

theorem stable_showCreateTable : Stable e showCreateTable :=
  (stable_expectWord _).bind fun _ => stable_dottedName.bind fun _ =>
    (stable_acceptWords _).bind fun _ => .pure _

theorem stable_showCurrent : Stable e showCurrent :=
  (stable_expectWord _).bind fun _ => .pure _

theorem stable_showRules : Stable e (chooseRule showRules) := by
  refine .rule (stable_scopeAndPattern _) ?_
  refine .rule (stable_scopeAndPattern _) ?_
  refine .rule (stable_scopeAndPattern _) ?_
  refine .rule (stable_scopeAndPattern _) (.rule stable_showTableExtended ?_)
  refine .rule (stable_scopeAndPattern _) (.rule stable_showColumns ?_)
  refine .rule stable_showPartitions (.rule stable_showTableProperties ?_)
  refine .rule (stable_showFunctions _) (.rule (stable_showFunctions _) ?_)
  refine .rule (stable_showFunctions _) (.rule (stable_scopeAndPattern _) ?_)
  refine .rule stable_showCreateTable (.rule ?_ (.rule stable_showCurrent stable_noRule))
  exact stable_showPattern.map

theorem stable_show : Stable e show? := by
  refine (stable_expectWord _).bind fun _ => stable_showRules.bind fun target => ?_
  cases target with
  | none => exact agrees_expected _ _
  | some target => exact .pure _

theorem stable_isDescribedQuery : Stable e isDescribedQuery :=
  (stable_isWord _).bind fun _ => .ite (.pure _) <| (stable_isWord _).bind fun _ =>
    .ite (.pure _) stable_isQueryStart

theorem stable_describeQuery : Stable e describeQuery :=
  (stable_acceptWord _).bind fun _ => stable_query.map

theorem stable_describeFunction : Stable e describeFunction :=
  (stable_acceptWord _).bind fun _ => stable_dottedName.map

theorem stable_describeNamespace (word : NamespaceWord) : Stable e (describeNamespace word) :=
  (stable_acceptWord _).bind fun _ => stable_dottedName.map

theorem stable_describeTable : Stable e describeTable := by
  refine (stable_acceptWord _).bind fun _ => (stable_choose _).bind fun _ => ?_
  refine stable_dottedName.bind fun _ => stable_optionalPartition.bind fun _ => ?_
  refine (Agrees.maybe ?_ stable_dottedName).bind fun _ => .pure _
  exact stable_ask rfl

theorem stable_describeTarget : Stable e describeTarget := by
  refine stable_isDescribedQuery.bind fun _ => .ite stable_describeQuery ?_
  refine (stable_acceptWord _).bind fun _ => .ite stable_describeFunction ?_
  refine .peek (fun t => .ite (stable_namespaceWord.bind fun word => ?_) stable_describeTable)
    stable_describeTable
  cases word with
  | none => exact stable_describeTable
  | some word => exact stable_describeNamespace word

theorem stable_describe : Stable e describe :=
  (stable_isWord _).bind fun _ => stable_skip.bind fun _ => stable_describeTarget.map

/-! ## Moving data -/

theorem stable_call : Stable e call := by
  refine (stable_expectWord _).bind fun _ => stable_dottedName.bind fun _ => ?_
  refine (stable_expect _).bind fun _ => ?_
  exact (stable_within fun _ _ h => agrees_callArgsBeforeParen h).bind fun _ =>
    (stable_expect _).bind fun _ => .pure _

theorem stable_loadData : Stable e loadData := by
  refine (stable_acceptWord _).bind fun _ => (stable_expectWord _).bind fun _ => ?_
  refine stable_stringLiteral.bind fun _ => (stable_acceptWord _).bind fun _ => ?_
  refine (stable_expectWords _).bind fun _ => stable_dottedName.bind fun _ => ?_
  exact stable_optionalPartition.map

theorem stable_loadFile : Stable e loadFile :=
  stable_stringLiteral.bind fun _ => (stable_acceptWord _).bind fun _ =>
    stable_dottedName.bind fun _ => stable_optionalOptions.map

theorem stable_load : Stable e load := by
  refine (stable_expectWords _).bind fun _ => .current (fun t => ?_) stable_loadData.map
  split
  · exact stable_loadFile.map
  · exact stable_loadData.map

theorem stable_exportTable (tables : Option WithClause) : Stable e (exportTable tables) := by
  refine (stable_expectWords _).bind fun _ => stable_dottedName.bind fun _ => ?_
  refine stable_optionalPartition.bind fun _ => (stable_expectWord _).bind fun _ => ?_
  exact stable_stringLiteral.bind fun _ => stable_optionalOptions.map

theorem stable_mergeFiles : Stable e mergeFiles :=
  (stable_expectWords _).bind fun _ => stable_dottedName.bind fun _ =>
    stable_optionalPartition.bind fun _ => stable_optionalOptions.map

theorem stable_tunnelScalar : Stable e tunnelScalar := stable_expectIf _ _ rfl

theorem stable_tunnelValue : Stable e tunnelValue := by
  refine stable_fix fun _ _ h => (stable_accept _).bind fun _ => .ite ?_ ?_
  · refine (Agrees.maybeList (stable_isSymbol _).map h.commaSeparated).bind fun _ => ?_
    exact (stable_expect _).bind fun _ => .pure _
  · exact (stable_accept _).bind fun _ => .ite stable_tunnelScalar.map stable_tunnelScalar.map

theorem stable_tunnelProperty : Stable e tunnelProperty :=
  stable_propertyKey.bind fun _ => (stable_expect _).bind fun _ => stable_tunnelValue.map

theorem stable_tunnelOptions : Stable e tunnelOptions := by
  refine (stable_expectWord _).bind fun _ => (stable_expect _).bind fun _ => ?_
  refine (stable_accept _).bind fun _ => .ite (.pure _) ?_
  exact stable_tunnelProperty.commaSeparated.bind fun _ => (stable_expect _).bind fun _ => .pure _

theorem stable_tunnelEnd (keyword : String) : Stable e (tunnelEnd keyword) :=
  (stable_expectWord _).bind fun _ => (stable_expect _).bind fun _ =>
    stable_stringLiteral.bind fun _ => (stable_expect _).bind fun _ => .pure _

theorem stable_tunnelTransform : Stable e tunnelTransform :=
  .maybe (stable_acceptWord _) ((stable_expect _).bind fun _ => stable_stringLiteral)

theorem stable_dataTunnel : Stable e dataTunnel := by
  refine (stable_expectWord _).bind fun _ => (stable_tunnelEnd _).bind fun _ => ?_
  refine stable_tunnelOptions.bind fun _ => stable_tunnelTransform.bind fun _ => ?_
  exact (stable_tunnelEnd _).bind fun _ => stable_tunnelOptions.map

end Grammar

end SqlTidy
