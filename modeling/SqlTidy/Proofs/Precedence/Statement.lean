import SqlTidy.Proofs.Case.Statement
import SqlTidy.Proofs.Precedence.Define

/-!
# Parsed statements are normal

**Theorem (`Statement.normal_of_parse`).** In the tree of every text that is read as a statement, each operand
binds tightly enough where it stands. So the printer, which adds no parentheses, never has to.

Commands hold expressions in few places: in partitions, in options and in the arguments of a procedure. What is
left is to go through the first words of a statement, and `EXPLAIN`, which holds a statement of its own.
-/

namespace SqlTidy

namespace Grammar

open Parse

/-! ## Commands -/

theorem yields_truncate : Yields Normal truncate := by
  refine .andThen fun _ => .andThen fun _ => ?_
  exact yields_optionalPartition.bind fun partition hpartition => .pure hpartition

theorem yields_analyze : Yields Normal analyze := by
  refine .andThen fun _ => .andThen fun _ => .ite ?_ ?_
  · exact .andThen fun _ => .andThen fun _ => .andThen fun _ => .pure trivial
  · refine .andThen fun _ => .andThen fun _ => ?_
    refine yields_optionalPartition.bind fun partition hpartition => ?_
    exact .andThen fun _ => .andThen fun _ => .pure hpartition

theorem yields_set : Yields Normal set := by
  refine .andThen fun _ => .andThen fun _ => .ite ?_ (.andThen fun _ => .pure trivial)
  exact .andThen fun _ => .andThen fun _ => .pure trivial

theorem yields_scopeAndPattern {make : Option Scope → Option ShowPattern → Show}
    (hmake : ∀ scope pattern, Normal (make scope pattern)) :
    Yields Normal (scopeAndPattern make) :=
  .andThen fun scope => .andThen fun pattern => .pure (hmake scope pattern)

theorem yields_showTableExtended : Yields Normal showTableExtended := by
  refine .andThen fun _ => .andThen fun _ => .andThen fun _ => .andThen fun _ => ?_
  exact yields_optionalPartition.bind fun partition hpartition => .pure hpartition

theorem yields_showColumns : Yields Normal showColumns := by
  refine .andThen fun table => ?_
  cases table with
  | none => exact yields_expected _
  | some table => exact .andThen fun _ => .pure trivial

theorem yields_showPartitions : Yields Normal showPartitions :=
  .andThen fun _ => yields_optionalPartition.bind fun _ hpartition => .pure hpartition

theorem yields_showFunctions (kind : FunctionKind) : Yields Normal (showFunctions kind) :=
  .andThen fun _ => yields_scopeAndPattern fun _ _ => trivial

theorem yields_showRules : ∀ r ∈ showRules, Yields Normal r.2 := by
  simp only [showRules, List.forall_mem_cons, List.not_mem_nil, false_implies, implies_true, and_true]
  refine ⟨?_, ?_, ?_, ?_, yields_showTableExtended, ?_, yields_showColumns, yields_showPartitions, ?_,
    yields_showFunctions .user, yields_showFunctions .system, yields_showFunctions .all, ?_, ?_, ?_, ?_⟩
  case refine_6 => exact .andThen fun _ => .andThen fun _ => .pure trivial
  case refine_8 => exact .andThen fun _ => .andThen fun _ => .andThen fun _ => .pure trivial
  case refine_9 => exact .andThen fun _ => .pure trivial
  case refine_10 => exact .andThen fun _ => .pure trivial
  all_goals exact yields_scopeAndPattern fun _ _ => trivial

theorem yields_show : Yields Normal show? := by
  refine .andThen fun _ => (Yields.chooseRule yields_showRules).bind fun target htarget => ?_
  cases target with
  | none => exact yields_expected _
  | some target => exact .pure (htarget target rfl)

theorem yields_describeTable : Yields Normal describeTable := by
  refine .andThen fun _ => .andThen fun _ => .andThen fun _ => ?_
  refine yields_optionalPartition.bind fun partition hpartition => ?_
  exact .andThen fun _ => .pure hpartition

theorem yields_describe : Yields Normal describe := by
  have htarget : Yields Normal describeTarget := by
    refine .andThen fun _ => .ite ?query (.andThen fun _ => .ite ?function ?other)
    case query => exact .andThen fun _ => yields_query.bind fun query hquery => .pure hquery
    case function => exact .andThen fun _ => .andThen fun _ => .pure trivial
    case other =>
      refine .andThen fun _ => .ite (.andThen fun word => ?_) (.andThen fun word => ?_)
      all_goals
        cases word with
        | none => exact yields_describeTable
        | some word => exact .andThen fun _ => .andThen fun _ => .pure trivial
  refine .andThen fun _ => .andThen fun _ => ?_
  exact htarget.bind fun target htarget => .pure htarget

theorem yields_call : Yields Normal call := by
  refine .andThen fun _ => .andThen fun _ => .andThen fun _ => ?_
  refine (yields_within_normal fun _ h => yields_callArgsBeforeParen h).bind fun args hargs => ?_
  exact .andThen fun _ => .pure hargs

theorem yields_load : Yields Normal load := by
  have hfile : Yields Normal (do return .loadFile (← loadFile) : Parse Statement) := by
    refine Yields.bind (P := Normal) (.andThen fun _ => .andThen fun _ => .andThen fun _ => ?_)
      fun load hload => .pure hload
    exact yields_optionalOptions.bind fun entries hentries => .pure hentries
  have hdata : Yields Normal (do return .loadData (← loadData) : Parse Statement) := by
    refine Yields.bind (P := Normal) (.andThen fun _ => .andThen fun _ => .andThen fun _ => ?_)
      fun load hload => .pure hload
    refine .andThen fun _ => .andThen fun _ => .andThen fun _ => ?_
    exact yields_optionalPartition.bind fun partition hpartition => .pure hpartition
  refine .andThen fun _ => .andThen fun t => ?_
  split
  · exact hfile
  · exact hdata

theorem yields_exportTable {tables : Option WithClause} (htables : Normal tables) :
    Yields Normal (exportTable tables) := by
  refine .andThen fun _ => .andThen fun _ => ?_
  refine yields_optionalPartition.bind fun partition hpartition => ?_
  refine .andThen fun _ => .andThen fun _ => ?_
  exact yields_optionalOptions.bind fun entries hentries => .pure ⟨htables, hpartition, hentries⟩

theorem yields_mergeFiles : Yields Normal mergeFiles := by
  refine .andThen fun _ => .andThen fun _ => ?_
  refine yields_optionalPartition.bind fun partition hpartition => ?_
  exact yields_optionalOptions.bind fun entries hentries => .pure ⟨hpartition, hentries⟩

/-! ## Statements -/

theorem yields_queryStatement {tables : Option WithClause} (htables : Normal tables) :
    Yields Normal (queryStatement tables) :=
  (yields_within_normal fun _ h => yields_queryAfterWith h htables).bind fun _ hquery => .pure hquery

theorem yields_fromStatement {tables : Option WithClause} (htables : Normal tables) :
    Yields Normal (fromStatement tables) := by
  have hsource : Yields Normal insertSource := by
    refine (yields_within_normal fun _ h => yields_fromClause h).bind fun source hsource => ?_
    exact .andThen fun _ => .ite (Yields.toSome (.pure hsource)) yields_none
  refine hsource.rewinding.bind fun source hsource => ?_
  cases source with
  | none => exact yields_queryStatement htables
  | some source =>
    exact (Yields.many yields_multiInsertBody).bind fun inserts hinserts =>
      .pure ⟨htables, hsource source rfl, hinserts⟩

theorem yields_withStatement : Yields Normal withStatement := by
  refine (yields_within_normal fun _ h => yields_withClause h).bind fun tables htables => ?_
  have htables : Normal (some tables) := Trees.every_some htables
  refine .andThen fun _ => .ite ?insert (.andThen fun _ => .ite ?source (.andThen fun _ => ?_))
  case insert => exact (yields_insert htables).bind fun insert hinsert => .pure hinsert
  case source => exact yields_fromStatement htables
  refine .ite ?_ (yields_queryStatement htables)
  exact (yields_exportTable htables).bind fun target htarget => .pure htarget

theorem yields_explain {inner : Parse Statement} (h : Yields Normal inner) :
    Yields Normal (explain inner) :=
  .andThen fun _ => .andThen fun _ => h.bind fun _ hstatement => .pure hstatement

theorem yields_statementOf {inner : Parse Statement} (h : Yields Normal inner) (word : String) :
    Yields Normal (statementOf inner word) := by
  have hquery : Yields Normal (do return .query (← query) : Parse Statement) :=
    yields_query.bind fun query hquery => .pure hquery
  unfold statementOf
  split
  · exact hquery
  · exact hquery
  · exact hquery
  · exact yields_withStatement
  · exact yields_fromStatement Trees.every_none
  · exact (yields_insert Trees.every_none).bind fun insert hinsert => .pure hinsert
  · exact yields_update.bind fun update hupdate => .pure hupdate
  · exact yields_delete.bind fun delete hdelete => .pure hdelete
  · refine .andThen fun _ => .ite ?_ ?_
    · exact yields_mergeFiles.bind fun merge hmerge => .pure hmerge
    · exact yields_merge.bind fun merge hmerge => .pure hmerge
  · exact yields_create
  · exact yields_create
  · exact yields_alter
  · exact yields_drop
  · exact yields_truncate.bind fun truncate htruncate => .pure htruncate
  · exact .andThen fun _ => .pure trivial
  · exact .andThen fun _ => .pure trivial
  · exact yields_analyze
  · exact .andThen fun _ => .pure trivial
  · exact .andThen fun _ => .pure trivial
  · exact yields_set
  · exact .andThen fun _ => .andThen fun _ => .pure trivial
  · exact yields_show.bind fun target htarget => .pure htarget
  · exact yields_describe.bind fun target htarget => .pure htarget
  · exact yields_describe.bind fun target htarget => .pure htarget
  · exact yields_explain h
  · exact yields_call.bind fun call hcall => .pure hcall
  · exact yields_load
  · exact (yields_exportTable Trees.every_none).bind fun target htarget => .pure htarget
  · exact .andThen fun _ => .pure trivial
  · exact .ite (yields_failWith _) (yields_expected _)

theorem yields_statement : Yields Normal statement := by
  refine .fix fun inner h => .andThen fun _ => .ite ?_ (.andThen fun word => ?_)
  · exact yields_query.bind fun query hquery => .pure hquery
  · cases word with
    | none => exact yields_expected _
    | some word => exact yields_statementOf h word

theorem yields_wholeStatement : Yields Normal wholeStatement := by
  have hempty : Yields Normal wholeStatement.throwEmpty := by
    rintro i _ pos a next ⟨⟩
  refine .andThen fun _ => .andThen fun _ => .ite hempty ?_
  refine yields_statement.bind fun s hs => .andThen fun _ => .andThen fun _ => ?_
  exact .ite (.pure hs) (.andThen fun _ => yields_fail _)

end Grammar

namespace Statement

/-- What is read from a text is in precedence normal form. -/
theorem normal_of_parse {text : String} {tree : Statement} (h : parse text = .ok tree) :
    Normal tree := by
  obtain ⟨tokens, next, hscan, hrun⟩ := exists_run_of_parse h
  exact Grammar.yields_wholeStatement (Input.wellFormed_of_scan hscan) hrun

/-- Operators of all kinds, and set operators of both levels. -/
theorem normal_of_parse_mixed :
    ∃ tree, parse "SELECT NOT a[0] + -b * c = 1 AND d IN (1) UNION TABLE e INTERSECT TABLE f" =
      .ok tree ∧ Normal tree := by
  have hread : (parse
      "SELECT NOT a[0] + -b * c = 1 AND d IN (1) UNION TABLE e INTERSECT TABLE f").toOption.isSome := by
    decide +kernel
  cases hparse : parse
      "SELECT NOT a[0] + -b * c = 1 AND d IN (1) UNION TABLE e INTERSECT TABLE f" with
  | error e =>
    rw [hparse] at hread
    contradiction
  | ok tree => exact ⟨tree, rfl, normal_of_parse hparse⟩

end Statement

end SqlTidy
