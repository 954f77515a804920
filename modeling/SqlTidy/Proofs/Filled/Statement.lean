import SqlTidy.Proofs.Case.Statement
import SqlTidy.Proofs.Filled.Define

/-!
# Parsed statements are filled

**Theorem (`Statement.filled_of_parse`).** In the tree of every text that is read as a statement, no list is
empty that the printer takes for granted: names, the lists of clauses, the pieces of literals and the entries of
partitions. Where the printer looks at a list's length or at a flag to choose between two forms, the tree is one
of the two forms.

Commands hold names and partitions. Several inserts from one source are counted by what stands behind the
source: the rule goes on only if an `INSERT` does, and then the loop over the inserts takes that one at least.
-/

namespace SqlTidy

namespace Grammar

open Parse

/-! ## Maintenance -/

theorem fills_truncate : Yields filled truncate := by
  refine .andThen fun _ => fills_dottedName.bind fun table htable => ?_
  exact fills_optionalPartition.bind fun partition hpartition => .pure ⟨htable, hpartition⟩

theorem fills_repair : Yields filled repair := by
  refine .andThen fun _ => .andThen fun _ => ?_
  exact fills_dottedName.bind fun table htable => .andThen fun _ => .pure htable

theorem fills_scope : Yields filled scope := by
  refine .andThen fun word => ?_
  cases word with
  | none => exact yields_none
  | some word =>
    refine fills_dottedName.bind fun name hname => .pure ?_
    have hscope : filled (Scope.mk word name) := hname
    exact Parts.filled_some hscope

theorem fills_analyzeTarget : Yields filled analyzeTarget := by
  have hrules : ∀ r ∈ [(["NOSCAN"], pure AnalyzeTarget.noScan),
      (["FOR", "ALL", "COLUMNS"], pure .allColumns),
      (["FOR", "COLUMNS"], return .columns (← commaSeparated dottedName))], Yields filled r.2 := by
    simp only [List.forall_mem_cons, List.not_mem_nil, false_implies, implies_true, and_true]
    refine ⟨.pure trivial, .pure trivial, ?_⟩
    exact fills_dottedName.commaSeparated.bind fun columns hcolumns => .pure hcolumns
  refine (Yields.chooseRule hrules).bind fun target htarget => ?_
  cases target with
  | none => exact .pure trivial
  | some target => exact .pure (htarget target rfl)

theorem fills_analyze : Yields filled analyze := by
  refine .andThen fun _ => .andThen fun _ => .ite ?_ ?_
  · refine fills_scope.bind fun scope hscope => ?_
    exact .andThen fun _ => .andThen fun _ => .pure hscope
  · refine .andThen fun _ => fills_dottedName.bind fun table htable => ?_
    refine fills_optionalPartition.bind fun partition hpartition => .andThen fun _ => ?_
    exact fills_analyzeTarget.bind fun target htarget => .pure ⟨htable, hpartition, htarget⟩

theorem fills_commentOn : Yields filled commentOn := by
  refine .andThen fun _ => .andThen fun _ => fills_dottedName.bind fun name hname => ?_
  exact .andThen fun _ => .andThen fun _ => .pure hname

theorem fills_use : Yields filled use := by
  have hname (word : Option NamespaceWord) :
      Yields filled (do return { word, name := ← dottedName } : Parse Use) :=
    fills_dottedName.bind fun name hname => .pure hname
  refine .andThen fun _ => .andThen fun _ => .ite ?_ ?_
  · exact .andThen fun word => hname word
  · exact .andThen fun word => hname word

theorem fills_set : Yields filled set := by
  refine .andThen fun _ => .andThen fun _ => .ite ?_ (.andThen fun _ => .pure trivial)
  exact .andThen fun _ => .andThen fun _ => .pure trivial

/-! ## Questions to the catalog -/

theorem fills_scopeAndPattern {make : Option Scope → Option ShowPattern → Show}
    (hmake : ∀ scope pattern, filled scope → filled (make scope pattern)) :
    Yields filled (scopeAndPattern make) :=
  fills_scope.bind fun scope hscope => .andThen fun pattern => .pure (hmake scope pattern hscope)

theorem fills_showTableExtended : Yields filled showTableExtended := by
  refine .andThen fun _ => fills_scope.bind fun scope hscope => .andThen fun _ => .andThen fun _ => ?_
  exact fills_optionalPartition.bind fun partition hpartition => .pure ⟨hscope, hpartition⟩

theorem fills_showColumns : Yields filled showColumns := by
  refine fills_scope.bind fun table htable => ?_
  cases table with
  | none => exact yields_expected _
  | some table =>
    exact fills_scope.bind fun database hdatabase => .pure ⟨htable table rfl, hdatabase⟩

theorem fills_showPartitions : Yields filled showPartitions :=
  fills_dottedName.bind fun _ htable => fills_optionalPartition.bind fun _ hpartition =>
    .pure ⟨htable, hpartition⟩

theorem fills_showFunctions (kind : FunctionKind) : Yields filled (showFunctions kind) :=
  .andThen fun _ => fills_scopeAndPattern fun _ _ hscope => hscope

theorem fills_showRules : ∀ r ∈ showRules, Yields filled r.2 := by
  simp only [showRules, List.forall_mem_cons, List.not_mem_nil, false_implies, implies_true, and_true]
  refine ⟨?_, ?_, ?_, ?_, fills_showTableExtended, ?_, fills_showColumns, fills_showPartitions, ?_,
    fills_showFunctions .user, fills_showFunctions .system, fills_showFunctions .all, ?_, ?_, ?_, ?_⟩
  case refine_6 => exact fills_dottedName.bind fun table htable => .andThen fun _ => .pure htable
  case refine_8 =>
    refine .andThen fun _ => fills_dottedName.bind fun table htable => ?_
    exact .andThen fun _ => .pure htable
  case refine_9 => exact .andThen fun _ => .pure trivial
  case refine_10 => exact .andThen fun _ => .pure trivial
  all_goals exact fills_scopeAndPattern fun _ _ hscope => hscope

theorem fills_show : Yields filled show? := by
  refine .andThen fun _ => (Yields.chooseRule fills_showRules).bind fun target htarget => ?_
  cases target with
  | none => exact yields_expected _
  | some target => exact .pure (htarget target rfl)

theorem fills_describeTable : Yields filled describeTable := by
  refine .andThen fun _ => .andThen fun _ => fills_dottedName.bind fun table htable => ?_
  refine fills_optionalPartition.bind fun partition hpartition => ?_
  exact fills_dottedName.maybe.bind fun column hcolumn => .pure ⟨htable, hpartition, hcolumn⟩

theorem fills_describeTarget : Yields filled describeTarget := by
  refine .andThen fun _ => .ite ?query (.andThen fun _ => .ite ?function ?other)
  case query => exact .andThen fun _ => fills_query.bind fun query hquery => .pure hquery
  case function => exact .andThen fun _ => fills_dottedName.bind fun name hname => .pure hname
  case other =>
    refine .andThen fun _ => .ite (.andThen fun word => ?_) (.andThen fun word => ?_)
    all_goals
      cases word with
      | none => exact fills_describeTable
      | some word => exact .andThen fun _ => fills_dottedName.bind fun name hname => .pure hname

theorem fills_describe : Yields filled describe :=
  .andThen fun _ => .andThen fun _ => fills_describeTarget.bind fun _ htarget => .pure htarget

/-! ## Moving data -/

theorem fills_call : Yields filled call := by
  refine .andThen fun _ => fills_dottedName.bind fun procedure hprocedure => .andThen fun _ => ?_
  refine (yields_within_filled fun _ h => fills_callArgsBeforeParen h).bind fun args hargs => ?_
  exact .andThen fun _ => .pure ⟨hprocedure, hargs⟩

theorem fills_loadData : Yields filled loadData := by
  refine .andThen fun _ => .andThen fun _ => .andThen fun _ => .andThen fun _ => .andThen fun _ => ?_
  refine fills_dottedName.bind fun table htable => ?_
  exact fills_optionalPartition.bind fun partition hpartition => .pure ⟨htable, hpartition⟩

theorem fills_loadFile : Yields filled loadFile := by
  refine .andThen fun _ => .andThen fun _ => fills_dottedName.bind fun table htable => ?_
  exact fills_optionalOptions.bind fun entries hentries => .pure ⟨htable, hentries⟩

theorem fills_load : Yields filled load := by
  refine .andThen fun _ => .andThen fun t => ?_
  split
  · exact fills_loadFile.bind fun load hload => .pure hload
  · exact fills_loadData.bind fun load hload => .pure hload

theorem fills_exportTable {tables : Option WithClause} (htables : filled tables) :
    Yields filled (exportTable tables) := by
  refine .andThen fun _ => fills_dottedName.bind fun table htable => ?_
  refine fills_optionalPartition.bind fun partition hpartition => .andThen fun _ => .andThen fun _ => ?_
  refine fills_optionalOptions.bind fun entries hentries => .pure ?_
  exact ⟨htables, htable, hpartition, hentries⟩

theorem fills_mergeFiles : Yields filled mergeFiles := by
  refine .andThen fun _ => fills_dottedName.bind fun table htable => ?_
  refine fills_optionalPartition.bind fun partition hpartition => ?_
  exact fills_optionalOptions.bind fun entries hentries => .pure ⟨htable, hpartition, hentries⟩

/-! ## Statements that start with `WITH` or `FROM` -/

theorem fills_queryStatement {tables : Option WithClause} (htables : filled tables) :
    Yields filled (queryStatement tables) :=
  (yields_within_filled fun _ h => fills_queryAfterWith h htables).bind fun _ hquery => .pure hquery

theorem fills_insertSource : Yields filled insertSource := by
  refine (yields_within_filled fun _ h => fills_fromClause h).bind fun source hsource => ?_
  exact .andThen fun _ => .ite (Yields.toSome (.pure hsource)) yields_none

/-- A source of inserts ends in front of one. -/
theorem ends_insertSource (i : Input) (pos : Nat) :
    Ends insertSource i pos fun source next =>
      source.isSome → (i.tokenAt next).isKeyword "INSERT" := by
  refine .step fun source mid => .isWord_bind ?_
  exact .ite (fun hword => .pure fun _ => hword) fun _ => .pure nofun

/-- In front of an `INSERT` there is one insert at least. -/
theorem ends_many_multiInsertBody {i : Input} {pos : Nat}
    (hword : (i.tokenAt pos).isKeyword "INSERT") :
    Ends (many multiInsertBody) i pos fun inserts _ => inserts ≠ [] := by
  refine ends_many_ne_nil (.isWord_bind (.ite (fun _ => ?_) fun hno => absurd hword hno))
  exact .step fun insert _ => .pure nofun

theorem fills_fromStatement {tables : Option WithClause} (htables : filled tables) :
    Yields filled (fromStatement tables) := by
  refine yields_iff_ends.2 fun i hi pos => ?_
  have hfilled := yields_iff_ends.1 fills_insertSource.rewinding i hi pos
  have hnext : Ends (rewinding insertSource) i pos fun source next =>
      source.isSome → (i.tokenAt next).isKeyword "INSERT" :=
    .rewinding nofun ((ends_insertSource i pos).mono fun _ _ h hsome _ => h hsome)
  refine (hfilled.and hnext).bind fun source mid h => ?_
  obtain ⟨hsource, hword⟩ := h
  cases source with
  | none => exact yields_iff_ends.1 (fills_queryStatement htables) i hi mid
  | some source =>
    have hinserts := yields_iff_ends.1 (Yields.many fills_multiInsertBody) i hi mid
    refine (hinserts.and (ends_many_multiInsertBody (hword rfl))).bind fun inserts _ hinserts => ?_
    exact .pure ⟨htables, hsource source rfl, ⟨hinserts.2, hinserts.1⟩⟩

theorem fills_withStatement : Yields filled withStatement := by
  refine (yields_within_filled fun _ h => fills_withClause h).bind fun tables htables => ?_
  have htables : filled (some tables) := Parts.filled_some htables
  refine .andThen fun _ => .ite ?insert (.andThen fun _ => .ite ?source (.andThen fun _ => ?_))
  case insert => exact (fills_insert htables).bind fun insert hinsert => .pure hinsert
  case source => exact fills_fromStatement htables
  refine .ite ?_ (fills_queryStatement htables)
  exact (fills_exportTable htables).bind fun target htarget => .pure htarget

/-! ## All statements -/

theorem fills_explain {inner : Parse Statement} (h : Yields filled inner) :
    Yields filled (explain inner) :=
  .andThen fun _ => .andThen fun _ => h.bind fun _ hstatement => .pure hstatement

theorem fills_statementOf {inner : Parse Statement} (h : Yields filled inner) (word : String) :
    Yields filled (statementOf inner word) := by
  have hquery : Yields filled (do return .query (← query) : Parse Statement) :=
    fills_query.bind fun query hquery => .pure hquery
  unfold statementOf
  split
  · exact hquery
  · exact hquery
  · exact hquery
  · exact fills_withStatement
  · exact fills_fromStatement Parts.filled_none
  · exact (fills_insert Parts.filled_none).bind fun insert hinsert => .pure hinsert
  · exact fills_update.bind fun update hupdate => .pure hupdate
  · exact fills_delete.bind fun delete hdelete => .pure hdelete
  · refine .andThen fun _ => .ite ?_ ?_
    · exact fills_mergeFiles.bind fun merge hmerge => .pure hmerge
    · exact fills_merge.bind fun merge hmerge => .pure hmerge
  · exact fills_create
  · exact fills_create
  · exact fills_alter
  · exact fills_drop
  · exact fills_truncate.bind fun truncate htruncate => .pure htruncate
  · exact fills_repair.bind fun repair hrepair => .pure hrepair
  · exact fills_repair.bind fun repair hrepair => .pure hrepair
  · exact fills_analyze
  · exact fills_commentOn.bind fun comment hcomment => .pure hcomment
  · exact fills_use.bind fun use huse => .pure huse
  · exact fills_set
  · exact .andThen fun _ => .andThen fun _ => .pure trivial
  · exact fills_show.bind fun target htarget => .pure htarget
  · exact fills_describe.bind fun target htarget => .pure htarget
  · exact fills_describe.bind fun target htarget => .pure htarget
  · exact fills_explain h
  · exact fills_call.bind fun call hcall => .pure hcall
  · exact fills_load
  · exact (fills_exportTable Parts.filled_none).bind fun target htarget => .pure htarget
  · exact .andThen fun _ => .pure trivial
  · exact .ite (yields_failWith _) (yields_expected _)

theorem fills_statement : Yields filled statement := by
  refine .fix fun inner h => .andThen fun _ => .ite ?_ (.andThen fun word => ?_)
  · exact fills_query.bind fun query hquery => .pure hquery
  · cases word with
    | none => exact yields_expected _
    | some word => exact fills_statementOf h word

theorem fills_wholeStatement : Yields filled wholeStatement := by
  have hempty : Yields filled wholeStatement.throwEmpty := by
    rintro i _ pos a next ⟨⟩
  refine .andThen fun _ => .andThen fun _ => .ite hempty ?_
  refine fills_statement.bind fun s hs => .andThen fun _ => .andThen fun _ => ?_
  exact .ite (.pure hs) (.andThen fun _ => yields_fail _)

end Grammar

namespace Statement

/-- What is read from a text has nothing empty in it that may not be. -/
theorem filled_of_parse {text : String} {tree : Statement} (h : parse text = .ok tree) :
    filled tree := by
  obtain ⟨tokens, next, hscan, hrun⟩ := exists_run_of_parse h
  exact Grammar.fills_wholeStatement (Input.wellFormed_of_scan hscan) hrun

/-- Two inserts from one source, a row with an alias, a window and a lambda. -/
theorem filled_of_parse_inserts :
    ∃ tree, parse ("FROM t INSERT INTO a SELECT (x AS y), f(z -> 'p' 'q') OVER (SORT BY b.c) " ++
        "INSERT INTO d PARTITION (k = 1) SELECT * GROUP BY ROLLUP (x)") = .ok tree ∧
      filled tree := by
  have hread : (parse ("FROM t INSERT INTO a SELECT (x AS y), f(z -> 'p' 'q') OVER (SORT BY b.c) " ++
      "INSERT INTO d PARTITION (k = 1) SELECT * GROUP BY ROLLUP (x)")).toOption.isSome := by
    decide +kernel
  cases hparse : parse ("FROM t INSERT INTO a SELECT (x AS y), f(z -> 'p' 'q') OVER (SORT BY b.c) " ++
      "INSERT INTO d PARTITION (k = 1) SELECT * GROUP BY ROLLUP (x)") with
  | error e =>
    rw [hparse] at hread
    contradiction
  | ok tree => exact ⟨tree, rfl, filled_of_parse hparse⟩

end Statement

end SqlTidy
