import SqlTidy.Format
import SqlTidy.Proofs.Case.Statement
import SqlTidy.Proofs.Runs
import SqlTidy.Proofs.Tidy.Define

/-!
# Pages have no stray blanks

**Theorem (`tidy_of_format`).** Let a text be read as a statement that is no setting, and let no token of it be broken
over lines. Then it is formatted in every style, the page does not end with a line end, and every line of the page has
something on it and ends neither with a space nor with a tab.

The statement is put together from tokens by the rules of the grammar. Each rule makes something tidy of what it reads
(`Grammar.tidies_wholeStatement`), so the document of the statement lets no line end where nothing or a blank stands.

A setting keeps the source text between its tokens, line ends and all. A token that is broken over lines is printed as it
is, and so are the blanks at the ends of its lines.
-/

namespace SqlTidy

namespace Grammar

open Parse Tidy SqlTidy.Layout

variable {i : Input} (hi : i.Unbroken)

include hi

/-! ## Maintenance -/

theorem tidies_truncate : Gives i tidy truncate :=
  .andThen fun _ => (tidies_dottedName hi).bind fun _ htable => (tidies_optionalPartition hi).bind fun _ hpartition =>
    .pure (Truncate.tidy_of htable hpartition)

theorem tidies_repair : Gives i tidy repair :=
  .andThen fun _ => .andThen fun _ => (tidies_dottedName hi).bind fun _ htable => .andThen fun _ =>
    .pure (RepairTable.tidy_of htable)

theorem tidies_scope : Gives i tidy scope := by
  refine .andThen fun word => ?_
  cases word with
  | none => exact gives_none
  | some word => exact (tidies_dottedName hi).bind fun name hname => .pure (tidy_some (Scope.tidy_of hname))

theorem tidies_analyzeTarget : Gives i tidy analyzeTarget := by
  have hrules : ∀ r ∈ [(["NOSCAN"], pure AnalyzeTarget.noScan), (["FOR", "ALL", "COLUMNS"], pure .allColumns),
      (["FOR", "COLUMNS"], return .columns (← commaSeparated dottedName))], Gives i tidy r.2 := by
    simp only [List.forall_mem_cons, List.not_mem_nil, false_implies, implies_true, and_true]
    refine ⟨.pure AnalyzeTarget.tidy_noScan, .pure AnalyzeTarget.tidy_allColumns, ?_⟩
    exact (tidies_dottedName hi).commas.bind fun names hnames => .pure (AnalyzeTarget.tidy_columns hnames.1 hnames.2)
  refine (Gives.chooseRule hrules).bind fun target htarget => ?_
  cases target with
  | none => exact .pure AnalyzeTarget.tidy_table
  | some target => exact .pure (htarget target rfl)

theorem tidies_analyze : Gives i tidy analyze := by
  refine .andThen fun _ => .andThen fun _ => .ite ?_ ?_
  · refine (tidies_scope hi).bind fun scope hscope => .andThen fun _ => .andThen fun _ => .pure ?_
    exact Statement.tidy_of (AnalyzeTables.tidy_of hscope)
  · refine .andThen fun _ => (tidies_dottedName hi).bind fun table htable => ?_
    refine (tidies_optionalPartition hi).bind fun partition hpartition => .andThen fun _ => ?_
    refine (tidies_analyzeTarget hi).bind fun target htarget => .pure ?_
    exact Statement.tidy_of (Analyze.tidy_of htable hpartition htarget)

theorem tidies_commentOn : Gives i tidy commentOn := by
  have hcomment : Gives i tidy nullableString :=
    .andThen fun _ => .ite gives_none (tidies_stringLiteral hi).toSome
  refine .andThen fun _ => .andThen fun _ => (tidies_dottedName hi).bind fun name hname => .andThen fun _ => ?_
  exact hcomment.bind fun comment hcomment => .pure (CommentOn.tidy_of hname hcomment)

theorem tidies_use : Gives i tidy use := by
  have hname (word : Option NamespaceWord) : Gives i tidy (do return { word, name := ← dottedName } : Parse Use) :=
    (tidies_dottedName hi).bind fun name hname => .pure (Use.tidy_of hname)
  refine .andThen fun _ => .andThen fun _ => .ite ?_ ?_
  · exact .andThen fun word => hname word
  · exact .andThen fun word => hname word

/-! ## Settings -/

omit hi

theorem tidies_set : Gives i tidy set :=
  .andThen fun _ => .andThen fun _ => .ite (.andThen fun _ => .andThen fun _ => .pure nofun) (.andThen fun _ => .pure nofun)

theorem tidies_reset : Gives i tidy reset := .andThen fun _ => .andThen fun _ => .pure nofun

include hi

/-! ## Questions to the catalog -/

theorem tidies_showPattern : Gives i tidy showPattern := by
  have hpattern (like : Bool) : Gives i tidy (do return some ⟨like, ← stringLiteral⟩ : Parse (Option ShowPattern)) :=
    (tidies_stringLiteral hi).bind fun pattern hpattern => .pure (by rintro _ ⟨⟩; exact hpattern)
  refine .andThen fun _ => .ite (hpattern true) (.andThen fun t => ?_)
  split
  · exact hpattern false
  · exact gives_none

theorem tidies_scopeAndPattern {make : Option Scope → Option ShowPattern → Show}
    (hmake : ∀ scope pattern, tidy scope → tidy pattern → tidy (make scope pattern)) :
    Gives i tidy (scopeAndPattern make) :=
  (tidies_scope hi).bind fun scope hscope => (tidies_showPattern hi).bind fun pattern hpattern =>
    .pure (hmake scope pattern hscope hpattern)

theorem tidies_showTableExtended : Gives i tidy showTableExtended := by
  refine .andThen fun _ => (tidies_scope hi).bind fun scope hscope => .andThen fun _ => ?_
  refine (tidies_stringLiteral hi).bind fun pattern hpattern => ?_
  refine (tidies_optionalPartition hi).bind fun partition hpartition => .pure ?_
  exact Show.tidy_tableExtended hscope hpattern hpartition

theorem tidies_showColumns : Gives i tidy showColumns := by
  refine (tidies_scope hi).bind fun table htable => ?_
  cases table with
  | none => exact gives_expected _
  | some table =>
    exact (tidies_scope hi).bind fun database hdatabase => .pure (Show.tidy_columns (htable table rfl) hdatabase)

theorem tidies_showPartitions : Gives i tidy showPartitions :=
  (tidies_dottedName hi).bind fun _ htable => (tidies_optionalPartition hi).bind fun _ hpartition =>
    .pure (Show.tidy_partitions htable hpartition)

theorem tidies_showTableProperties : Gives i tidy showTableProperties := by
  refine (tidies_dottedName hi).bind fun table htable => ?_
  refine (Gives.maybe ((tidies_propertyKey hi).bind fun key hkey => .andThen fun _ => .pure hkey)).bind fun key hkey => ?_
  exact .pure (Show.tidy_tableProperties htable hkey)

theorem tidies_showFunctions (kind : FunctionKind) : Gives i tidy (showFunctions kind) :=
  .andThen fun _ => tidies_scopeAndPattern hi fun _ _ hscope hpattern => Show.tidy_functions (some kind) hscope hpattern

theorem tidies_showRules : ∀ r ∈ showRules, Gives i tidy r.2 := by
  have hnamespaces (word : NamespaceWord) : Gives i tidy (scopeAndPattern (.namespaces word)) :=
    tidies_scopeAndPattern hi fun _ _ hscope hpattern => Show.tidy_namespaces word hscope hpattern
  have hcreate : Gives i tidy showCreateTable :=
    .andThen fun _ => (tidies_dottedName hi).bind fun _ htable => .andThen fun asSerde =>
      .pure (Show.tidy_createTable asSerde htable)
  simp only [showRules, List.forall_mem_cons, List.not_mem_nil, false_implies, implies_true, and_true]
  refine ⟨hnamespaces _, hnamespaces _, hnamespaces _, ?tables, tidies_showTableExtended hi, ?views,
    tidies_showColumns hi, tidies_showPartitions hi, tidies_showTableProperties hi, tidies_showFunctions hi .user,
    tidies_showFunctions hi .system, tidies_showFunctions hi .all, ?functions, hcreate, ?catalogs,
    .andThen fun _ => .pure Show.tidy_currentNamespace⟩
  case tables => exact tidies_scopeAndPattern hi fun _ _ hscope hpattern => Show.tidy_tables hscope hpattern
  case views => exact tidies_scopeAndPattern hi fun _ _ hscope hpattern => Show.tidy_views hscope hpattern
  case functions =>
    exact tidies_scopeAndPattern hi fun _ _ hscope hpattern => Show.tidy_functions none hscope hpattern
  case catalogs =>
    exact (tidies_showPattern hi).bind fun pattern hpattern => .pure (Show.tidy_catalogs hpattern)

theorem tidies_show : Gives i tidy show? := by
  refine .andThen fun _ => (Gives.chooseRule (tidies_showRules hi)).bind fun target htarget => ?_
  cases target with
  | none => exact gives_expected _
  | some target => exact .pure (htarget target rfl)

open DescribeTarget

theorem tidies_describeTable : Gives i tidy describeTable := by
  refine .andThen fun tableWord => .andThen fun detail => (tidies_dottedName hi).bind fun name hname => ?_
  refine (tidies_optionalPartition hi).bind fun partition hpartition => ?_
  refine (tidies_dottedName hi).maybe.bind fun column hcolumn => .pure ?_
  exact DescribeTarget.tidy_table tableWord detail hname hpartition hcolumn

theorem tidies_describeTarget : Gives i tidy describeTarget := by
  refine .andThen fun _ => .ite ?query (.andThen fun _ => .ite ?function ?other)
  case query =>
    refine .andThen fun queryWord => (tidies_query hi).bind fun query hquery => .pure ?_
    exact DescribeTarget.tidy_query queryWord hquery
  case function =>
    refine .andThen fun extended => (tidies_dottedName hi).bind fun name hname => .pure ?_
    exact DescribeTarget.tidy_function extended hname
  case other =>
    have hnamespace (word : NamespaceWord) : Gives i tidy (describeNamespace word) :=
      .andThen fun extended => (tidies_dottedName hi).bind fun name hname =>
        .pure (DescribeTarget.tidy_namespace word extended hname)
    refine .andThen fun _ => .ite (.andThen fun word => ?_) (.andThen fun word => ?_)
    all_goals
      cases word with
      | none => exact tidies_describeTable hi
      | some word => exact hnamespace word

theorem tidies_describe : Gives i tidy describe :=
  .andThen fun _ => .andThen fun _ => (tidies_describeTarget hi).bind fun _ htarget =>
    .pure (Describe.tidy_of htarget)

/-! ## Moving data -/

theorem tidies_call : Gives i tidy call := by
  refine .andThen fun _ => (tidies_dottedName hi).bind fun procedure hprocedure => .andThen fun _ => ?_
  refine (gives_within hi fun _ h => tidies_callArgsBeforeParen hi h).bind fun args hargs => .andThen fun _ => ?_
  exact .pure (CallProcedure.tidy_of hprocedure hargs)

theorem tidies_loadData : Gives i tidy loadData := by
  refine .andThen fun _ => .andThen fun _ => (tidies_stringLiteral hi).bind fun path hpath => .andThen fun _ => ?_
  refine .andThen fun _ => (tidies_dottedName hi).bind fun table htable => ?_
  refine (tidies_optionalPartition hi).bind fun partition hpartition => .pure ?_
  exact LoadData.tidy_of hpath htable hpartition

theorem tidies_loadFile : Gives i tidy loadFile := by
  refine (tidies_stringLiteral hi).bind fun path hpath => .andThen fun _ => ?_
  refine (tidies_dottedName hi).bind fun table htable => (tidies_optionalOptions hi).bind fun options hoptions => ?_
  exact .pure (LoadFile.tidy_of hpath htable hoptions)

theorem tidies_load : Gives i tidy load := by
  refine .andThen fun _ => .andThen fun t => ?_
  split
  · exact (tidies_loadFile hi).bind fun load hload => .pure (Statement.tidy_of hload)
  · exact (tidies_loadData hi).bind fun load hload => .pure (Statement.tidy_of hload)

theorem tidies_exportTable {tables : Option WithClause} (htables : tidy tables) : Gives i tidy (exportTable tables) := by
  refine .andThen fun _ => (tidies_dottedName hi).bind fun table htable => ?_
  refine (tidies_optionalPartition hi).bind fun partition hpartition => .andThen fun _ => ?_
  refine (tidies_stringLiteral hi).bind fun path hpath => (tidies_optionalOptions hi).bind fun options hoptions => ?_
  exact .pure (ExportTable.tidy_of htables htable hpartition hpath hoptions)

theorem tidies_mergeFiles : Gives i tidy mergeFiles :=
  .andThen fun _ => (tidies_dottedName hi).bind fun _ htable => (tidies_optionalPartition hi).bind fun _ hpartition =>
    (tidies_optionalOptions hi).bind fun _ hoptions => .pure (MergeFiles.tidy_of htable hpartition hoptions)

/-! ## Tunnels -/

theorem tidies_tunnelScalar : Gives i tidy tunnelScalar := by
  refine gives_expectIf hi fun t ht s hs => ?_
  cases t with
  | string =>
    cases hs
    exact ht.tidy_string
  | number =>
    cases hs
    exact ht.tidy_number
  | word =>
    cases hs
    exact ht.tidy_word
  | _ => contradiction

theorem tidies_tunnelValue : Gives i tidy tunnelValue := by
  refine .fix fun inner h => .andThen fun _ => .ite ?_ (.andThen fun _ => .ite ?_ ?_)
  · refine h.commaSeparated.maybeList.bind fun items hitems => .andThen fun _ => .pure ?_
    exact TunnelValue.tidy_list hitems
  · exact (tidies_tunnelScalar hi).bind fun text htext => .pure (TunnelValue.tidy_scalar (Text.tidy_minus htext))
  · exact (tidies_tunnelScalar hi).bind fun text htext => .pure (TunnelValue.tidy_scalar htext)

theorem tidies_tunnelOptions : Gives i tidy tunnelOptions := by
  have hproperty : Gives i tidy tunnelProperty :=
    (tidies_propertyKey hi).bind fun _ hkey => .andThen fun _ => (tidies_tunnelValue hi).bind fun _ hvalue =>
      .pure (TunnelProperty.tidy_of hkey hvalue)
  refine .andThen fun _ => .andThen fun _ => .andThen fun _ => .ite gives_nil ?_
  exact hproperty.commaSeparated.bind fun options hoptions => .andThen fun _ => .pure hoptions

theorem tidies_tunnelEnd (keyword : String) : Gives i tidy (Grammar.tunnelEnd keyword) :=
  .andThen fun _ => .andThen fun _ => (tidies_stringLiteral hi).bind fun _ hkind => .andThen fun _ => .pure hkind

theorem tidies_dataTunnel : Gives i tidy dataTunnel := by
  refine .andThen fun _ => (tidies_tunnelEnd hi _).bind fun source hsource => ?_
  refine (tidies_tunnelOptions hi).bind fun sourceOptions hsourceOptions => ?_
  refine (Gives.maybe (.andThen fun _ => tidies_stringLiteral hi)).bind fun transform htransform => ?_
  refine (tidies_tunnelEnd hi _).bind fun sink hsink => (tidies_tunnelOptions hi).bind fun sinkOptions hsinkOptions => ?_
  exact .pure (DataTunnel.tidy_of hsource hsourceOptions htransform hsink hsinkOptions)

/-! ## Statements that start with `WITH` or `FROM` -/

theorem tidies_queryStatement {tables : Option WithClause} (htables : tidy tables) :
    Gives i tidy (queryStatement tables) :=
  (gives_within hi fun _ h => tidies_queryAfterWith hi h htables).bind fun _ hquery =>
    .pure (Statement.tidy_of (hquery false))

theorem tidies_fromStatement {tables : Option WithClause} (htables : tidy tables) :
    Gives i tidy (fromStatement tables) := by
  have hsource : Gives i tidy insertSource :=
    (gives_within hi fun _ h => tidies_fromClause hi h).bind fun _ hsource => .andThen fun _ =>
      .ite (.pure (tidy_some hsource)) gives_none
  refine hsource.rewinding.bind fun source hsource => ?_
  cases source with
  | none => exact tidies_queryStatement hi htables
  | some source =>
    refine (tidies_multiInsertBody hi).many.bind fun inserts hinserts => .pure ?_
    exact Statement.tidy_of (MultiInsert.tidy_of htables (hsource source rfl) hinserts)

theorem tidies_withStatement : Gives i tidy withStatement := by
  refine (gives_within hi fun _ h => tidies_withClause hi h).bind fun tables htables => ?_
  have htables : tidy (some tables) := tidy_some htables
  refine .andThen fun _ => .ite ?insert (.andThen fun _ => .ite ?source (.andThen fun _ => ?_))
  case insert => exact (tidies_insert hi htables).bind fun insert hinsert => .pure (Statement.tidy_of hinsert)
  case source => exact tidies_fromStatement hi htables
  refine .ite ?_ (tidies_queryStatement hi htables)
  exact (tidies_exportTable hi htables).bind fun target htarget => .pure (Statement.tidy_of htarget)

/-! ## All statements -/

omit hi in
theorem tidies_explain {inner : Parse Statement} (h : Gives i tidy inner) : Gives i tidy (explain inner) :=
  .andThen fun _ => .andThen fun mode => h.bind fun _ hstatement => .pure (Statement.tidy_explain mode hstatement)

theorem tidies_statementOf {inner : Parse Statement} (h : Gives i tidy inner) (word : String) :
    Gives i tidy (statementOf inner word) := by
  have hquery : Gives i tidy (do return .query (← query) : Parse Statement) :=
    (tidies_query hi).bind fun query hquery => .pure (Statement.tidy_of (hquery false))
  unfold statementOf
  split
  · exact hquery
  · exact hquery
  · exact hquery
  · exact tidies_withStatement hi
  · exact tidies_fromStatement hi tidy_none
  · exact (tidies_insert hi tidy_none).bind fun insert hinsert => .pure (Statement.tidy_of hinsert)
  · exact (tidies_update hi).bind fun update hupdate => .pure (Statement.tidy_of hupdate)
  · exact (tidies_delete hi).bind fun delete hdelete => .pure (Statement.tidy_of hdelete)
  · refine .andThen fun _ => .ite ?_ ?_
    · exact (tidies_mergeFiles hi).bind fun merge hmerge => .pure (Statement.tidy_of hmerge)
    · exact (tidies_merge hi).bind fun merge hmerge => .pure (Statement.tidy_of hmerge)
  · exact tidies_create hi
  · exact tidies_create hi
  · exact tidies_alter hi
  · exact tidies_drop hi
  · exact (tidies_truncate hi).bind fun truncate htruncate => .pure (Statement.tidy_of htruncate)
  · exact (tidies_repair hi).bind fun repair hrepair => .pure (Statement.tidy_of hrepair)
  · exact (tidies_repair hi).bind fun repair hrepair => .pure (Statement.tidy_of hrepair)
  · exact tidies_analyze hi
  · exact (tidies_commentOn hi).bind fun comment hcomment => .pure (Statement.tidy_of hcomment)
  · exact (tidies_use hi).bind fun use huse => .pure (Statement.tidy_of huse)
  · exact tidies_set
  · exact tidies_reset
  · refine (tidies_show hi).bind fun target htarget => .pure (Statement.tidy_of ?_)
    exact Doc.Lands.append (.text rfl) (.append htarget .nil)
  · exact (tidies_describe hi).bind fun target htarget => .pure (Statement.tidy_of htarget)
  · exact (tidies_describe hi).bind fun target htarget => .pure (Statement.tidy_of htarget)
  · exact tidies_explain h
  · exact (tidies_call hi).bind fun call hcall => .pure (Statement.tidy_of hcall)
  · exact tidies_load hi
  · exact (tidies_exportTable hi tidy_none).bind fun target htarget => .pure (Statement.tidy_of htarget)
  · exact (tidies_dataTunnel hi).bind fun tunnel htunnel => .pure (Statement.tidy_of htunnel)
  · exact .ite (fun _ => nofun) (gives_expected _)

theorem tidies_statement : Gives i tidy statement := by
  refine .fix fun inner h => .andThen fun _ => .ite ?_ (.andThen fun word => ?_)
  · exact (tidies_query hi).bind fun query hquery => .pure (Statement.tidy_of (hquery false))
  · cases word with
    | none => exact gives_expected _
    | some word => exact tidies_statementOf hi h word

theorem tidies_wholeStatement : Gives i tidy wholeStatement := by
  refine .andThen fun _ => .andThen fun _ => .ite (fun _ => nofun) ?_
  refine (tidies_statement hi).bind fun s hs => .andThen fun _ => .andThen fun _ => ?_
  exact .ite (.pure hs) (.andThen fun _ => gives_fail _)

end Grammar

/-! ## Pages -/

open Text

theorem Input.unbroken_of_scan {text : String} {tokens : List Spanned} (h : Token.scan text = .ok tokens)
    (hunbroken : ∀ t ∈ tokens, '\n' ∉ t.token.lexeme) : (Input.mk text tokens.toArray).Unbroken :=
  fun t ht => ⟨wellFormed_of_scan h t ht, hunbroken t (by simpa using ht)⟩

/-- What ends firmly ends neither with a space nor with a tab. -/
theorem Text.IsTidyLine.ends {l : List Char} (h : IsTidyLine l) :
    l ≠ [] ∧ l.getLast? ≠ some ' ' ∧ l.getLast? ≠ some '\t' := by
  obtain ⟨x, hx, hfirm⟩ := h
  have hne (c : Char) (hc : isBlank c) : l.getLast? ≠ some c := by
    rintro heq
    obtain rfl : x = c := Option.some.inj (hx.symm.trans heq)
    rw [hc] at hfirm
    contradiction
  refine ⟨?_, hne ' ' rfl, hne '\t' rfl⟩
  rintro rfl
  contradiction

/-- The page of a statement has no empty lines and no blanks at the ends of lines. -/
theorem tidy_of_format {text : String} {tokens : List Spanned} {tree : Statement}
    (hscan : Token.scan (trim text) = .ok tokens) (hunbroken : ∀ t ∈ tokens, '\n' ∉ t.token.lexeme)
    (hparse : Statement.parse (trim text) = .ok tree) (hsetting : tree.isSetting = false) (style : Style) :
    ∃ page, format style text = .ok page ∧ page.toList.getLast? ≠ some '\n' ∧
      ∀ line ∈ lines page.toList, line ≠ [] ∧ line.getLast? ≠ some ' ' ∧ line.getLast? ≠ some '\t' := by
  obtain ⟨tokens', next, hscan', hrun⟩ := Statement.exists_run_of_parse hparse
  obtain rfl : tokens = tokens' := Except.ok.inj (hscan.symm.trans hscan')
  have hi := Input.unbroken_of_scan hscan hunbroken
  have hsolid : tree.doc.Solid := Grammar.tidies_wholeStatement hi 0 tree next hrun hsetting
  have hformat : format style text = .ok (tree.doc.run style.layout (.ofWidth style.indentWidth)).output := by
    rw [format, hparse]
    exact Doc.print_eq_ok style tree.doc
  obtain ⟨b, hb, htrue⟩ := hsolid style.layout _ (Printer.stands_ofWidth style.indentWidth)
  rw [htrue rfl] at hb
  exact ⟨_, hformat, getLast?_ne_of_settle hb, fun line hline => (isTidyLine_of_settle hb line hline).ends⟩

/-- The join writes a space behind its keywords, the `CASE` starts lines, and there is a blank in front of a quote. -/
theorem tidy_of_format_join :
    ∃ page, format .default "select case when a then 'b ' end, f(c) from t natural join u " = .ok page ∧
      page.toList.getLast? ≠ some '\n' ∧
      ∀ line ∈ lines page.toList, line ≠ [] ∧ line.getLast? ≠ some ' ' ∧ line.getLast? ≠ some '\t' := by
  have hread : (Statement.parse (trim "select case when a then 'b ' end, f(c) from t natural join u ")).toOption.any
      (!·.isSetting) = true := by decide +kernel
  obtain ⟨tree, hparse, htree⟩ := Statement.exists_of_parse hread
  obtain ⟨tokens, -, hscan, -⟩ := Statement.exists_run_of_parse hparse
  have hunbroken : (Token.scan (trim "select case when a then 'b ' end, f(c) from t natural join u ")).toOption.all
      (fun ts => ts.all fun t => '\n' ∉ t.token.lexeme) = true := by decide +kernel
  rw [hscan] at hunbroken
  refine tidy_of_format hscan (fun t ht => ?_) hparse (by simpa using htree) .default
  have hall : tokens.all (fun t => '\n' ∉ t.token.lexeme) = true := hunbroken
  simpa using List.all_eq_true.1 hall t ht

end SqlTidy
