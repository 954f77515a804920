import SqlTidy.Proofs.Tidy.Definition
import SqlTidy.Proofs.Tidy.Query

/-!
# Definitions that are read from unbroken tokens are tidy

Statements that change rows come first, since partitions stand in many others. Clauses that may come in any order are
added one by one to what has been read, and one more tidy clause leaves it tidy.
-/

namespace SqlTidy

namespace Grammar

open Parse Tidy SqlTidy.Layout

variable {i : Input} (hi : i.Unbroken)

include hi

/-! ## Statements that change rows -/

theorem tidies_partitionValue : Gives i tidy partitionValue :=
  (tidies_identifier hi).bind fun _ hname => (tidies_expression hi).maybe.bind fun _ hvalue =>
    .pure (PartitionValue.tidy_of hname hvalue)

theorem tidies_partitionSpec : Gives i tidy partitionSpec :=
  .andThen fun _ => .andThen fun _ => (tidies_partitionValue hi).commaSeparated.bind fun _ hvalues =>
    .andThen fun _ => .pure (PartitionSpec.tidy_of hvalues)

theorem tidies_optionalPartition : Gives i tidy optionalPartition := (tidies_partitionSpec hi).maybe

theorem tidies_insertTarget : Gives i tidy insertTarget := by
  refine .andThen fun _ => .andThen fun _ => .andThen fun _ => (tidies_dottedName hi).bind fun table htable => ?_
  refine (tidies_optionalPartition hi).bind fun partition hpartition => .andThen fun _ => ?_
  refine (tidies_identifierList hi).maybeList.bind fun columns hcolumns => .pure ?_
  exact InsertTarget.tidy_of htable hpartition hcolumns

theorem tidies_insert {tables : Option WithClause} (htables : tidy tables) : Gives i tidy (insert tables) :=
  (tidies_insertTarget hi).bind fun _ htarget => (tidies_query hi).bind fun _ hsource =>
    .pure (Insert.tidy_of htables htarget hsource)

theorem tidies_multiInsertBody : Gives i tidy multiInsertBody := by
  refine .maybe ((tidies_insertTarget hi).bind fun target htarget => ?_)
  refine (gives_within hi fun _ h => tidies_select hi h false).bind fun body hbody => ?_
  refine (gives_within hi fun _ h => tidies_organization h).bind fun clauses hclauses => .pure ?_
  exact MultiInsertBody.tidy_of htarget hbody hclauses

theorem tidies_assignments : Gives i tidy assignments := by
  refine Gives.commaSeparated ((tidies_dottedName hi).bind fun target htarget => .andThen fun _ => ?_)
  exact (tidies_expression hi).bind fun value hvalue => .pure (Assignment.tidy_of htarget hvalue)

theorem tidies_optionalWhere : Gives i tidy optionalWhere := (tidies_expression hi).maybe

theorem tidies_update : Gives i tidy update := by
  refine .andThen fun _ => (tidies_dottedName hi).bind fun table htable => ?_
  refine (tidies_tableAlias hi).bind fun asName hname => .andThen fun _ => ?_
  refine (tidies_assignments hi).bind fun assignments hassignments => ?_
  refine (tidies_optionalWhere hi).bind fun condition hcondition => .pure ?_
  exact Update.tidy_of htable hname hassignments hcondition

theorem tidies_delete : Gives i tidy delete := by
  refine .andThen fun _ => (tidies_dottedName hi).bind fun table htable => ?_
  refine (tidies_tableAlias hi).bind fun asName hname => ?_
  exact (tidies_optionalWhere hi).bind fun condition hcondition => .pure (Delete.tidy_of htable hname hcondition)

theorem tidies_mergeInsert : Gives i tidy mergeInsert := by
  refine .andThen fun _ => .ite (.pure MergeAction.tidy_insertAll) ?_
  refine (tidies_identifierList hi).bind fun columns hcolumns => .andThen fun _ => .andThen fun _ => ?_
  refine (gives_within hi fun _ h => tidies_expressions h).bind fun values hvalues => .andThen fun _ => .pure ?_
  exact MergeAction.tidy_insert hcolumns hvalues

theorem tidies_mergeUpdate : Gives i tidy mergeUpdate :=
  .andThen fun _ => .ite (.pure MergeAction.tidy_updateAll)
    ((tidies_assignments hi).bind fun _ hassignments => .pure (MergeAction.tidy_update hassignments))

theorem tidies_mergeAction : Gives i tidy mergeAction := by
  have hrules : ∀ r ∈ [(["DELETE"], pure .delete), (["UPDATE", "SET"], mergeUpdate),
      (["INSERT"], mergeInsert)], Gives i tidy r.2 := by
    simp only [List.forall_mem_cons, List.not_mem_nil, false_implies, implies_true, and_true]
    exact ⟨.pure MergeAction.tidy_delete, tidies_mergeUpdate hi, tidies_mergeInsert hi⟩
  refine (Gives.chooseRule hrules).bind fun action haction => ?_
  cases action with
  | none => exact gives_expected _
  | some action => exact .pure (haction action rfl)

theorem tidies_mergeClause : Gives i tidy mergeClause := by
  refine .maybe (.andThen fun _ => (tidies_expression hi).maybe.bind fun condition hcondition => ?_)
  refine .andThen fun _ => (tidies_mergeAction hi).bind fun action haction => .pure ?_
  exact MergeClause.tidy_of hcondition haction

theorem tidies_merge : Gives i tidy merge := by
  refine .andThen fun _ => (tidies_dottedName hi).bind fun target htarget => ?_
  refine (tidies_tableAlias hi).bind fun asName hname => .andThen fun _ => ?_
  refine (gives_within hi fun _ h => tidies_tableFactor hi h).bind fun source hsource => ?_
  refine .andThen fun _ => (tidies_expression hi).bind fun condition hcondition => ?_
  refine (tidies_mergeClause hi).many.bind fun clauses hclauses => .ite (gives_expected _) (.pure ?_)
  exact Merge.tidy_of htarget hname hsource hcondition hclauses

/-! ## Properties and columns -/

/-- The key is a name or a string, as it was written. -/
theorem tidies_propertyKey : Gives i tidy propertyKey := by
  refine .andThen fun t => ?_
  split
  · exact tidies_stringLiteral hi
  · exact (tidies_dottedName hi).bind fun name hname => .pure hname

theorem tidies_propertyValue : Gives i tidy propertyValue :=
  .andThen fun _ => .ite (tidies_expression hi).toSome
    (.andThen fun _ => .ite gives_none (tidies_expression hi).toSome)

theorem tidies_property : Gives i tidy property :=
  (tidies_propertyKey hi).bind fun _ hkey => (tidies_propertyValue hi).bind fun _ hvalue =>
    .pure (Property.tidy_of hkey hvalue)

theorem tidies_properties : Gives i tidy properties := by
  refine .andThen fun _ => .andThen fun _ => .ite gives_nil ?_
  exact (tidies_property hi).commaSeparated.bind fun entries hentries => .andThen fun _ => .pure hentries

theorem tidies_optionalOptions : Gives i tidy optionalOptions := (tidies_properties hi).maybeList

theorem tidies_columnPosition : Gives i tidy columnPosition := by
  refine .andThen fun _ => .ite (.pure (tidy_some ColumnPosition.tidy_first)) (.andThen fun _ => .ite ?_ gives_none)
  exact (tidies_dottedName hi).bind fun column hcolumn => .pure (tidy_some (ColumnPosition.tidy_after hcolumn))

theorem tidies_columnDefinition : Gives i tidy columnDefinition := by
  refine (tidies_dottedName hi).bind fun name hname => (tidies_dataType hi).bind fun type htype => .andThen fun _ => ?_
  refine (tidies_expression hi).maybe.bind fun default hdefault => ?_
  refine (tidies_optionalString hi _).bind fun comment hcomment => ?_
  refine (tidies_columnPosition hi).bind fun position hposition => .pure ?_
  exact ColumnDefinition.tidy_of hname htype hdefault hcomment hposition

theorem tidies_columnDefinitions : Gives i tidy columnDefinitions :=
  .andThen fun _ => (tidies_columnDefinition hi).commaSeparated.bind fun _ hcolumns => .andThen fun _ =>
    .pure hcolumns

/-! ## Tables -/

theorem tidies_partitionField : Gives i tidy partitionField := by
  have htransform : Gives i tidy (do return .transform (← expression) : Parse PartitionField) :=
    (tidies_expression hi).bind fun value hvalue => .pure (PartitionField.tidy_transform hvalue)
  have hcolumn : Gives i tidy (do return .column (← identifier) : Parse PartitionField) :=
    (tidies_identifier hi).bind fun name hname => .pure (PartitionField.tidy_column hname)
  refine .andThen fun next => .andThen fun _ => .ite htransform ?_
  split
  · exact hcolumn
  · exact hcolumn
  · refine (tidies_identifier hi).bind fun name hname => (tidies_dataType hi).bind fun type htype => .pure ?_
    exact PartitionField.tidy_typed hname htype
  · exact htransform

theorem tidies_partitionFields : Gives i tidy partitionFields :=
  .andThen fun _ => (tidies_partitionField hi).commaSeparated.bind fun _ hfields => .andThen fun _ => .pure hfields

theorem tidies_sortedBy : Gives i tidy sortedBy := by
  refine .maybeList (.andThen fun _ => (gives_within hi fun _ h => tidies_orderItems h).bind fun items hitems => ?_)
  exact .andThen fun _ => .pure hitems

theorem tidies_bucketSpec : Gives i tidy bucketSpec := by
  refine (tidies_identifierList hi).bind fun columns hcolumns => (tidies_sortedBy hi).bind fun items hitems => ?_
  refine .andThen fun _ => (tidies_number hi).bind fun buckets hbuckets => .andThen fun _ => .pure ?_
  exact BucketSpec.tidy_of hcolumns hitems hbuckets

theorem tidies_tableClauseRules : ∀ r ∈ tableClauseRules, Gives i tidy r.2 := by
  simp only [tableClauseRules, List.forall_mem_cons, List.not_mem_nil, false_implies, implies_true, and_true]
  refine ⟨?_, ?_, ?_, ?_, ?_, ?_, ?_, ?_, ?_⟩
  · exact (tidies_identifierList hi).bind fun columns hcolumns => .pure hcolumns
  · exact (tidies_partitionFields hi).bind fun fields hfields => .pure hfields
  · exact (tidies_bucketSpec hi).bind fun spec hspec => .pure hspec
  · exact (tidies_identifier hi).bind fun format hformat => .pure hformat
  · exact (tidies_stringLiteral hi).bind fun path hpath => .pure hpath
  · exact (tidies_number hi).bind fun days hdays => .pure hdays
  · exact (tidies_properties hi).bind fun entries hentries => .pure hentries
  · exact (tidies_properties hi).bind fun entries hentries => .pure hentries
  · exact (tidies_stringLiteral hi).bind fun text htext => .pure htext

omit hi in
/-- What is tidy stays tidy when tidy clauses are added one by one. -/
theorem tidy_foldl {α β : Type} [Tidy α] [Tidy β] {add : α → β → α}
    (hadd : ∀ a b, tidy a → tidy b → tidy (add a b)) {clauses : List β} {a : α} (ha : tidy a)
    (hclauses : tidy clauses) : tidy (clauses.foldl add a) := by
  induction clauses generalizing a with
  | nil => exact ha
  | cons clause clauses ih =>
    obtain ⟨hclause, hclauses⟩ := List.forall_mem_cons.1 hclauses
    exact ih (hadd a clause ha hclause) hclauses

theorem tidies_tableClauses : Gives i tidy tableClauses :=
  (Gives.chooseRule (tidies_tableClauseRules hi)).many.bind fun _ hclauses =>
    .pure (tidy_foldl (fun _ _ => TableClauses.tidy_add) TableClauses.tidy_empty hclauses)

theorem tidies_createTable (mode : CreateMode) (external : Bool) : Gives i tidy (createTable mode external) := by
  refine .andThen fun _ => (tidies_dottedName hi).bind fun name hname => ?_
  refine (tidies_columnDefinitions hi).maybe.bind fun columns hcolumns => ?_
  refine (tidies_identifier hi).maybe.bind fun provider hprovider => ?_
  refine (tidies_tableClauses hi).bind fun clauses hclauses => (tidies_query hi).maybe.bind fun query hquery => .pure ?_
  exact Statement.tidy_of (CreateTable.tidy_of hname hcolumns hprovider hclauses hquery)

/-! ## Views -/

theorem tidies_sourceView (orReplace global : Bool) {name : DottedName} (hname : tidy name) :
    Gives i tidy (sourceView orReplace global name) := by
  refine (tidies_columnDefinitions hi).maybe.bind fun columns hcolumns => .andThen fun _ => ?_
  refine (tidies_identifier hi).bind fun provider hprovider => ?_
  refine (tidies_optionalOptions hi).bind fun options hoptions => .pure ?_
  exact Statement.tidy_of (CreateSourceView.tidy_of hname hcolumns hprovider hoptions)

instance : Tidy ViewClause := ⟨fun
  | .comment text => tidy text
  | .partitionedOn columns => tidy columns
  | .tableProperties properties => tidy properties⟩

theorem tidies_viewClauseRules : ∀ r ∈ viewClauseRules, Gives i tidy r.2 := by
  simp only [viewClauseRules, List.forall_mem_cons, List.not_mem_nil, false_implies, implies_true, and_true]
  refine ⟨?_, ?_, ?_⟩
  · exact (tidies_stringLiteral hi).bind fun text htext => .pure htext
  · exact (tidies_identifierList hi).bind fun columns hcolumns => .pure hcolumns
  · exact (tidies_properties hi).bind fun entries hentries => .pure hentries

omit hi in
theorem tidy_addViewClause {view : CreateView} {clause : ViewClause} (h : tidy view) (hclause : tidy clause) :
    tidy (addViewClause view clause) := by
  obtain ⟨hname, hcolumns, hcomment, hpartitioned, hproperties, hquery⟩ := h
  cases clause with
  | comment => exact ⟨hname, hcolumns, tidy_some hclause, hpartitioned, hproperties, hquery⟩
  | partitionedOn => exact ⟨hname, hcolumns, hcomment, hclause, hproperties, hquery⟩
  | tableProperties => exact ⟨hname, hcolumns, hcomment, hpartitioned, hclause, hquery⟩

theorem tidies_viewColumns : Gives i tidy viewColumns := by
  have hcolumn : Gives i tidy viewColumn :=
    (tidies_identifier hi).bind fun name hname => (tidies_optionalString hi _).bind fun comment hcomment =>
      .pure (ViewColumn.tidy_of hname hcomment)
  exact .maybe (hcolumn.commaSeparated.bind fun columns hcolumns => .andThen fun _ => .pure hcolumns)

theorem tidies_queryView (orReplace global temporary ifNotExists : Bool) {name : DottedName} (hname : tidy name) :
    Gives i tidy (queryView orReplace global temporary ifNotExists name) := by
  refine (tidies_viewColumns hi).bind fun columns hcolumns => ?_
  refine (Gives.chooseRule (tidies_viewClauseRules hi)).many.bind fun clauses hclauses => ?_
  refine .andThen fun _ => (tidies_query hi).bind fun query hquery => .pure ?_
  have hview : tidy (CreateView.mk orReplace global temporary ifNotExists name columns none [] [] query) :=
    ⟨hname, hcolumns, tidy_none, tidy_nil, tidy_nil, hquery⟩
  exact Statement.tidy_of (CreateView.solid_doc (tidy_foldl (fun _ _ => tidy_addViewClause) hview hclauses))

theorem tidies_createView (orReplace global temporary : Bool) :
    Gives i tidy (createView orReplace global temporary) :=
  .andThen fun _ => (tidies_dottedName hi).bind fun _ hname => .andThen fun _ =>
    .ite (tidies_sourceView hi orReplace global hname) (tidies_queryView hi orReplace global temporary _ hname)

/-! ## Namespaces, functions and indexes -/

instance : Tidy NamespaceClause := ⟨fun
  | .comment text => tidy text
  | .location path => tidy path
  | .properties _ properties => tidy properties⟩

theorem tidies_namespaceClauseRules : ∀ r ∈ namespaceClauseRules, Gives i tidy r.2 := by
  simp only [namespaceClauseRules, List.forall_mem_cons, List.not_mem_nil, false_implies, implies_true, and_true]
  refine ⟨?_, ?_, ?_, ?_⟩
  · exact (tidies_stringLiteral hi).bind fun text htext => .pure htext
  · exact (tidies_stringLiteral hi).bind fun path hpath => .pure hpath
  · exact (tidies_properties hi).bind fun entries hentries => .pure hentries
  · exact (tidies_properties hi).bind fun entries hentries => .pure hentries

omit hi in
theorem tidy_addNamespaceClause {create : CreateNamespace} {clause : NamespaceClause} (h : tidy create)
    (hclause : tidy clause) : tidy (addNamespaceClause create clause) := by
  obtain ⟨hname, hcomment, hlocation, hproperties⟩ := h
  cases clause with
  | comment => exact ⟨hname, tidy_some hclause, hlocation, hproperties⟩
  | location => exact ⟨hname, hcomment, tidy_some hclause, hproperties⟩
  | properties => exact ⟨hname, hcomment, hlocation, hclause⟩

theorem tidies_createNamespace (word : NamespaceWord) : Gives i tidy (createNamespace word) := by
  refine .andThen fun ifNotExists => (tidies_dottedName hi).bind fun name hname => ?_
  refine (Gives.chooseRule (tidies_namespaceClauseRules hi)).many.bind fun clauses hclauses => .pure ?_
  have hcreate : tidy (CreateNamespace.mk word ifNotExists name none none true []) :=
    ⟨hname, tidy_none, tidy_none, tidy_nil⟩
  exact Statement.tidy_of (CreateNamespace.solid_doc (tidy_foldl (fun _ _ => tidy_addNamespaceClause) hcreate hclauses))

theorem tidies_functionResource : Gives i tidy functionResource := by
  refine .andThen fun kind => ?_
  cases kind with
  | none => exact gives_expected _
  | some kind => exact (tidies_stringLiteral hi).bind fun uri huri => .pure (FunctionResource.tidy_of huri)

theorem tidies_createFunction (orReplace temporary : Bool) : Gives i tidy (createFunction orReplace temporary) := by
  refine .andThen fun _ => (tidies_dottedName hi).bind fun name hname => .andThen fun _ => ?_
  refine (tidies_stringLiteral hi).bind fun className hclass => ?_
  refine (tidies_functionResource hi).commaSeparated.maybeList.bind fun resources hresources => .pure ?_
  exact Statement.tidy_of (CreateFunction.tidy_of hname hclass hresources)

theorem tidies_indexColumn : Gives i tidy indexColumn :=
  (tidies_dottedName hi).bind fun _ hname => (tidies_optionalOptions hi).bind fun _ hoptions =>
    .pure ⟨hname, hoptions⟩

theorem tidies_createIndex : Gives i tidy createIndex := by
  refine .andThen fun _ => (tidies_identifier hi).bind fun name hname => .andThen fun _ => .andThen fun _ => ?_
  refine (tidies_dottedName hi).bind fun table htable => (tidies_identifier hi).maybe.bind fun type htype => ?_
  refine .andThen fun _ => (tidies_indexColumn hi).commaSeparated.bind fun columns hcolumns => .andThen fun _ => ?_
  refine (tidies_optionalOptions hi).bind fun options hoptions => .pure ?_
  exact Statement.tidy_of (CreateIndex.tidy_of hname htable htype hcolumns hoptions)

theorem tidies_createOther : Gives i tidy createOther := by
  refine .andThen fun word => ?_
  cases word with
  | none => exact .andThen fun _ => .ite (tidies_createIndex hi) (gives_expected _)
  | some word => exact tidies_createNamespace hi word

theorem tidies_createModified (orReplace : Bool) : Gives i tidy (createModified orReplace) := by
  refine .andThen fun global => .andThen fun temporary => .andThen fun _ => ?_
  refine .ite (tidies_createView hi orReplace global temporary) (.ite (gives_expected _) ?_)
  refine .andThen fun _ => .ite (tidies_createFunction hi orReplace temporary) ?_
  exact .ite (gives_expected _) (tidies_createOther hi)

theorem tidies_create : Gives i tidy create := by
  have hafter : Gives i tidy createAfter := by
    refine .andThen fun orReplace => .andThen fun _ => .ite ?_ (.andThen fun _ => .ite ?_ ?_)
    · exact .andThen fun _ => tidies_createTable hi _ true
    · exact tidies_createTable hi _ false
    · exact tidies_createModified hi orReplace
  refine .andThen fun _ => .ite (.andThen fun _ => ?_) (.andThen fun _ => hafter)
  exact tidies_createTable hi .replace false

/-! ## `ALTER` and `DROP` -/

theorem tidies_columnChangeRules : ∀ r ∈ columnChangeRules, Gives i tidy r.2 := by
  simp only [columnChangeRules, List.forall_mem_cons, List.not_mem_nil, false_implies, implies_true, and_true]
  refine ⟨?_, ?_, .pure ColumnChange.tidy_setNotNull, .pure ColumnChange.tidy_dropNotNull,
    .pure (ColumnChange.tidy_position ColumnPosition.tidy_first), ?_⟩
  · exact (tidies_dataType hi).bind fun type htype => .pure (ColumnChange.tidy_type htype)
  · exact (tidies_stringLiteral hi).bind fun text htext => .pure (ColumnChange.tidy_comment htext)
  · refine (tidies_dottedName hi).bind fun column hcolumn => .pure ?_
    exact ColumnChange.tidy_position (ColumnPosition.tidy_after hcolumn)

open AlterAction

theorem tidies_changeColumn {partition : Option PartitionSpec} (hpartition : tidy partition) :
    Gives i tidy (changeColumn partition) := by
  refine .andThen fun changeWord => .andThen fun _ => .andThen fun columnWord => ?_
  refine (tidies_dottedName hi).bind fun column hcolumn => ?_
  refine (Gives.chooseRule (tidies_columnChangeRules hi)).bind fun change hchange => ?_
  cases change with
  | none =>
    refine .ite ((tidies_columnDefinition hi).bind fun definition hdefinition => .pure ?_) (gives_expected _)
    exact tidy_changeColumn columnWord hpartition hcolumn hdefinition
  | some change =>
    exact .ite (.pure (tidy_alterColumn changeWord columnWord hcolumn (hchange change rfl))) (gives_expected _)

theorem tidies_addColumns (plural : Bool) : Gives i tidy (addColumns plural) := by
  refine .andThen fun _ => .ite ?_ ?_
  · exact (tidies_columnDefinitions hi).bind fun columns hcolumns => .pure (tidy_addColumns plural true hcolumns)
  · refine (tidies_columnDefinition hi).commaSeparated.bind fun columns hcolumns => .pure ?_
    exact tidy_addColumns plural false hcolumns

theorem tidies_addPartitions : Gives i tidy addPartitions := by
  have hadded : Gives i tidy Grammar.addedPartition :=
    .maybe ((tidies_partitionSpec hi).bind fun spec hspec => (tidies_optionalString hi _).bind fun location hlocation =>
      .pure ⟨hspec, hlocation⟩)
  refine .andThen fun ifNotExists => hadded.many.bind fun partitions hpartitions => .ite (gives_expected _) ?_
  exact .pure (tidy_addPartitions ifNotExists hpartitions)

theorem tidies_dropPartitions : Gives i tidy dropPartitions :=
  .andThen fun ifExists => (tidies_partitionSpec hi).commaSeparated.bind fun _ hpartitions => .andThen fun purge =>
    .pure (tidy_dropPartitions ifExists purge hpartitions)

theorem tidies_dropColumns (plural : Bool) : Gives i tidy (dropColumns plural) := by
  have hnames := (tidies_dottedName hi).commas
  refine .andThen fun ifExists => .andThen fun _ => .ite ?_ ?_
  · refine hnames.bind fun columns hcolumns => .andThen fun _ => .pure ?_
    exact tidy_dropColumns plural ifExists true hcolumns.1 hcolumns.2
  · exact hnames.bind fun columns hcolumns => .pure (tidy_dropColumns plural ifExists false hcolumns.1 hcolumns.2)

theorem tidies_addAction : Gives i tidy addAction := by
  refine .andThen fun plural => ?_
  cases plural with
  | none => exact tidies_addPartitions hi
  | some plural => exact tidies_addColumns hi plural

theorem tidies_dropAction : Gives i tidy dropAction := by
  refine .andThen fun plural => ?_
  cases plural with
  | none => exact tidies_dropPartitions hi
  | some plural => exact tidies_dropColumns hi plural

theorem tidies_renameAction : Gives i tidy renameAction := by
  refine .andThen fun _ => .ite ?_ (.andThen fun _ => ?_)
  · refine (tidies_dottedName hi).bind fun old hold => .andThen fun _ => ?_
    exact (tidies_identifier hi).bind fun new hnew => .pure (tidy_renameColumn hold hnew)
  · exact (tidies_dottedName hi).bind fun name hname => .pure (tidy_renameTo hname)

/-- The keys of removed properties are listed as properties without values. -/
theorem tidies_unsetProperties : Gives i tidy unsetProperties := by
  refine .andThen fun ifExists => .andThen fun _ => (tidies_propertyKey hi).commaSeparated.bind fun keys hkeys => ?_
  refine .andThen fun _ => .pure (tidy_unsetProperties ifExists fun entry hentry => ?_)
  obtain ⟨key, hkey, rfl⟩ := List.mem_map.1 hentry
  exact Property.tidy_of (hkeys key hkey) tidy_none

theorem tidies_tableActionRules : ∀ r ∈ tableActionRules, Gives i tidy r.2 := by
  simp only [tableActionRules, List.forall_mem_cons, List.not_mem_nil, false_implies, implies_true, and_true]
  refine ⟨?_, tidies_renameAction hi, ?_, tidies_unsetProperties hi, tidies_addAction hi, tidies_dropAction hi⟩
  · exact (tidies_optionalPartition hi).bind fun partition hpartition => .pure (tidy_touch hpartition)
  · exact (tidies_properties hi).bind fun entries hentries => .pure (tidy_setProperties hentries)

theorem tidies_tableAction : Gives i tidy tableAction := by
  refine (Gives.chooseRule (tidies_tableActionRules hi)).bind fun action haction => ?_
  cases action with
  | some action => exact .pure (haction action rfl)
  | none =>
    refine .andThen fun _ => .ite (tidies_changeColumn hi tidy_none) (.andThen fun _ => ?_)
    exact .ite (.pure tidy_recoverPartitions) (gives_expected _)

theorem tidies_partitionAction {partition : Option PartitionSpec} (hpartition : tidy partition) :
    Gives i tidy (partitionAction partition) := by
  refine .andThen fun _ => .ite ?_ (.andThen fun _ => .ite ?_ (.andThen fun _ => .ite ?_ ?_))
  · exact (tidies_stringLiteral hi).bind fun path hpath => .pure (tidy_setLocation hpartition hpath)
  · exact (tidies_columnDefinitions hi).bind fun columns hcolumns => .pure (tidy_replaceColumns hpartition hcolumns)
  · exact tidies_changeColumn hi hpartition
  · exact .ite (gives_expected _) (tidies_tableAction hi)

theorem tidies_alterAction : Gives i tidy alterAction := by
  refine (tidies_optionalPartition hi).bind fun partition hpartition => ?_
  cases partition with
  | none => exact tidies_partitionAction hi tidy_none
  | some old =>
    refine .andThen fun _ => .ite ?_ (tidies_partitionAction hi hpartition)
    exact (tidies_partitionSpec hi).bind fun new hnew => .pure (tidy_renamePartition (hpartition old rfl) hnew)

theorem tidies_alterNamespaceAction : Gives i tidy alterNamespaceAction := by
  have hrules : ∀ r ∈ [(["LOCATION"], return .setLocation (← stringLiteral)),
      (["DBPROPERTIES"], return .setProperties true (← properties)),
      (["PROPERTIES"], return .setProperties false (← properties))],
      Gives i (fun a : AlterNamespaceAction => tidy a) r.2 := by
    simp only [List.forall_mem_cons, List.not_mem_nil, false_implies, implies_true, and_true]
    refine ⟨?_, ?_, ?_⟩
    · exact (tidies_stringLiteral hi).bind fun path hpath => .pure (AlterNamespaceAction.tidy_setLocation hpath)
    · exact (tidies_properties hi).bind fun entries hentries =>
        .pure (AlterNamespaceAction.tidy_setProperties true hentries)
    · exact (tidies_properties hi).bind fun entries hentries =>
        .pure (AlterNamespaceAction.tidy_setProperties false hentries)
  refine (Gives.chooseRule hrules).bind fun action haction => ?_
  cases action with
  | none => exact gives_expected _
  | some action => exact .pure (haction action rfl)

theorem tidies_alter : Gives i tidy alter := by
  refine .andThen fun _ => .andThen fun word => ?_
  cases word with
  | some word =>
    refine (tidies_dottedName hi).bind fun name hname => .andThen fun _ => ?_
    refine (tidies_alterNamespaceAction hi).bind fun action haction => .pure ?_
    exact Statement.tidy_of (AlterNamespace.tidy_of hname haction)
  | none =>
    refine .andThen fun view => (tidies_dottedName hi).bind fun name hname => .andThen fun _ => .ite ?_ ?_
    · refine .andThen fun _ => (tidies_query hi).bind fun query hquery => .pure ?_
      exact Statement.tidy_of (AlterViewQuery.tidy_of hname hquery)
    · refine (tidies_alterAction hi).bind fun action haction => .pure ?_
      exact Statement.tidy_of (AlterTable.tidy_of hname haction)

theorem tidies_dropTable : Gives i tidy dropTable := by
  refine .andThen fun view => .andThen fun ifExists => (tidies_dottedName hi).bind fun name hname => ?_
  have hdrop (purge : Bool) : tidy (Statement.drop ⟨view, ifExists, name, purge⟩) :=
    Statement.tidy_of (Drop.tidy_of hname)
  exact .ite (.andThen fun purge => .pure (hdrop purge)) (.andThen fun purge => .pure (hdrop purge))

theorem tidies_dropIndex : Gives i tidy dropIndex := by
  refine .andThen fun _ => (tidies_identifier hi).bind fun name hname => .andThen fun _ => .andThen fun _ => ?_
  refine (tidies_dottedName hi).bind fun table htable => .pure ?_
  exact Statement.tidy_of (DropIndex.tidy_of hname htable)

theorem tidies_drop : Gives i tidy drop := by
  refine .andThen fun _ => .andThen fun word => ?_
  cases word with
  | some word =>
    refine .andThen fun _ => (tidies_dottedName hi).bind fun name hname => .andThen fun _ => .pure ?_
    exact Statement.tidy_of (DropNamespace.tidy_of hname)
  | none =>
    refine .andThen fun temporary => .andThen fun _ => .ite ?_ (.ite (gives_expected _) ?_)
    · refine .andThen fun _ => (tidies_dottedName hi).bind fun name hname => .pure ?_
      exact Statement.tidy_of (DropFunction.tidy_of hname)
    · exact .andThen fun _ => .ite (tidies_dropIndex hi) (tidies_dropTable hi)

end Grammar

end SqlTidy
