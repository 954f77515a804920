import SqlTidy.Proofs.Hang.Tree

/-!
# The rows of `VALUES` hang below its line

**Theorem (`Statement.rows_below_values`).** Whenever `VALUES` is printed in a statement, in either layout, each
row starts on a new line, one level deeper than the line on which the keyword stands. Behind the rows the depth
is what it was in front of the keyword.

Every statement passes the check of `Doc.HangsLow` (`Statement.hangsLow`). A statement has few places for a
query of its own, and in each of them the query starts a line or stands behind words that start one.
-/

namespace SqlTidy

open Doc Layout Printer

/-! ## Statements that change rows -/

namespace Layout

theorem allCalm_exprs (es : List Expr) : AllCalm (es.map fun e => e.doc) := .map (fun e => e.hangsLow false) es

theorem maybeCalm_expr (e : Option Expr) : MaybeCalm (e.map fun e => e.doc) := .map (fun e => e.hangsLow false) e

theorem calm_leadingWith (w : Option WithClause) : Calm (leadingWith w) := by
  cases w with
  | none => exact .nil
  | some w => exact .seq <| .part (w.hangsLow false) <| .line .nil

theorem endsLow_leadingWith (w : Option WithClause) : endsLow true (leadingWith w) = true := by
  cases w <;> rfl

theorem calm_whereLine (e : Option Expr) : Calm (whereLine e) := by
  cases e with
  | none => exact .nil
  | some e => exact .conditionLine _ (e.hangsLow true)

end Layout

theorem PartitionValue.calm (v : PartitionValue) : Calm v.doc :=
  .seq <| .word <| .part (.optBehind _ (maybeCalm_expr v.value)) .nil

theorem PartitionSpec.calm (s : PartitionSpec) : Calm s.doc :=
  .seq <| .word <| .part (.parens (.map PartitionValue.calm s.values)) .nil

theorem Layout.calm_optPartition (s : Option PartitionSpec) : Calm (optPartition s) :=
  .optBehind _ (.map PartitionSpec.calm s)

theorem InsertTarget.calm (t : InsertTarget) : Calm t.doc := by
  refine .seq <| .part (.ite (.text _) (.text _)) <| .part (.when _ (.text _)) <| .word <| .word <|
    .part (calm_optPartition t.partition) <| .part (.when _ (.text _)) <| .part ?_ .nil
  split
  · exact .nil
  · exact .seq <| .word <| .part (calm_identList _) .nil

theorem Layout.insertBreak_cases :
    (q : Query) → insertBreak q = .line ∨ ∃ name clauses, q = .query .none (.tableBody name) clauses
  | .query .none (.tableBody name) clauses => .inr ⟨name, clauses, rfl⟩
  | .query .none (.selectBody _) _ | .query .none (.setOperation ..) _ | .query .none (.nestedQuery _) _
  | .query .none (.valuesBody ..) _ | .query .none (.fromFirst ..) _ | .query (.some _) _ _ => .inl rfl

/-- The source of an `INSERT` starts a line, unless it is a table. -/
theorem Layout.calm_insertSource (q : Query) : Calm (.seq [insertBreak q, q.doc]) := by
  obtain hbreak | ⟨name, clauses, rfl⟩ := insertBreak_cases q
  · rw [hbreak]
    exact .line_append (.append (q.hangsLow false) .nil)
  · have htable : Calm (Doc.seq ["TABLE ", name.written]) := .seq <| .word <| .word .nil
    exact .append (.ite (.text _) .line) <| .append (.append .nil <| .append htable <|
      .append (clauses.hangsLow false) .nil) .nil

theorem Insert.calm (s : Insert) : Calm s.doc :=
  .append (calm_leadingWith s.withClause) <| .append s.target.calm (calm_insertSource s.source)

theorem MultiInsertBody.calm (b : MultiInsertBody) : Calm b.doc :=
  .seq <| .part b.target.calm <| .line <| .part (b.select.hangsLow false) <| .part (b.organization.hangsLow false) .nil

theorem MultiInsert.hangsLow (s : MultiInsert) : Doc.HangsLow true s.doc :=
  .after (calm_leadingWith s.withClause) (endsLow_leadingWith s.withClause) <| .append (s.source.hangsLow false) <|
    .append (.onLines (AllCalm.map MultiInsertBody.calm s.inserts).hangsLow) .nil

theorem Assignment.calm (a : Assignment) : Calm a.doc := .seq <| .word <| .word <| .part (a.value.hangsLow false) .nil

theorem Layout.calm_assignments (as : List Assignment) : Calm (.lines (as.map Assignment.doc)) :=
  .lines (AllCalm.map Assignment.calm as).hangsLow

theorem Update.calm (s : Update) : Calm s.doc :=
  .seq <| .word <| .word <| .part (calm_tableAlias s.asName) <| .word <| .part (calm_assignments s.assignments) <|
    .part (calm_whereLine s.condition) .nil

theorem Delete.calm (s : Delete) : Calm s.doc :=
  .seq <| .word <| .word <| .part (calm_tableAlias s.asName) <| .part (calm_whereLine s.condition) .nil

theorem MergeAction.calm : (a : MergeAction) → Calm a.doc
  | .updateAll | .delete | .insertAll => .text _
  | .update assignments => .seq <| .word <| .part (calm_assignments assignments) .nil
  | .insert columns values =>
    .seq <| .word <| .part (calm_identList columns) <| .word <| .part (.parens (allCalm_exprs values)) .nil

theorem MergeClause.calm (c : MergeClause) : Calm c.doc :=
  .seq <| .word <| .part (.optBehind _ (maybeCalm_expr c.condition)) <| .word <|
    .part (.nest (.append .line c.action.calm)) .nil

theorem Merge.calm (s : Merge) : Calm s.doc := by
  have hclauses := (AllCalm.map MergeClause.calm s.clauses).hangsLow
  -- The source stands behind a word that starts a line.
  exact .append (.text _) <| .append (.text _) <| .append (calm_tableAlias s.targetAlias) <| .line_append <|
    .after (.text _) rfl <| .append (s.source.hangsLow false) <| .append .line <| .append (.text _) <|
    .append (.nest (s.condition.hangsLow true)) <| .append (.onLines hclauses) .nil

/-! ## Statements that define things -/

theorem Property.calm (p : Property) : Calm p.doc :=
  .seq <| .word <| .part (.optBehind _ (maybeCalm_expr p.value)) .nil

theorem ColumnPosition.calm : (p : ColumnPosition) → Calm p.doc
  | .first => .text _
  | .after _ => .seq <| .word <| .word .nil

theorem ColumnDefinition.calm (c : ColumnDefinition) : Calm c.doc :=
  .seq <| .word <| .word <| .part c.type.calm <| .part (.when _ (.text _)) <|
    .part (.optBehind _ (maybeCalm_expr c.default)) <| .part (.optText _ _) <|
    .part (.optBehind _ (.map ColumnPosition.calm c.position)) .nil

theorem PartitionField.calm : (f : PartitionField) → Calm f.doc
  | .column _ => .text _
  | .typed _ type => .seq <| .word <| .word <| .part type.calm .nil
  | .transform value => value.hangsLow false

namespace Layout

theorem calm_propertyBlock (before : String) (ps : List Property) : Calm (propertyBlock before ps) :=
  .append (.text _) (.block (.map Property.calm ps))

theorem calm_columnBlock (before : String) (cs : List ColumnDefinition) : Calm (columnBlock before cs) :=
  .append (.text _) (.block (.map ColumnDefinition.calm cs))

theorem calm_propertyLine (before : String) (ps : List Property) : Calm (propertyLine before ps) := by
  cases ps with
  | nil => exact .nil
  | cons p ps => exact .append .line (calm_propertyBlock before (p :: ps))

theorem calm_textLine (before : String) (s : Option String) : Calm (textLine before s) := by
  cases s with
  | none => exact .nil
  | some s => exact .seq <| .line <| .word <| .word .nil

theorem calm_identLine (before : String) (names : List Ident) : Calm (identLine before names) := by
  cases names with
  | nil => exact .nil
  | cons name names => exact .seq <| .line <| .word <| .part (calm_identList (name :: names)) .nil

theorem calm_optColumns (before : String) (columns : Option (List ColumnDefinition)) :
    Calm
      (match columns with
        | none => .nil
        | some columns => columnBlock before columns) := by
  cases columns with
  | none => exact .nil
  | some columns => exact calm_columnBlock before columns

theorem calm_tableProvider (hasColumns : Bool) (provider : Option Ident) : Calm (tableProvider hasColumns provider) := by
  cases provider with
  | none => exact .nil
  | some provider => exact .seq <| .part (.ite .line (.text _)) <| .word <| .word .nil

end Layout

theorem BucketSpec.calm (b : BucketSpec) : Calm b.doc := by
  refine .seq <| .word <| .part (calm_identList b.columns) <| .part ?_ <| .word <| .word <| .word .nil
  split
  · exact .nil
  · exact .seq <| .word <| .part (.parens (.map (fun i : OrderItem => i.hangsLow false) _)) .nil

theorem TableClauses.calm (c : TableClauses) : Calm c.doc := by
  refine .seq <| .part (calm_identLine _ _) <| .part ?_ <|
    .part (.optLine (MaybeCalm.map BucketSpec.calm c.clusteredBy).hangsLow) <|
    .part (calm_textLine _ _) <| .part (calm_textLine _ _) <| .part (calm_textLine _ _) <|
    .part (calm_propertyLine _ _) <| .part (calm_propertyLine _ _) <| .part (calm_textLine _ _) .nil
  split
  · exact .nil
  · exact .seq <| .line <| .word <| .part (.parens (.map PartitionField.calm _)) .nil

theorem CreateTable.calm (c : CreateTable) : Calm c.doc := by
  refine .seq <| .word <| .word <| .part (.when _ (.text _)) <| .word <| .part (.when _ (.text _)) <| .word <|
    .part (calm_optColumns _ c.columns) <| .part (calm_tableProvider _ _) <| .part c.clauses.calm <| .part ?_ .nil
  split
  · exact .nil
  · rename_i query _
    exact .append (.text _) (.line_append (.append (query.hangsLow false) .nil))

theorem ViewColumn.calm (c : ViewColumn) : Calm c.doc := .seq <| .word <| .part (.optText _ _) .nil

theorem CreateView.calm (c : CreateView) : Calm c.doc := by
  have hquery : Calm (.seq [.line, "AS ", c.query.doc]) :=
    .line_append (.after (.text _) rfl (.append (c.query.hangsLow false) .nil))
  refine .append (.text _) <| .append (.when _ (.text _)) <| .append (.when _ (.text _)) <|
    .append (.when _ (.text _)) <| .append (.text _) <| .append (.when _ (.text _)) <| .append (.text _) <|
    .append ?_ <| .append (calm_textLine _ _) <| .append (calm_identLine _ _) <| .append (calm_propertyLine _ _) hquery
  split
  · exact .nil
  · exact .block (.map ViewColumn.calm _)

theorem CreateSourceView.calm (c : CreateSourceView) : Calm c.doc :=
  .seq <| .word <| .part (.when _ (.text _)) <| .part (.when _ (.text _)) <| .word <| .word <|
    .part (calm_optColumns _ c.columns) <| .line <| .word <| .word <| .part (calm_propertyLine _ _) .nil

theorem CreateNamespace.calm (c : CreateNamespace) : Calm c.doc :=
  .seq <| .word <| .word <| .word <| .part (.when _ (.text _)) <| .word <| .part (calm_textLine _ _) <|
    .part (calm_textLine _ _) <| .part (calm_propertyLine _ _) .nil

theorem FunctionResource.calm (r : FunctionResource) : Calm r.doc := .seq <| .word <| .word <| .word .nil

theorem CreateFunction.calm (c : CreateFunction) : Calm c.doc := by
  refine .seq <| .word <| .part (.when _ (.text _)) <| .part (.when _ (.text _)) <| .word <|
    .part (.when _ (.text _)) <| .word <| .word <| .word <| .part ?_ .nil
  split
  · exact .nil
  · exact .seq <| .word <| .part (.lines (AllCalm.map FunctionResource.calm _).hangsLow) .nil

theorem IndexColumn.calm (c : IndexColumn) : Calm c.doc := by
  refine .seq <| .word <| .part ?_ .nil
  split
  · exact .nil
  · exact .seq <| .word <| .part (.parens (.map Property.calm _)) .nil

theorem Layout.calm_indexColumns (columns : List IndexColumn) : Calm (indexColumns columns) := by
  unfold indexColumns
  split
  · exact .parens (.one (.text _))
  · exact .block (.map IndexColumn.calm _)

theorem Layout.calm_onWord (tableWord : Bool) : Calm (onWord tableWord) := .ite (.text _) (.text _)

theorem CreateIndex.calm (c : CreateIndex) : Calm c.doc := by
  refine .seq <| .word <| .part (.when _ (.text _)) <| .word <| .part (calm_onWord _) <| .word <| .line <|
    .part ?_ <| .part (calm_indexColumns _) <| .part (calm_propertyLine _ _) .nil
  split
  · exact .nil
  · exact .seq <| .word <| .word <| .word .nil

theorem ColumnChange.calm : (c : ColumnChange) → Calm c.doc
  | .type t => .seq <| .word <| .part t.calm .nil
  | .comment _ => .seq <| .word <| .word .nil
  | .position p => p.calm
  | .setNotNull | .dropNotNull => .text _

namespace Layout

theorem calm_leadingPartition (s : Option PartitionSpec) : Calm (leadingPartition s) := by
  cases s with
  | none => exact .nil
  | some s => exact .seq <| .part s.calm <| .word .nil

theorem calm_nameList (names : List DottedName) : Calm (nameList names) := .commas (.texts DottedName.written names)

theorem calm_addedPartition (entry : PartitionSpec × Option String) : Calm (addedPartition entry) :=
  .seq <| .part entry.1.calm <| .part (.optText _ _) .nil

end Layout

theorem AlterAction.calm : (a : AlterAction) → Calm a.doc
  | .renameTo _ => .seq <| .word <| .word .nil
  | .setProperties _ => calm_propertyBlock _ _
  | .unsetProperties _ _ => calm_propertyBlock _ _
  | .addColumns _ _ columns =>
    .ite (calm_columnBlock _ _) <| .seq <| .word <|
      .part (.lines (AllCalm.map ColumnDefinition.calm columns).hangsLow) .nil
  | .dropColumns _ _ _ columns =>
    .seq <| .part (.ite (.text _) (.text _)) <| .part (.when _ (.text _)) <| .word <|
      .part (.ite (.seq <| .word <| .part (calm_nameList columns) <| .word .nil) (calm_nameList columns)) .nil
  | .renameColumn _ _ => .seq <| .word <| .word <| .word <| .word .nil
  | .alterColumn _ _ _ change =>
    .seq <| .part (.ite (.text _) (.text _)) <| .part (.when _ (.text _)) <| .word <| .word <| .word <|
      .part change.calm .nil
  | .changeColumn partition _ _ definition =>
    .seq <| .part (calm_leadingPartition partition) <| .word <| .part (.when _ (.text _)) <| .word <| .word <| .word <|
      .part definition.calm .nil
  | .replaceColumns partition columns =>
    .seq <| .part (calm_leadingPartition partition) <| .part (calm_columnBlock _ columns) .nil
  | .addPartitions _ partitions =>
    .seq <| .word <| .part (.when _ (.text _)) <|
      .part (.nest (.onLines (AllCalm.map calm_addedPartition partitions).hangsLow)) .nil
  | .dropPartitions _ partitions _ =>
    .seq <| .word <| .part (.when _ (.text _)) <| .part (.lines (AllCalm.map PartitionSpec.calm partitions).hangsLow) <|
      .part (.when _ (.text _)) .nil
  | .renamePartition old new => .seq <| .part old.calm <| .word <| .part new.calm .nil
  | .setLocation partition _ => .seq <| .part (calm_leadingPartition partition) <| .word <| .word .nil
  | .recoverPartitions => .text _
  | .touch partition => .seq <| .word <| .part (calm_optPartition partition) .nil

theorem AlterTable.calm (a : AlterTable) : Calm a.doc :=
  .seq <| .part (.ite (.text _) (.text _)) <| .word <| .word <| .part a.action.calm .nil

theorem AlterViewQuery.calm (a : AlterViewQuery) : Calm a.doc :=
  .append (.text _) <| .append (.text _) <| .append (.text _) <| .line_append (.append (a.query.hangsLow false) .nil)

theorem AlterNamespaceAction.calm : (a : AlterNamespaceAction) → Calm a.doc
  | .setProperties _ _ => calm_propertyBlock _ _
  | .setLocation _ => .seq <| .word <| .word .nil

theorem AlterNamespace.calm (a : AlterNamespace) : Calm a.doc :=
  .seq <| .word <| .word <| .word <| .word <| .part a.action.calm .nil

theorem Drop.calm (d : Drop) : Calm d.doc :=
  .seq <| .part (.ite (.text _) (.text _)) <| .part (.when _ (.text _)) <| .word <| .part (.when _ (.text _)) .nil

theorem DropNamespace.calm (d : DropNamespace) : Calm d.doc :=
  .seq <| .word <| .word <| .word <| .part (.when _ (.text _)) <| .word <| .part (calm_optWord _) .nil

theorem DropFunction.calm (d : DropFunction) : Calm d.doc :=
  .seq <| .word <| .part (.when _ (.text _)) <| .word <| .part (.when _ (.text _)) <| .word .nil

theorem DropIndex.calm (d : DropIndex) : Calm d.doc :=
  .seq <| .word <| .part (.when _ (.text _)) <| .word <| .part (calm_onWord _) <| .word .nil

/-! ## Commands -/

theorem Truncate.calm (t : Truncate) : Calm t.doc := .seq <| .word <| .word <| .part (calm_optPartition _) .nil

theorem RepairTable.calm (r : RepairTable) : Calm r.doc :=
  .seq <| .part (.when _ (.text _)) <| .word <| .word <| .part (calm_optWord _) .nil

theorem AnalyzeTarget.calm : (t : AnalyzeTarget) → Calm t.doc
  | .table => .nil
  | .noScan | .allColumns => .text _
  | .columns names => .seq <| .word <| .part (calm_nameList names) .nil

theorem Analyze.calm (a : Analyze) : Calm a.doc :=
  .seq <| .word <| .word <| .part (calm_optPartition _) <| .word <| .part a.target.calm .nil

theorem Scope.calm (s : Scope) : Calm s.doc := .seq <| .word <| .word <| .word <| .word .nil

theorem Layout.calm_optScope (s : Option Scope) : Calm (optScope s) := by
  cases s with
  | none => exact .nil
  | some s => exact s.calm

theorem AnalyzeTables.calm (a : AnalyzeTables) : Calm a.doc :=
  .seq <| .word <| .part (calm_optScope _) <| .word <| .part (.when _ (.text _)) .nil

theorem CommentTarget.calm : (t : CommentTarget) → Calm t.doc
  | .namespace _ | .table => .text _

theorem CommentOn.calm (c : CommentOn) : Calm c.doc :=
  .seq <| .word <| .part c.target.calm <| .word <| .word <| .word <| .word .nil

theorem Use.calm (u : Use) : Calm u.doc := .seq <| .word <| .part (.optWordGap _) <| .word .nil

theorem SetConfig.calm (s : SetConfig) : Calm s.doc := .seq <| .word <| .part (.optText _ _) <| .part (.optText _ _) .nil

theorem Layout.calm_optPattern (p : Option ShowPattern) : Calm (optPattern p) := by
  cases p with
  | none => exact .nil
  | some p => exact .seq <| .part (.ite (.text _) (.text _)) <| .word .nil

theorem Show.calm : (s : Show) → Calm s.doc
  | .namespaces _ _ _ => .seq <| .word <| .part (calm_optScope _) <| .part (calm_optPattern _) .nil
  | .tables _ _ | .views _ _ => .seq <| .word <| .part (calm_optScope _) <| .part (calm_optPattern _) .nil
  | .tableExtended _ _ _ =>
    .seq <| .word <| .part (calm_optScope _) <| .word <| .word <| .part (calm_optPartition _) .nil
  | .columns table _ => .seq <| .word <| .part table.calm <| .part (calm_optScope _) .nil
  | .partitions _ _ => .seq <| .word <| .word <| .part (calm_optPartition _) .nil
  | .tableProperties _ none => .seq <| .word <| .word <| .part .nil .nil
  | .tableProperties _ (some _) => .seq <| .word <| .word <| .part (.seq <| .word <| .word <| .word .nil) .nil
  | .functions _ _ _ =>
    .seq <| .part (.optWordGap _) <| .word <| .part (calm_optScope _) <| .part (calm_optPattern _) .nil
  | .createTable _ _ => .seq <| .word <| .word <| .part (.when _ (.text _)) .nil
  | .catalogs _ => .seq <| .word <| .part (calm_optPattern _) .nil
  | .currentNamespace => .text _

/-- A query that is described stands on the line of the command. -/
theorem DescribeTarget.hangsLow : (t : DescribeTarget) → Doc.HangsLow true t.doc
  | .table _ _ _ _ _ =>
    HangsLow.seq <| .part (.when _ (.text _)) <| .part (calm_optWord _) <| .word <| .word <|
      .part (calm_optPartition _) <| .part (calm_optWord _) .nil
  | .function _ _ => HangsLow.seq <| .word <| .part (.when _ (.text _)) <| .word <| .word .nil
  | .namespace _ _ _ => HangsLow.seq <| .word <| .word <| .part (.when _ (.text _)) <| .word <| .word .nil
  | .query queryWord q =>
    HangsLow.after (.when _ (.text _)) (endsLow_when queryWord rfl) <| .after (.text _) rfl <|
      .append (q.hangsLow false) .nil

theorem Describe.hangsLow (d : Describe) : Doc.HangsLow true d.doc :=
  .after (.ite (.text _) (.text _)) (endsLow_ite rfl rfl) <| .append d.target.hangsLow .nil

theorem CallProcedure.calm (c : CallProcedure) : Calm c.doc :=
  .seq <| .word <| .word <| .part (.block (.map (fun a : CallArg => a.hangsLow false) c.args)) .nil

theorem LoadData.calm (l : LoadData) : Calm l.doc :=
  .seq <| .word <| .part (.when _ (.text _)) <| .word <| .word <| .part (.when _ (.text _)) <| .word <| .word <|
    .part (calm_optPartition _) .nil

theorem Layout.calm_trailingOptions (ps : List Property) : Calm (trailingOptions ps) := by
  cases ps with
  | nil => exact .nil
  | cons p ps => exact calm_propertyBlock _ (p :: ps)

theorem LoadFile.calm (l : LoadFile) : Calm l.doc :=
  .seq <| .word <| .word <| .part (.ite (.text _) (.text _)) <| .word <| .part (calm_trailingOptions _) .nil

theorem ExportTable.calm (e : ExportTable) : Calm e.doc := by
  refine .seq <| .part (calm_leadingWith _) <| .word <| .word <| .part ?_ <| .word <| .word <|
    .part (calm_trailingOptions _) .nil
  split
  · exact .text _
  · exact .seq <| .word <| .part (PartitionSpec.calm _) <| .line .nil

mutual

theorem TunnelValue.calm : (v : TunnelValue) → Calm v.doc
  | .scalar _ => .text _
  | .list items => .seq <| .word <| .part (.commas (TunnelValue.allCalm items)) <| .word .nil

theorem TunnelValue.allCalm : (vs : List TunnelValue) → AllCalm (TunnelValue.docs vs)
  | [] => .nil
  | v :: vs => .part v.calm (TunnelValue.allCalm vs)

end

theorem TunnelProperty.calm (p : TunnelProperty) : Calm p.doc := .seq <| .word <| .word <| .part p.value.calm .nil

theorem Layout.calm_tunnelEnd (keyword kind : String) (options : List TunnelProperty) :
    Calm (tunnelEnd keyword kind options) :=
  .seq <| .word <| .word <| .word <| .word <| .part (.block (.map TunnelProperty.calm options)) .nil

theorem DataTunnel.calm (t : DataTunnel) : Calm t.doc :=
  .seq <| .word <| .part (calm_tunnelEnd _ _ _) <| .part (calm_textLine _ _) <| .line <|
    .part (calm_tunnelEnd _ _ _) .nil

theorem MergeFiles.calm (m : MergeFiles) : Calm m.doc :=
  .seq <| .word <| .word <| .part (calm_optPartition _) <| .part (calm_propertyLine _ _) .nil

/-! ## Statements -/

theorem Statement.hangsLow : (s : Statement) → Doc.HangsLow true s.doc
  | .query s => s.hangsLow false
  | .insert s => s.calm.hangsLow
  | .multiInsert s => s.hangsLow
  | .update s => s.calm.hangsLow
  | .delete s => s.calm.hangsLow
  | .merge s => s.calm.hangsLow
  | .createTable s => s.calm.hangsLow
  | .createView s => s.calm.hangsLow
  | .createSourceView s => s.calm.hangsLow
  | .alterViewQuery s => s.calm.hangsLow
  | .alterTable s => s.calm.hangsLow
  | .drop s => s.calm.hangsLow
  | .createNamespace s => s.calm.hangsLow
  | .alterNamespace s => s.calm.hangsLow
  | .dropNamespace s => s.calm.hangsLow
  | .createFunction s => s.calm.hangsLow
  | .dropFunction s => s.calm.hangsLow
  | .createIndex s => s.calm.hangsLow
  | .dropIndex s => s.calm.hangsLow
  | .truncate s => s.calm.hangsLow
  | .repairTable s => s.calm.hangsLow
  | .analyze s => s.calm.hangsLow
  | .analyzeTables s => s.calm.hangsLow
  | .commentOn s => s.calm.hangsLow
  | .use s => s.calm.hangsLow
  | .setCatalog _ => HangsLow.seq <| .word <| .word .nil
  | .setConfig s => s.calm.hangsLow
  | .reset _ => HangsLow.seq <| .word <| .part (calm_optWord _) .nil
  | .show target => HangsLow.seq <| .word <| .part target.calm .nil
  | .describe s => s.hangsLow
  | .explain _ inner =>
    HangsLow.after (.text _) rfl <| .after (.optWordGap _) (endsLow_optWordGap _) <| .append inner.hangsLow .nil
  | .call s => s.calm.hangsLow
  | .loadData s => s.calm.hangsLow
  | .loadFile s => s.calm.hangsLow
  | .exportTable s => s.calm.hangsLow
  | .dataTunnel s => s.calm.hangsLow
  | .mergeFiles s => s.calm.hangsLow

/-- The rows of `VALUES` start on new lines, one level below the line of the keyword, and the depth behind them
is the depth in front of it. -/
theorem Statement.rows_below_values (s : Statement) (style : Style) {before : List Step} {ds : List Doc}
    (h : Visits style.layout s.doc (.ofWidth style.indentWidth) before (values ds)) :
    let start := Printer.ofWidth style.indentWidth
    let p := start.perform before
    (∃ after, s.doc.steps style.layout start = before ++ ((values ds).steps style.layout p ++ after)) ∧
    (∃ line, (Printer.rows (before ++ [.write "VALUES"])).getLast? = some line ∧
      ∃ starts : List (List Step), starts.Nodup ∧
        List.Forall₂ (fun steps d => Visits style.layout (values ds) p steps d ∧ steps.getLast? = some .newline ∧
          (p.perform steps).depth = line.level + 1) starts ds) ∧
    ((values ds).run style.layout p).depth = p.depth := by
  intro start p
  obtain ⟨b, hvalues, hlow⟩ := s.hangsLow.of_visits (fun _ => low_ofWidth style.indentWidth) h
  -- The check lets `VALUES` pass only where the line is low.
  have hp : p.Low := hlow hvalues.2.1
  have hkeyword : start.perform (before ++ [.write "VALUES"]) = p.write "VALUES" := perform_append _ _ _
  obtain ⟨line, hline, hlevel⟩ := exists_current_row (hkeyword ▸ (hp.lineDepth_write (by decide)).1)
  obtain ⟨starts, hnodup, hstarts⟩ := starts_values style.layout ds hp
  rw [hkeyword] at hlevel
  exact ⟨h.exists_steps, ⟨line, hline, starts, hnodup, by rwa [hlevel]⟩, depth_run _ _ _⟩

/-- `SELECT * FROM VALUES (1)`. -/
def inlineTable : Statement :=
  .query (.query .none
    (.selectBody (.select .nil none (.cons (.selectItem .wildcard none) .nil)
      (.some (.fromClause (.cons (.relation (.valuesTable (.cons (.paren (.literal (.number "1"))) .nil) none) .nil) .nil)
        .nil .none)) .none .none .none .nil))
    (.organization .nil .nil .nil .nil .none .none))

/-- In the compact layout the keyword stands on the line of `FROM`, at a depth that the line does not have. The row
is one level below the line. -/
theorem Statement.rows_below_values_compact :
    ∃ before start, Visits .compact inlineTable.doc (.ofWidth 2) before (values [.parens ["1"]]) ∧
      ((Printer.ofWidth 2).perform before).depth = 1 ∧
      (Printer.rows (before ++ [.write "VALUES"])).getLast? = some ⟨some 0, "FROM VALUES".toList⟩ ∧
      ((Printer.ofWidth 2).perform (before ++ start)).depth = 1 := by
  have hvisit : Visits .compact inlineTable.doc (.ofWidth 2) _ (values [.parens ["1"]]) :=
    .second <| .first <| .second <| .second <| .second <| .second <| .first <| .second <| .first <| .second <| .nest <|
      .second <| .first <| .first <| .self _ _
  obtain ⟨-, ⟨line, hline, starts, -, hstarts⟩, -⟩ := rows_below_values inlineTable .compact hvisit
  have hlast := hline.symm.trans (show _ = some ⟨some 0, "FROM VALUES".toList⟩ by decide +kernel)
  obtain rfl := Option.some.inj hlast
  cases hstarts with
  | cons hrow _ => exact ⟨_, _, hvisit, by decide +kernel, hline, by rw [perform_append]; exact hrow.2.2⟩

end SqlTidy
