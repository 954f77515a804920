import SqlTidy.Tree.Statement

/-!
# The strings of a tree

`stored x` lists every string that is kept in `x`: names, literals, types, keys and the source text of
settings. A name stands in the list as it is written, a quoted one with its backticks.

What a rule of the grammar gives back is a tree, or a list, an option or a pair of such things, or a choice
among keywords, which stores nothing. So `stored` is a class, and the list is found by the type alone.
-/

namespace SqlTidy

/-- Types whose values may keep strings. -/
class Stored (α : Type) where
  stored : α → List String

export Stored (stored)

namespace Stored

variable {α β : Type}

instance : Stored String := ⟨fun s => [s]⟩

instance [Stored α] : Stored (List α) := ⟨List.flatMap stored⟩

instance [Stored α] : Stored (Option α) := ⟨fun a => a.elim [] stored⟩

instance [Stored α] [Stored β] : Stored (α × β) := ⟨fun p => stored p.1 ++ stored p.2⟩

@[simp] theorem stored_string (s : String) : stored s = [s] := rfl

@[simp] theorem stored_nil [Stored α] : stored ([] : List α) = [] := rfl

@[simp] theorem stored_cons [Stored α] (a : α) (as : List α) :
    stored (a :: as) = stored a ++ stored as := rfl

@[simp] theorem stored_append [Stored α] (as bs : List α) :
    stored (as ++ bs) = stored as ++ stored bs := List.flatMap_append

theorem stored_concat [Stored α] (as : List α) (a : α) :
    stored (as ++ [a]) = stored as ++ stored a := by
  simp

theorem mem_stored_list [Stored α] {s : String} {as : List α} :
    s ∈ stored as ↔ ∃ a ∈ as, s ∈ stored a := List.mem_flatMap

@[simp] theorem stored_none [Stored α] : stored (none : Option α) = [] := rfl

@[simp] theorem stored_some [Stored α] (a : α) : stored (some a) = stored a := rfl

theorem mem_stored_option {s : String} {o : Option String} (h : s ∈ o) : s ∈ stored o := by
  cases h
  exact List.mem_singleton_self s

@[simp] theorem stored_pair [Stored α] [Stored β] (a : α) (b : β) :
    stored (a, b) = stored a ++ stored b := rfl

instance : Stored Bool := ⟨fun _ => []⟩

instance : Stored Quantifier := ⟨fun _ => []⟩

@[simp] theorem stored_bool (b : Bool) : stored b = [] := rfl

@[simp] theorem stored_quantifier (q : Option Quantifier) : stored q = [] := by
  cases q <;> rfl

end Stored

/-! ## Names, types and literals -/

instance : Stored Ident := ⟨fun i => [i.written]⟩

instance : Stored DottedName := ⟨fun n => stored n.parts⟩

mutual

def DataType.strings : DataType → List String
  | .primitive name params => name :: stored params
  | .array word element => [[word], element.strings].flatten
  | .map word key value => [[word], key.strings, value.strings].flatten
  | .struct word fields => [[word], DataType.fieldStrings fields].flatten
  | .interval start stop => [[start], stored stop].flatten

def DataType.fieldStrings : List StructField → List String
  | [] => []
  | f :: fs => f.strings ++ DataType.fieldStrings fs

def StructField.strings : StructField → List String
  | ⟨name, _, type, _, comment⟩ => [stored name, type.strings, stored comment].flatten

end

instance : Stored DataType := ⟨DataType.strings⟩

instance : Stored StructField := ⟨StructField.strings⟩

@[simp] theorem DataType.stored_eq (t : DataType) : stored t = t.strings := rfl

@[simp] theorem DataType.fieldStrings_eq (fs : List StructField) :
    DataType.fieldStrings fs = stored fs := by
  induction fs with
  | nil => rfl
  | cons f fs ih => exact congrArg (f.strings ++ ·) ih

instance : Stored Literal := ⟨fun
  | .null | .boolean _ => []
  | .number text => [text]
  | .string pieces => stored pieces⟩

instance : Stored IntervalPart := ⟨fun p => [[p.value], stored p.unit].flatten⟩

instance : Stored AliasName := ⟨fun
  | .single name => stored name
  | .multi names => stored names⟩

instance : Stored Alias := ⟨fun a => stored a.name⟩

instance : Stored TableAlias := ⟨fun a => stored a.name ++ stored a.columns⟩

/-! ## Expressions and queries -/

def Tree.strings : {c : Category} → Tree c → List String
  | _, .nil => []
  | _, .cons head tail => head.strings ++ tail.strings
  | _, .none => []
  | _, .some value => value.strings
  | _, .ident name => stored name
  | _, .compound parts => stored parts
  | _, .wildcard => []
  | _, .qualifiedWildcard qualifier => stored qualifier
  | _, .literal value => stored value
  | _, .typedLiteral type value => [[type], [value]].flatten
  | _, .interval parts upTo => [stored parts, stored upTo].flatten
  | _, .unary _ operand => operand.strings
  | _, .binary _ left right => [left.strings, right.strings].flatten
  | _, .between tested _ low high => [tested.strings, low.strings, high.strings].flatten
  | _, .inList tested _ items => [tested.strings, items.strings].flatten
  | _, .inQuery tested _ q => [tested.strings, q.strings].flatten
  | _, .like tested _ _ pattern escape => [tested.strings, pattern.strings, stored escape].flatten
  | _, .is tested _ _ => tested.strings
  | _, .distinctFrom tested _ other => [tested.strings, other.strings].flatten
  | _, .function c => c.strings
  | _, .case operand branches otherwise =>
    [operand.strings, branches.strings, otherwise.strings].flatten
  | _, .cast _ operand type => [operand.strings, stored type].flatten
  | _, .extract part source => [[part], source.strings].flatten
  | _, .substring name source start length _ =>
    [[name], source.strings, start.strings, length.strings].flatten
  | _, .trim _ characters source => [characters.strings, source.strings].flatten
  | _, .position needle haystack => [needle.strings, haystack.strings].flatten
  | _, .overlay target placing start length =>
    [target.strings, placing.strings, start.strings, length.strings].flatten
  | _, .firstLast _ operand _ => operand.strings
  | _, .datetime name unit args => [[name], unit :: args.strings].flatten
  | _, .currentValue name => [name]
  | _, .struct fields => fields.strings
  | _, .existsQuery q => q.strings
  | _, .subquery q => q.strings
  | _, .row items => items.strings
  | _, .paren inner => inner.strings
  | _, .lambda params _ body => [stored params, body.strings].flatten
  | _, .subscript base index => [base.strings, index.strings].flatten
  | _, .field base name => [base.strings, stored name].flatten
  | _, .call name _ args withinGroup filter _ overWindow =>
    [stored name, args.strings, withinGroup.strings, filter.strings, overWindow.strings].flatten
  | _, .positional value => value.strings
  | _, .named name value => [stored name, value.strings].flatten
  | _, .branch condition result => [condition.strings, result.strings].flatten
  | _, .windowName name => stored name
  | _, .windowNameParen name => stored name
  | _, .windowInline definition => definition.strings
  | _, .windowDefinition partitionBy _ orderBy _ clusterBy bounds =>
    [[partitionBy.strings, orderBy.strings, clusterBy.strings].flatten, bounds.strings].flatten
  | _, .frame _ start stop => [start.strings, stop.strings].flatten
  | _, .currentRow => []
  | _, .unboundedPreceding => []
  | _, .unboundedFollowing => []
  | _, .preceding distance => distance.strings
  | _, .following distance => distance.strings
  | _, .orderItem key _ _ => key.strings
  | _, .selectItem value asName => [value.strings, stored asName].flatten
  | _, .query tables body clauses => [tables.strings, body.strings, clauses.strings].flatten
  | _, .withClause tables => tables.strings
  | _, .commonTable name columns q => [stored name, stored columns, q.strings].flatten
  | _, .selectBody s => s.strings
  | _, .setOperation left _ _ right => [left.strings, right.strings].flatten
  | _, .nestedQuery q => q.strings
  | _, .valuesBody rows asName => [rows.strings, stored asName].flatten
  | _, .tableBody name => stored name
  | _, .fromFirst source bodies => [source.strings, bodies.strings].flatten
  | _, .fromBody s clauses => [s.strings, clauses.strings].flatten
  | _, .select hints _ items source condition grouping having windows =>
    [hints.strings, items.strings, source.strings, condition.strings, grouping.strings,
      having.strings, windows.strings].flatten
  | _, .hint functions => functions.strings
  | _, .hintFunction name args => [stored name, args.strings].flatten
  | _, .fromClause relations views pivoting =>
    [relations.strings, [views.strings, pivoting.strings].flatten].flatten
  | _, .relation primary joins => [primary.strings, joins.strings].flatten
  | _, .table name sampling asName => [stored name, sampling.strings, stored asName].flatten
  | _, .derived q sampling asName => [q.strings, sampling.strings, stored asName].flatten
  | _, .valuesTable rows asName => [rows.strings, stored asName].flatten
  | _, .tableFunction name args asName => [stored name, args.strings, stored asName].flatten
  | _, .nestedRelation inner asName => [inner.strings, stored asName].flatten
  | _, .samplePercent amount => amount.strings
  | _, .sampleRows amount => amount.strings
  | _, .sampleBucket numerator denominator key => [[numerator], [denominator], key.strings].flatten
  | _, .join _ _ factor constraint => [factor.strings, constraint.strings].flatten
  | _, .on condition => condition.strings
  | _, .using columns => stored columns
  | _, .lateralView _ name args asName _ columns =>
    [stored name, args.strings, stored asName, stored columns].flatten
  | _, .pivot aggregates columns values =>
    [aggregates.strings, stored columns, values.strings].flatten
  | _, .groupBy items _ => items.strings
  | _, .groupingExpr value => value.strings
  | _, .analytics _ elements => elements.strings
  | _, .elementSet members => members.strings
  | _, .elementExpr value => value.strings
  | _, .namedWindow name w => [stored name, w.strings].flatten
  | _, .organization orderBy clusterBy distributeBy sortBy rowLimit offset =>
    [orderBy.strings, clusterBy.strings, distributeBy.strings, sortBy.strings, rowLimit.strings,
      offset.strings].flatten
  | _, .limitAll => []
  | _, .limitCount count => count.strings

instance {c : Category} : Stored (Tree c) := ⟨Tree.strings⟩

namespace Tree

variable {c : Category}

@[simp] theorem stored_eq (t : Tree c) : stored t = t.strings := rfl

@[simp] theorem strings_none : (none : Tree (.option c)).strings = [] := rfl

@[simp] theorem strings_some (t : Tree c) : (some t).strings = t.strings := rfl

@[simp] theorem strings_ofList (ts : List (Tree c)) : (ofList ts).strings = stored ts := by
  induction ts with
  | nil => rfl
  | cons t ts ih => exact congrArg (t.strings ++ ·) ih

@[simp] theorem strings_ofOption (t : Option (Tree c)) : (ofOption t).strings = stored t := by
  cases t <;> rfl

end Tree

/-! ## Statements that change rows -/

instance : Stored PartitionValue := ⟨fun v => [stored v.name, stored v.value].flatten⟩

instance : Stored PartitionSpec := ⟨fun s => stored s.values⟩

instance : Stored InsertTarget :=
  ⟨fun t => [stored t.table, stored t.partition, stored t.columns].flatten⟩

instance : Stored Insert :=
  ⟨fun s => [stored s.withClause, stored s.target, stored s.source].flatten⟩

instance : Stored MultiInsertBody :=
  ⟨fun b => [stored b.target, stored b.select, stored b.organization].flatten⟩

instance : Stored MultiInsert :=
  ⟨fun s => [stored s.withClause, stored s.source, stored s.inserts].flatten⟩

instance : Stored Assignment := ⟨fun a => [stored a.target, stored a.value].flatten⟩

instance : Stored Update :=
  ⟨fun s => [stored s.table, stored s.asName, stored s.assignments, stored s.condition].flatten⟩

instance : Stored Delete := ⟨fun s => [stored s.table, stored s.asName, stored s.condition].flatten⟩

instance : Stored MergeAction := ⟨fun
  | .updateAll | .delete | .insertAll => []
  | .update assignments => stored assignments
  | .insert columns values => [stored columns, stored values].flatten⟩

instance : Stored MergeClause := ⟨fun c => [stored c.condition, stored c.action].flatten⟩

instance : Stored Merge :=
  ⟨fun s =>
    [stored s.target, stored s.targetAlias, stored s.source, stored s.condition,
      stored s.clauses].flatten⟩

/-! ## Statements that define things -/

instance : Stored Property := ⟨fun p => [[p.key], stored p.value].flatten⟩

instance : Stored ColumnPosition := ⟨fun
  | .first => []
  | .after column => stored column⟩

instance : Stored ColumnDefinition :=
  ⟨fun c =>
    [stored c.name, stored c.type, stored c.default, stored c.comment, stored c.position].flatten⟩

instance : Stored PartitionField := ⟨fun
  | .column name => stored name
  | .typed name type => [stored name, stored type].flatten
  | .transform value => stored value⟩

instance : Stored BucketSpec :=
  ⟨fun b => [stored b.columns, stored b.sortedBy, [b.buckets]].flatten⟩

instance : Stored TableClause := ⟨fun
  | .primaryKey columns => stored columns
  | .partitionedBy fields => stored fields
  | .clusteredBy spec => stored spec
  | .storedAs format => stored format
  | .location path => [path]
  | .lifecycle days => [days]
  | .options properties => stored properties
  | .tableProperties properties => stored properties
  | .comment text => [text]⟩

instance : Stored TableClauses :=
  ⟨fun c =>
    [stored c.primaryKey, stored c.partitionedBy, stored c.clusteredBy, stored c.storedAs,
      stored c.location, stored c.lifecycle, stored c.options, stored c.tableProperties,
      stored c.comment].flatten⟩

instance : Stored ViewColumn := ⟨fun c => [stored c.name, stored c.comment].flatten⟩

instance : Stored FunctionResource := ⟨fun r => [r.uri]⟩

instance : Stored IndexColumn := ⟨fun c => [stored c.name, stored c.options].flatten⟩

instance : Stored CreateTable :=
  ⟨fun s =>
    [stored s.name, stored s.columns, stored s.provider, stored s.clauses, stored s.query].flatten⟩

instance : Stored CreateView :=
  ⟨fun s =>
    [stored s.name, stored s.columns, stored s.comment, stored s.partitionedOn,
      stored s.tableProperties, stored s.query].flatten⟩

instance : Stored CreateSourceView :=
  ⟨fun s => [stored s.name, stored s.columns, stored s.provider, stored s.options].flatten⟩

instance : Stored CreateNamespace :=
  ⟨fun s => [stored s.name, stored s.comment, stored s.location, stored s.properties].flatten⟩

instance : Stored CreateFunction :=
  ⟨fun s => [stored s.name, stored s.className, stored s.resources].flatten⟩

instance : Stored CreateIndex :=
  ⟨fun s =>
    [stored s.name, stored s.table, stored s.indexType, stored s.columns, stored s.options].flatten⟩

instance : Stored ColumnChange := ⟨fun
  | .type t => stored t
  | .comment text => [text]
  | .position p => stored p
  | .setNotNull | .dropNotNull => []⟩

instance : Stored AlterAction := ⟨fun
  | .renameTo name => stored name
  | .setProperties properties => stored properties
  | .unsetProperties _ keys => stored keys
  | .addColumns _ _ columns => stored columns
  | .dropColumns _ _ _ columns => stored columns
  | .renameColumn old new => [stored old, stored new].flatten
  | .alterColumn _ _ column change => [stored column, stored change].flatten
  | .changeColumn partition _ column definition =>
    [stored partition, stored column, stored definition].flatten
  | .replaceColumns partition columns => [stored partition, stored columns].flatten
  | .addPartitions _ partitions => stored partitions
  | .dropPartitions _ partitions _ => stored partitions
  | .renamePartition old new => [stored old, stored new].flatten
  | .setLocation partition location => [stored partition, [location]].flatten
  | .recoverPartitions => []
  | .touch partition => stored partition⟩

instance : Stored AlterTable := ⟨fun s => [stored s.name, stored s.action].flatten⟩

instance : Stored AlterViewQuery := ⟨fun s => [stored s.name, stored s.query].flatten⟩

instance : Stored AlterNamespaceAction := ⟨fun
  | .setProperties _ properties => stored properties
  | .setLocation location => [location]⟩

instance : Stored AlterNamespace := ⟨fun s => [stored s.name, stored s.action].flatten⟩

instance : Stored Drop := ⟨fun s => stored s.name⟩

instance : Stored DropNamespace := ⟨fun s => stored s.name⟩

instance : Stored DropFunction := ⟨fun s => stored s.name⟩

instance : Stored DropIndex := ⟨fun s => [stored s.name, stored s.table].flatten⟩

/-! ## Commands -/

instance : Stored Truncate := ⟨fun s => [stored s.table, stored s.partition].flatten⟩

instance : Stored RepairTable := ⟨fun s => stored s.table⟩

instance : Stored AnalyzeTarget := ⟨fun
  | .columns names => stored names
  | .table | .noScan | .allColumns => []⟩

instance : Stored Analyze :=
  ⟨fun s => [stored s.table, stored s.partition, stored s.target].flatten⟩

instance : Stored Scope := ⟨fun s => stored s.name⟩

instance : Stored AnalyzeTables := ⟨fun s => stored s.scope⟩

instance : Stored CommentOn := ⟨fun s => [stored s.name, stored s.comment].flatten⟩

instance : Stored Use := ⟨fun s => stored s.name⟩

instance : Stored SetConfig := ⟨fun s => [stored s.key, stored s.value].flatten⟩

instance : Stored ShowPattern := ⟨fun p => [p.pattern]⟩

instance : Stored Show := ⟨fun
  | .namespaces _ scope pattern => [stored scope, stored pattern].flatten
  | .tables scope pattern => [stored scope, stored pattern].flatten
  | .tableExtended scope pattern partition =>
    [stored scope, stored pattern, stored partition].flatten
  | .views scope pattern => [stored scope, stored pattern].flatten
  | .columns table database => [stored table, stored database].flatten
  | .partitions table partition => [stored table, stored partition].flatten
  | .tableProperties table key => [stored table, stored key].flatten
  | .functions _ scope pattern => [stored scope, stored pattern].flatten
  | .createTable table _ => stored table
  | .catalogs pattern => stored pattern
  | .currentNamespace => []⟩

instance : Stored DescribeTarget := ⟨fun
  | .table _ _ name partition column => [stored name, stored partition, stored column].flatten
  | .function _ name => stored name
  | .namespace _ _ name => stored name
  | .query _ q => stored q⟩

instance : Stored Describe := ⟨fun s => stored s.target⟩

instance : Stored CallProcedure := ⟨fun s => [stored s.procedure, stored s.args].flatten⟩

instance : Stored LoadData := ⟨fun s => [stored s.path, stored s.table, stored s.partition].flatten⟩

instance : Stored LoadFile := ⟨fun s => [stored s.path, stored s.table, stored s.options].flatten⟩

instance : Stored ExportTable :=
  ⟨fun s =>
    [stored s.withClause, stored s.table, stored s.partition, stored s.path,
      stored s.options].flatten⟩

mutual

def TunnelValue.strings : TunnelValue → List String
  | .scalar text => [text]
  | .list items => TunnelValue.itemStrings items

def TunnelValue.itemStrings : List TunnelValue → List String
  | [] => []
  | v :: vs => v.strings ++ TunnelValue.itemStrings vs

end

instance : Stored TunnelValue := ⟨TunnelValue.strings⟩

@[simp] theorem TunnelValue.stored_eq (v : TunnelValue) : stored v = v.strings := rfl

@[simp] theorem TunnelValue.itemStrings_eq (vs : List TunnelValue) :
    TunnelValue.itemStrings vs = stored vs := by
  induction vs with
  | nil => rfl
  | cons v vs ih => exact congrArg (v.strings ++ ·) ih

instance : Stored TunnelProperty := ⟨fun p => [[p.key], stored p.value].flatten⟩

instance : Stored DataTunnel :=
  ⟨fun s =>
    [[stored s.source, stored s.sourceOptions].flatten, stored s.transform,
      [stored s.sink, stored s.sinkOptions].flatten].flatten⟩

instance : Stored MergeFiles :=
  ⟨fun s => [stored s.table, stored s.partition, stored s.options].flatten⟩

def Statement.strings : Statement → List String
  | .query s => stored s
  | .insert s => stored s
  | .multiInsert s => stored s
  | .update s => stored s
  | .delete s => stored s
  | .merge s => stored s
  | .createTable s => stored s
  | .createView s => stored s
  | .createSourceView s => stored s
  | .alterViewQuery s => stored s
  | .alterTable s => stored s
  | .drop s => stored s
  | .createNamespace s => stored s
  | .alterNamespace s => stored s
  | .dropNamespace s => stored s
  | .createFunction s => stored s
  | .dropFunction s => stored s
  | .createIndex s => stored s
  | .dropIndex s => stored s
  | .truncate s => stored s
  | .repairTable s => stored s
  | .analyze s => stored s
  | .analyzeTables s => stored s
  | .commentOn s => stored s
  | .use s => stored s
  | .setCatalog name => [name]
  | .setConfig s => stored s
  | .reset key => stored key
  | .show s => stored s
  | .describe s => stored s
  | .explain _ s => s.strings
  | .call s => stored s
  | .loadData s => stored s
  | .loadFile s => stored s
  | .exportTable s => stored s
  | .dataTunnel s => stored s
  | .mergeFiles s => stored s

instance : Stored Statement := ⟨Statement.strings⟩

end SqlTidy
