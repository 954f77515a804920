import SqlTidy.Tree.Statement

/-!
# Properties of every node

`every P x` says that each node of each tree in `x` has the property `P`, however deep it stands: in an
expression of a query that is itself part of an expression, or in a clause of a statement.

As with the strings of `SqlTidy.Proofs.Stored`, what a rule of the grammar gives back is a tree, a part of a
statement, or a list, an option or a pair of such things. So `every` is a class, and what there is to look
through is found by the type alone. Parts that hold no expression and no query do not appear in it.
-/

namespace SqlTidy

/-- A property that a node has by itself and by what stands right below it. -/
abbrev NodeProperty := ⦃c : Category⦄ → Tree c → Prop

/-- Types whose values may hold trees. -/
class Trees (α : Type) where
  every : NodeProperty → α → Prop

export Trees (every)

namespace Trees

variable {α β : Type}

instance [Trees α] : Trees (List α) := ⟨fun P as => ∀ a ∈ as, every P a⟩

instance [Trees α] : Trees (Option α) := ⟨fun P o => ∀ a ∈ o, every P a⟩

instance [Trees α] [Trees β] : Trees (α × β) := ⟨fun P p => every P p.1 ∧ every P p.2⟩

instance : Trees Bool := ⟨fun _ _ => True⟩

instance : Trees String := ⟨fun _ _ => True⟩

instance : Trees Quantifier := ⟨fun _ _ => True⟩

variable [Trees α] {P : NodeProperty} {a : α} {as : List α}

theorem every_none : every P (none : Option α) := nofun

theorem every_some (h : every P a) : every P (some a) := by
  rintro _ ⟨⟩
  exact h

theorem every_nil : every P ([] : List α) := nofun

theorem every_cons (h : every P a) (hs : every P as) : every P (a :: as) :=
  List.forall_mem_cons.2 ⟨h, hs⟩

end Trees

/-! ## Expressions and queries -/

/-- Every node of a tree has a property. Lists and options of trees are no nodes themselves. -/
def Tree.Every (P : NodeProperty) : {c : Category} → Tree c → Prop
  | _, .nil => True
  | _, .cons head tail => head.Every P ∧ tail.Every P
  | _, .none => True
  | _, .some value => value.Every P
  | _, .ident name => P (.ident name)
  | _, .compound parts => P (.compound parts)
  | _, .wildcard => P .wildcard
  | _, .qualifiedWildcard qualifier => P (.qualifiedWildcard qualifier)
  | _, .literal value => P (.literal value)
  | _, .typedLiteral type value => P (.typedLiteral type value)
  | _, .interval parts upTo => P (.interval parts upTo)
  | _, .unary op operand => P (.unary op operand) ∧ operand.Every P
  | _, .binary op left right => P (.binary op left right) ∧ left.Every P ∧ right.Every P
  | _, .between tested negated low high =>
    P (.between tested negated low high) ∧ tested.Every P ∧ low.Every P ∧ high.Every P
  | _, .inList tested negated items =>
    P (.inList tested negated items) ∧ tested.Every P ∧ items.Every P
  | _, .inQuery tested negated q => P (.inQuery tested negated q) ∧ tested.Every P ∧ q.Every P
  | _, .like tested negated op pattern escape =>
    P (.like tested negated op pattern escape) ∧ tested.Every P ∧ pattern.Every P
  | _, .is tested negated test => P (.is tested negated test) ∧ tested.Every P
  | _, .distinctFrom tested negated other =>
    P (.distinctFrom tested negated other) ∧ tested.Every P ∧ other.Every P
  | _, .function c => P (.function c) ∧ c.Every P
  | _, .case operand branches otherwise =>
    P (.case operand branches otherwise) ∧ operand.Every P ∧ branches.Every P ∧ otherwise.Every P
  | _, .cast form operand type => P (.cast form operand type) ∧ operand.Every P
  | _, .extract part source => P (.extract part source) ∧ source.Every P
  | _, .substring name source start length keywordForm =>
    P (.substring name source start length keywordForm) ∧ source.Every P ∧ start.Every P ∧
      length.Every P
  | _, .trim side characters source =>
    P (.trim side characters source) ∧ characters.Every P ∧ source.Every P
  | _, .position needle haystack =>
    P (.position needle haystack) ∧ needle.Every P ∧ haystack.Every P
  | _, .overlay target placing start length =>
    P (.overlay target placing start length) ∧ target.Every P ∧ placing.Every P ∧ start.Every P ∧
      length.Every P
  | _, .firstLast last operand ignoreNulls =>
    P (.firstLast last operand ignoreNulls) ∧ operand.Every P
  | _, .datetime name unit args => P (.datetime name unit args) ∧ args.Every P
  | _, .currentValue name => P (.currentValue name)
  | _, .struct fields => P (.struct fields) ∧ fields.Every P
  | _, .existsQuery q => P (.existsQuery q) ∧ q.Every P
  | _, .subquery q => P (.subquery q) ∧ q.Every P
  | _, .row items => P (.row items) ∧ items.Every P
  | _, .paren inner => P (.paren inner) ∧ inner.Every P
  | _, .lambda params parenthesized body =>
    P (.lambda params parenthesized body) ∧ body.Every P
  | _, .subscript base index => P (.subscript base index) ∧ base.Every P ∧ index.Every P
  | _, .field base name => P (.field base name) ∧ base.Every P
  | _, .call name quantifier args withinGroup filter nulls overWindow =>
    P (.call name quantifier args withinGroup filter nulls overWindow) ∧ args.Every P ∧
      withinGroup.Every P ∧ filter.Every P ∧ overWindow.Every P
  | _, .positional value => P (.positional value) ∧ value.Every P
  | _, .named name value => P (.named name value) ∧ value.Every P
  | _, .branch condition result =>
    P (.branch condition result) ∧ condition.Every P ∧ result.Every P
  | _, .windowName name => P (.windowName name)
  | _, .windowNameParen name => P (.windowNameParen name)
  | _, .windowInline definition => P (.windowInline definition) ∧ definition.Every P
  | _, .windowDefinition partitionBy distribute orderBy sort clusterBy bounds =>
    P (.windowDefinition partitionBy distribute orderBy sort clusterBy bounds) ∧
      partitionBy.Every P ∧ orderBy.Every P ∧ clusterBy.Every P ∧ bounds.Every P
  | _, .frame unit start stop => P (.frame unit start stop) ∧ start.Every P ∧ stop.Every P
  | _, .currentRow => P .currentRow
  | _, .unboundedPreceding => P .unboundedPreceding
  | _, .unboundedFollowing => P .unboundedFollowing
  | _, .preceding distance => P (.preceding distance) ∧ distance.Every P
  | _, .following distance => P (.following distance) ∧ distance.Every P
  | _, .orderItem key direction nulls => P (.orderItem key direction nulls) ∧ key.Every P
  | _, .selectItem value asName => P (.selectItem value asName) ∧ value.Every P
  | _, .query tables body clauses =>
    P (.query tables body clauses) ∧ tables.Every P ∧ body.Every P ∧ clauses.Every P
  | _, .withClause tables => P (.withClause tables) ∧ tables.Every P
  | _, .commonTable name columns q => P (.commonTable name columns q) ∧ q.Every P
  | _, .selectBody s => P (.selectBody s) ∧ s.Every P
  | _, .setOperation left op quantifier right =>
    P (.setOperation left op quantifier right) ∧ left.Every P ∧ right.Every P
  | _, .nestedQuery q => P (.nestedQuery q) ∧ q.Every P
  | _, .valuesBody rows asName => P (.valuesBody rows asName) ∧ rows.Every P
  | _, .tableBody name => P (.tableBody name)
  | _, .fromFirst source bodies => P (.fromFirst source bodies) ∧ source.Every P ∧ bodies.Every P
  | _, .fromBody s clauses => P (.fromBody s clauses) ∧ s.Every P ∧ clauses.Every P
  | _, .select hints quantifier items source condition grouping having windows =>
    P (.select hints quantifier items source condition grouping having windows) ∧ hints.Every P ∧
      items.Every P ∧ source.Every P ∧ condition.Every P ∧ grouping.Every P ∧ having.Every P ∧
      windows.Every P
  | _, .hint functions => P (.hint functions) ∧ functions.Every P
  | _, .hintFunction name args => P (.hintFunction name args) ∧ args.Every P
  | _, .fromClause relations views pivoting =>
    P (.fromClause relations views pivoting) ∧ relations.Every P ∧ views.Every P ∧ pivoting.Every P
  | _, .relation primary joins => P (.relation primary joins) ∧ primary.Every P ∧ joins.Every P
  | _, .table name sampling asName => P (.table name sampling asName) ∧ sampling.Every P
  | _, .derived q sampling asName =>
    P (.derived q sampling asName) ∧ q.Every P ∧ sampling.Every P
  | _, .valuesTable rows asName => P (.valuesTable rows asName) ∧ rows.Every P
  | _, .tableFunction name args asName => P (.tableFunction name args asName) ∧ args.Every P
  | _, .nestedRelation inner asName => P (.nestedRelation inner asName) ∧ inner.Every P
  | _, .samplePercent amount => P (.samplePercent amount) ∧ amount.Every P
  | _, .sampleRows amount => P (.sampleRows amount) ∧ amount.Every P
  | _, .sampleBucket numerator denominator key =>
    P (.sampleBucket numerator denominator key) ∧ key.Every P
  | _, .join natural kind factor constraint =>
    P (.join natural kind factor constraint) ∧ factor.Every P ∧ constraint.Every P
  | _, .on condition => P (.on condition) ∧ condition.Every P
  | _, .using columns => P (.using columns)
  | _, .lateralView outer name args asName explicitAs columns =>
    P (.lateralView outer name args asName explicitAs columns) ∧ args.Every P
  | _, .pivot aggregates columns values =>
    P (.pivot aggregates columns values) ∧ aggregates.Every P ∧ values.Every P
  | _, .groupBy items modifier => P (.groupBy items modifier) ∧ items.Every P
  | _, .groupingExpr value => P (.groupingExpr value) ∧ value.Every P
  | _, .analytics kind elements => P (.analytics kind elements) ∧ elements.Every P
  | _, .elementSet members => P (.elementSet members) ∧ members.Every P
  | _, .elementExpr value => P (.elementExpr value) ∧ value.Every P
  | _, .namedWindow name w => P (.namedWindow name w) ∧ w.Every P
  | _, .organization orderBy clusterBy distributeBy sortBy rowLimit offset =>
    P (.organization orderBy clusterBy distributeBy sortBy rowLimit offset) ∧ orderBy.Every P ∧
      clusterBy.Every P ∧ distributeBy.Every P ∧ sortBy.Every P ∧ rowLimit.Every P ∧ offset.Every P
  | _, .limitAll => P .limitAll
  | _, .limitCount count => P (.limitCount count) ∧ count.Every P

instance {c : Category} : Trees (Tree c) := ⟨fun P t => t.Every P⟩

namespace Tree

variable {c : Category} {P : NodeProperty}

theorem every_ofList {ts : List (Tree c)} (h : every P ts) : (ofList ts).Every P := by
  induction ts with
  | nil => trivial
  | cons t ts ih =>
    obtain ⟨ht, hts⟩ := List.forall_mem_cons.1 h
    exact ⟨ht, ih hts⟩

theorem every_ofOption {o : Option (Tree c)} (h : every P o) : (ofOption o).Every P := by
  cases o with
  | none => trivial
  | some t => exact h t rfl

end Tree

/-! ## Statements that change rows -/

instance : Trees PartitionValue := ⟨fun P v => every P v.value⟩

instance : Trees PartitionSpec := ⟨fun P s => every P s.values⟩

instance : Trees InsertTarget := ⟨fun P t => every P t.partition⟩

instance : Trees Insert :=
  ⟨fun P s => every P s.withClause ∧ every P s.target ∧ every P s.source⟩

instance : Trees MultiInsertBody :=
  ⟨fun P b => every P b.target ∧ every P b.select ∧ every P b.organization⟩

instance : Trees MultiInsert :=
  ⟨fun P s => every P s.withClause ∧ every P s.source ∧ every P s.inserts⟩

instance : Trees Assignment := ⟨fun P a => every P a.value⟩

instance : Trees Update := ⟨fun P s => every P s.assignments ∧ every P s.condition⟩

instance : Trees Delete := ⟨fun P s => every P s.condition⟩

instance : Trees MergeAction := ⟨fun
  | _, .updateAll | _, .delete | _, .insertAll => True
  | P, .update assignments => every P assignments
  | P, .insert _ values => every P values⟩

instance : Trees MergeClause := ⟨fun P c => every P c.condition ∧ every P c.action⟩

instance : Trees Merge :=
  ⟨fun P s => every P s.source ∧ every P s.condition ∧ every P s.clauses⟩

/-! ## Statements that define things -/

instance : Trees Property := ⟨fun P p => every P p.value⟩

instance : Trees ColumnDefinition := ⟨fun P c => every P c.default⟩

instance : Trees PartitionField := ⟨fun
  | _, .column _ | _, .typed _ _ => True
  | P, .transform value => every P value⟩

instance : Trees BucketSpec := ⟨fun P b => every P b.sortedBy⟩

instance : Trees TableClause := ⟨fun
  | P, .partitionedBy fields => every P fields
  | P, .clusteredBy spec => every P spec
  | P, .options properties => every P properties
  | P, .tableProperties properties => every P properties
  | _, .primaryKey _ | _, .storedAs _ | _, .location _ | _, .lifecycle _ | _, .comment _ => True⟩

instance : Trees TableClauses :=
  ⟨fun P c =>
    every P c.partitionedBy ∧ every P c.clusteredBy ∧ every P c.options ∧
      every P c.tableProperties⟩

instance : Trees IndexColumn := ⟨fun P c => every P c.options⟩

instance : Trees CreateTable :=
  ⟨fun P s => every P s.columns ∧ every P s.clauses ∧ every P s.query⟩

instance : Trees CreateView := ⟨fun P s => every P s.tableProperties ∧ every P s.query⟩

instance : Trees CreateSourceView := ⟨fun P s => every P s.columns ∧ every P s.options⟩

instance : Trees CreateNamespace := ⟨fun P s => every P s.properties⟩

instance : Trees CreateIndex := ⟨fun P s => every P s.columns ∧ every P s.options⟩

instance : Trees AlterAction := ⟨fun
  | P, .setProperties properties => every P properties
  | P, .unsetProperties _ keys => every P keys
  | P, .addColumns _ _ columns => every P columns
  | P, .changeColumn partition _ _ definition => every P partition ∧ every P definition
  | P, .replaceColumns partition columns => every P partition ∧ every P columns
  | P, .addPartitions _ partitions => every P partitions
  | P, .dropPartitions _ partitions _ => every P partitions
  | P, .renamePartition old new => every P old ∧ every P new
  | P, .setLocation partition _ => every P partition
  | P, .touch partition => every P partition
  | _, .renameTo _ | _, .dropColumns _ _ _ _ | _, .renameColumn _ _ | _, .alterColumn _ _ _ _
  | _, .recoverPartitions => True⟩

instance : Trees AlterTable := ⟨fun P s => every P s.action⟩

instance : Trees AlterViewQuery := ⟨fun P s => every P s.query⟩

instance : Trees AlterNamespaceAction := ⟨fun
  | P, .setProperties _ properties => every P properties
  | _, .setLocation _ => True⟩

instance : Trees AlterNamespace := ⟨fun P s => every P s.action⟩

/-! ## Commands -/

instance : Trees Truncate := ⟨fun P s => every P s.partition⟩

instance : Trees Analyze := ⟨fun P s => every P s.partition⟩

instance : Trees Show := ⟨fun
  | P, .tableExtended _ _ partition => every P partition
  | P, .partitions _ partition => every P partition
  | _, .namespaces _ _ _ | _, .tables _ _ | _, .views _ _ | _, .columns _ _
  | _, .tableProperties _ _ | _, .functions _ _ _ | _, .createTable _ _ | _, .catalogs _
  | _, .currentNamespace => True⟩

instance : Trees DescribeTarget := ⟨fun
  | P, .table _ _ _ partition _ => every P partition
  | P, .query _ q => every P q
  | _, .function _ _ | _, .namespace _ _ _ => True⟩

instance : Trees Describe := ⟨fun P s => every P s.target⟩

instance : Trees CallProcedure := ⟨fun P s => every P s.args⟩

instance : Trees LoadData := ⟨fun P s => every P s.partition⟩

instance : Trees LoadFile := ⟨fun P s => every P s.options⟩

instance : Trees ExportTable :=
  ⟨fun P s => every P s.withClause ∧ every P s.partition ∧ every P s.options⟩

instance : Trees MergeFiles := ⟨fun P s => every P s.partition ∧ every P s.options⟩

def Statement.Every (P : NodeProperty) : Statement → Prop
  | .query s => every P s
  | .insert s => every P s
  | .multiInsert s => every P s
  | .update s => every P s
  | .delete s => every P s
  | .merge s => every P s
  | .createTable s => every P s
  | .createView s => every P s
  | .createSourceView s => every P s
  | .alterViewQuery s => every P s
  | .alterTable s => every P s
  | .createNamespace s => every P s
  | .alterNamespace s => every P s
  | .createIndex s => every P s
  | .truncate s => every P s
  | .analyze s => every P s
  | .show s => every P s
  | .describe s => every P s
  | .explain _ s => s.Every P
  | .call s => every P s
  | .loadData s => every P s
  | .loadFile s => every P s
  | .exportTable s => every P s
  | .mergeFiles s => every P s
  | .drop _ | .dropNamespace _ | .createFunction _ | .dropFunction _ | .dropIndex _ | .repairTable _
  | .analyzeTables _ | .commentOn _ | .use _ | .setCatalog _ | .setConfig _ | .reset _
  | .dataTunnel _ => True

instance : Trees Statement := ⟨fun P s => s.Every P⟩

end SqlTidy
