import SqlTidy.Grammar.Parse
import SqlTidy.Proofs.Letter
import SqlTidy.Tree.Statement

/-!
# Folding letter case

`foldCase` puts in small letters every string that comes from an unquoted word: of a token, of an
error, of a tree. What is equal after folding is equal but for the case of words.

**Mixed strings.** A few strings of a tree may come from a word or from a literal: the parameters of a
type, the keys of properties and the scalars of a tunnel. Their first characters tell which it was, and
a dotted name shows its quoted parts by their backticks, so `foldWritten` folds the words in them and
nothing else.

**Settings.** `SET`, `SET CATALOG` and `RESET` keep a piece of the source text, with the blanks and
comments in it. That piece is not made of tokens, so folding forgets it.
-/

namespace SqlTidy

/-! ## Written texts -/

namespace Text

/-- Puts in small letters what stands outside of backticks; `quoted` says that a backtick is open. -/
def foldOutside : (quoted : Bool) → List Char → List Char
  | _, [] => []
  | quoted, c :: cs =>
    if c = '\x60' then c :: foldOutside (!quoted) cs
    else (if quoted then c else c.toLower) :: foldOutside quoted cs

/-- Whether a text starts like a number or a string literal, which no word does. -/
def startsLiteral : List Char → Bool
  | c :: cs => c.isDigit || c = '.' || c = '\x27' || c = '\x22' ||
      (c = 'r' || c = 'R') && (cs.head? = some '\x27' || cs.head? = some '\x22')
  | [] => false

/-- Folds a word or a dotted name, and leaves a literal as it is. -/
def foldPlain (cs : List Char) : List Char :=
  if startsLiteral cs then cs else foldOutside false cs

/-- Folds a text of one or a few tokens as it was written, with a sign in front or without. -/
def foldWritten (s : String) : String :=
  String.ofList <| match s.toList with
    | '-' :: cs => '-' :: foldPlain cs
    | cs => foldPlain cs

end Text

open Text

/-! ## Tokens and errors -/

def Token.foldCase : Token → Token
  | .word w => .word (lower w)
  | t => t

/-- The tokens of an input with their words folded. The source and the places in it are forgotten. -/
def Input.foldCase (i : Input) : Input :=
  ⟨"", i.tokens.map fun t => ⟨t.token.foldCase, 0, 0⟩⟩

def Cause.foldCase : Cause → Cause
  | .expected what found => .expected what found.foldCase
  | .trailing found => .trailing found.foldCase
  | cause => cause

/-- The error with the word in it folded and without the place where it happened. -/
def Error.foldCase : Error → Error
  | .parse fault => .parse ⟨fault.cause.foldCase, fault.span.map fun _ => ⟨0, 0⟩, none⟩
  | e => e

theorem Error.isEndless_foldCase (e : Error) : e.foldCase.isEndless = e.isEndless := by
  cases e with
  | parse fault => cases h : fault.cause <;> simp [foldCase, isEndless, Cause.foldCase, h]
  | _ => rfl

/-! ## Names and types -/

def Ident.foldCase (i : Ident) : Ident := if i.quoted then i else ⟨lower i.text, false⟩

def DottedName.foldCase (n : DottedName) : DottedName := ⟨n.parts.map Ident.foldCase⟩

mutual

def DataType.foldCase : DataType → DataType
  | .primitive name params => .primitive (lower name) (params.map foldWritten)
  | .array word element => .array (lower word) element.foldCase
  | .map word key value => .map (lower word) key.foldCase value.foldCase
  | .struct word fields => .struct (lower word) (DataType.foldFields fields)
  | .interval start stop => .interval start stop

def DataType.foldFields : List StructField → List StructField
  | [] => []
  | f :: fs => f.foldCase :: DataType.foldFields fs

def StructField.foldCase : StructField → StructField
  | ⟨name, colon, type, notNull, comment⟩ =>
    ⟨name.foldCase, colon, type.foldCase, notNull, comment⟩

end

theorem DataType.foldFields_eq_map (fields : List StructField) :
    DataType.foldFields fields = fields.map StructField.foldCase := by
  induction fields with
  | nil => rfl
  | cons f fs ih => rw [DataType.foldFields, ih, List.map_cons]

/-! ## Expressions and queries -/

def AliasName.foldCase : AliasName → AliasName
  | .single name => .single name.foldCase
  | .multi names => .multi (names.map Ident.foldCase)

def Alias.foldCase (a : Alias) : Alias := ⟨a.explicitAs, a.name.foldCase⟩

def TableAlias.foldCase (a : TableAlias) : TableAlias :=
  ⟨a.explicitAs, a.name.foldCase, a.columns.map Ident.foldCase⟩

namespace Tree

/-- The words that the grammar has already put in one case, such as the units of an interval, stay. -/
def foldCase : {c : Category} → Tree c → Tree c
  | _, .nil => .nil
  | _, .cons head tail => .cons head.foldCase tail.foldCase
  | _, .none => .none
  | _, .some value => .some value.foldCase
  | _, .ident name => .ident name.foldCase
  | _, .compound parts => .compound (parts.map Ident.foldCase)
  | _, .wildcard => .wildcard
  | _, .qualifiedWildcard qualifier => .qualifiedWildcard qualifier.foldCase
  | _, .literal value => .literal value
  | _, .typedLiteral type value => .typedLiteral type value
  | _, .interval parts upTo => .interval parts upTo
  | _, .unary op operand => .unary op operand.foldCase
  | _, .binary op left right => .binary op left.foldCase right.foldCase
  | _, .between tested negated low high =>
    .between tested.foldCase negated low.foldCase high.foldCase
  | _, .inList tested negated items => .inList tested.foldCase negated items.foldCase
  | _, .inQuery tested negated q => .inQuery tested.foldCase negated q.foldCase
  | _, .like tested negated op pattern escape =>
    .like tested.foldCase negated op pattern.foldCase escape
  | _, .is tested negated test => .is tested.foldCase negated test
  | _, .distinctFrom tested negated other => .distinctFrom tested.foldCase negated other.foldCase
  | _, .function f => .function f.foldCase
  | _, .case operand branches otherwise =>
    .case operand.foldCase branches.foldCase otherwise.foldCase
  | _, .cast form operand type => .cast form operand.foldCase type.foldCase
  | _, .extract part source => .extract part source.foldCase
  | _, .substring name source start length keywordForm =>
    .substring name source.foldCase start.foldCase length.foldCase keywordForm
  | _, .trim side characters source => .trim side characters.foldCase source.foldCase
  | _, .position needle haystack => .position needle.foldCase haystack.foldCase
  | _, .overlay target placing start length =>
    .overlay target.foldCase placing.foldCase start.foldCase length.foldCase
  | _, .firstLast last operand ignoreNulls => .firstLast last operand.foldCase ignoreNulls
  | _, .datetime name unit args => .datetime name unit args.foldCase
  | _, .currentValue name => .currentValue name
  | _, .struct fields => .struct fields.foldCase
  | _, .existsQuery q => .existsQuery q.foldCase
  | _, .subquery q => .subquery q.foldCase
  | _, .row items => .row items.foldCase
  | _, .paren inner => .paren inner.foldCase
  | _, .lambda params parenthesized body =>
    .lambda (params.map Ident.foldCase) parenthesized body.foldCase
  | _, .subscript base index => .subscript base.foldCase index.foldCase
  | _, .field base name => .field base.foldCase name.foldCase
  | _, .call name quantifier args withinGroup filter nullTreatment overWindow =>
    .call name.foldCase quantifier args.foldCase withinGroup.foldCase filter.foldCase
      nullTreatment overWindow.foldCase
  | _, .positional value => .positional value.foldCase
  | _, .named name value => .named name.foldCase value.foldCase
  | _, .branch condition result => .branch condition.foldCase result.foldCase
  | _, .windowName name => .windowName name.foldCase
  | _, .windowNameParen name => .windowNameParen name.foldCase
  | _, .windowInline definition => .windowInline definition.foldCase
  | _, .windowDefinition partitionBy distribute orderBy sort clusterBy rows =>
    .windowDefinition partitionBy.foldCase distribute orderBy.foldCase sort clusterBy.foldCase
      rows.foldCase
  | _, .frame unit start stop => .frame unit start.foldCase stop.foldCase
  | _, .currentRow => .currentRow
  | _, .unboundedPreceding => .unboundedPreceding
  | _, .unboundedFollowing => .unboundedFollowing
  | _, .preceding distance => .preceding distance.foldCase
  | _, .following distance => .following distance.foldCase
  | _, .orderItem key direction nulls => .orderItem key.foldCase direction nulls
  | _, .selectItem value asName => .selectItem value.foldCase (asName.map Alias.foldCase)
  | _, .query tables body clauses => .query tables.foldCase body.foldCase clauses.foldCase
  | _, .withClause tables => .withClause tables.foldCase
  | _, .commonTable name columns q =>
    .commonTable name.foldCase (columns.map Ident.foldCase) q.foldCase
  | _, .selectBody body => .selectBody body.foldCase
  | _, .setOperation left op quantifier right =>
    .setOperation left.foldCase op quantifier right.foldCase
  | _, .nestedQuery q => .nestedQuery q.foldCase
  | _, .valuesBody rows asName => .valuesBody rows.foldCase (asName.map TableAlias.foldCase)
  | _, .tableBody name => .tableBody name.foldCase
  | _, .fromFirst source bodies => .fromFirst source.foldCase bodies.foldCase
  | _, .fromBody body clauses => .fromBody body.foldCase clauses.foldCase
  | _, .select hints quantifier items source condition grouping having windows =>
    .select hints.foldCase quantifier items.foldCase source.foldCase condition.foldCase
      grouping.foldCase having.foldCase windows.foldCase
  | _, .hint functions => .hint functions.foldCase
  | _, .hintFunction name args => .hintFunction name.foldCase args.foldCase
  | _, .fromClause relations lateralViews pivoted =>
    .fromClause relations.foldCase lateralViews.foldCase pivoted.foldCase
  | _, .relation primary joins => .relation primary.foldCase joins.foldCase
  | _, .table name sample asName =>
    .table name.foldCase sample.foldCase (asName.map TableAlias.foldCase)
  | _, .derived q sample asName =>
    .derived q.foldCase sample.foldCase (asName.map TableAlias.foldCase)
  | _, .valuesTable rows asName => .valuesTable rows.foldCase (asName.map TableAlias.foldCase)
  | _, .tableFunction name args asName =>
    .tableFunction name.foldCase args.foldCase (asName.map TableAlias.foldCase)
  | _, .nestedRelation inner asName =>
    .nestedRelation inner.foldCase (asName.map TableAlias.foldCase)
  | _, .samplePercent amount => .samplePercent amount.foldCase
  | _, .sampleRows amount => .sampleRows amount.foldCase
  | _, .sampleBucket numerator denominator key => .sampleBucket numerator denominator key.foldCase
  | _, .join natural kind factor constraint =>
    .join natural kind factor.foldCase constraint.foldCase
  | _, .on condition => .on condition.foldCase
  | _, .using columns => .using (columns.map Ident.foldCase)
  | _, .lateralView outer generator args tableAlias explicitAs columns =>
    .lateralView outer generator.foldCase args.foldCase (tableAlias.map Ident.foldCase) explicitAs
      (columns.map Ident.foldCase)
  | _, .pivot aggregates columns values =>
    .pivot aggregates.foldCase (columns.map DottedName.foldCase) values.foldCase
  | _, .groupBy items modifier => .groupBy items.foldCase modifier
  | _, .groupingExpr value => .groupingExpr value.foldCase
  | _, .analytics kind elements => .analytics kind elements.foldCase
  | _, .elementSet members => .elementSet members.foldCase
  | _, .elementExpr value => .elementExpr value.foldCase
  | _, .namedWindow name window => .namedWindow name.foldCase window.foldCase
  | _, .organization orderBy clusterBy distributeBy sortBy limit offset =>
    .organization orderBy.foldCase clusterBy.foldCase distributeBy.foldCase sortBy.foldCase
      limit.foldCase offset.foldCase
  | _, .limitAll => .limitAll
  | _, .limitCount count => .limitCount count.foldCase

variable {c : Category}

@[simp] theorem foldCase_ofList (ts : List (Tree c)) :
    (ofList ts).foldCase = ofList (ts.map foldCase) := by
  induction ts with
  | nil => rfl
  | cons t ts ih => exact congrArg (cons t.foldCase) ih

@[simp] theorem foldCase_ofOption (t : Option (Tree c)) :
    (ofOption t).foldCase = ofOption (t.map foldCase) := by
  cases t <;> rfl

end Tree

/-! ## Statements that change rows -/

def PartitionValue.foldCase (v : PartitionValue) : PartitionValue :=
  ⟨v.name.foldCase, v.value.map Tree.foldCase⟩

def PartitionSpec.foldCase (s : PartitionSpec) : PartitionSpec :=
  ⟨s.values.map PartitionValue.foldCase⟩

def InsertTarget.foldCase (t : InsertTarget) : InsertTarget :=
  ⟨t.overwrite, t.tableWord, t.table.foldCase, t.partition.map PartitionSpec.foldCase,
    t.ifNotExists, t.columns.map Ident.foldCase⟩

def Insert.foldCase (s : Insert) : Insert :=
  ⟨s.withClause.map Tree.foldCase, s.target.foldCase, s.source.foldCase⟩

def MultiInsertBody.foldCase (b : MultiInsertBody) : MultiInsertBody :=
  ⟨b.target.foldCase, b.select.foldCase, b.organization.foldCase⟩

def MultiInsert.foldCase (s : MultiInsert) : MultiInsert :=
  ⟨s.withClause.map Tree.foldCase, s.source.foldCase, s.inserts.map MultiInsertBody.foldCase⟩

def Assignment.foldCase (a : Assignment) : Assignment := ⟨a.target.foldCase, a.value.foldCase⟩

def Update.foldCase (s : Update) : Update :=
  ⟨s.table.foldCase, s.asName.map TableAlias.foldCase, s.assignments.map Assignment.foldCase,
    s.condition.map Tree.foldCase⟩

def Delete.foldCase (s : Delete) : Delete :=
  ⟨s.table.foldCase, s.asName.map TableAlias.foldCase, s.condition.map Tree.foldCase⟩

def MergeAction.foldCase : MergeAction → MergeAction
  | .updateAll => .updateAll
  | .update assignments => .update (assignments.map Assignment.foldCase)
  | .delete => .delete
  | .insertAll => .insertAll
  | .insert columns values => .insert (columns.map Ident.foldCase) (values.map Tree.foldCase)

def MergeClause.foldCase (c : MergeClause) : MergeClause :=
  ⟨c.kind, c.condition.map Tree.foldCase, c.action.foldCase⟩

def Merge.foldCase (s : Merge) : Merge :=
  ⟨s.target.foldCase, s.targetAlias.map TableAlias.foldCase, s.source.foldCase,
    s.condition.foldCase, s.clauses.map MergeClause.foldCase⟩

/-! ## Statements that define things -/

def Property.foldCase (p : Property) : Property := ⟨foldWritten p.key, p.value.map Tree.foldCase⟩

def ColumnPosition.foldCase : ColumnPosition → ColumnPosition
  | .first => .first
  | .after column => .after column.foldCase

def ColumnDefinition.foldCase (c : ColumnDefinition) : ColumnDefinition :=
  ⟨c.name.foldCase, c.type.foldCase, c.notNull, c.default.map Tree.foldCase, c.comment,
    c.position.map ColumnPosition.foldCase⟩

def PartitionField.foldCase : PartitionField → PartitionField
  | .column name => .column name.foldCase
  | .typed name type => .typed name.foldCase type.foldCase
  | .transform value => .transform value.foldCase

def BucketSpec.foldCase (s : BucketSpec) : BucketSpec :=
  ⟨s.columns.map Ident.foldCase, s.sortedBy.map Tree.foldCase, s.buckets⟩

def TableClause.foldCase : TableClause → TableClause
  | .primaryKey columns => .primaryKey (columns.map Ident.foldCase)
  | .partitionedBy fields => .partitionedBy (fields.map PartitionField.foldCase)
  | .clusteredBy spec => .clusteredBy spec.foldCase
  | .storedAs format => .storedAs format.foldCase
  | .location path => .location path
  | .lifecycle days => .lifecycle days
  | .options properties => .options (properties.map Property.foldCase)
  | .tableProperties properties => .tableProperties (properties.map Property.foldCase)
  | .comment text => .comment text

def TableClauses.foldCase (c : TableClauses) : TableClauses :=
  ⟨c.primaryKey.map Ident.foldCase, c.partitionedBy.map PartitionField.foldCase,
    c.clusteredBy.map BucketSpec.foldCase, c.storedAs.map Ident.foldCase, c.location, c.lifecycle,
    c.options.map Property.foldCase, c.tableProperties.map Property.foldCase, c.comment⟩

def ViewColumn.foldCase (c : ViewColumn) : ViewColumn := ⟨c.name.foldCase, c.comment⟩

def IndexColumn.foldCase (c : IndexColumn) : IndexColumn :=
  ⟨c.name.foldCase, c.options.map Property.foldCase⟩

def CreateTable.foldCase (s : CreateTable) : CreateTable :=
  ⟨s.mode, s.external, s.ifNotExists, s.name.foldCase,
    s.columns.map (List.map ColumnDefinition.foldCase), s.provider.map Ident.foldCase,
    s.clauses.foldCase, s.query.map Tree.foldCase⟩

def CreateView.foldCase (s : CreateView) : CreateView :=
  ⟨s.orReplace, s.global, s.temporary, s.ifNotExists, s.name.foldCase,
    s.columns.map (List.map ViewColumn.foldCase), s.comment, s.partitionedOn.map Ident.foldCase,
    s.tableProperties.map Property.foldCase, s.query.foldCase⟩

def CreateSourceView.foldCase (s : CreateSourceView) : CreateSourceView :=
  ⟨s.orReplace, s.global, s.name.foldCase, s.columns.map (List.map ColumnDefinition.foldCase),
    s.provider.foldCase, s.options.map Property.foldCase⟩

def CreateNamespace.foldCase (s : CreateNamespace) : CreateNamespace :=
  ⟨s.word, s.ifNotExists, s.name.foldCase, s.comment, s.location, s.dbWord,
    s.properties.map Property.foldCase⟩

def CreateFunction.foldCase (s : CreateFunction) : CreateFunction :=
  { s with name := s.name.foldCase }

def CreateIndex.foldCase (s : CreateIndex) : CreateIndex :=
  ⟨s.ifNotExists, s.name.foldCase, s.tableWord, s.table.foldCase, s.indexType.map Ident.foldCase,
    s.columns.map IndexColumn.foldCase, s.options.map Property.foldCase⟩

def ColumnChange.foldCase : ColumnChange → ColumnChange
  | .type t => .type t.foldCase
  | .position p => .position p.foldCase
  | change => change

def AlterAction.foldCase : AlterAction → AlterAction
  | .renameTo name => .renameTo name.foldCase
  | .setProperties properties => .setProperties (properties.map Property.foldCase)
  | .unsetProperties ifExists keys => .unsetProperties ifExists (keys.map Property.foldCase)
  | .addColumns plural parenthesized columns =>
    .addColumns plural parenthesized (columns.map ColumnDefinition.foldCase)
  | .dropColumns plural ifExists parenthesized columns =>
    .dropColumns plural ifExists parenthesized (columns.map DottedName.foldCase)
  | .renameColumn old new => .renameColumn old.foldCase new.foldCase
  | .alterColumn changeWord columnWord column change =>
    .alterColumn changeWord columnWord column.foldCase change.foldCase
  | .changeColumn partition columnWord column definition =>
    .changeColumn (partition.map PartitionSpec.foldCase) columnWord column.foldCase
      definition.foldCase
  | .replaceColumns partition columns =>
    .replaceColumns (partition.map PartitionSpec.foldCase) (columns.map ColumnDefinition.foldCase)
  | .addPartitions ifNotExists partitions =>
    .addPartitions ifNotExists (partitions.map fun p => (p.1.foldCase, p.2))
  | .dropPartitions ifExists partitions purge =>
    .dropPartitions ifExists (partitions.map PartitionSpec.foldCase) purge
  | .renamePartition old new => .renamePartition old.foldCase new.foldCase
  | .setLocation partition location =>
    .setLocation (partition.map PartitionSpec.foldCase) location
  | .recoverPartitions => .recoverPartitions
  | .touch partition => .touch (partition.map PartitionSpec.foldCase)

def AlterTable.foldCase (s : AlterTable) : AlterTable :=
  ⟨s.view, s.name.foldCase, s.action.foldCase⟩

def AlterViewQuery.foldCase (s : AlterViewQuery) : AlterViewQuery :=
  ⟨s.name.foldCase, s.query.foldCase⟩

def AlterNamespaceAction.foldCase : AlterNamespaceAction → AlterNamespaceAction
  | .setProperties dbWord properties =>
    .setProperties dbWord (properties.map Property.foldCase)
  | .setLocation location => .setLocation location

def AlterNamespace.foldCase (s : AlterNamespace) : AlterNamespace :=
  ⟨s.word, s.name.foldCase, s.action.foldCase⟩

def Drop.foldCase (s : Drop) : Drop := { s with name := s.name.foldCase }

def DropNamespace.foldCase (s : DropNamespace) : DropNamespace :=
  { s with name := s.name.foldCase }

def DropFunction.foldCase (s : DropFunction) : DropFunction := { s with name := s.name.foldCase }

def DropIndex.foldCase (s : DropIndex) : DropIndex :=
  { s with name := s.name.foldCase, table := s.table.foldCase }

/-! ## Commands -/

def Truncate.foldCase (s : Truncate) : Truncate :=
  ⟨s.table.foldCase, s.partition.map PartitionSpec.foldCase⟩

def RepairTable.foldCase (s : RepairTable) : RepairTable := { s with table := s.table.foldCase }

def AnalyzeTarget.foldCase : AnalyzeTarget → AnalyzeTarget
  | .columns names => .columns (names.map DottedName.foldCase)
  | target => target

def Analyze.foldCase (s : Analyze) : Analyze :=
  ⟨s.table.foldCase, s.partition.map PartitionSpec.foldCase, s.target.foldCase⟩

def Scope.foldCase (s : Scope) : Scope := ⟨s.word, s.name.foldCase⟩

def AnalyzeTables.foldCase (s : AnalyzeTables) : AnalyzeTables :=
  ⟨s.scope.map Scope.foldCase, s.noScan⟩

def CommentOn.foldCase (s : CommentOn) : CommentOn := { s with name := s.name.foldCase }

def Use.foldCase (s : Use) : Use := ⟨s.word, s.name.foldCase⟩

def Show.foldCase : Show → Show
  | .namespaces word scope pattern => .namespaces word (scope.map Scope.foldCase) pattern
  | .tables scope pattern => .tables (scope.map Scope.foldCase) pattern
  | .tableExtended scope pattern partition =>
    .tableExtended (scope.map Scope.foldCase) pattern (partition.map PartitionSpec.foldCase)
  | .views scope pattern => .views (scope.map Scope.foldCase) pattern
  | .columns table database => .columns table.foldCase (database.map Scope.foldCase)
  | .partitions table partition =>
    .partitions table.foldCase (partition.map PartitionSpec.foldCase)
  | .tableProperties table key => .tableProperties table.foldCase (key.map foldWritten)
  | .functions kind scope pattern => .functions kind (scope.map Scope.foldCase) pattern
  | .createTable table asSerde => .createTable table.foldCase asSerde
  | .catalogs pattern => .catalogs pattern
  | .currentNamespace => .currentNamespace

def DescribeTarget.foldCase : DescribeTarget → DescribeTarget
  | .table tableWord detail name partition column =>
    .table tableWord detail name.foldCase (partition.map PartitionSpec.foldCase)
      (column.map DottedName.foldCase)
  | .function extended name => .function extended name.foldCase
  | .namespace word extended name => .namespace word extended name.foldCase
  | .query queryWord q => .query queryWord q.foldCase

def Describe.foldCase (s : Describe) : Describe := ⟨s.short, s.target.foldCase⟩

def CallProcedure.foldCase (s : CallProcedure) : CallProcedure :=
  ⟨s.procedure.foldCase, s.args.map Tree.foldCase⟩

def LoadData.foldCase (s : LoadData) : LoadData :=
  ⟨s.isLocal, s.path, s.overwrite, s.table.foldCase, s.partition.map PartitionSpec.foldCase⟩

def LoadFile.foldCase (s : LoadFile) : LoadFile :=
  ⟨s.path, s.tableWord, s.table.foldCase, s.options.map Property.foldCase⟩

def ExportTable.foldCase (s : ExportTable) : ExportTable :=
  ⟨s.withClause.map Tree.foldCase, s.table.foldCase, s.partition.map PartitionSpec.foldCase,
    s.path, s.options.map Property.foldCase⟩

mutual

def TunnelValue.foldCase : TunnelValue → TunnelValue
  | .scalar text => .scalar (foldWritten text)
  | .list items => .list (TunnelValue.foldItems items)

def TunnelValue.foldItems : List TunnelValue → List TunnelValue
  | [] => []
  | v :: vs => v.foldCase :: TunnelValue.foldItems vs

end

theorem TunnelValue.foldItems_eq_map (items : List TunnelValue) :
    TunnelValue.foldItems items = items.map TunnelValue.foldCase := by
  induction items with
  | nil => rfl
  | cons v vs ih => rw [TunnelValue.foldItems, ih, List.map_cons]

def TunnelProperty.foldCase (p : TunnelProperty) : TunnelProperty :=
  ⟨foldWritten p.key, p.value.foldCase⟩

def DataTunnel.foldCase (s : DataTunnel) : DataTunnel :=
  ⟨s.source, s.sourceOptions.map TunnelProperty.foldCase, s.transform, s.sink,
    s.sinkOptions.map TunnelProperty.foldCase⟩

def MergeFiles.foldCase (s : MergeFiles) : MergeFiles :=
  ⟨s.table.foldCase, s.partition.map PartitionSpec.foldCase, s.options.map Property.foldCase⟩

/-- The statement with every word in it folded, and without the source text of a setting. -/
def Statement.foldCase : Statement → Statement
  | .query s => .query s.foldCase
  | .insert s => .insert s.foldCase
  | .multiInsert s => .multiInsert s.foldCase
  | .update s => .update s.foldCase
  | .delete s => .delete s.foldCase
  | .merge s => .merge s.foldCase
  | .createTable s => .createTable s.foldCase
  | .createView s => .createView s.foldCase
  | .createSourceView s => .createSourceView s.foldCase
  | .alterViewQuery s => .alterViewQuery s.foldCase
  | .alterTable s => .alterTable s.foldCase
  | .drop s => .drop s.foldCase
  | .createNamespace s => .createNamespace s.foldCase
  | .alterNamespace s => .alterNamespace s.foldCase
  | .dropNamespace s => .dropNamespace s.foldCase
  | .createFunction s => .createFunction s.foldCase
  | .dropFunction s => .dropFunction s.foldCase
  | .createIndex s => .createIndex s.foldCase
  | .dropIndex s => .dropIndex s.foldCase
  | .truncate s => .truncate s.foldCase
  | .repairTable s => .repairTable s.foldCase
  | .analyze s => .analyze s.foldCase
  | .analyzeTables s => .analyzeTables s.foldCase
  | .commentOn s => .commentOn s.foldCase
  | .use s => .use s.foldCase
  | .setCatalog _ => .setCatalog ""
  | .setConfig _ => .setConfig ⟨none, none⟩
  | .reset _ => .reset none
  | .show s => .show s.foldCase
  | .describe s => .describe s.foldCase
  | .explain mode s => .explain mode s.foldCase
  | .call s => .call s.foldCase
  | .loadData s => .loadData s.foldCase
  | .loadFile s => .loadFile s.foldCase
  | .exportTable s => .exportTable s.foldCase
  | .dataTunnel s => .dataTunnel s.foldCase
  | .mergeFiles s => .mergeFiles s.foldCase

end SqlTidy
