import SqlTidy.Proofs.Outcome
import SqlTidy.Proofs.Trees
import SqlTidy.Proofs.Yield

/-!
# Shapes that hold something

The printer decides by the length of a list whether to print a clause, a comma or a parenthesis. Where a kind
of node always has something in its list, the printer does not ask, and a node with an empty list would come
out as text that is no statement: `CASE END`, `SELECT` without items, a name without parts.

`Tree.Filled` says of one node that none of its lists is empty that may not be. `filled x` says it of all nodes
in `x` and of the parts of statements that are no trees, in particular of every name. As with `every`, what
there is to look through is found by the type alone.

`Stocked as` is for the lists themselves: there is something in `as`, and all of it is filled.
-/

namespace SqlTidy

/-! ## The class -/

/-- Types whose values may hold names, lists and trees. -/
class Parts (α : Type) where
  filled : α → Prop

export Parts (filled)

namespace Parts

variable {α β : Type}

instance [Parts α] : Parts (List α) := ⟨fun as => ∀ a ∈ as, filled a⟩

instance [Parts α] : Parts (Option α) := ⟨fun o => ∀ a ∈ o, filled a⟩

instance [Parts α] [Parts β] : Parts (α × β) := ⟨fun p => filled p.1 ∧ filled p.2⟩

instance : Parts Bool := ⟨fun _ => True⟩

instance : Parts String := ⟨fun _ => True⟩

instance : Parts Quantifier := ⟨fun _ => True⟩

instance : Parts DottedName := ⟨fun name => name.parts ≠ []⟩

variable [Parts α] {a : α} {as : List α}

theorem filled_none : filled (none : Option α) := nofun

theorem filled_some (h : filled a) : filled (some a) := by
  rintro _ ⟨⟩
  exact h

theorem filled_nil : filled ([] : List α) := nofun

theorem filled_cons (h : filled a) (hs : filled as) : filled (a :: as) :=
  List.forall_mem_cons.2 ⟨h, hs⟩

end Parts

/-- There is something in a list, and all of it is filled. -/
structure Stocked {α : Type} [Parts α] (as : List α) : Prop where
  ne_nil : as ≠ []
  filled : SqlTidy.filled as

/-! ## Expressions and queries -/

namespace Tree

variable {c : Category}

/-- The `FROM` clause of a `SELECT`. -/
def fromOf : Select → Tree (.option .fromClause)
  | .select _ _ _ source _ _ _ _ => source

/-- None of the lists that a node needs is empty, and what a node is told apart by is there: a compound name
has two parts, a row is more than one item in parentheses, and a window's words have keys behind them. -/
def Filled : NodeProperty
  | _, .compound parts => 2 ≤ parts.length
  | _, .qualifiedWildcard qualifier => filled qualifier
  | _, .literal (.string pieces) => pieces ≠ []
  | _, .interval parts _ => parts ≠ []
  | _, .inList _ _ items => items ≠ .nil
  | _, .case _ branches _ => branches ≠ .nil
  | _, .row items => ∀ value, items ≠ .cons (.selectItem value Option.none) .nil
  | _, .lambda params _ _ => params ≠ []
  | _, .call name _ _ _ _ _ _ => filled name
  | _, .windowDefinition partitionBy distribute orderBy sort clusterBy _ =>
    (distribute → partitionBy ≠ .nil) ∧ (sort → orderBy ≠ .nil) ∧ (orderBy = .nil ∨ clusterBy = .nil)
  | _, .withClause tables => tables ≠ .nil
  | _, .valuesBody rows _ => rows ≠ .nil
  | _, .tableBody name => filled name
  | _, .fromFirst _ bodies => bodies ≠ .nil
  | _, .fromBody body _ => body.fromOf = .none
  | _, .select _ _ items _ _ _ _ _ => items ≠ .nil
  | _, .fromClause relations _ _ => relations ≠ .nil
  | _, .table name _ _ => filled name
  | _, .valuesTable rows _ => rows ≠ .nil
  | _, .tableFunction name _ _ => filled name
  | _, .lateralView _ name _ _ _ _ => filled name
  | _, .pivot _ columns _ => filled columns
  | _, .groupBy items _ => items ≠ .nil
  | _, .analytics _ elements => elements ≠ .nil
  | _, _ => True

/-- One item in parentheses is no row, unless it has an alias. -/
example (a : Ident) : ¬ Filled (.row (.cons (.selectItem (.ident a) Option.none) .nil)) :=
  fun h => h (.ident a) rfl

instance : Parts (Tree c) := ⟨fun t => every Filled t⟩

theorem filled_ofList {ts : List (Tree c)} (h : filled ts) : (ofList ts).Every Filled := every_ofList h

theorem filled_ofOption {o : Option (Tree c)} (h : filled o) : (ofOption o).Every Filled := every_ofOption h

theorem ofList_ne_nil {ts : List (Tree c)} (h : ts ≠ []) : ofList ts ≠ .nil := by
  cases ts with
  | nil => contradiction
  | cons t ts => exact nofun

end Tree

/-! ## Statements that change rows -/

instance : Parts PartitionValue := ⟨fun v => filled v.value⟩

instance : Parts PartitionSpec := ⟨fun s => Stocked s.values⟩

instance : Parts InsertTarget := ⟨fun t => filled t.table ∧ filled t.partition⟩

instance : Parts Insert := ⟨fun s => filled s.withClause ∧ filled s.target ∧ filled s.source⟩

instance : Parts MultiInsertBody :=
  ⟨fun b => filled b.target ∧ b.select.fromOf = .none ∧ filled b.select ∧ filled b.organization⟩

instance : Parts MultiInsert :=
  ⟨fun s => filled s.withClause ∧ filled s.source ∧ Stocked s.inserts⟩

instance : Parts Assignment := ⟨fun a => filled a.target ∧ filled a.value⟩

instance : Parts Update :=
  ⟨fun s => filled s.table ∧ Stocked s.assignments ∧ filled s.condition⟩

instance : Parts Delete := ⟨fun s => filled s.table ∧ filled s.condition⟩

instance : Parts MergeAction := ⟨fun
  | .updateAll | .delete | .insertAll => True
  | .update assignments => Stocked assignments
  | .insert _ values => filled values⟩

instance : Parts MergeClause := ⟨fun c => filled c.condition ∧ filled c.action⟩

instance : Parts Merge :=
  ⟨fun s => filled s.target ∧ filled s.source ∧ filled s.condition ∧ Stocked s.clauses⟩

/-! ## Statements that define things -/

instance : Parts Property := ⟨fun p => filled p.value⟩

instance : Parts ColumnPosition := ⟨fun
  | .first => True
  | .after column => filled column⟩

instance : Parts ColumnDefinition :=
  ⟨fun c => filled c.name ∧ filled c.default ∧ filled c.position⟩

instance : Parts PartitionField := ⟨fun
  | .column _ | .typed _ _ => True
  | .transform value => filled value⟩

instance : Parts BucketSpec := ⟨fun b => filled b.sortedBy⟩

instance : Parts TableClause := ⟨fun
  | .partitionedBy fields => filled fields
  | .clusteredBy spec => filled spec
  | .options properties => filled properties
  | .tableProperties properties => filled properties
  | .primaryKey _ | .storedAs _ | .location _ | .lifecycle _ | .comment _ => True⟩

instance : Parts TableClauses :=
  ⟨fun c =>
    filled c.partitionedBy ∧ filled c.clusteredBy ∧ filled c.options ∧ filled c.tableProperties⟩

instance : Parts IndexColumn := ⟨fun c => filled c.name ∧ filled c.options⟩

instance : Parts CreateTable :=
  ⟨fun s => filled s.name ∧ filled s.columns ∧ filled s.clauses ∧ filled s.query⟩

instance : Parts CreateView := ⟨fun s => filled s.name ∧ filled s.tableProperties ∧ filled s.query⟩

instance : Parts CreateSourceView := ⟨fun s => filled s.name ∧ filled s.columns ∧ filled s.options⟩

instance : Parts CreateNamespace := ⟨fun s => filled s.name ∧ filled s.properties⟩

instance : Parts CreateFunction := ⟨fun s => filled s.name⟩

instance : Parts CreateIndex := ⟨fun s => filled s.table ∧ filled s.columns ∧ filled s.options⟩

instance : Parts ColumnChange := ⟨fun
  | .position position => filled position
  | .type _ | .comment _ | .setNotNull | .dropNotNull => True⟩

instance : Parts AlterAction := ⟨fun
  | .renameTo name => filled name
  | .setProperties properties => filled properties
  | .unsetProperties _ keys => filled keys
  | .addColumns _ _ columns => filled columns
  | .dropColumns _ _ _ columns => filled columns
  | .renameColumn old _ => filled old
  | .alterColumn _ _ column change => filled column ∧ filled change
  | .changeColumn partition _ column definition =>
    filled partition ∧ filled column ∧ filled definition
  | .replaceColumns partition columns => filled partition ∧ filled columns
  | .addPartitions _ partitions => filled partitions
  | .dropPartitions _ partitions _ => filled partitions
  | .renamePartition old new => filled old ∧ filled new
  | .setLocation partition _ => filled partition
  | .touch partition => filled partition
  | .recoverPartitions => True⟩

instance : Parts AlterTable := ⟨fun s => filled s.name ∧ filled s.action⟩

instance : Parts AlterViewQuery := ⟨fun s => filled s.name ∧ filled s.query⟩

instance : Parts AlterNamespaceAction := ⟨fun
  | .setProperties _ properties => filled properties
  | .setLocation _ => True⟩

instance : Parts AlterNamespace := ⟨fun s => filled s.name ∧ filled s.action⟩

instance : Parts Drop := ⟨fun s => filled s.name⟩

instance : Parts DropNamespace := ⟨fun s => filled s.name⟩

instance : Parts DropFunction := ⟨fun s => filled s.name⟩

instance : Parts DropIndex := ⟨fun s => filled s.table⟩

/-! ## Commands -/

instance : Parts Truncate := ⟨fun s => filled s.table ∧ filled s.partition⟩

instance : Parts RepairTable := ⟨fun s => filled s.table⟩

instance : Parts AnalyzeTarget := ⟨fun
  | .columns columns => filled columns
  | .table | .noScan | .allColumns => True⟩

instance : Parts Analyze := ⟨fun s => filled s.table ∧ filled s.partition ∧ filled s.target⟩

instance : Parts Scope := ⟨fun s => filled s.name⟩

instance : Parts AnalyzeTables := ⟨fun s => filled s.scope⟩

instance : Parts CommentOn := ⟨fun s => filled s.name⟩

instance : Parts Use := ⟨fun s => filled s.name⟩

instance : Parts Show := ⟨fun
  | .namespaces _ scope _ => filled scope
  | .tables scope _ => filled scope
  | .tableExtended scope _ partition => filled scope ∧ filled partition
  | .views scope _ => filled scope
  | .columns table database => filled table ∧ filled database
  | .partitions table partition => filled table ∧ filled partition
  | .tableProperties table _ => filled table
  | .functions _ scope _ => filled scope
  | .createTable table _ => filled table
  | .catalogs _ | .currentNamespace => True⟩

instance : Parts DescribeTarget := ⟨fun
  | .table _ _ table partition column => filled table ∧ filled partition ∧ filled column
  | .function _ name => filled name
  | .namespace _ _ name => filled name
  | .query _ query => filled query⟩

instance : Parts Describe := ⟨fun s => filled s.target⟩

instance : Parts CallProcedure := ⟨fun s => filled s.procedure ∧ filled s.args⟩

instance : Parts LoadData := ⟨fun s => filled s.table ∧ filled s.partition⟩

instance : Parts LoadFile := ⟨fun s => filled s.table ∧ filled s.options⟩

instance : Parts ExportTable :=
  ⟨fun s => filled s.withClause ∧ filled s.table ∧ filled s.partition ∧ filled s.options⟩

instance : Parts MergeFiles := ⟨fun s => filled s.table ∧ filled s.partition ∧ filled s.options⟩

def Statement.Filled : Statement → Prop
  | .query s => filled s
  | .insert s => filled s
  | .multiInsert s => filled s
  | .update s => filled s
  | .delete s => filled s
  | .merge s => filled s
  | .createTable s => filled s
  | .createView s => filled s
  | .createSourceView s => filled s
  | .alterViewQuery s => filled s
  | .alterTable s => filled s
  | .drop s => filled s
  | .createNamespace s => filled s
  | .alterNamespace s => filled s
  | .dropNamespace s => filled s
  | .createFunction s => filled s
  | .dropFunction s => filled s
  | .createIndex s => filled s
  | .dropIndex s => filled s
  | .truncate s => filled s
  | .repairTable s => filled s
  | .analyze s => filled s
  | .analyzeTables s => filled s
  | .commentOn s => filled s
  | .use s => filled s
  | .show s => filled s
  | .describe s => filled s
  | .explain _ s => s.Filled
  | .call s => filled s
  | .loadData s => filled s
  | .loadFile s => filled s
  | .exportTable s => filled s
  | .mergeFiles s => filled s
  -- Settings keep text, and a tunnel keeps strings and words.
  | .setCatalog _ | .setConfig _ | .reset _ | .dataTunnel _ => True

instance : Parts Statement := ⟨Statement.Filled⟩

/-! ## What combined rules give back -/

namespace Parse

variable {α β : Type} [Parts α] {p : Parse α}

/-- A list with commas between its members has a first one. -/
theorem Yields.stocked (h : Yields filled p) : Yields Stocked (Parse.commaSeparated p) := by
  refine h.bind fun first hfirst => (Yields.many h.maybe).bind fun rest hrest => .pure ?_
  exact ⟨List.cons_ne_nil first rest, Parts.filled_cons hfirst hrest⟩

theorem Yields.unstocked {p : Parse (List α)} (h : Yields Stocked p) : Yields filled p :=
  h.imp fun _ => Stocked.filled

/-- A loop that gives back a list and fails when there is nothing in it. -/
theorem Yields.stockedOrFail {Q : β → Prop} {step : Parse (Option α)} {what : String}
    {k : List α → Parse β} (h : Yields filled step) (hk : ∀ as, Stocked as → Yields Q (k as)) :
    Yields Q (do
      let as ← Parse.many step
      if as.isEmpty then expected what else k as) := by
  refine (Yields.many h).bind fun as has => ?_
  cases as with
  | nil => exact yields_expected what
  | cons a as => exact hk _ ⟨List.cons_ne_nil a as, has⟩

/-- Whether a word comes next decides how the rule goes on. -/
theorem Ends.isWord_bind {i : Input} {pos : Nat} {keyword : String} {k : Bool → Parse β}
    {Q : β → Nat → Prop} (hk : Ends (k ((i.tokenAt pos).isKeyword keyword)) i pos Q) :
    Ends (isWord keyword >>= k) i pos Q :=
  hk

/-- Where it matters at which token a rule stands, its results are followed position by position. -/
theorem yields_iff_ends {Q : β → Prop} {p : Parse β} :
    Yields Q p ↔ ∀ i : Input, i.WellFormed → ∀ pos, Ends p i pos fun b _ => Q b :=
  ⟨fun h _ hi _ _ _ hrun => h hi hrun, fun h _ hi _ _ _ hrun => h _ hi _ _ _ hrun⟩

end Parse

end SqlTidy
