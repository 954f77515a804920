import SqlTidy.Layout.Definition
import SqlTidy.Tree.Command

/-!
# Commands on the page
-/

namespace SqlTidy

open Layout

/-! ## Maintenance -/

def Truncate.doc (t : Truncate) : Doc :=
  .seq ["TRUNCATE TABLE ", t.table.written, optPartition t.partition]

def RepairTable.doc (r : RepairTable) : Doc :=
  .seq [.when r.msck "MSCK ", "REPAIR TABLE ", r.table.written,
    optWord (r.option.map RepairOption.spelling)]

def AnalyzeTarget.doc : AnalyzeTarget → Doc
  | .table => .nil
  | .noScan => " NOSCAN"
  | .columns names => .seq [" FOR COLUMNS ", nameList names]
  | .allColumns => " FOR ALL COLUMNS"

def Analyze.doc (a : Analyze) : Doc :=
  .seq ["ANALYZE TABLE ", a.table.written, optPartition a.partition, " COMPUTE STATISTICS",
    a.target.doc]

def Scope.doc (s : Scope) : Doc := .seq [" ", s.word.spelling, " ", s.name.written]

/-- A scope, if there is one. -/
def Layout.optScope : Option Scope → Doc
  | none => .nil
  | some s => s.doc

def AnalyzeTables.doc (a : AnalyzeTables) : Doc :=
  .seq ["ANALYZE TABLES", optScope a.scope, " COMPUTE STATISTICS", .when a.noScan " NOSCAN"]

def CommentTarget.doc : CommentTarget → Doc
  | .namespace word => word.spelling
  | .table => "TABLE"

def CommentOn.doc (c : CommentOn) : Doc :=
  .seq ["COMMENT ON ", c.target.doc, " ", c.name.written, " IS ", c.comment.getD "NULL"]

/-! ## Session -/

def Use.doc (u : Use) : Doc :=
  .seq ["USE ", optWordGap (u.word.map NamespaceWord.spelling), u.name.written]

def SetConfig.doc (s : SetConfig) : Doc :=
  .seq ["SET", .optText " " s.key, .optText " = " s.value]

/-! ## Questions to the catalog -/

/-- A pattern, if there is one. -/
def Layout.optPattern : Option ShowPattern → Doc
  | none => .nil
  | some p => .seq [if p.like then " LIKE " else " ", p.pattern]

def Show.doc : Show → Doc
  | .namespaces word scope pattern => .seq [word.plural, optScope scope, optPattern pattern]
  | .tables scope pattern => .seq ["TABLES", optScope scope, optPattern pattern]
  | .tableExtended scope pattern partition =>
    .seq ["TABLE EXTENDED", optScope scope, " LIKE ", pattern, optPartition partition]
  | .views scope pattern => .seq ["VIEWS", optScope scope, optPattern pattern]
  | .columns table database => .seq ["COLUMNS", table.doc, optScope database]
  | .partitions table partition => .seq ["PARTITIONS ", table.written, optPartition partition]
  | .tableProperties table key =>
    .seq ["TBLPROPERTIES ", table.written,
      match key with
      | none => .nil
      | some key => .seq [" (", key, ")"]]
  | .functions kind scope pattern =>
    .seq [optWordGap (kind.map FunctionKind.spelling), "FUNCTIONS", optScope scope,
      optPattern pattern]
  | .createTable table asSerde => .seq ["CREATE TABLE ", table.written, .when asSerde " AS SERDE"]
  | .catalogs pattern => .seq ["CATALOGS", optPattern pattern]
  | .currentNamespace => "CURRENT NAMESPACE"

def DescribeTarget.doc : DescribeTarget → Doc
  | .table tableWord detail name partition column =>
    .seq [.when tableWord " TABLE", optWord (detail.map DescribeDetail.spelling), " ",
      name.written, optPartition partition, optWord (column.map DottedName.written)]
  | .function extended name => .seq [" FUNCTION", .when extended " EXTENDED", " ", name.written]
  | .namespace word extended name =>
    .seq [" ", word.spelling, .when extended " EXTENDED", " ", name.written]
  | .query queryWord q => .seq [.when queryWord " QUERY", " ", q.doc]

def Describe.doc (d : Describe) : Doc :=
  .seq [if d.short then "DESC" else "DESCRIBE", d.target.doc]

/-! ## Moving data -/

def CallProcedure.doc (c : CallProcedure) : Doc :=
  .seq ["CALL ", c.procedure.written, .block (c.args.map fun a => a.doc)]

def LoadData.doc (l : LoadData) : Doc :=
  .seq ["LOAD DATA ", .when l.isLocal "LOCAL ", "INPATH ", l.path, .when l.overwrite " OVERWRITE",
    " INTO TABLE ", l.table.written, optPartition l.partition]

/-- Options behind a statement, if there are any. -/
def Layout.trailingOptions : List Property → Doc
  | [] => .nil
  | options => propertyBlock " OPTIONS" options

def LoadFile.doc (l : LoadFile) : Doc :=
  .seq ["LOAD DATA ", l.path, if l.tableWord then " TABLE " else " ", l.table.written,
    trailingOptions l.options]

/-- A partition pushes the target of an export onto a line of its own. -/
def ExportTable.doc (e : ExportTable) : Doc :=
  .seq [leadingWith e.withClause, "EXPORT TABLE ", e.table.written,
    (match e.partition with
      | none => " "
      | some spec => .seq [" ", spec.doc, .line]),
    "TO ", e.path, trailingOptions e.options]

mutual

def TunnelValue.doc : TunnelValue → Doc
  | .scalar text => text
  | .list items => .seq ["[", .commas (TunnelValue.docs items), "]"]

def TunnelValue.docs : List TunnelValue → List Doc
  | [] => []
  | v :: vs => v.doc :: TunnelValue.docs vs

end

def TunnelProperty.doc (p : TunnelProperty) : Doc := .seq [p.key, " = ", p.value.doc]

/-- One end of a tunnel with its options. -/
def Layout.tunnelEnd (keyword kind : String) (options : List TunnelProperty) : Doc :=
  .seq [keyword, "(", kind, ") OPTIONS", .block (options.map TunnelProperty.doc)]

def DataTunnel.doc (t : DataTunnel) : Doc :=
  .seq ["DATATUNNEL ", tunnelEnd "SOURCE" t.source t.sourceOptions,
    textLine "TRANSFORM = " t.transform, .line, tunnelEnd "SINK" t.sink t.sinkOptions]

def MergeFiles.doc (m : MergeFiles) : Doc :=
  .seq ["MERGE TABLE ", m.table.written, optPartition m.partition, propertyLine "OPTIONS" m.options]

end SqlTidy
