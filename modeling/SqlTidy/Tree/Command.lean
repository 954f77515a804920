import SqlTidy.Tree.Definition

/-!
# Commands

Maintenance of tables, session settings, questions to the catalog, and moving data in and out.
-/

namespace SqlTidy

/-! ## Maintenance -/

structure Truncate where
  table : DottedName
  partition : Option PartitionSpec

/-- `msck` says that the word `MSCK` was written. -/
structure RepairTable where
  msck : Bool
  table : DottedName
  option : Option RepairOption

/-- What statistics are computed about a table. -/
inductive AnalyzeTarget where
  | table
  | noScan
  | columns (columns : List DottedName)
  | allColumns

structure Analyze where
  table : DottedName
  partition : Option PartitionSpec
  target : AnalyzeTarget

/-- A name behind `FROM` or `IN`. -/
structure Scope where
  word : ScopeWord
  name : DottedName

structure AnalyzeTables where
  scope : Option Scope
  noScan : Bool

inductive CommentTarget where
  | namespace (word : NamespaceWord)
  | table

/-- A comment on something; no comment stands for `NULL`. -/
structure CommentOn where
  target : CommentTarget
  name : DottedName
  comment : Option String

/-! ## Session -/

structure Use where
  word : Option NamespaceWord
  name : DottedName

/-- A setting, key and value exactly as they were written. -/
structure SetConfig where
  key : Option String
  value : Option String

/-! ## Questions to the catalog -/

/-- A pattern, with or without the word `LIKE`. -/
structure ShowPattern where
  like : Bool
  pattern : String

inductive Show where
  | namespaces (word : NamespaceWord) (scope : Option Scope) (pattern : Option ShowPattern)
  | tables (scope : Option Scope) (pattern : Option ShowPattern)
  | tableExtended (scope : Option Scope) (pattern : String) (partition : Option PartitionSpec)
  | views (scope : Option Scope) (pattern : Option ShowPattern)
  | columns (table : Scope) (database : Option Scope)
  | partitions (table : DottedName) (partition : Option PartitionSpec)
  | tableProperties (table : DottedName) (key : Option String)
  | functions (kind : Option FunctionKind) (scope : Option Scope) (pattern : Option ShowPattern)
  | createTable (table : DottedName) (asSerde : Bool)
  | catalogs (pattern : Option ShowPattern)
  | currentNamespace

inductive DescribeTarget where
  | table (tableWord : Bool) (detail : Option DescribeDetail) (table : DottedName)
      (partition : Option PartitionSpec) (column : Option DottedName)
  | function (extended : Bool) (name : DottedName)
  | namespace (word : NamespaceWord) (extended : Bool) (name : DottedName)
  | query (queryWord : Bool) (query : Query)

/-- `short` says that `DESC` was written. -/
structure Describe where
  short : Bool
  target : DescribeTarget

/-! ## Moving data -/

/-- The call of a procedure as a statement. -/
structure CallProcedure where
  procedure : DottedName
  args : List CallArg

structure LoadData where
  isLocal : Bool
  path : String
  overwrite : Bool
  table : DottedName
  partition : Option PartitionSpec

/-- A file loaded by its path alone. -/
structure LoadFile where
  path : String
  tableWord : Bool
  table : DottedName
  options : List Property

structure ExportTable where
  withClause : Option WithClause
  table : DottedName
  partition : Option PartitionSpec
  path : String
  options : List Property

/-- The value of a tunnel's option: a scalar as it was written, or a list of values. -/
inductive TunnelValue where
  | scalar (text : String)
  | list (items : List TunnelValue)

structure TunnelProperty where
  key : String
  value : TunnelValue

/-- Data moved from a source to a sink. -/
structure DataTunnel where
  source : String
  sourceOptions : List TunnelProperty
  transform : Option String
  sink : String
  sinkOptions : List TunnelProperty

/-- The small files of a table merged. -/
structure MergeFiles where
  table : DottedName
  partition : Option PartitionSpec
  options : List Property

end SqlTidy
