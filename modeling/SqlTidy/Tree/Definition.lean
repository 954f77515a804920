import SqlTidy.Tree.Change

/-!
# Statements that define things

`CREATE`, `ALTER` and `DROP` for tables, views, namespaces, functions and indexes.
-/

namespace SqlTidy

/-! ## Parts -/

/-- An entry of a property list: the key as it was written, and its value if it has one. -/
structure Property where
  key : String
  value : Option Expr

/-- Where a new column is put. -/
inductive ColumnPosition where
  | first
  | after (column : DottedName)

structure ColumnDefinition where
  name : DottedName
  type : DataType
  notNull : Bool
  default : Option Expr
  comment : Option String
  position : Option ColumnPosition

/-- One entry of `PARTITIONED BY`: an existing column, a new one, or a transform of one. -/
inductive PartitionField where
  | column (name : Ident)
  | typed (name : Ident) (type : DataType)
  | transform (value : Expr)

/-- A `CLUSTERED BY` clause. -/
structure BucketSpec where
  columns : List Ident
  sortedBy : List OrderItem
  buckets : String

/-- The clauses of a `CREATE TABLE`, which may be written in any order. -/
structure TableClauses where
  primaryKey : List Ident
  partitionedBy : List PartitionField
  clusteredBy : Option BucketSpec
  storedAs : Option Ident
  location : Option String
  lifecycle : Option String
  options : List Property
  tableProperties : List Property
  comment : Option String

/-- No clause at all. -/
def TableClauses.empty : TableClauses := ⟨[], [], none, none, none, none, [], [], none⟩

/-- One clause of a `CREATE TABLE`. -/
inductive TableClause where
  | primaryKey (columns : List Ident)
  | partitionedBy (fields : List PartitionField)
  | clusteredBy (spec : BucketSpec)
  | storedAs (format : Ident)
  | location (path : String)
  | lifecycle (days : String)
  | options (properties : List Property)
  | tableProperties (properties : List Property)
  | comment (text : String)

/-- Clauses with one more; of two clauses of a kind the later one counts. -/
def TableClauses.add (clauses : TableClauses) : TableClause → TableClauses
  | .primaryKey columns => { clauses with primaryKey := columns }
  | .partitionedBy fields => { clauses with partitionedBy := fields }
  | .clusteredBy spec => { clauses with clusteredBy := some spec }
  | .storedAs format => { clauses with storedAs := some format }
  | .location path => { clauses with location := some path }
  | .lifecycle days => { clauses with lifecycle := some days }
  | .options properties => { clauses with options := properties }
  | .tableProperties properties => { clauses with tableProperties := properties }
  | .comment text => { clauses with comment := some text }

structure ViewColumn where
  name : Ident
  comment : Option String

structure FunctionResource where
  kind : ResourceKind
  uri : String

structure IndexColumn where
  name : DottedName
  options : List Property

/-! ## `CREATE` -/

structure CreateTable where
  mode : CreateMode
  external : Bool
  ifNotExists : Bool
  name : DottedName
  columns : Option (List ColumnDefinition)
  provider : Option Ident
  clauses : TableClauses
  query : Option Query

structure CreateView where
  orReplace : Bool
  global : Bool
  temporary : Bool
  ifNotExists : Bool
  name : DottedName
  columns : Option (List ViewColumn)
  comment : Option String
  partitionedOn : List Ident
  tableProperties : List Property
  query : Query

/-- A temporary view over a data source. -/
structure CreateSourceView where
  orReplace : Bool
  global : Bool
  name : DottedName
  columns : Option (List ColumnDefinition)
  provider : Ident
  options : List Property

/-- `dbWord` tells `DBPROPERTIES` from `PROPERTIES`. -/
structure CreateNamespace where
  word : NamespaceWord
  ifNotExists : Bool
  name : DottedName
  comment : Option String
  location : Option String
  dbWord : Bool
  properties : List Property

structure CreateFunction where
  orReplace : Bool
  temporary : Bool
  ifNotExists : Bool
  name : DottedName
  className : String
  resources : List FunctionResource

structure CreateIndex where
  ifNotExists : Bool
  name : Ident
  tableWord : Bool
  table : DottedName
  indexType : Option Ident
  columns : List IndexColumn
  options : List Property

/-! ## `ALTER` -/

/-- A change of one column. -/
inductive ColumnChange where
  | type (type : DataType)
  | comment (text : String)
  | position (position : ColumnPosition)
  | setNotNull
  | dropNotNull

/-- What an `ALTER TABLE` or `ALTER VIEW` does. -/
inductive AlterAction where
  | renameTo (name : DottedName)
  | setProperties (properties : List Property)
  | unsetProperties (ifExists : Bool) (keys : List Property)
  | addColumns (plural parenthesized : Bool) (columns : List ColumnDefinition)
  | dropColumns (plural ifExists parenthesized : Bool) (columns : List DottedName)
  | renameColumn (old : DottedName) (new : Ident)
  | alterColumn (changeWord columnWord : Bool) (column : DottedName) (change : ColumnChange)
  | changeColumn (partition : Option PartitionSpec) (columnWord : Bool) (column : DottedName)
      (definition : ColumnDefinition)
  | replaceColumns (partition : Option PartitionSpec) (columns : List ColumnDefinition)
  | addPartitions (ifNotExists : Bool) (partitions : List (PartitionSpec × Option String))
  | dropPartitions (ifExists : Bool) (partitions : List PartitionSpec) (purge : Bool)
  | renamePartition (old new : PartitionSpec)
  | setLocation (partition : Option PartitionSpec) (location : String)
  | recoverPartitions
  | touch (partition : Option PartitionSpec)

structure AlterTable where
  view : Bool
  name : DottedName
  action : AlterAction

structure AlterViewQuery where
  name : DottedName
  query : Query

inductive AlterNamespaceAction where
  | setProperties (dbWord : Bool) (properties : List Property)
  | setLocation (location : String)

structure AlterNamespace where
  word : NamespaceWord
  name : DottedName
  action : AlterNamespaceAction

/-! ## `DROP` -/

/-- A dropped table or view. -/
structure Drop where
  view : Bool
  ifExists : Bool
  name : DottedName
  purge : Bool

structure DropNamespace where
  word : NamespaceWord
  ifExists : Bool
  name : DottedName
  behavior : Option DropBehavior

structure DropFunction where
  temporary : Bool
  ifExists : Bool
  name : DottedName

structure DropIndex where
  ifExists : Bool
  name : Ident
  tableWord : Bool
  table : DottedName

end SqlTidy
