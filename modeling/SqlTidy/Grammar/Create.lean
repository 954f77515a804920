import SqlTidy.Grammar.Change
import SqlTidy.Tree.Statement

/-!
# `CREATE` and `REPLACE`

The words between `CREATE` and the kind of the new object are read first, whatever the kind; which of
them are allowed is decided by the kind.
-/

namespace SqlTidy

namespace Grammar

open Parse

/-! ## Parts -/

def ifNotExists : Parse Bool := acceptWords ["IF", "NOT", "EXISTS"]

def ifExists : Parse Bool := acceptWords ["IF", "EXISTS"]

/-- The word for a namespace, if one comes next. -/
def namespaceWord : Parse (Option NamespaceWord) :=
  choose [(["DATABASE"], .database), (["SCHEMA"], .schema), (["NAMESPACE"], .namespace)]

/-- The key of a property as it was written: a string or a dotted name. -/
def propertyKey : Parse String := do
  match ← current with
  | .string _ => stringLiteral
  | _ => return (← dottedName).written

/-- Whether the entry of a property list ends here. -/
def isPropertyEnd : Parse Bool := do
  match ← current with
  | .symbol .comma | .symbol .rparen => return true
  | _ => return false

/-- The value of a property; the equals sign may be left out. -/
def propertyValue : Parse (Option Expr) := do
  if ← accept .eq then
    return some (← expression)
  else if ← isPropertyEnd then
    return none
  else
    return some (← expression)

def property : Parse Property := do
  let key ← propertyKey
  let value ← propertyValue
  return { key, value }

/-- Properties in parentheses; there may be none. -/
def properties : Parse (List Property) := do
  expect .lparen
  if ← accept .rparen then
    return []
  else
    let entries ← commaSeparated property
    expect .rparen
    return entries

/-- Properties behind the word `OPTIONS`, if it is there. -/
def optionalOptions : Parse (List Property) := maybeList (acceptWord "OPTIONS") properties

/-- Where a column is put, if that is said. -/
def columnPosition : Parse (Option ColumnPosition) := do
  if ← acceptWord "FIRST" then
    return some .first
  else if ← acceptWord "AFTER" then
    return some (.after (← dottedName))
  else
    return none

def columnDefinition : Parse ColumnDefinition := do
  let name ← dottedName
  let type ← dataType
  let notNull ← acceptWords ["NOT", "NULL"]
  let default ← maybe (acceptWord "DEFAULT") expression
  let comment ← optionalString "COMMENT"
  let position ← columnPosition
  return { name, type, notNull, default, comment, position }

/-- Column definitions in parentheses. -/
def columnDefinitions : Parse (List ColumnDefinition) := do
  expect .lparen
  let columns ← commaSeparated columnDefinition
  expect .rparen
  return columns

/-! ## Tables -/

/-- One entry of `PARTITIONED BY`, told apart by the token behind a name. -/
def partitionField : Parse PartitionField := do
  let next ← peek 1
  if !isIdentifier (← current) then
    return .transform (← expression)
  else
    match next with
    | .symbol .comma | .symbol .rparen => return .column (← identifier)
    | .word _ =>
      let name ← identifier
      let type ← dataType
      return .typed name type
    | _ => return .transform (← expression)

def partitionFields : Parse (List PartitionField) := do
  expect .lparen
  let fields ← commaSeparated partitionField
  expect .rparen
  return fields

/-- The sort keys of a `CLUSTERED BY`, if there are any. -/
def sortedBy : Parse (List OrderItem) :=
  maybeList (acceptWords ["SORTED", "BY"]) do
    expect .lparen
    let items ← within orderItems
    expect .rparen
    return items

def bucketSpec : Parse BucketSpec := do
  let columns ← identifierList
  let sortedBy ← sortedBy
  expectWord "INTO"
  let buckets ← number
  expectWord "BUCKETS"
  return { columns, sortedBy, buckets }

/-- How each clause of a `CREATE TABLE` starts, and the rule for the rest of it. -/
def tableClauseRules : List (List String × Parse TableClause) :=
  [(["PRIMARY", "KEY"], return .primaryKey (← identifierList)),
    (["PARTITIONED", "BY"], return .partitionedBy (← partitionFields)),
    (["CLUSTERED", "BY"], return .clusteredBy (← bucketSpec)),
    (["STORED", "AS"], return .storedAs (← identifier)),
    (["LOCATION"], return .location (← stringLiteral)),
    (["LIFECYCLE"], return .lifecycle (← number)),
    (["OPTIONS"], return .options (← properties)),
    (["TBLPROPERTIES"], return .tableProperties (← properties)),
    (["COMMENT"], return .comment (← stringLiteral))]

/-- The clauses of a `CREATE TABLE`, in any order. -/
def tableClauses : Parse TableClauses := do
  return (← many (chooseRule tableClauseRules)).foldl TableClauses.add .empty

/-- Whether a query follows the clauses; the word `AS` may be left out. -/
def acceptAsQuery : Parse Bool := do
  if ← acceptWord "AS" then return true else isQueryStart

def createTable (mode : CreateMode) (external : Bool) : Parse Statement := do
  let ifNotExists ← ifNotExists
  let name ← dottedName
  let columns ← maybe isColumnList columnDefinitions
  let provider ← maybe (acceptWord "USING") identifier
  let clauses ← tableClauses
  let query ← maybe acceptAsQuery query
  return .createTable { mode, external, ifNotExists, name, columns, provider, clauses, query }

/-! ## Views -/

/-- The position behind a group of parentheses that is open at `depth` levels; the end of the input
ends it too. -/
def skipGroup (i : Input) : (bound : Nat) → (depth pos : Nat) → Nat
  | 0, _, pos => pos
  | bound + 1, depth, pos =>
    match i.tokenAt pos with
    | .eof => pos
    | .symbol .lparen => skipGroup i bound (depth + 1) (pos + 1)
    | .symbol .rparen => if depth ≤ 1 then pos + 1 else skipGroup i bound (depth - 1) (pos + 1)
    | _ => if depth = 0 then pos + 1 else skipGroup i bound depth (pos + 1)

/-- Whether `USING` follows, behind a group of parentheses if there is one. -/
def isSourceView : Parse Bool := fun i pos =>
  let next :=
    if i.tokenAt pos = .symbol .lparen then skipGroup i (i.remaining pos) 0 pos else pos
  (.ok ((i.tokenAt next).isKeyword "USING"), pos)

/-- A temporary view over a data source, behind its name. -/
def sourceView (orReplace global : Bool) (name : DottedName) : Parse Statement := do
  let columns ← maybe (isSymbol .lparen) columnDefinitions
  expectWord "USING"
  let provider ← identifier
  let options ← optionalOptions
  return .createSourceView { orReplace, global, name, columns, provider, options }

def viewColumn : Parse ViewColumn := do
  let name ← identifier
  let comment ← optionalString "COMMENT"
  return { name, comment }

/-- The columns of a view, if they are named. -/
def viewColumns : Parse (Option (List ViewColumn)) :=
  maybe (accept .lparen) do
    let columns ← commaSeparated viewColumn
    expect .rparen
    return columns

/-- One clause between a view's columns and its query. -/
inductive ViewClause where
  | comment (text : String)
  | partitionedOn (columns : List Ident)
  | tableProperties (properties : List Property)

def viewClauseRules : List (List String × Parse ViewClause) :=
  [(["COMMENT"], return .comment (← stringLiteral)),
    (["PARTITIONED", "ON"], return .partitionedOn (← identifierList)),
    (["TBLPROPERTIES"], return .tableProperties (← properties))]

/-- A view with one more clause; of two clauses of a kind the later one counts. -/
def addViewClause (view : CreateView) : ViewClause → CreateView
  | .comment text => { view with comment := some text }
  | .partitionedOn columns => { view with partitionedOn := columns }
  | .tableProperties properties => { view with tableProperties := properties }

/-- A view over a query, behind its name. -/
def queryView (orReplace global temporary ifNotExists : Bool) (name : DottedName) :
    Parse Statement := do
  let columns ← viewColumns
  let clauses ← many (chooseRule viewClauseRules)
  expectWord "AS"
  let query ← query
  return .createView (clauses.foldl addViewClause
    { orReplace, global, temporary, ifNotExists, name, columns, comment := none,
      partitionedOn := [], tableProperties := [], query })

/-- A view, behind the word `VIEW`. -/
def createView (orReplace global temporary : Bool) : Parse Statement := do
  let ifNotExists ← ifNotExists
  let name ← dottedName
  if temporary && (← isSourceView) then
    sourceView orReplace global name
  else
    queryView orReplace global temporary ifNotExists name

/-! ## Namespaces, functions and indexes -/

/-- One clause of a new namespace. -/
inductive NamespaceClause where
  | comment (text : String)
  | location (path : String)
  | properties (dbWord : Bool) (properties : List Property)

def namespaceClauseRules : List (List String × Parse NamespaceClause) :=
  [(["COMMENT"], return .comment (← stringLiteral)),
    (["LOCATION"], return .location (← stringLiteral)),
    (["WITH", "DBPROPERTIES"], return .properties true (← properties)),
    (["WITH", "PROPERTIES"], return .properties false (← properties))]

/-- A namespace with one more clause; of two clauses of a kind the later one counts. -/
def addNamespaceClause (create : CreateNamespace) : NamespaceClause → CreateNamespace
  | .comment text => { create with comment := some text }
  | .location path => { create with location := some path }
  | .properties dbWord properties => { create with dbWord, properties }

def createNamespace (word : NamespaceWord) : Parse Statement := do
  let ifNotExists ← ifNotExists
  let name ← dottedName
  let clauses ← many (chooseRule namespaceClauseRules)
  return .createNamespace (clauses.foldl addNamespaceClause
    { word, ifNotExists, name, comment := none, location := none, dbWord := true,
      properties := [] })

/-- A file that a function needs. -/
def functionResource : Parse FunctionResource := do
  match ← choose [(["JAR"], ResourceKind.jar), (["FILE"], .file), (["ARCHIVE"], .archive)] with
  | some kind => return ⟨kind, ← stringLiteral⟩
  | none => expected "JAR, FILE or ARCHIVE"

def createFunction (orReplace temporary : Bool) : Parse Statement := do
  let ifNotExists ← ifNotExists
  let name ← dottedName
  expectWord "AS"
  let className ← stringLiteral
  let resources ← maybeList (acceptWord "USING") (commaSeparated functionResource)
  return .createFunction { orReplace, temporary, ifNotExists, name, className, resources }

def indexColumn : Parse IndexColumn := do
  let name ← dottedName
  let options ← optionalOptions
  return { name, options }

def createIndex : Parse Statement := do
  let ifNotExists ← ifNotExists
  let name ← identifier
  expectWord "ON"
  let tableWord ← acceptWord "TABLE"
  let table ← dottedName
  let indexType ← maybe (acceptWord "USING") identifier
  expect .lparen
  let columns ← commaSeparated indexColumn
  expect .rparen
  let options ← optionalOptions
  return .createIndex { ifNotExists, name, tableWord, table, indexType, columns, options }

/-! ## All kinds -/

/-- What is neither a table nor a view nor a function. -/
def createOther : Parse Statement := do
  match ← namespaceWord with
  | some word => createNamespace word
  | none =>
    if ← acceptWord "INDEX" then createIndex
    else expected "TABLE, VIEW, DATABASE, FUNCTION or INDEX"

/-- What may be global or temporary, and what is left when it is neither. -/
def createModified (orReplace : Bool) : Parse Statement := do
  let global ← acceptWord "GLOBAL"
  let temporary ← (do
    if ← acceptWord "TEMPORARY" then return true else acceptWord "TEMP" : Parse Bool)
  if ← acceptWord "VIEW" then
    createView orReplace global temporary
  else if global then
    expected "TEMPORARY VIEW"
  else if ← acceptWord "FUNCTION" then
    createFunction orReplace temporary
  else if temporary then
    expected "VIEW or FUNCTION"
  else
    createOther

/-- Everything behind `CREATE`. -/
def createAfter : Parse Statement := do
  let orReplace ← acceptWords ["OR", "REPLACE"]
  let mode : CreateMode := if orReplace then .createOrReplace else .create
  if ← acceptWord "EXTERNAL" then
    expectWord "TABLE"
    createTable mode true
  else if ← acceptWord "TABLE" then
    createTable mode false
  else
    createModified orReplace

/-- `CREATE …` and `REPLACE TABLE …`. -/
def create : Parse Statement := do
  if ← acceptWord "REPLACE" then
    expectWord "TABLE"
    createTable .replace false
  else
    expectWord "CREATE"
    createAfter

end Grammar

end SqlTidy
