import SqlTidy.Grammar.Alter
import SqlTidy.Text.Blank

/-!
# Commands
-/

namespace SqlTidy

namespace Grammar

open Parse

/-! ## Maintenance -/

def truncate : Parse Truncate := do
  expectWords ["TRUNCATE", "TABLE"]
  let table ← dottedName
  let partition ← optionalPartition
  return { table, partition }

/-- What a repair does with partitions; the word `PARTITIONS` has to follow. -/
def repairOption : Parse (Option RepairOption) := do
  match ← choose [(["ADD"], RepairOption.add), (["DROP"], .drop), (["SYNC"], .sync)] with
  | some option =>
    expectWord "PARTITIONS"
    return some option
  | none => return none

def repair : Parse RepairTable := do
  let msck ← acceptWord "MSCK"
  expectWords ["REPAIR", "TABLE"]
  let table ← dottedName
  let option ← repairOption
  return { msck, table, option }

/-- A name behind `FROM` or `IN`, if one comes next. -/
def scope : Parse (Option Scope) := do
  match ← choose [(["FROM"], ScopeWord.from), (["IN"], .in)] with
  | some word => return some ⟨word, ← dottedName⟩
  | none => return none

/-- What statistics are computed. -/
def analyzeTarget : Parse AnalyzeTarget := do
  match ← chooseRule [(["NOSCAN"], pure AnalyzeTarget.noScan),
      (["FOR", "ALL", "COLUMNS"], pure .allColumns),
      (["FOR", "COLUMNS"], return .columns (← commaSeparated dottedName))] with
  | some target => return target
  | none => return .table

def analyzeTable : Parse Statement := do
  expectWord "TABLE"
  let table ← dottedName
  let partition ← optionalPartition
  expectWords ["COMPUTE", "STATISTICS"]
  let target ← analyzeTarget
  return .analyze { table, partition, target }

def analyzeTables : Parse Statement := do
  let scope ← scope
  expectWords ["COMPUTE", "STATISTICS"]
  let noScan ← acceptWord "NOSCAN"
  return .analyzeTables { scope, noScan }

/-- `ANALYZE TABLE …` and `ANALYZE TABLES …`. -/
def analyze : Parse Statement := do
  expectWord "ANALYZE"
  if ← acceptWord "TABLES" then analyzeTables else analyzeTable

/-- What a comment is about. -/
def commentTarget : Parse CommentTarget := do
  if ← acceptWord "TABLE" then
    return .table
  else
    match ← namespaceWord with
    | some word => return .namespace word
    | none => expected "TABLE, DATABASE, SCHEMA or NAMESPACE"

/-- A string, or `NULL` for none. -/
def nullableString : Parse (Option String) := do
  if ← acceptWord "NULL" then return none else return some (← stringLiteral)

def commentOn : Parse CommentOn := do
  expectWords ["COMMENT", "ON"]
  let target ← commentTarget
  let name ← dottedName
  expectWord "IS"
  let comment ← nullableString
  return { target, name, comment }

/-! ## Session -/

def use : Parse Use := do
  expectWord "USE"
  -- The word is a name itself unless another name follows.
  let word ← if isIdentifier (← peek 1) then namespaceWord else pure none
  let name ← dottedName
  return { word, name }

/-- Whether the statement goes on. -/
def inStatement : Parse Bool := do
  match ← current with
  | .eof | .symbol .semicolon => return false
  | _ => return true

/-- Takes one token of the statement, if there is one. -/
def skipToken : Parse (Option Unit) := maybe inStatement skip

/-- Takes one token of the statement, if there is one and it is not an equals sign. -/
def skipKeyToken : Parse (Option Unit) := do
  if ← isSymbol .eq then return none else skipToken

/-- A piece of the source text without the white space around it, if anything is left. -/
def rawText (start stop : Nat) : Parse (Option String) := do
  let text := Text.trim (← slice start stop)
  return if text.isEmpty then none else some text

/-- The source text up to the end of the statement, cut at the first equals sign: the key before it and
the value behind it. -/
def rawSetting : Parse (Option String × Option String) := do
  let start ← offset
  let skipped ← many skipKeyToken
  if ← isSymbol .eq then
    let key ← rawText start (← offset)
    skip
    let valueStart ← offset
    let rest ← many skipToken
    let value ← if rest.isEmpty then pure none else rawText valueStart (← previousEnd)
    return (key, value)
  else if skipped.isEmpty then
    return (none, none)
  else
    return (← rawText start (← previousEnd), none)

/-- The source text of a catalog's name, up to the end of the statement. -/
def catalogName : Parse String := do
  let start ← offset
  let _ ← many skipToken
  slice start (← previousEnd)

/-- Whether the word `CATALOG` is followed by a name, and is not a key itself. -/
def isSetCatalog : Parse Bool := do
  let next ← peek 1
  if ← isWord "CATALOG" then return next ≠ .symbol .eq && next ≠ .eof else return false

/-- `SET …`. -/
def set : Parse Statement := do
  expectWord "SET"
  if ← isSetCatalog then
    skip
    return .setCatalog (← catalogName)
  else
    let (key, value) ← rawSetting
    return .setConfig { key, value }

/-- `RESET …`: like a setting, of which only the key is kept. -/
def reset : Parse Statement := do
  skip
  return .reset (← rawSetting).1

/-! ## Questions to the catalog -/

/-- A pattern, if one comes next; behind `LIKE` there has to be one. -/
def showPattern : Parse (Option ShowPattern) := do
  if ← acceptWord "LIKE" then
    return some ⟨true, ← stringLiteral⟩
  else
    match ← current with
    | .string _ => return some ⟨false, ← stringLiteral⟩
    | _ => return none

/-- A scope and a pattern, each if it is there. -/
def scopeAndPattern (make : Option Scope → Option ShowPattern → Show) : Parse Show := do
  let scope ← scope
  let pattern ← showPattern
  return make scope pattern

def showTableExtended : Parse Show := do
  expectWord "EXTENDED"
  let scope ← scope
  expectWord "LIKE"
  let pattern ← stringLiteral
  let partition ← optionalPartition
  return .tableExtended scope pattern partition

def showColumns : Parse Show := do
  match ← scope with
  | some table => return .columns table (← scope)
  | none => expected "FROM or IN"

def showPartitions : Parse Show := do
  let table ← dottedName
  let partition ← optionalPartition
  return .partitions table partition

def showTableProperties : Parse Show := do
  let table ← dottedName
  let key ← maybe (accept .lparen) do
    let key ← propertyKey
    expect .rparen
    return key
  return .tableProperties table key

/-- Functions of a kind, behind the word for the kind. -/
def showFunctions (kind : FunctionKind) : Parse Show := do
  expectWord "FUNCTIONS"
  scopeAndPattern (.functions (some kind))

def showCreateTable : Parse Show := do
  expectWord "TABLE"
  let table ← dottedName
  let asSerde ← acceptWords ["AS", "SERDE"]
  return .createTable table asSerde

def showCurrent : Parse Show := do
  expectWord "NAMESPACE"
  return .currentNamespace

/-- What can be shown, and the rule for the rest of each. -/
def showRules : List (List String × Parse Show) :=
  [(["DATABASES"], scopeAndPattern (.namespaces .database)),
    (["SCHEMAS"], scopeAndPattern (.namespaces .schema)),
    (["NAMESPACES"], scopeAndPattern (.namespaces .namespace)),
    (["TABLES"], scopeAndPattern .tables),
    (["TABLE"], showTableExtended),
    (["VIEWS"], scopeAndPattern .views),
    (["COLUMNS"], showColumns),
    (["PARTITIONS"], showPartitions),
    (["TBLPROPERTIES"], showTableProperties),
    (["USER"], showFunctions .user),
    (["SYSTEM"], showFunctions .system),
    (["ALL"], showFunctions .all),
    (["FUNCTIONS"], scopeAndPattern (.functions none)),
    (["CREATE"], showCreateTable),
    (["CATALOGS"], return .catalogs (← showPattern)),
    (["CURRENT"], showCurrent)]

/-- `SHOW …`. -/
def show? : Parse Show := do
  expectWord "SHOW"
  match ← chooseRule showRules with
  | some target => return target
  | none => expected "SHOW target"

/-- Whether a query is described: it is announced, or it starts here and not with `TABLE`. -/
def isDescribedQuery : Parse Bool := do
  if ← isWord "QUERY" then return true
  else if ← isWord "TABLE" then return false
  else isQueryStart

def describeQuery : Parse DescribeTarget := do
  let queryWord ← acceptWord "QUERY"
  return .query queryWord (← query)

def describeFunction : Parse DescribeTarget := do
  let extended ← acceptWord "EXTENDED"
  return .function extended (← dottedName)

def describeNamespace (word : NamespaceWord) : Parse DescribeTarget := do
  let extended ← acceptWord "EXTENDED"
  return .namespace word extended (← dottedName)

def describeTable : Parse DescribeTarget := do
  let tableWord ← acceptWord "TABLE"
  let detail ← choose [(["EXTENDED"], DescribeDetail.extended), (["FORMATTED"], .formatted)]
  let table ← dottedName
  let partition ← optionalPartition
  let column ← maybe (do return isIdentifier (← current)) dottedName
  return .table tableWord detail table partition column

/-- What is described. -/
def describeTarget : Parse DescribeTarget := do
  if ← isDescribedQuery then
    describeQuery
  else if ← acceptWord "FUNCTION" then
    describeFunction
  else
    -- The word for a namespace is a table's name unless another name follows.
    let word ← if isIdentifier (← peek 1) then namespaceWord else pure none
    match word with
    | some word => describeNamespace word
    | none => describeTable

/-- `DESCRIBE …` and `DESC …`. -/
def describe : Parse Describe := do
  let short ← isWord "DESC"
  skip
  let target ← describeTarget
  return { short, target }

/-! ## Moving data -/

def call : Parse CallProcedure := do
  expectWord "CALL"
  let procedure ← dottedName
  expect .lparen
  let args ← within callArgsBeforeParen
  expect .rparen
  return { procedure, args }

def loadData : Parse LoadData := do
  let isLocal ← acceptWord "LOCAL"
  expectWord "INPATH"
  let path ← stringLiteral
  let overwrite ← acceptWord "OVERWRITE"
  expectWords ["INTO", "TABLE"]
  let table ← dottedName
  let partition ← optionalPartition
  return { isLocal, path, overwrite, table, partition }

def loadFile : Parse LoadFile := do
  let path ← stringLiteral
  let tableWord ← acceptWord "TABLE"
  let table ← dottedName
  let options ← optionalOptions
  return { path, tableWord, table, options }

/-- `LOAD DATA …`, in one of two forms told apart by whether the path comes first. -/
def load : Parse Statement := do
  expectWords ["LOAD", "DATA"]
  match ← current with
  | .string _ => return .loadFile (← loadFile)
  | _ => return .loadData (← loadData)

def exportTable (withClause : Option WithClause) : Parse ExportTable := do
  expectWords ["EXPORT", "TABLE"]
  let table ← dottedName
  let partition ← optionalPartition
  expectWord "TO"
  let path ← stringLiteral
  let options ← optionalOptions
  return { withClause, table, partition, path, options }

def mergeFiles : Parse MergeFiles := do
  expectWords ["MERGE", "TABLE"]
  let table ← dottedName
  let partition ← optionalPartition
  let options ← optionalOptions
  return { table, partition, options }

/-! ## Tunnels -/

/-- A string, a number or a word, as it was written. -/
def tunnelScalar : Parse String := expectIf "option value" fun
  | .string s => some s
  | .number n => some n
  | .word w => some w
  | _ => none

/-- The value of a tunnel's option. -/
def tunnelValue : Parse TunnelValue := fix fun inner => do
  if ← accept .lbracket then
    let items ← maybeList (do return !(← isSymbol .rbracket)) (commaSeparated inner)
    expect .rbracket
    return .list items
  else if ← accept .minus then
    return .scalar ("-" ++ (← tunnelScalar))
  else
    return .scalar (← tunnelScalar)

def tunnelProperty : Parse TunnelProperty := do
  let key ← propertyKey
  expect .eq
  let value ← tunnelValue
  return { key, value }

/-- The options of one end of a tunnel; there may be none. -/
def tunnelOptions : Parse (List TunnelProperty) := do
  expectWord "OPTIONS"
  expect .lparen
  if ← accept .rparen then
    return []
  else
    let options ← commaSeparated tunnelProperty
    expect .rparen
    return options

/-- One end of a tunnel, behind its keyword: what kind of store it is. -/
def tunnelEnd (keyword : String) : Parse String := do
  expectWord keyword
  expect .lparen
  let kind ← stringLiteral
  expect .rparen
  return kind

/-- The transformation of a tunnel, if there is one. -/
def tunnelTransform : Parse (Option String) :=
  maybe (acceptWord "TRANSFORM") do
    expect .eq
    stringLiteral

def dataTunnel : Parse DataTunnel := do
  expectWord "DATATUNNEL"
  let source ← tunnelEnd "SOURCE"
  let sourceOptions ← tunnelOptions
  let transform ← tunnelTransform
  let sink ← tunnelEnd "SINK"
  let sinkOptions ← tunnelOptions
  return { source, sourceOptions, transform, sink, sinkOptions }

end Grammar

end SqlTidy
