import SqlTidy.Grammar.Command

/-!
# Statements

The first word of a statement decides how the rest is read.
-/

namespace SqlTidy

namespace Grammar

open Parse

/-- Kinds of statement that are known to exist but have no tree. -/
def unsupportedWords : List String :=
  ["CACHE", "UNCACHE", "REFRESH", "CLEAR", "ADD", "LIST", "GRANT", "REVOKE"]

/-! ## Statements that start with `WITH` or `FROM` -/

/-- A query whose `WITH` clause has been read, as a statement. -/
def queryStatement (tables : Option WithClause) : Parse Statement := do
  return .query (← within (queryAfterWith · tables))

/-- A `FROM` clause that an `INSERT` follows. -/
def insertSource : Parse (Option FromClause) := do
  let source ← within fromClause
  if ← isWord "INSERT" then return some source else return none

/-- A statement that starts with a `FROM` clause: several inserts from it, or a query, which is then
read again from its start. -/
def fromStatement (tables : Option WithClause) : Parse Statement := do
  match ← rewinding insertSource with
  | some source => return .multiInsert ⟨tables, source, ← many multiInsertBody⟩
  | none => queryStatement tables

/-- A statement that starts with a `WITH` clause. -/
def withStatement : Parse Statement := do
  let tables ← within withClause
  if ← isWord "INSERT" then
    return .insert (← insert (some tables))
  else if ← isWord "FROM" then
    fromStatement (some tables)
  else if ← isWord "EXPORT" then
    return .exportTable (← exportTable (some tables))
  else
    queryStatement (some tables)

/-! ## All statements -/

/-- How much of a plan is explained, if that is said. -/
def explainMode : Parse (Option ExplainMode) :=
  choose [(["LOGICAL"], .logical), (["FORMATTED"], .formatted), (["EXTENDED"], .extended),
    (["CODEGEN"], .codegen), (["COST"], .cost)]

def explain (inner : Parse Statement) : Parse Statement := do
  expectWord "EXPLAIN"
  let mode ← explainMode
  return .explain mode (← inner)

/-- A statement by its first word, which has not been taken. -/
def statementOf (inner : Parse Statement) (word : String) : Parse Statement := do
  match word with
  | "SELECT" | "VALUES" | "TABLE" => return .query (← query)
  | "WITH" => withStatement
  | "FROM" => fromStatement none
  | "INSERT" => return .insert (← insert none)
  | "UPDATE" => return .update (← update)
  | "DELETE" => return .delete (← delete)
  | "MERGE" =>
    if ← peekWord 1 "TABLE" then return .mergeFiles (← mergeFiles) else return .merge (← merge)
  | "CREATE" | "REPLACE" => create
  | "ALTER" => alter
  | "DROP" => drop
  | "TRUNCATE" => return .truncate (← truncate)
  | "MSCK" | "REPAIR" => return .repairTable (← repair)
  | "ANALYZE" => analyze
  | "COMMENT" => return .commentOn (← commentOn)
  | "USE" => return .use (← use)
  | "SET" => set
  | "RESET" => reset
  | "SHOW" => return .show (← show?)
  | "DESCRIBE" | "DESC" => return .describe (← describe)
  | "EXPLAIN" => explain inner
  | "CALL" => return .call (← call)
  | "LOAD" => load
  | "EXPORT" => return .exportTable (← exportTable none)
  | "DATATUNNEL" => return .dataTunnel (← dataTunnel)
  | word =>
    if word ∈ unsupportedWords then failWith (.unsupported (word ++ " statement"))
    else expected "statement"

/-- A statement. -/
def statement : Parse Statement := fix fun inner => do
  if ← isSymbol .lparen then
    return .query (← query)
  else
    match ← currentWord with
    | some word => statementOf inner word
    | none => expected "statement"

/-! ## Whole texts -/

/-- Takes one semicolon, if there is one. -/
def skipSemicolon : Parse (Option Unit) := maybe (accept .semicolon) (pure ())

/-- A statement and nothing else, apart from semicolons around it. -/
def wholeStatement : Parse Statement := do
  let _ ← many skipSemicolon
  if ← atEnd then
    throwEmpty
  else
    let s ← statement
    let _ ← many skipSemicolon
    if ← atEnd then return s else fail (.trailing (← current))
where
  /-- There is no statement: the error covers the whole text. -/
  throwEmpty : Parse Statement := fun i pos =>
    (.error (.ofCause .emptyInput 0 i.source.utf8ByteSize), pos)

end Grammar

namespace Statement

/-- Reads a text as one statement. -/
def parse (text : String) : Except Error Statement := do
  let tokens ← Token.scan text
  Grammar.wholeStatement.run ⟨text, tokens.toArray⟩

end Statement

end SqlTidy
