import SqlTidy.Grammar.Relation

/-!
# Queries

A query is an optional `WITH`, a body and the clauses that order and limit its rows. A body combines
`SELECT`s, inline tables and queries in parentheses by set operators; `INTERSECT` binds tighter than
the others.
-/

namespace SqlTidy

namespace Grammar

open Parse

/-! ## `GROUP BY` -/

/-- A set of a `GROUPING SETS`, `ROLLUP` or `CUBE`, if the parentheses here are one: a comma or a
closing parenthesis has to follow it, so `(a + b) * 2` is none. -/
def groupingSet (inner : Inner) : Parse (Option (List Expr)) := rewinding do
  expect .lparen
  if ← accept .rparen then
    return some []
  else
    let members ← expressions inner
    let closed ← accept .rparen
    if closed && ((← isSymbol .comma) || (← isSymbol .rparen)) then
      return some members
    else
      return none

/-- One element of `GROUPING SETS`, `ROLLUP` or `CUBE`. -/
def groupingElement (inner : Inner) : Parse GroupingElement := do
  if (← isSymbol .lparen) && !(← isQueryStart) then
    match ← groupingSet inner with
    | some members => return .elementSet (.ofList members)
    | none => return .elementExpr (← inner.expression)
  else
    return .elementExpr (← inner.expression)

/-- The kind of grouping that starts here, if any; its words are taken. -/
def groupingKind : Parse (Option GroupingKind) := do
  if ← acceptWords ["GROUPING", "SETS"] then
    return some .groupingSets
  else if !(← peekSymbol 1 .lparen) then
    return none
  else
    choose [(["ROLLUP"], GroupingKind.rollup), (["CUBE"], .cube)]

/-- One item of a `GROUP BY`. -/
def groupingItem (inner : Inner) : Parse GroupingItem := do
  match ← groupingKind with
  | none => return .groupingExpr (← inner.expression)
  | some kind =>
    expect .lparen
    let elements ← commaSeparated (groupingElement inner)
    expect .rparen
    return .analytics kind (.ofList elements)

/-- A `GROUP BY` behind its keywords. -/
def groupBy (inner : Inner) : Parse GroupBy := do
  let items ← commaSeparated (groupingItem inner)
  let modifier ← choose [(["WITH", "ROLLUP"], GroupingKind.rollup), (["WITH", "CUBE"], .cube)]
  return .groupBy (.ofList items) modifier

/-! ## `SELECT` -/

/-- The arguments of a hint's entry, if it has parentheses. -/
def hintArgs (inner : Inner) : Parse (Option (List Expr)) :=
  maybe (accept .lparen) do
    let args ← expressionsBeforeParen inner
    expect .rparen
    return args

/-- An entry of a hint. -/
def hintFunction (inner : Inner) : Parse HintFunction := do
  let name ← identifier
  let args ← hintArgs inner
  return .hintFunction name
    (match args with
      | none => .none
      | some args => .some (.ofList args))

/-- A further entry of a hint; the comma in front may be left out. -/
def nextHintFunction (inner : Inner) : Parse (Option HintFunction) :=
  maybe (do return !(← isSymbol .hintEnd)) do
    let _ ← accept .comma
    hintFunction inner

/-- The entries of a hint up to its end. -/
def hintFunctions (inner : Inner) : Parse (List HintFunction) := do
  if ← isSymbol .hintEnd then
    return []
  else
    let first ← hintFunction inner
    let rest ← many (nextHintFunction inner)
    return first :: rest

/-- A hint, if one comes next. -/
def hint (inner : Inner) : Parse (Option Hint) :=
  maybe (accept .hintStart) do
    let functions ← hintFunctions inner
    expect .hintEnd
    return .hint (.ofList functions)

/-- One definition of a `WINDOW` clause. -/
def namedWindow (inner : Inner) : Parse NamedWindow := do
  let name ← identifier
  expectWord "AS"
  let window ← window inner
  return .namedWindow name window

/-- A `SELECT` with its clauses. The `FROM` clause is left out where the query has started with it. -/
def select (inner : Inner) (allowFrom : Bool) : Parse Select := do
  expectWord "SELECT"
  let hints ← many (hint inner)
  let quantifier ← choose [(["DISTINCT"], Quantifier.distinct), (["ALL"], .all)]
  let items ← selectItems inner
  let source ← maybe (do return allowFrom && (← isWord "FROM")) (fromClause inner)
  let condition ← maybe (acceptWord "WHERE") inner.expression
  let grouping ← maybe (acceptWords ["GROUP", "BY"]) (groupBy inner)
  let having ← maybe (acceptWord "HAVING") inner.expression
  let windows ← maybeList (acceptWord "WINDOW") (commaSeparated (namedWindow inner))
  return .select (.ofList hints) quantifier (.ofList items) (.ofOption source)
    (.ofOption condition) (.ofOption grouping) (.ofOption having) (.ofList windows)

/-! ## The clauses after a body -/

/-- What follows `LIMIT`. -/
def limitOf (inner : Inner) : Parse Limit := do
  if ← acceptWord "ALL" then return .limitAll else return .limitCount (← inner.expression)

/-- The clauses that order and limit rows, in their fixed order. -/
def organization (inner : Inner) : Parse Organization := do
  let orderBy ← maybeList (acceptWords ["ORDER", "BY"]) (orderItems inner)
  let clusterBy ← maybeList (acceptWords ["CLUSTER", "BY"]) (expressions inner)
  let distributeBy ← maybeList (acceptWords ["DISTRIBUTE", "BY"]) (expressions inner)
  let sortBy ← maybeList (acceptWords ["SORT", "BY"]) (orderItems inner)
  let limit ← maybe (acceptWord "LIMIT") (limitOf inner)
  let offset ← maybe (acceptWord "OFFSET") inner.expression
  return .organization (.ofList orderBy) (.ofList clusterBy) (.ofList distributeBy)
    (.ofList sortBy) (.ofOption limit) (.ofOption offset)

/-! ## Bodies -/

/-- One `SELECT` of a query that starts with `FROM`, if one comes next. -/
def fromBody (inner : Inner) : Parse (Option FromBody) :=
  maybe (isWord "SELECT") do
    let body ← select inner false
    let clauses ← organization inner
    return .fromBody body clauses

/-- The `SELECT`s of a query that has started with a `FROM` clause. -/
def fromBodies (inner : Inner) (source : FromClause) : Parse QueryBody := do
  let bodies ← many (fromBody inner)
  if bodies.isEmpty then expected "SELECT" else return .fromFirst source (.ofList bodies)

/-- An operand of the set operators. -/
def bodyPrimary (inner : Inner) : Parse QueryBody := do
  if ← isWord "SELECT" then
    return .selectBody (← select inner true)
  else if ← isWord "VALUES" then
    let rows ← valuesRows inner
    let asName ← tableAlias
    return .valuesBody (.ofList rows) asName
  else if ← acceptWord "TABLE" then
    return .tableBody (← dottedName)
  else if ← isWord "FROM" then
    fromBodies inner (← fromClause inner)
  else if ← accept .lparen then
    let query ← inner.query
    expect .rparen
    return .nestedQuery query
  else
    expected "SELECT, VALUES, TABLE, FROM or '('"

/-- `ALL` or `DISTINCT` behind a set operator. -/
def setQuantifier : Parse (Option Quantifier) :=
  choose [(["ALL"], .all), (["DISTINCT"], .distinct)]

/-- Operands with set operators between them, grouped to the left. -/
def setChain (operators : List (List String × SetOp)) (operand : Parse QueryBody) :
    Parse QueryBody := do
  let first ← operand
  let extend (left : QueryBody) : Parse (Option QueryBody) := do
    match ← choose operators with
    | none => return none
    | some op =>
      let quantifier ← setQuantifier
      return some (.setOperation left op quantifier (← operand))
  iterate extend first

/-- The body of a query. -/
def queryBody (inner : Inner) : Parse QueryBody :=
  setChain [(["UNION"], .union), (["EXCEPT"], .except), (["MINUS"], .minus)]
    (setChain [(["INTERSECT"], .intersect)] (bodyPrimary inner))

/-! ## Queries -/

/-- One common table of a `WITH`. -/
def commonTable (inner : Inner) : Parse CommonTable := do
  let name ← identifier
  let columns ← optionalIdentifierList
  let _ ← acceptWord "AS"
  expect .lparen
  let query ← inner.query
  expect .rparen
  return .commonTable name columns query

/-- A `WITH` clause. -/
def withClause (inner : Inner) : Parse WithClause := do
  expectWord "WITH"
  return .withClause (.ofList (← commaSeparated (commonTable inner)))

/-- A query whose `WITH` clause has been read. -/
def queryAfterWith (inner : Inner) (tables : Option WithClause) : Parse Query := do
  let body ← queryBody inner
  let clauses ← organization inner
  return .query (.ofOption tables) body clauses

/-- A query. -/
def queryOf (inner : Inner) : Parse Query := do
  let tables ← maybe (isWord "WITH") (withClause inner)
  queryAfterWith inner tables

end Grammar

end SqlTidy
