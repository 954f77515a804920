import SqlTidy.Grammar.Expr

/-!
# The `FROM` clause

Tables, what is joined to them, lateral views and a pivot.
-/

namespace SqlTidy

namespace Grammar

open Parse

/-! ## Table factors -/

/-- The alias of a table, if there is one. -/
def tableAlias : Parse (Option TableAlias) := do
  let explicitAs ← acceptWord "AS"
  if !explicitAs && !(← mayBeAlias) then
    return none
  else
    let name ← identifier
    let columns ← optionalIdentifierList
    return some { explicitAs, name, columns }

/-- A sample by buckets, behind the word `BUCKET`. -/
def bucketSample (inner : Inner) : Parse Sample := do
  let numerator ← number
  expectWords ["OUT", "OF"]
  let denominator ← number
  let key ← maybe (acceptWord "ON") inner.expression
  return .sampleBucket numerator denominator (.ofOption key)

/-- A sample by an amount. -/
def amountSample (inner : Inner) : Parse Sample := do
  let amount ← inner.expression
  if ← acceptWord "PERCENT" then
    return .samplePercent amount
  else if ← acceptWord "ROWS" then
    return .sampleRows amount
  else
    expected "PERCENT or ROWS"

/-- A sample of a table, if there is one. -/
def tableSample (inner : Inner) : Parse (Option Sample) :=
  maybe (acceptWord "TABLESAMPLE") do
    expect .lparen
    let sample ← (do
      if ← acceptWord "BUCKET" then bucketSample inner else amountSample inner : Parse Sample)
    expect .rparen
    return sample

/-- The rows behind `VALUES`. -/
def valuesRows (inner : Inner) : Parse (List Expr) := do
  expectWord "VALUES"
  expressions inner

/-- A table factor in parentheses, behind the opening one: a query or a relation. -/
def parenFactor (inner : Inner) : Parse TableFactor := do
  if ← isQueryStart then
    let query ← inner.query
    expect .rparen
    let sample ← tableSample inner
    let asName ← tableAlias
    return .derived query (.ofOption sample) asName
  else
    let relation ← inner.relation
    expect .rparen
    let asName ← tableAlias
    return .nestedRelation relation asName

/-- A table, or the call of a table function. -/
def namedFactor (inner : Inner) : Parse TableFactor := do
  let name ← dottedName
  if ← accept .lparen then
    let args ← callArgsBeforeParen inner
    expect .rparen
    let asName ← tableAlias
    return .tableFunction name (.ofList args) asName
  else
    let sample ← tableSample inner
    let asName ← tableAlias
    return .table name (.ofOption sample) asName

/-- A single operand of `FROM` or of a join. -/
def tableFactor (inner : Inner) : Parse TableFactor := do
  if ← accept .lparen then
    parenFactor inner
  else if ← isWord "VALUES" then
    let rows ← valuesRows inner
    let asName ← tableAlias
    return .valuesTable (.ofList rows) asName
  else
    namedFactor inner

/-! ## Joins -/

/-- The keywords of every kind of join, longer phrases before the shorter ones they start with. -/
def joinWords : List (List String × JoinKind) :=
  [(["INNER", "JOIN"], .inner true), (["CROSS", "JOIN"], .cross),
    (["LEFT", "OUTER", "JOIN"], .left true), (["LEFT", "SEMI", "JOIN"], .semi true),
    (["LEFT", "ANTI", "JOIN"], .anti true), (["LEFT", "JOIN"], .left false),
    (["RIGHT", "OUTER", "JOIN"], .right true), (["RIGHT", "JOIN"], .right false),
    (["FULL", "OUTER", "JOIN"], .full true), (["FULL", "JOIN"], .full false),
    (["SEMI", "JOIN"], .semi false), (["ANTI", "JOIN"], .anti false), (["JOIN"], .inner false)]

/-- The constraint of a join, if there is one. -/
def joinConstraint (inner : Inner) : Parse (Option JoinConstraint) := do
  if ← acceptWord "ON" then
    return some (.on (← inner.expression))
  else if ← acceptWord "USING" then
    return some (.using (← identifierList))
  else
    return none

/-- A join, if one comes next. -/
def join (inner : Inner) : Parse (Option Join) := do
  let natural ← acceptWord "NATURAL"
  match ← choose joinWords with
  | some kind =>
    let factor ← tableFactor inner
    let constraint ← joinConstraint inner
    return some (.join natural kind factor (.ofOption constraint))
  | none => if natural then expected "JOIN" else return none

/-- A table factor with its joins. -/
def relationOf (inner : Inner) : Parse Relation := do
  let first ← tableFactor inner
  let joins ← many (join inner)
  return .relation first (.ofList joins)

/-! ## Lateral views and pivots -/

/-- The column names of a lateral view. -/
def lateralColumns (explicitAs : Bool) : Parse (List Ident) := do
  if explicitAs then commaSeparated identifier
  else maybeList mayBeAlias (commaSeparated identifier)

def lateralView (inner : Inner) : Parse LateralView := do
  expectWords ["LATERAL", "VIEW"]
  let outer ← acceptWord "OUTER"
  let function ← dottedName
  expect .lparen
  let args ← expressionsBeforeParen inner
  expect .rparen
  let table ← maybe mayBeAlias identifier
  let explicitAs ← acceptWord "AS"
  let columns ← lateralColumns explicitAs
  return .lateralView outer function (.ofList args) table explicitAs columns

/-- The columns of a pivot: one name, or several in parentheses. -/
def pivotColumns : Parse (List DottedName) := do
  if ← accept .lparen then
    let names ← commaSeparated dottedName
    expect .rparen
    return names
  else
    return [← dottedName]

def pivot (inner : Inner) : Parse Pivot := do
  expectWord "PIVOT"
  expect .lparen
  let aggregates ← selectItems inner
  expectWord "FOR"
  let columns ← pivotColumns
  expectWord "IN"
  expect .lparen
  let values ← selectItems inner
  expect .rparen
  expect .rparen
  return .pivot (.ofList aggregates) columns (.ofList values)

/-- Whether a pivot with its parenthesis comes next. -/
def isPivot : Parse Bool := do
  if ← isWord "PIVOT" then peekSymbol 1 .lparen else return false

/-- A `FROM` clause. -/
def fromClause (inner : Inner) : Parse FromClause := do
  expectWord "FROM"
  let relations ← commaSeparated (relationOf inner)
  let views ← many (maybe (isWords ["LATERAL", "VIEW"]) (lateralView inner))
  let pivot ← maybe isPivot (pivot inner)
  return .fromClause (.ofList relations) (.ofList views) (.ofOption pivot)

end Grammar

end SqlTidy
