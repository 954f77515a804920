import SqlTidy.Grammar.Operator

/-!
# Function calls and windows

An ordinary call has arguments by position or by name, and behind the closing parenthesis it may carry
`WITHIN GROUP`, `FILTER`, a treatment of nulls and a window.
-/

namespace SqlTidy

namespace Grammar

open Parse

/-! ## Arguments -/

/-- An argument: an expression, or a name, a fat arrow and an expression. -/
def callArg (inner : Inner) : Parse CallArg := do
  if isIdentifier (← current) && (← peekSymbol 1 .fatArrow) then
    let name ← identifier
    skip
    return .named name (← inner.expression)
  else
    return .positional (← inner.expression)

def callArgs (inner : Inner) : Parse (List CallArg) := commaSeparated (callArg inner)

/-- Arguments up to a closing parenthesis, which is not taken; there may be none. -/
def callArgsBeforeParen (inner : Inner) : Parse (List CallArg) := do
  if ← isSymbol .rparen then return [] else callArgs inner

/-- `DISTINCT` or `ALL` in front of the arguments. A lone `ALL` is an argument itself. -/
def callQuantifier : Parse (Option Quantifier) := do
  if ← acceptWord "DISTINCT" then
    return some .distinct
  else if ← isWord "ALL" then
    match ← peek 1 with
    | .symbol .rparen | .symbol .comma => return none
    | _ =>
      skip
      return some .all
  else
    return none

/-! ## Windows -/

/-- One end of a frame. -/
def frameBound (inner : Inner) : Parse FrameBound := do
  match ← choose [(["UNBOUNDED", "PRECEDING"], (Tree.unboundedPreceding : FrameBound)),
      (["UNBOUNDED", "FOLLOWING"], .unboundedFollowing), (["CURRENT", "ROW"], .currentRow)] with
  | some bound => return bound
  | none =>
    let distance ← additive inner.unary
    if ← acceptWord "PRECEDING" then
      return .preceding distance
    else if ← acceptWord "FOLLOWING" then
      return .following distance
    else
      expected "PRECEDING or FOLLOWING"

/-- The bounds of a frame behind its unit. -/
def frameOf (inner : Inner) (unit : FrameUnit) : Parse Frame := do
  if ← acceptWord "BETWEEN" then
    let start ← frameBound inner
    expectWord "AND"
    let stop ← frameBound inner
    return .frame unit start (.some stop)
  else
    return .frame unit (← frameBound inner) .none

/-- The frame of a window, if there is one. -/
def optionalFrame (inner : Inner) : Parse (Option Frame) := do
  match ← choose [(["ROWS"], FrameUnit.rows), (["RANGE"], .range)] with
  | some unit => return some (← frameOf inner unit)
  | none => return none

/-- The partitioning part of a window, and whether it was written with `DISTRIBUTE`. -/
def windowPartition (inner : Inner) : Parse (List Expr × Bool) := do
  match ← choose [(["PARTITION", "BY"], false), (["DISTRIBUTE", "BY"], true)] with
  | some distribute => return (← expressions inner, distribute)
  | none => return ([], false)

/-- The three ways in which a window orders its rows. -/
inductive WindowOrdering where
  | order | sort | cluster

/-- The ordering part of a window: sort keys, whether they were written with `SORT`, and the
expressions of a `CLUSTER BY`. -/
def windowOrder (inner : Inner) : Parse (List OrderItem × Bool × List Expr) := do
  match ← choose [(["ORDER", "BY"], WindowOrdering.order), (["SORT", "BY"], .sort),
      (["CLUSTER", "BY"], .cluster)] with
  | some .order => return (← orderItems inner, false, [])
  | some .sort => return (← orderItems inner, true, [])
  | some .cluster => return ([], false, ← expressions inner)
  | none => return ([], false, [])

/-- A window written out. -/
def windowDefinition (inner : Inner) : Parse WindowDefinition := do
  expect .lparen
  let (partitionBy, distribute) ← windowPartition inner
  let (orderBy, sort, clusterBy) ← windowOrder inner
  let frame ← optionalFrame inner
  expect .rparen
  return .windowDefinition (.ofList partitionBy) distribute (.ofList orderBy) sort
    (.ofList clusterBy) (.ofOption frame)

/-- What follows `OVER`, or `AS` in a `WINDOW` clause. -/
def window (inner : Inner) : Parse Window := do
  if !(← isSymbol .lparen) then
    return .windowName (← identifier)
  else if isIdentifier (← peek 1) && (← peekSymbol 2 .rparen) then
    skip
    let name ← identifier
    skip
    return .windowNameParen name
  else
    return .windowInline (← windowDefinition inner)

/-! ## Calls -/

/-- `WITHIN GROUP (ORDER BY …)`, if it is there. -/
def withinGroup (inner : Inner) : Parse (List OrderItem) :=
  maybeList (acceptWords ["WITHIN", "GROUP"]) do
    expect .lparen
    expectWords ["ORDER", "BY"]
    let items ← orderItems inner
    expect .rparen
    return items

/-- Whether a `FILTER` with its parenthesis comes next. -/
def isFilter : Parse Bool := do
  if ← isWord "FILTER" then peekSymbol 1 .lparen else return false

/-- `FILTER (WHERE …)`, if it is there. -/
def callFilter (inner : Inner) : Parse (Option Expr) :=
  maybe isFilter do
    skipBy 2
    expectWord "WHERE"
    let condition ← inner.expression
    expect .rparen
    return condition

/-- Whether something comes next that only an ordinary call can carry. -/
def isCallSuffix : Parse Bool := do
  if ← isWord "OVER" then return true
  else if ← isWords ["WITHIN", "GROUP"] then return true
  else isFilter

/-- A call behind its name, from the opening parenthesis on. -/
def callOf (inner : Inner) (name : DottedName) : Parse Call := do
  expect .lparen
  let (quantifier, args) ← (do
    if ← isSymbol .rparen then
      return (none, [])
    else
      let quantifier ← callQuantifier
      return (quantifier, ← callArgs inner) : Parse (Option Quantifier × List CallArg))
  expect .rparen
  let group ← withinGroup inner
  let filter ← callFilter inner
  let nulls ← choose [(["IGNORE", "NULLS"], NullTreatment.ignoreNulls),
    (["RESPECT", "NULLS"], .respectNulls)]
  let overWindow ← maybe (acceptWord "OVER") (window inner)
  return .call name quantifier (.ofList args) (.ofList group) (.ofOption filter) nulls
    (.ofOption overWindow)

end Grammar

end SqlTidy
