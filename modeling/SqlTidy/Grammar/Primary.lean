import SqlTidy.Grammar.SpecialForm

/-!
# Primary expressions

The operands of all operators: literals, names, calls, and whatever stands in parentheses.
-/

namespace SqlTidy

namespace Grammar

open Parse

/-! ## Names and calls -/

/-- What may follow a name's dot. -/
inductive NameStep where
  | part (name : Ident)
  | star

/-- A dot and what follows it, if it continues a name. -/
def nameStep : Parse (Option NameStep) := do
  if ← isSymbol .dot then
    match ← peek 1 with
    | .symbol .star =>
      skipBy 2
      return some .star
    | t =>
      if isIdentifier t then
        skip
        return some (.part (← identifier))
      else
        return none
  else
    return none

/-- A name as far as it has been read, and whether a star has ended it. -/
structure NamePath where
  parts : List Ident
  starred : Bool

/-- One more step of a name; nothing follows a star. -/
def extendName (path : NamePath) : Parse (Option NamePath) := do
  if path.starred then
    return none
  else
    match ← nameStep with
    | none => return none
    | some .star => return some { path with starred := true }
    | some (.part name) => return some { path with parts := path.parts ++ [name] }

/-- A name that is not called: a lambda's parameter, a column or a qualified column. -/
def bareName (inner : Inner) : List Ident → Parse Expr
  | [name] => do
    if ← accept .arrow then
      return .lambda [name] false (← inner.expression)
    else
      return .ident name
  | parts => return .compound parts

/-- Everything that starts with a name. -/
def nameExpr (inner : Inner) : Parse Expr := do
  let first ← identifier
  let path ← iterate extendName ⟨[first], false⟩
  if path.starred then
    return .qualifiedWildcard ⟨path.parts⟩
  else if ← isSymbol .lparen then
    return .function (← callOf inner ⟨path.parts⟩)
  else
    bareName inner path.parts

/-! ## Words -/

/-- A query in parentheses, from the opening parenthesis on. -/
def parenQuery (inner : Inner) : Parse Query := do
  skip
  let query ← inner.query
  expect .rparen
  return query

/-- A word without a meaning of its own here: a name, or a call that may be a special form. -/
def plainWord (inner : Inner) (word : String) (called : Bool) : Parse Expr := do
  if called then
    match ← specialForm inner word with
    | some e => return e
    | none => nameExpr inner
  else if Text.upper word ∈ reservedInExpr then
    expected "expression"
  else
    nameExpr inner

/-- Whether a token can start the value of an interval. -/
def startsInterval : Token → Bool
  | .string _ | .number _ | .symbol .minus => true
  | _ => false

/-- `STRUCT` with its fields in parentheses. -/
def structExpr (inner : Inner) : Parse Expr := do
  skipBy 2
  let fields ← maybeList (do return !(← isSymbol .rparen)) (selectItems inner)
  expect .rparen
  return .struct (.ofList fields)

/-- Takes the current token for a whole expression. -/
def takeFor (e : Expr) : Parse Expr := do
  skip
  return e

/-- An expression that starts with a word, by the word and by whether it is called. -/
def keywordExpr (inner : Inner) (word : String) (called : Bool) : Parse Expr := do
  match Text.upper word, called with
  | "NULL", false => takeFor (.literal .null)
  | "TRUE", false => takeFor (.literal (.boolean true))
  | "FALSE", false => takeFor (.literal (.boolean false))
  | "CURRENT_DATE", false | "CURRENT_TIMESTAMP", false | "CURRENT_USER", false =>
    takeFor (.currentValue (Text.lower word))
  | "INTERVAL", _ => if startsInterval (← peek 1) then interval else plainWord inner word called
  | "CASE", _ => caseExpr inner
  | "CAST", true => castExpr inner .cast
  | "TRY_CAST", true => castExpr inner .tryCast
  | "EXTRACT", true => extractExpr inner
  | "EXISTS", true =>
    if ← queryAhead 1 then
      skip
      return .existsQuery (← parenQuery inner)
    else
      plainWord inner word called
  | "STRUCT", true => structExpr inner
  | _, _ => plainWord inner word called

/-- An expression that starts with a word. A string literal right behind the name of a type makes a
literal of that type. -/
def wordExpr (inner : Inner) (word : String) : Parse Expr := do
  match ← peek 1 with
  | .string value =>
    if Text.upper word ∈ typedLiteralWords then
      skipBy 2
      return .typedLiteral (Text.upper word) value
    else
      keywordExpr inner word false
  | next => keywordExpr inner word (next = .symbol .lparen)

/-! ## Parentheses -/

/-- The parameters of a lambda in parentheses, with the arrow behind them. -/
def lambdaParams : Parse (Option (List Ident)) := do
  let params ← identifierList
  expect .arrow
  return some params

/-- Items in parentheses. One item without an alias is an expression in parentheses; anything else is
a row. -/
def rowOrParen (inner : Inner) : Parse Expr := do
  expect .lparen
  let value ← inner.expression
  let asName ← selectAlias
  if asName.isNone && (← isSymbol .rparen) then
    takeFor (.paren value)
  else
    let rest ← many (maybe (accept .comma) (selectItem inner))
    expect .rparen
    return .row (.ofList (.selectItem value asName :: rest))

/-- What is in parentheses and not a query: a lambda with its parameters, or items. -/
def lambdaOrRow (inner : Inner) : Parse Expr := do
  match ← attempt lambdaParams with
  | some params => return .lambda params true (← inner.expression)
  | none => rowOrParen inner

/-- Everything that starts with a parenthesis. When a query comes next it is read as one; behind a
doubled parenthesis it may still be the start of an expression, such as `((SELECT 1) + 1)`, so only
there a failure is not final. -/
def parenExpr (inner : Inner) : Parse Expr := do
  if !(← queryAhead 1) then
    lambdaOrRow inner
  else if ← peekSymbol 1 .lparen then
    match ← attempt (do return some (← parenQuery inner)) with
    | some query => return .subquery query
    | none => lambdaOrRow inner
  else
    return .subquery (← parenQuery inner)

/-! ## All of them -/

/-- A string literal, if it is the current token. -/
def stringPiece : Parse (Option String) := acceptIf fun
  | .string s => some s
  | _ => none

/-- A primary expression. -/
def primary (inner : Inner) : Parse Expr := do
  match ← current with
  | .number n => takeFor (.literal (.number n))
  | .string _ => return .literal (.string (← many stringPiece))
  | .symbol .star => takeFor .wildcard
  | .symbol .lparen => parenExpr inner
  | .quoted _ => nameExpr inner
  | .word w => wordExpr inner w
  | _ => expected "expression"

end Grammar

end SqlTidy
