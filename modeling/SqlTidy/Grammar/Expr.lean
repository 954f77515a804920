import SqlTidy.Grammar.Primary

/-!
# Expressions

From the tightest to the loosest: postfix forms, unary operators, the binary operators of
`SqlTidy.Grammar.Operator`, predicates, `NOT`, `AND`, `OR`.
-/

namespace SqlTidy

namespace Grammar

open Parse

/-! ## Postfix forms and unary operators -/

/-- One postfix form behind an expression: a subscript, a field or a cast. -/
def postfixStep (inner : Inner) (base : Expr) : Parse (Option Expr) := do
  if ← accept .lbracket then
    let index ← inner.expression
    expect .rbracket
    return some (.subscript base index)
  else if ← accept .doubleColon then
    return some (.cast .shorthand base (← dataType))
  else
    match ← dottedPart with
    | some name => return some (.field base name)
    | none => return none

/-- A primary expression with its postfix forms. -/
def postfixExpr (inner : Inner) : Parse Expr := do
  let base ← primary inner
  iterate (postfixStep inner) base

def unaryOp : Token → Option UnaryOp
  | .symbol .minus => some .minus
  | .symbol .plus => some .plus
  | .symbol .tilde => some .bitNot
  | _ => none

/-- Unary operators in front of a postfix expression. -/
def unaryExpr (inner : Inner) : Parse Expr := do
  match ← acceptIf unaryOp with
  | some op => return .unary op (← inner.unary)
  | none => postfixExpr inner

/-- A comparison, or anything that binds tighter. -/
def comparisonExpr (inner : Inner) : Parse Expr := comparison (unaryExpr inner)

/-! ## Predicates -/

/-- The predicates that `NOT` may negate from inside. -/
inductive PredicateWord where
  | between | inside | like (op : LikeOp)

def predicateWords : List (List String × PredicateWord) :=
  [(["BETWEEN"], .between), (["IN"], .inside), (["LIKE"], .like .like), (["ILIKE"], .like .ilike),
    (["RLIKE"], .like .rlike), (["REGEXP"], .like .regexp)]

/-- The rest of a predicate behind its word. -/
def predicateAfter (inner : Inner) (tested : Expr) (negated : Bool) : PredicateWord → Parse Expr
  | .between => do
    let low ← comparisonExpr inner
    expectWord "AND"
    let high ← comparisonExpr inner
    return .between tested negated low high
  | .inside => do
    expect .lparen
    if ← isQueryStart then
      let query ← inner.query
      expect .rparen
      return .inQuery tested negated query
    else
      let items ← expressions inner
      expect .rparen
      return .inList tested negated (.ofList items)
  | .like op => do
    let pattern ← comparisonExpr inner
    let escape ← optionalString "ESCAPE"
    return .like tested negated op pattern escape

/-- The rest of a predicate behind `IS`. -/
def predicateAfterIs (inner : Inner) (tested : Expr) : Parse Expr := do
  let negated ← acceptWord "NOT"
  if ← acceptWords ["DISTINCT", "FROM"] then
    return .distinctFrom tested negated (← comparisonExpr inner)
  else
    match ← choose [(["NULL"], IsTest.null), (["TRUE"], .true), (["FALSE"], .false),
        (["UNKNOWN"], .unknown)] with
    | some test => return .is tested negated test
    | none => expected "NULL, TRUE, FALSE, UNKNOWN or DISTINCT FROM"

/-- The word of a predicate and whether it is negated. A `NOT` that no such word follows is not
taken. -/
def predicateHead : Parse (Option (Bool × PredicateWord)) := rewinding do
  let negated ← acceptWord "NOT"
  match ← choose predicateWords with
  | some word => return some (negated, word)
  | none => return none

/-- One predicate about an expression, if one comes next. -/
def predicateStep (inner : Inner) (tested : Expr) : Parse (Option Expr) := do
  match ← predicateHead with
  | some (negated, word) => return some (← predicateAfter inner tested negated word)
  | none => maybe (acceptWord "IS") (predicateAfterIs inner tested)

/-- A comparison with the predicates behind it. -/
def predicate (inner : Inner) : Parse Expr := do
  let tested ← comparisonExpr inner
  iterate (predicateStep inner) tested

/-! ## Connectives -/

/-- Takes a negation, written as a word or as a mark. -/
def acceptNot : Parse Bool := do
  if ← acceptWord "NOT" then return true else accept .bang

/-- Negations in front of a predicate. -/
def negationExpr (inner : Inner) : Parse Expr := do
  if ← acceptNot then
    return .unary .not (← inner.negation)
  else
    predicate inner

/-- Any expression. -/
def expressionOf (inner : Inner) : Parse Expr :=
  chain orOp (chain andOp (negationExpr inner))

end Grammar

end SqlTidy
