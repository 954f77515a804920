import SqlTidy.Grammar.DataType
import SqlTidy.Tree.Basic

/-!
# The rules that call each other

Expressions and queries contain each other, and a few rules contain themselves. Every rule of the
grammar is written against a record `Inner` of the rules as they hold one level further in, so no
rule is recursive by itself. `SqlTidy.Grammar.Nesting` builds the record level by level.

The discipline that makes this work: between being called and calling a field of `Inner`, a rule takes
at least one token.
-/

namespace SqlTidy

/-- The rules for what is nested inside something. -/
structure Inner where
  /-- Any expression. -/
  expression : Parse Expr
  /-- An expression that is not an `AND` or an `OR`, such as the operand of `NOT`. -/
  negation : Parse Expr
  /-- An expression that binds tighter than any binary operator. -/
  unary : Parse Expr
  query : Parse Query
  relation : Parse Relation

namespace Grammar

open Parse

/-! ## Looking ahead for a query -/

/-- The number of opening parentheses in a row from a position on, at most `bound`. -/
def parenRun (i : Input) : (bound : Nat) → (pos : Nat) → Nat
  | 0, _ => 0
  | bound + 1, pos =>
    if i.tokenAt pos = .symbol .lparen then parenRun i bound (pos + 1) + 1 else 0

/-- The number of opening parentheses in a row from `n` places ahead. -/
def parensAhead (n : Nat) : Parse Nat := fun i pos =>
  (.ok (parenRun i (i.remaining (pos + n)) (pos + n)), pos)

/-- Whether a query starts behind the parentheses from `n` places ahead, if there are any. -/
def queryAhead (n : Nat) : Parse Bool := do
  let word ← peek (n + (← parensAhead n))
  return ["SELECT", "WITH", "FROM", "VALUES"].any word.isKeyword

/-- Whether a query starts here, possibly in parentheses. -/
def isQueryStart : Parse Bool := do
  if ← queryAhead 0 then return true else isWord "TABLE"

/-! ## Lists of expressions -/

/-- One or more expressions. -/
def expressions (inner : Inner) : Parse (List Expr) := commaSeparated inner.expression

/-- Expressions up to a closing parenthesis, which is not taken; there may be none. -/
def expressionsBeforeParen (inner : Inner) : Parse (List Expr) := do
  if ← isSymbol .rparen then return [] else expressions inner

/-- The name behind the word `AS` of a select item. -/
def aliasName : Parse AliasName := do
  if ← isSymbol .lparen then return .multi (← identifierList) else return .single (← identifier)

/-- The alias of a select item, if there is one. -/
def selectAlias : Parse (Option Alias) := do
  if ← acceptWord "AS" then
    return some ⟨true, ← aliasName⟩
  else if ← mayBeAlias then
    return some ⟨false, .single (← identifier)⟩
  else
    return none

/-- An expression with an optional alias. -/
def selectItem (inner : Inner) : Parse SelectItem := do
  let value ← inner.expression
  let asName ← selectAlias
  return .selectItem value asName

def selectItems (inner : Inner) : Parse (List SelectItem) := commaSeparated (selectItem inner)

/-- A sort key. -/
def orderItem (inner : Inner) : Parse OrderItem := do
  let key ← inner.expression
  let direction ← choose [(["ASC"], SortDirection.asc), (["DESC"], .desc)]
  let nulls ← choose [(["NULLS", "FIRST"], NullsOrder.first), (["NULLS", "LAST"], .last)]
  return .orderItem key direction nulls

def orderItems (inner : Inner) : Parse (List OrderItem) := commaSeparated (orderItem inner)

end Grammar

end SqlTidy
