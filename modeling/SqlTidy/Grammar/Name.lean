import SqlTidy.Grammar.Parse
import SqlTidy.Tree.Name

/-!
# Names, literals and word lists

The rules that read one or a few tokens and no expression. The word lists decide, from where a word
stands, whether it may be a name there.
-/

namespace SqlTidy

namespace Grammar

open Parse

/-! ## Words in context -/

/-- Words that no expression can start with, unless they are called like a function. -/
def reservedInExpr : List String :=
  ["SELECT", "FROM", "WHERE", "GROUP", "HAVING", "ORDER", "UNION", "INTERSECT", "EXCEPT", "JOIN",
    "ON", "WHEN", "THEN", "ELSE", "END", "AND", "OR", "AS", "BY", "INTO"]

/-- Words that end an expression or a table and are not read as its alias. -/
def neverAlias : List String :=
  ["SELECT", "FROM", "WHERE", "GROUP", "HAVING", "ORDER", "UNION", "INTERSECT", "EXCEPT", "MINUS",
    "JOIN", "ON", "WHEN", "THEN", "ELSE", "END", "AND", "OR", "AS", "BY", "INTO", "LIMIT", "OFFSET",
    "SORT", "CLUSTER", "DISTRIBUTE", "WINDOW", "INNER", "LEFT", "RIGHT", "FULL", "CROSS", "NATURAL",
    "SEMI", "ANTI", "USING", "LATERAL", "PIVOT", "UNPIVOT", "TABLESAMPLE", "INSERT", "SET", "FOR",
    "IS", "IN", "NOT", "LIKE", "ILIKE", "RLIKE", "REGEXP", "BETWEEN", "WITH"]

/-- The words whose string literal behind them is a literal of that type. -/
def typedLiteralWords : List String := ["DATE", "TIMESTAMP", "TIMESTAMP_NTZ", "TIMESTAMP_LTZ", "X"]

/-- The units of an interval. -/
def intervalUnits : List String :=
  ["YEAR", "YEARS", "MONTH", "MONTHS", "WEEK", "WEEKS", "DAY", "DAYS", "HOUR", "HOURS", "MINUTE",
    "MINUTES", "SECOND", "SECONDS", "MILLISECOND", "MILLISECONDS", "MICROSECOND", "MICROSECONDS",
    "NANOSECOND", "NANOSECONDS"]

/-- The units that the functions of `datetimeFunctions` take as their first argument. -/
def datetimeUnits : List String :=
  ["YEAR", "QUARTER", "MONTH", "WEEK", "DAY", "DAYOFYEAR", "HOUR", "MINUTE", "SECOND",
    "MILLISECOND", "MICROSECOND"]

/-- The functions whose first argument may be a unit. -/
def datetimeFunctions : List String :=
  ["TIMESTAMPADD", "TIMESTAMPDIFF", "DATEADD", "DATEDIFF", "DATE_ADD", "DATE_DIFF"]

/-- Whether a token is an identifier. -/
def isIdentifier : Token → Bool
  | .word _ | .quoted _ => true
  | _ => false

/-- Whether the current token may be an alias without the word `AS`. -/
def mayBeAlias : Parse Bool := do
  match ← current with
  | .quoted _ => return true
  | .word w => return !(Text.upper w ∈ neverAlias)
  | _ => return false

/-! ## Names -/

/-- An identifier, bare or quoted. -/
def identifier : Parse Ident := expectIf "identifier" fun
  | .word w => some ⟨w, false⟩
  | .quoted w => some ⟨w, true⟩
  | _ => none

/-- A dot and the identifier behind it, if both are there. -/
def dottedPart : Parse (Option Ident) := do
  if (← isSymbol .dot) && isIdentifier (← peek 1) then
    skip
    return some (← identifier)
  else
    return none

/-- Identifiers with dots between them. -/
def dottedName : Parse DottedName := do
  let first ← identifier
  let rest ← many dottedPart
  return ⟨first :: rest⟩

/-- Identifiers in parentheses. -/
def identifierList : Parse (List Ident) := do
  expect .lparen
  let names ← commaSeparated identifier
  expect .rparen
  return names

/-- Identifiers in parentheses, if there is a parenthesis. -/
def optionalIdentifierList : Parse (List Ident) := maybeList (isSymbol .lparen) identifierList

/-! ## Literals -/

/-- A string literal with its quotes. -/
def stringLiteral : Parse String := expectIf "string literal" fun
  | .string s => some s
  | _ => none

/-- A string literal behind a keyword, if the keyword is there. -/
def optionalString (keyword : String) : Parse (Option String) :=
  maybe (acceptWord keyword) stringLiteral

/-- A number with its suffix. -/
def number : Parse String := expectIf "number" fun
  | .number n => some n
  | _ => none

/-- A token in capitals, if it is a word. -/
def capitals : Token → Option String
  | .word w => some (Text.upper w)
  | _ => none

/-- A token in capitals, if it is one of the words in a list. -/
def capitalsAmong (words : List String) (t : Token) : Option String :=
  (capitals t).filter (· ∈ words)

end Grammar

end SqlTidy
