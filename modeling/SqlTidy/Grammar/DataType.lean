import SqlTidy.Grammar.Name
import SqlTidy.Tree.DataType

/-!
# Data types

A word is a type of its own, with parameters in parentheses if there are any. Four words may start
something larger: `ARRAY`, `MAP` and `STRUCT` when an angle bracket follows, and `INTERVAL` always.
-/

namespace SqlTidy

namespace Grammar

open Parse

/-- One parameter of a type: a number or a word. -/
def typeParameter : Parse String := expectIf "type parameter" fun
  | .number n => some n
  | .word w => some w
  | _ => none

/-- A type that is just a word, with its parameters. -/
def primitiveType (name : String) : Parse DataType := do
  if ← accept .lparen then
    let params ← commaSeparated typeParameter
    expect .rparen
    return .primitive name params
  else
    return .primitive name []

/-- A field of a struct type, where types inside are read by `inner`. -/
def structField (inner : Parse DataType) : Parse StructField := do
  let name ← identifier
  let colon ← accept .colon
  let type ← inner
  let notNull ← acceptWords ["NOT", "NULL"]
  let comment ← optionalString "COMMENT"
  return { name, colon, type, notNull, comment }

/-- The range of an interval type. -/
def intervalType : Parse DataType := do
  let start ← expectIf "interval unit" (capitalsAmong intervalUnits)
  let stop ← maybe (acceptWord "TO") (expectIf "interval unit" capitals)
  return .interval start stop

/-- The rest of a type behind its first word. -/
def typeAfter (inner : Parse DataType) (name : String) : Parse DataType := do
  let bracket ← isSymbol .lt
  match Text.upper name, bracket with
  | "ARRAY", true =>
    skip
    let element ← inner
    expect .gt
    return .array name element
  | "MAP", true =>
    skip
    let key ← inner
    expect .comma
    let value ← inner
    expect .gt
    return .map name key value
  | "STRUCT", true =>
    skip
    let fields ← commaSeparated (structField inner)
    expect .gt
    return .struct name fields
  | "STRUCT", false =>
    -- The scanner reads the empty brackets as one operator.
    if ← accept .notEq then return .struct name [] else primitiveType name
  | "INTERVAL", _ => intervalType
  | _, _ => primitiveType name

/-- A data type. -/
def dataType : Parse DataType := fix fun inner => do
  let name ← expectIf "data type" fun
    | .word w => some w
    | _ => none
  typeAfter inner name

end Grammar

end SqlTidy
