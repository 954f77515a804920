import SqlTidy.Grammar.Call

/-!
# Functions with a grammar of their own

`CAST`, `EXTRACT`, `CASE` and intervals are read by their own rules and by nothing else. The functions
of `specialForm` are different: most of their calls are ordinary calls too, so their own rule may
decline, and then the same tokens are read again as an ordinary call. All rules start at the
function's name.
-/

namespace SqlTidy

namespace Grammar

open Parse

/-! ## Intervals -/

/-- The value of one quantity of an interval, if there is one. -/
def intervalValue : Parse (Option String) := do
  match ← current, ← peek 1 with
  | .symbol .minus, .number n =>
    skipBy 2
    return some ("-" ++ n)
  | _, _ => acceptIf fun
    | .string s => some s
    | .number n => some n
    | _ => none

/-- The unit of one quantity of an interval, in capitals, if there is one. -/
def intervalUnit : Parse (Option String) := acceptIf (capitalsAmong intervalUnits)

/-- One quantity of an interval, if there is one. -/
def intervalPart : Parse (Option IntervalPart) := do
  match ← intervalValue with
  | some value => return some ⟨value, ← intervalUnit⟩
  | none => return none

/-- An interval literal. -/
def interval : Parse Expr := do
  expectWord "INTERVAL"
  let parts ← many intervalPart
  if parts.isEmpty then
    expected "interval value"
  else
    let upTo ← maybe (acceptWord "TO")
      (expectIf "interval unit" (capitalsAmong intervalUnits))
    return .interval parts upTo

/-! ## `CASE`, `CAST` and `EXTRACT` -/

/-- One branch of a `CASE`, if there is one. -/
def caseBranch (inner : Inner) : Parse (Option CaseBranch) :=
  maybe (acceptWord "WHEN") do
    let condition ← inner.expression
    expectWord "THEN"
    let result ← inner.expression
    return .branch condition result

def caseExpr (inner : Inner) : Parse Expr := do
  expectWord "CASE"
  let operand ← maybe (do return !(← isWord "WHEN")) inner.expression
  let branches ← many (caseBranch inner)
  if branches.isEmpty then
    expected "WHEN"
  else
    let otherwise ← maybe (acceptWord "ELSE") inner.expression
    expectWord "END"
    return .case (.ofOption operand) (.ofList branches) (.ofOption otherwise)

def castExpr (inner : Inner) (form : CastForm) : Parse Expr := do
  skip
  expect .lparen
  let operand ← inner.expression
  expectWord "AS"
  let type ← dataType
  expect .rparen
  return .cast form operand type

def extractExpr (inner : Inner) : Parse Expr := do
  skip
  expect .lparen
  let part ← expectIf "date field" capitals
  expectWord "FROM"
  let source ← inner.expression
  expect .rparen
  return .extract part source

/-! ## Forms that may decline -/

/-- The result of a form, unless it carries something that only an ordinary call can carry. -/
def unlessSuffix (e : Expr) : Parse (Option Expr) := do
  if ← isCallSuffix then return none else return some e

/-- Start and length of a substring, in the form with keywords or in the form with commas. -/
def substringRange (inner : Inner) : Parse (Option (Expr × Option Expr × Bool)) := do
  if ← acceptWord "FROM" then
    let start ← inner.expression
    let length ← maybe (acceptWord "FOR") inner.expression
    return some (start, length, true)
  else if ← accept .comma then
    let start ← inner.expression
    let length ← maybe (accept .comma) inner.expression
    return some (start, length, false)
  else
    return none

def substringForm (inner : Inner) (name : String) : Parse (Option Expr) := do
  skip
  expect .lparen
  let source ← inner.expression
  match ← substringRange inner with
  | none => return none
  | some (start, length, keywordForm) =>
    expect .rparen
    unlessSuffix (.substring name source start (.ofOption length) keywordForm)

/-- What is trimmed off, and what it is trimmed off from. Without a side there must be a `FROM`. -/
def trimOperands (inner : Inner) (side : Option TrimSide) :
    Parse (Option (Option Expr × Expr)) := do
  if ← acceptWord "FROM" then
    return some (none, ← inner.expression)
  else
    let first ← inner.expression
    if ← acceptWord "FROM" then
      return some (some first, ← inner.expression)
    else if side.isNone then
      return none
    else
      return some (none, first)

def trimForm (inner : Inner) : Parse (Option Expr) := do
  skip
  expect .lparen
  let side ← choose [(["BOTH"], TrimSide.both), (["LEADING"], .leading), (["TRAILING"], .trailing)]
  match ← trimOperands inner side with
  | none => return none
  | some (characters, source) =>
    expect .rparen
    return some (.trim side (.ofOption characters) source)

def positionForm (inner : Inner) : Parse (Option Expr) := do
  skip
  expect .lparen
  -- An `IN` ends the needle, so predicates are left out of it.
  let needle ← comparison inner.unary
  if ← acceptWord "IN" then
    let haystack ← inner.expression
    expect .rparen
    return some (.position needle haystack)
  else
    return none

def overlayForm (inner : Inner) : Parse (Option Expr) := do
  skip
  expect .lparen
  let target ← inner.expression
  if ← acceptWord "PLACING" then
    let placing ← inner.expression
    expectWord "FROM"
    let start ← inner.expression
    let length ← maybe (acceptWord "FOR") inner.expression
    expect .rparen
    return some (.overlay target placing start (.ofOption length))
  else
    return none

/-- `first` and `last` with `IGNORE NULLS` inside the parentheses. -/
def firstLastForm (inner : Inner) (last : Bool) : Parse (Option Expr) := do
  skip
  expect .lparen
  let operand ← inner.expression
  if ← acceptWords ["IGNORE", "NULLS"] then
    expect .rparen
    unlessSuffix (.firstLast last operand true)
  else
    return none

/-- A unit and the comma behind it. -/
def datetimeUnit : Parse (Option String) := do
  match ← currentWord with
  | some w =>
    if w ∈ datetimeUnits && (← peekSymbol 1 .comma) then
      skipBy 2
      return some w
    else
      return none
  | none => return none

def datetimeForm (inner : Inner) (name : String) : Parse (Option Expr) := do
  skip
  expect .lparen
  match ← datetimeUnit with
  | none => return none
  | some unit =>
    let args ← expressions inner
    expect .rparen
    unlessSuffix (.datetime name unit (.ofList args))

/-- Reads a call by the function's own grammar, if the function has one and the call fits it. -/
def specialForm (inner : Inner) (word : String) : Parse (Option Expr) :=
  match Text.upper word with
  | "SUBSTRING" | "SUBSTR" => attempt (substringForm inner (Text.lower word))
  | "TRIM" => attempt (trimForm inner)
  | "POSITION" => attempt (positionForm inner)
  | "OVERLAY" => attempt (overlayForm inner)
  | "FIRST" => attempt (firstLastForm inner false)
  | "LAST" => attempt (firstLastForm inner true)
  | upper =>
    if upper ∈ datetimeFunctions then attempt (datetimeForm inner (Text.lower word)) else pure none

end Grammar

end SqlTidy
