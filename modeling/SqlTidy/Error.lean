import SqlTidy.Text.Position
import SqlTidy.Token

/-!
# Errors

An error is a cause with a place; its wording is made in one function per type. The source text is
attached last, by whoever knows what the user typed, and line and column are read off it then.
-/

namespace SqlTidy

/-- A range of bytes. -/
structure Span where
  offset : Nat
  length : Nat
deriving DecidableEq

/-- Why a text is not a statement. -/
inductive Cause where
  | unterminatedHint
  | unterminatedComment
  | unterminatedString
  | unterminatedQuote
  | unexpectedChar (c : Char)
  | emptyInput
  /-- A rule went on without taking tokens. No input makes a rule do that. -/
  | endless
  | expected (what : String) (found : Token)
  | trailing (found : Token)
  | other (message : String)
deriving DecidableEq

def Cause.message : Cause → String
  | .unterminatedHint => "Unterminated hint"
  | .unterminatedComment => "Unterminated comment"
  | .unterminatedString => "Unterminated string literal"
  | .unterminatedQuote => "Unterminated quoted identifier"
  | .unexpectedChar c => "Unexpected character '" ++ c.toString ++ "'"
  | .emptyInput => "Empty input"
  | .endless => "Endless rule"
  | .expected what found => "Expected " ++ what ++ ", found " ++ found.describe
  | .trailing found => "Unexpected " ++ found.describe ++ " after statement"
  | .other message => message

/-- A fault in a text: its cause, the bytes it concerns, and the text if it has been attached. -/
structure ParseError where
  cause : Cause
  span : Option Span
  source : Option String
deriving DecidableEq

namespace ParseError

/-- Line and column of the fault; unknown without a span or without a source. -/
def position (e : ParseError) : Option Text.Position :=
  e.span.bind fun s => e.source.map fun text => Text.positionAt text s.offset

end ParseError

/-- Every way in which formatting can fail. -/
inductive Error where
  /-- The text is not a statement. -/
  | parse (fault : ParseError)
  /-- The statement is of a kind that has no tree. -/
  | unsupported (construct : String)
  /-- The printer was left in a state that no statement should leave it in. -/
  | format (reason : String)
deriving DecidableEq

namespace Error

/-- Whether a rule went on without taking tokens. -/
def isEndless : Error → Bool
  | .parse fault => fault.cause = .endless
  | _ => false

/-- A fault at a range of bytes, before its source is attached. -/
def ofCause (cause : Cause) (offset length : Nat) : Error :=
  .parse ⟨cause, some ⟨offset, length⟩, none⟩

def message : Error → String
  | .parse fault => fault.cause.message
  | .unsupported construct => "Unsupported construct: " ++ construct
  | .format reason => "Format error: " ++ reason

/-- Attaches the source text to a fault in it, in place of any text attached before. -/
def withSource (e : Error) (text : String) : Error :=
  match e with
  | .parse fault => .parse { fault with source := some text }
  | e => e

end Error

end SqlTidy
