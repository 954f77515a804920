/-!
# Names

An identifier is kept as it was written, so that printing it gives back the same text. A quoted
identifier stores only what stands between its backticks; a doubled backtick stays doubled.
-/

namespace SqlTidy

/-- One identifier: its text, and whether it was written between backticks. -/
structure Ident where
  text : String
  quoted : Bool
deriving DecidableEq

namespace Ident

/-- The identifier as it is written in a statement. -/
def written (i : Ident) : String :=
  if i.quoted then "\x60" ++ i.text ++ "\x60" else i.text

end Ident

/-- A name of one or more parts with dots between them, such as `db.orders`. -/
structure DottedName where
  parts : List Ident
deriving DecidableEq

namespace DottedName

/-- The name as it is written in a statement. -/
def written (n : DottedName) : String :=
  ".".intercalate (n.parts.map Ident.written)

end DottedName

end SqlTidy
