import SqlTidy.Grammar.Statement
import SqlTidy.Layout.Statement

/-!
# Formatting

One statement goes in, its printed form comes out. White space around the statement is dropped first,
and faults are located in what is left.
-/

namespace SqlTidy

/-- Formats a text that holds one statement. -/
def format (style : Style) (text : String) : Except Error String :=
  let statement := Text.trim text
  match Statement.parse statement with
  | .ok tree => tree.print style
  | .error e => .error (e.withSource statement)

/-- Whether a text is its own printed form in the default style, apart from white space around it. -/
def isFormatted (text : String) : Except Error Bool := do
  return (← format .default text) = Text.trim text

end SqlTidy
