import SqlTidy.Page.Printer

/-!
# Styles

The two choices a caller has. Everything else about the printed form is fixed.
-/

namespace SqlTidy

/-- Where a clause puts its only item. -/
inductive ClauseLayout where
  /-- On a line of its own below the keyword. -/
  | stacked
  /-- On the keyword's line. Lists of several items are broken in both layouts. -/
  | compact
deriving DecidableEq

/-- How statements are laid out. -/
structure Style where
  layout : ClauseLayout
  indentWidth : Nat
deriving DecidableEq

namespace Style

def stacked : Style := ⟨.stacked, defaultIndent⟩

def compact : Style := ⟨.compact, defaultIndent⟩

def default : Style := stacked

end Style

end SqlTidy
