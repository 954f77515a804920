import SqlTidy.Error

/-!
# The printer

The printer holds the text written so far and the current depth. Indentation is written late: a new
line only marks it as pending, and the first text that is not empty pays it, at the depth of that
moment. So a line never ends in indentation alone.
-/

namespace SqlTidy

/-- The width of one level of indentation, in spaces, unless a style says otherwise. -/
def defaultIndent : Nat := 2

/-! ## Depth -/

/-- A nesting depth and the width of one level. -/
structure Indent where
  width : Nat
  depth : Nat
deriving DecidableEq

namespace Indent

def ofWidth (width : Nat) : Indent := ⟨width, 0⟩

def enter (i : Indent) : Indent := { i with depth := i.depth + 1 }

/-- One level less; depth 0 stays. -/
def leave (i : Indent) : Indent := { i with depth := i.depth - 1 }

/-- The blank text in front of a line at a depth. -/
def text (i : Indent) (depth : Nat) : String :=
  String.ofList (List.replicate (i.width * depth) ' ')

end Indent

/-! ## Writing -/

/-- A page being written. -/
structure Printer where
  /-- The text so far. -/
  output : String
  indent : Indent
  /-- The current line has not been indented yet. -/
  pending : Bool
  /-- The depth at which the latest indented line was indented. -/
  lineDepth : Nat
deriving DecidableEq

namespace Printer

def ofWidth (width : Nat) : Printer := ⟨"", .ofWidth width, false, 0⟩

def depth (p : Printer) : Nat := p.indent.depth

/-- Writes a text on the current line; an empty text changes nothing. -/
def write (p : Printer) (text : String) : Printer :=
  if text.isEmpty then p
  else if p.pending then
    { p with
      output := p.output ++ p.indent.text p.depth ++ text
      pending := false
      lineDepth := p.depth }
  else { p with output := p.output ++ text }

/-- Starts a new line. -/
def newline (p : Printer) : Printer :=
  { p with output := p.output ++ "\n", pending := true }

def enter (p : Printer) : Printer := { p with indent := p.indent.enter }

def leave (p : Printer) : Printer := { p with indent := p.indent.leave }

/-- Goes up to another depth. -/
def setDepth (p : Printer) (depth : Nat) : Printer := { p with indent := { p.indent with depth } }

/-! Writing never moves the depth. -/

@[simp] theorem depth_ofWidth (width : Nat) : (ofWidth width).depth = 0 := rfl

@[simp] theorem depth_write (p : Printer) (text : String) : (p.write text).depth = p.depth := by
  unfold write
  split
  · rfl
  · split <;> rfl

@[simp] theorem depth_newline (p : Printer) : p.newline.depth = p.depth := rfl

@[simp] theorem depth_enter (p : Printer) : p.enter.depth = p.depth + 1 := rfl

@[simp] theorem depth_leave (p : Printer) : p.leave.depth = p.depth - 1 := rfl

@[simp] theorem depth_setDepth (p : Printer) (n : Nat) : (p.setDepth n).depth = n := rfl

/-- The finished page. A level that was entered and never left is an error. -/
def finish (p : Printer) : Except Error String :=
  if p.depth = 0 then .ok p.output
  else .error (.format ("indent depth is " ++ toString p.depth ++ " at end of statement"))

end Printer

end SqlTidy
