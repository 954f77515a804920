/-!
# Positions in a text

Offsets count bytes of the UTF-8 encoding, as spans do; lines and columns count characters from 1, as
people do. This module goes from the first to the second, and cuts texts by offsets and by lines.
-/

namespace SqlTidy.Text

/-- The number of bytes that a list of characters takes in UTF-8. -/
def byteSize : List Char → Nat
  | [] => 0
  | c :: cs => c.utf8Size + byteSize cs

@[simp] theorem byteSize_nil : byteSize [] = 0 := rfl

@[simp] theorem byteSize_cons (c : Char) (cs : List Char) :
    byteSize (c :: cs) = c.utf8Size + byteSize cs := rfl

@[simp] theorem byteSize_append (cs ds : List Char) :
    byteSize (cs ++ ds) = byteSize cs + byteSize ds := by
  induction cs with
  | nil => simp
  | cons c cs ih => simp [ih, Nat.add_assoc]

theorem byteSize_eq_utf8ByteSize (cs : List Char) :
    byteSize cs = (String.ofList cs).utf8ByteSize := by
  induction cs with
  | nil => simp
  | cons c cs ih => rw [byteSize_cons, ih, String.ofList_cons, String.utf8ByteSize_append,
      String.utf8ByteSize_singleton]

/-- The bytes of a text are the bytes of its characters. -/
@[simp] theorem byteSize_toList (s : String) : byteSize s.toList = s.utf8ByteSize := by
  rw [byteSize_eq_utf8ByteSize, String.ofList_toList]

/-! ## Lines and columns -/

/-- A place in a text for people to read, counted from 1. -/
structure Position where
  line : Nat
  column : Nat
deriving DecidableEq

namespace Position

/-- Where every text starts. -/
def start : Position := ⟨1, 1⟩

/-- The position behind a character that stands at `p`. -/
def advance (p : Position) (c : Char) : Position :=
  if c = '\n' then ⟨p.line + 1, 1⟩ else ⟨p.line, p.column + 1⟩

end Position

/-- The characters that start before a byte offset. -/
def charsBefore : Nat → List Char → List Char
  | _, [] => []
  | 0, _ => []
  | n, c :: cs => c :: charsBefore (n - c.utf8Size) cs

/-- The position of a byte offset. An offset behind the end is taken for the end. -/
def positionAt (text : String) (offset : Nat) : Position :=
  (charsBefore offset text.toList).foldl Position.advance .start

/-! ## Cutting by offsets -/

/-- What is left after `n` bytes, if a character starts there or the text ends there. -/
def dropBytes : Nat → List Char → Option (List Char)
  | 0, cs => some cs
  | _, [] => none
  | n, c :: cs => if c.utf8Size ≤ n then dropBytes (n - c.utf8Size) cs else none

/-- The first `n` bytes, if they are whole characters. -/
def takeBytes : Nat → List Char → Option (List Char)
  | 0, _ => some []
  | _, [] => none
  | n, c :: cs => if c.utf8Size ≤ n then (takeBytes (n - c.utf8Size) cs).map (c :: ·) else none

/-- The part of a text between two byte offsets, if both are character boundaries in order. -/
def slice? (text : String) (start stop : Nat) : Option String :=
  if start ≤ stop then
    ((dropBytes start text.toList).bind (takeBytes (stop - start))).map String.ofList
  else
    none

/-! ## Cutting by lines -/

/-- The lines of a text. A line ends with a line feed, with or without a carriage return before it;
what follows the last line feed is a line only if it is not empty. -/
def lines : List Char → List (List Char)
  | [] => []
  | '\n' :: cs => [] :: lines cs
  | '\r' :: '\n' :: cs => [] :: lines cs
  | c :: cs =>
    match lines cs with
    | [] => [[c]]
    | l :: ls => (c :: l) :: ls

/-- The line with a number counted from 1; the number 0 also means the first line. -/
def line? (text : String) (number : Nat) : Option String :=
  (lines text.toList)[number - 1]?.map String.ofList

/-! ## The caret report -/

/-- A number, filled up with spaces on the left to at least three characters. -/
def lineLabel (n : Nat) : String :=
  let digits := toString n
  String.ofList (List.replicate (3 - digits.length) ' ') ++ digits

/-- A plain report of a message at a byte offset: the line it falls on, and a caret below it. -/
def caretReport (text : String) (offset : Nat) (message : String) : String :=
  let p := positionAt text offset
  let line := (line? text p.line).getD ""
  let pointer := String.ofList (List.replicate (p.column - 1) ' ') ++ "^"
  "Parse error at line " ++ toString p.line ++ ", column " ++ toString p.column ++ ":\n  |\n" ++
    lineLabel p.line ++ " | " ++ line ++ "\n  | " ++ pointer ++ "\n  = " ++ message

end SqlTidy.Text
