/-!
# Blanks

Two notions of blank live side by side. Around a statement every character with the Unicode property
White_Space is dropped (`trim`). Between two tokens only five ASCII characters are blanks
(`isBlank`); there, any character beyond ASCII belongs to a word.
-/

namespace SqlTidy.Text

/-- The code points with the property White_Space, as closed ranges in increasing order. -/
def whiteSpaceRanges : List (Nat × Nat) :=
  [(0x09, 0x0D), (0x20, 0x20), (0x85, 0x85), (0xA0, 0xA0), (0x1680, 0x1680), (0x2000, 0x200A),
    (0x2028, 0x2029), (0x202F, 0x202F), (0x205F, 0x205F), (0x3000, 0x3000)]

/-- Whether a character has the property White_Space. -/
def isWhiteSpace (c : Char) : Bool :=
  whiteSpaceRanges.any fun r => r.1 ≤ c.toNat && c.toNat ≤ r.2

/-- A text without the white space at its two ends. -/
def trim (s : String) : String :=
  String.ofList
    ((s.toList.dropWhile isWhiteSpace).reverse.dropWhile isWhiteSpace).reverse

/-- The blanks between tokens: space, tab, line feed, form feed and carriage return. -/
def isBlank (c : Char) : Bool :=
  c = ' ' || c = '\t' || c = '\n' || c = '\x0c' || c = '\r'

/-- A word may start with an ASCII letter, an underscore or any character beyond ASCII. -/
def isWordStart (c : Char) : Bool :=
  c.isAlpha || c = '_' || 0x80 ≤ c.toNat

/-- After its start a word may also hold digits. -/
def isWordPart (c : Char) : Bool :=
  isWordStart c || c.isDigit

end SqlTidy.Text
