import SqlTidy.Text.Case

/-!
# Tokens

Words are not split into keywords and identifiers here: nearly every keyword of the language may also
be a name, so only the grammar can tell, from where the word stands. A token therefore keeps the word
as it was written.
-/

namespace SqlTidy

/-- Operators and punctuation, and the two marks around a hint. -/
inductive Symbol where
  | hintStart | hintEnd
  | plus | minus | star | slash | percent
  | eq | doubleEq | notEq | bangEq | lt | ltEq | gt | gtEq | nullSafeEq
  | concat | pipe | ampersand | caret | tilde | bang | arrow | fatArrow
  | comma | dot | semicolon | colon | doubleColon
  | lparen | rparen | lbracket | rbracket
deriving DecidableEq

/-- The one way to write a symbol. -/
def Symbol.spelling : Symbol → String
  | .hintStart => "/*+"
  | .hintEnd => "*/"
  | .plus => "+"
  | .minus => "-"
  | .star => "*"
  | .slash => "/"
  | .percent => "%"
  | .eq => "="
  | .doubleEq => "=="
  | .notEq => "<>"
  | .bangEq => "!="
  | .lt => "<"
  | .ltEq => "<="
  | .gt => ">"
  | .gtEq => ">="
  | .nullSafeEq => "<=>"
  | .concat => "||"
  | .pipe => "|"
  | .ampersand => "&"
  | .caret => "^"
  | .tilde => "~"
  | .bang => "!"
  | .arrow => "->"
  | .fatArrow => "=>"
  | .comma => ","
  | .dot => "."
  | .semicolon => ";"
  | .colon => ":"
  | .doubleColon => "::"
  | .lparen => "("
  | .rparen => ")"
  | .lbracket => "["
  | .rbracket => "]"

/-- A token. A quoted identifier holds the text between its backticks; a string literal holds its
quotes and, if it is raw, the `r` before them; a number holds its suffix. -/
inductive Token where
  | word (text : String)
  | quoted (text : String)
  | string (text : String)
  | number (text : String)
  | symbol (s : Symbol)
  | eof
deriving DecidableEq

namespace Token

/-- Whether a token is the given word, letters of either case being the same. -/
def isKeyword (t : Token) (keyword : String) : Bool :=
  match t with
  | .word w => Text.upper w = Text.upper keyword
  | _ => false

/-- How an error message names a token. -/
def describe : Token → String
  | .word w => "'" ++ w ++ "'"
  | .quoted w => "\x60" ++ w ++ "\x60"
  | .string s => s
  | .number n => n
  | .symbol s => "'" ++ s.spelling ++ "'"
  | .eof => "end of input"

/-- A dot right behind one of these is a separator and never a decimal point. -/
def endsName : Token → Bool
  | .word _ | .quoted _ | .symbol .rparen | .symbol .rbracket => true
  | _ => false

end Token

/-- A token and the bytes it covers, from `start` up to but not including `stop`. -/
structure Spanned where
  token : Token
  start : Nat
  stop : Nat
deriving DecidableEq

end SqlTidy
