import SqlTidy.Grammar.Inner

/-!
# Binary operators

Each level of precedence is a chain: operands of the next tighter level with operators of this level
between them, grouped to the left. The levels are written over the parser of their tightest operands,
so that the same levels serve inside other rules.
-/

namespace SqlTidy

namespace Grammar

open Parse

/-- Operands with operators between them, grouped to the left. -/
def chain (operators : Token → Option BinaryOp) (operand : Parse Expr) : Parse Expr := do
  let first ← operand
  let extend (left : Expr) : Parse (Option Expr) := do
    match ← acceptIf operators with
    | none => return none
    | some op => return some (.binary op left (← operand))
  iterate extend first

/-! ## The operators of each level -/

def multiplicativeOp : Token → Option BinaryOp
  | .symbol .star => some .multiply
  | .symbol .slash => some .divide
  | .symbol .percent => some .modulo
  | t => if t.isKeyword "DIV" then some .integerDivide else none

def additiveOp : Token → Option BinaryOp
  | .symbol .plus => some .plus
  | .symbol .minus => some .minus
  | .symbol .concat => some .concat
  | _ => none

def bitAndOp : Token → Option BinaryOp
  | .symbol .ampersand => some .bitAnd
  | _ => none

def bitXorOp : Token → Option BinaryOp
  | .symbol .caret => some .bitXor
  | _ => none

def bitOrOp : Token → Option BinaryOp
  | .symbol .pipe => some .bitOr
  | _ => none

def comparisonOp : Token → Option BinaryOp
  | .symbol .eq => some .eq
  | .symbol .doubleEq => some .doubleEq
  | .symbol .notEq => some .notEq
  | .symbol .bangEq => some .bangEq
  | .symbol .lt => some .lt
  | .symbol .ltEq => some .ltEq
  | .symbol .gt => some .gt
  | .symbol .gtEq => some .gtEq
  | .symbol .nullSafeEq => some .nullSafeEq
  | _ => none

def andOp (t : Token) : Option BinaryOp := if t.isKeyword "AND" then some .and else none

def orOp (t : Token) : Option BinaryOp := if t.isKeyword "OR" then some .or else none

/-! ## The levels between the unary operators and the predicates -/

/-- Sums, over a parser of their tightest operands. -/
def additive (unary : Parse Expr) : Parse Expr :=
  chain additiveOp (chain multiplicativeOp unary)

/-- Comparisons, over a parser of their tightest operands. -/
def comparison (unary : Parse Expr) : Parse Expr :=
  chain comparisonOp (chain bitOrOp (chain bitXorOp (chain bitAndOp (additive unary))))

end Grammar

end SqlTidy
