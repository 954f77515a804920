import SqlTidy.Token.Scan

/-!
# Parsers

A parser reads a fixed input, a text with its tokens, from a position among the tokens. It ends at a
position of its own, also when it fails: failing does not go back, and a rule that wants to try
something says so (`rewinding`, `attempt`).

**Loops.** `many` and `iterate` repeat a step until it declines. The number of rounds is bounded by the
number of tokens left, which is enough for any step that takes a token whenever it does not decline;
no rule has to mention the bound.

**Recursion.** `fix` ties a rule to itself in the same way: a rule that takes a token before it calls
itself never runs out.

**Going on for ever.** A loop or a rule that runs out of its bound ends with the cause `endless`, which
nothing recovers from: it stands for a run that does not end.
-/

namespace SqlTidy

/-- A text and its tokens. -/
structure Input where
  source : String
  tokens : Array Spanned

namespace Input

/-- The token at a position; behind the last token the end mark goes on for ever. -/
def tokenAt (i : Input) (pos : Nat) : Token :=
  match i.tokens[pos]? with
  | some t => t.token
  | none => .eof

/-- The number of tokens from a position on. -/
def remaining (i : Input) (pos : Nat) : Nat := i.tokens.size - pos

/-- The byte offset where the token at a position starts. -/
def startAt (i : Input) (pos : Nat) : Nat :=
  match i.tokens[pos]? with
  | some t => t.start
  | none => i.source.utf8ByteSize

/-- The byte offset where the token before a position ends, 0 if there is none. -/
def endBefore (i : Input) (pos : Nat) : Nat :=
  match pos with
  | 0 => 0
  | pos + 1 =>
    match i.tokens[pos]? with
    | some t => t.stop
    | none => 0

/-- An error at the token at a position. -/
def errorAt (i : Input) (pos : Nat) (cause : Cause) : Error :=
  match i.tokens[pos]? with
  | some t => .ofCause cause t.start (t.stop - t.start)
  | none => .ofCause cause i.source.utf8ByteSize 0

end Input

/-- A parser: from an input and a position to a result and a new position. -/
def Parse (α : Type) : Type := Input → Nat → Except Error α × Nat

namespace Parse

variable {α β : Type}

instance : Monad Parse where
  pure a := fun _ pos => (.ok a, pos)
  bind p f := fun i pos =>
    match p i pos with
    | (.ok a, pos) => f a i pos
    | (.error e, pos) => (.error e, pos)

instance : LawfulMonad Parse := LawfulMonad.mk' Parse
  (fun p => by
    funext i pos
    simp only [Functor.map]
    rcases p i pos with ⟨_ | _, _⟩ <;> rfl)
  (fun _ _ => rfl)
  (fun p f g => by
    funext i pos
    simp only [bind]
    rcases p i pos with ⟨_ | _, _⟩ <;> rfl)

/-! ## The cursor -/

/-- The token `n` places ahead. -/
def peek (n : Nat) : Parse Token := fun i pos => (.ok (i.tokenAt (pos + n)), pos)

/-- The current token. -/
def current : Parse Token := peek 0

/-- Whether the input has ended. -/
def atEnd : Parse Bool := do return (← current) = .eof

/-- The byte offset where the current token starts. -/
def offset : Parse Nat := fun i pos => (.ok (i.startAt pos), pos)

/-- The byte offset where the previous token ends. -/
def previousEnd : Parse Nat := fun i pos => (.ok (i.endBefore pos), pos)

/-- The source text between two byte offsets, empty if they are not boundaries in order. -/
def slice (start stop : Nat) : Parse String := fun i pos =>
  (.ok ((Text.slice? i.source start stop).getD ""), pos)

/-! ## Failing -/

/-- The error that a cause makes at the current token. -/
def errorHere (cause : Cause) : Parse Error := fun i pos => (.ok (i.errorAt pos cause), pos)

/-- Fails with an error. -/
def failWith (e : Error) : Parse α := fun _ pos => (.error e, pos)

/-- Fails at the current token. -/
def fail (cause : Cause) : Parse α := do failWith (← errorHere cause)

/-- Fails because something else was expected. -/
def expected (what : String) : Parse α := do fail (.expected what (← current))

/-! ## Single tokens

The rules of the grammar take tokens by `acceptIf` alone, directly or through what is built on it, and
`acceptIf` never takes the end mark. -/

/-- Takes the current token if it means something to `meaning`. -/
def acceptIf (meaning : Token → Option α) : Parse (Option α) := fun i pos =>
  match i.tokenAt pos with
  | .eof => (.ok none, pos)
  | t =>
    match meaning t with
    | some a => (.ok (some a), pos + 1)
    | none => (.ok none, pos)

/-- Takes the current token if it means something to `meaning`, and fails otherwise. -/
def expectIf (what : String) (meaning : Token → Option α) : Parse α := do
  match ← acceptIf meaning with
  | some a => return a
  | none => expected what

/-- Takes the current token, whatever it is. -/
def skip : Parse Unit := do
  let _ ← acceptIf some

/-- Takes `n` tokens, whatever they are. -/
def skipBy : Nat → Parse Unit
  | 0 => pure ()
  | n + 1 => do
    skip
    skipBy n

/-- Whether the current token is the given symbol. -/
def isSymbol (s : Symbol) : Parse Bool := do return (← current) = .symbol s

/-- Whether the token `n` places ahead is the given symbol. -/
def peekSymbol (n : Nat) (s : Symbol) : Parse Bool := do return (← peek n) = .symbol s

/-- Takes the given symbol if it is the current token. -/
def accept (s : Symbol) : Parse Bool := do
  return (← acceptIf fun t => if t = .symbol s then some () else none).isSome

/-- Takes the given symbol or fails. -/
def expect (s : Symbol) : Parse Unit := do
  if ← accept s then return () else expected (Token.symbol s).describe

/-! ## Keywords -/

/-- Whether the token `n` places ahead is the given keyword. -/
def peekWord (n : Nat) (keyword : String) : Parse Bool := do return (← peek n).isKeyword keyword

/-- Whether the current token is the given keyword. -/
def isWord (keyword : String) : Parse Bool := peekWord 0 keyword

/-- Whether the tokens from `n` places ahead are the given keywords. -/
def peekWords : (n : Nat) → List String → Parse Bool
  | _, [] => pure true
  | n, keyword :: rest => do
    if ← peekWord n keyword then peekWords (n + 1) rest else return false

/-- Whether the next tokens are the given keywords. -/
def isWords : List String → Parse Bool := peekWords 0

/-- Takes the given keyword if it is the current token. -/
def acceptWord (keyword : String) : Parse Bool := do
  return (← acceptIf fun t => if t.isKeyword keyword then some () else none).isSome

/-- Takes the given keywords if all of them come next. -/
def acceptWords (keywords : List String) : Parse Bool := do
  if ← isWords keywords then
    skipBy keywords.length
    return true
  else
    return false

/-- Takes the given keyword or fails. -/
def expectWord (keyword : String) : Parse Unit := do
  if ← acceptWord keyword then return () else expected keyword

/-- Takes the given keywords one after the other, and fails at the first that is missing. -/
def expectWords : List String → Parse Unit
  | [] => pure ()
  | keyword :: rest => do
    expectWord keyword
    expectWords rest

/-- The current token in capitals, if it is a word. -/
def currentWord : Parse (Option String) := do
  match ← current with
  | .word w => return some (Text.upper w)
  | _ => return none

/-- Takes the first of several keyword phrases that comes next, and gives the value beside it. -/
def choose : List (List String × α) → Parse (Option α)
  | [] => pure none
  | (phrase, value) :: rest => do
    if ← acceptWords phrase then return some value else choose rest

/-- Takes the first of several keyword phrases that comes next, and goes on with the rule beside
it. -/
def chooseRule (rules : List (List String × Parse α)) : Parse (Option α) := do
  match ← choose rules with
  | some rule => return some (← rule)
  | none => return none

/-! ## Choices -/

/-- Runs a parser if a test succeeds. -/
def maybe (test : Parse Bool) (p : Parse α) : Parse (Option α) := do
  if ← test then return some (← p) else return none

/-- Runs a parser of lists if a test succeeds; otherwise the list is empty. -/
def maybeList (test : Parse Bool) (p : Parse (List α)) : Parse (List α) := do
  if ← test then p else return []

/-- Runs a parser that may decline. If it declines, the position is as before. -/
def rewinding (p : Parse (Option α)) : Parse (Option α) := fun i pos =>
  match p i pos with
  | (.ok none, _) => (.ok none, pos)
  | result => result

/-- Runs a parser that may decline. If it declines or fails, the position is as before, and the
failure is forgotten. Only a run that does not end cannot be forgotten. -/
def attempt (p : Parse (Option α)) : Parse (Option α) := fun i pos =>
  match p i pos with
  | (.ok (some a), next) => (.ok (some a), next)
  | (.ok none, _) => (.ok none, pos)
  | (.error e, next) => if e.isEndless then (.error e, next) else (.ok none, pos)

/-! ## Loops and recursion -/

/-- At most `n` rounds of a step that may decline. -/
def manyUpTo (step : Parse (Option α)) : Nat → Parse (List α)
  | 0 => fail .endless
  | n + 1 => do
    match ← step with
    | none => return []
    | some a => return a :: (← manyUpTo step n)

/-- Repeats a step until it declines, and collects its results. -/
def many (step : Parse (Option α)) : Parse (List α) := fun i pos =>
  manyUpTo step (i.remaining pos + 1) i pos

/-- At most `n` rounds of a step that builds on the previous result. -/
def iterateUpTo (step : α → Parse (Option α)) : Nat → α → Parse α
  | 0, _ => fail .endless
  | n + 1, a => do
    match ← step a with
    | none => return a
    | some b => iterateUpTo step n b

/-- Repeats a step that builds on the previous result, until it declines. -/
def iterate (step : α → Parse (Option α)) (a : α) : Parse α := fun i pos =>
  iterateUpTo step (i.remaining pos + 1) a i pos

/-- One or more, with commas between them. -/
def commaSeparated (p : Parse α) : Parse (List α) := do
  let first ← p
  let rest ← many (maybe (accept .comma) p)
  return first :: rest

/-- A rule within at most `n` levels of itself. -/
def nested (rule : Parse α → Parse α) : Nat → Parse α
  | 0 => fail .endless
  | n + 1 => rule (nested rule n)

/-- A rule that may call itself after it has taken a token. -/
def fix (rule : Parse α → Parse α) : Parse α := fun i pos =>
  nested rule (i.remaining pos + 1) i pos

/-- Runs a parser on an input from its first token. -/
def run (p : Parse α) (i : Input) : Except Error α := (p i 0).1

/-! ## Free movement

A cursor that is moved by hand may do what no rule does: take the end mark and stand behind it, or go
back anywhere. -/

/-- Goes to a position. -/
def restore (next : Nat) : Parse Unit := fun _ _ => (.ok (), next)

/-- Takes the current token, also the end mark. -/
def advance : Parse Unit := fun i pos => (.ok (), if pos < i.tokens.size then pos + 1 else pos)

/-- Whether the current token is the given one. -/
def isToken (t : Token) : Parse Bool := do return (← current) = t

/-- Takes the given token, also the end mark, if it is the current one. -/
def acceptToken (t : Token) : Parse Bool := do
  if ← isToken t then
    advance
    return true
  else
    return false

/-- Takes the given token, also the end mark, or fails. -/
def expectToken (t : Token) : Parse Unit := do
  if ← acceptToken t then return () else expected t.describe

end Parse

end SqlTidy
