import SqlTidy.Error
import SqlTidy.Text.Blank

/-!
# From text to tokens

A text is a sequence of items: gaps (blanks and comments) and tokens. `item` reads the one at the head
of a text, and `scanFrom` goes from item to item. Three things are decided by context and not by the
characters alone.

**Hints.** A comment that starts with a plus sign is a hint, and its inside is scanned like the rest;
the closing mark is a token only while a hint is open, and two operators otherwise.

**Dots.** A dot before a digit starts a number, unless it stands right behind a name.

**Comments.** They nest, and a hint's opening mark inside a comment opens a level like any other.

The readers below take the text behind what has been recognised and return a cut of it: what they
take, and the rest. Put together again, the two are the text that was read: no reader drops or changes
a character (`whole_number`, `whole_of_closeString` and the like).
-/

namespace SqlTidy

namespace Scan

open SqlTidy.Text

/-- A text cut in two: what was taken, and the rest. -/
abbrev Cut := List Char × List Char

namespace Cut

/-- The text that was cut. -/
def whole (cut : Cut) : List Char := cut.1 ++ cut.2

/-- A cut of a text, seen from a text with one more character in front. -/
def push (c : Char) (cut : Cut) : Cut := (c :: cut.1, cut.2)

@[simp] theorem whole_push (c : Char) (cut : Cut) : (cut.push c).whole = c :: cut.whole := rfl

/-- The longest run of characters with a property. -/
def whileTrue (p : Char → Bool) (cs : List Char) : Cut := (cs.takeWhile p, cs.dropWhile p)

/-- Takes what the first reader takes, then what the second takes of the rest. -/
def andThen (first second : List Char → Cut) (cs : List Char) : Cut :=
  let a := first cs
  let b := second a.2
  (a.1 ++ b.1, b.2)

@[simp] theorem whole_whileTrue (p : Char → Bool) (cs : List Char) :
    (whileTrue p cs).whole = cs :=
  List.takeWhile_append_dropWhile

theorem whole_andThen {first second : List Char → Cut} (hf : ∀ cs, (first cs).whole = cs)
    (hs : ∀ cs, (second cs).whole = cs) (cs : List Char) :
    (andThen first second cs).whole = cs := by
  rw [andThen, whole, List.append_assoc]
  have := hs (first cs).2
  rw [whole] at this
  rw [this]
  exact hf cs

end Cut

/-! ## Comments -/

/-- The rest of a comment, up to and including the mark that closes it; `depth` further comments are
open inside. -/
def closeComment : Nat → List Char → Option Cut
  | _, [] => none
  | depth, '/' :: '*' :: cs => (closeComment (depth + 1) cs).map fun cut => (cut.push '*').push '/'
  | 0, '*' :: '/' :: cs => some (['*', '/'], cs)
  | depth + 1, '*' :: '/' :: cs => (closeComment depth cs).map fun cut => (cut.push '/').push '*'
  | depth, c :: cs => (closeComment depth cs).map (·.push c)

theorem whole_of_closeComment {depth : Nat} {cs : List Char} {cut : Cut}
    (h : closeComment depth cs = some cut) : cut.whole = cs := by
  fun_induction closeComment depth cs generalizing cut with
  | case1 => contradiction
  | case2 depth cs ih =>
    obtain ⟨cut, hcut, rfl⟩ := Option.map_eq_some_iff.1 h
    simp [ih hcut]
  | case3 cs =>
    cases h
    rfl
  | case4 cs depth ih =>
    obtain ⟨cut, hcut, rfl⟩ := Option.map_eq_some_iff.1 h
    simp [ih hcut]
  | case5 =>
    obtain ⟨cut, hcut, rfl⟩ := Option.map_eq_some_iff.1 h
    simp_all

/-! ## Strings and quoted identifiers -/

/-- The rest of a string literal, up to and including its closing quote `q`. A backslash takes the
next character with it, and a doubled quote stays inside. -/
def closeString (q : Char) : List Char → Option Cut
  | [] => none
  | '\\' :: c :: cs => (closeString q cs).map fun cut => (cut.push c).push '\\'
  | ['\\'] => none
  | [c] => if c = q then some ([c], []) else none
  | c :: d :: cs =>
    if c = q then
      if d = q then (closeString q cs).map fun cut => (cut.push d).push c
      else some ([c], d :: cs)
    else (closeString q (d :: cs)).map (·.push c)

theorem whole_of_closeString {q : Char} {cs : List Char} {cut : Cut}
    (h : closeString q cs = some cut) : cut.whole = cs := by
  fun_induction closeString q cs generalizing cut with
  | case1 => contradiction
  | case2 c cs ih =>
    obtain ⟨cut, hcut, rfl⟩ := Option.map_eq_some_iff.1 h
    simp [ih hcut]
  | case3 => contradiction
  | case4 =>
    cases h
    rfl
  | case5 => contradiction
  | case6 d cs ih =>
    obtain ⟨cut, hcut, rfl⟩ := Option.map_eq_some_iff.1 h
    simp_all
  | case7 =>
    cases h
    rfl
  | case8 =>
    obtain ⟨cut, hcut, rfl⟩ := Option.map_eq_some_iff.1 h
    simp_all

/-- The rest of a raw string literal, up to and including its closing quote `q`: nothing is special
inside. -/
def closeRawString (q : Char) : List Char → Option Cut
  | [] => none
  | c :: cs => if c = q then some ([c], cs) else (closeRawString q cs).map (·.push c)

theorem whole_of_closeRawString {q : Char} {cs : List Char} {cut : Cut}
    (h : closeRawString q cs = some cut) : cut.whole = cs := by
  fun_induction closeRawString q cs generalizing cut with
  | case1 => contradiction
  | case2 =>
    cases h
    rfl
  | case3 =>
    obtain ⟨cut, hcut, rfl⟩ := Option.map_eq_some_iff.1 h
    simp_all

/-- The rest of a quoted identifier, without its closing backtick; a doubled backtick stays inside. -/
def closeQuoted : List Char → Option Cut
  | [] => none
  | '\x60' :: '\x60' :: cs => (closeQuoted cs).map fun cut => (cut.push '\x60').push '\x60'
  | '\x60' :: cs => some ([], cs)
  | c :: cs => (closeQuoted cs).map (·.push c)

/-- The closing backtick is in neither part. -/
theorem append_of_closeQuoted {cs : List Char} {cut : Cut} (h : closeQuoted cs = some cut) :
    cut.1 ++ '\x60' :: cut.2 = cs := by
  fun_induction closeQuoted cs generalizing cut with
  | case1 => contradiction
  | case2 cs ih =>
    obtain ⟨cut, hcut, rfl⟩ := Option.map_eq_some_iff.1 h
    simp [Cut.push, ih hcut]
  | case3 =>
    cases h
    rfl
  | case4 =>
    obtain ⟨cut, hcut, rfl⟩ := Option.map_eq_some_iff.1 h
    simp_all [Cut.push]

/-! ## Numbers -/

def digits : List Char → Cut := Cut.whileTrue Char.isDigit

/-- A decimal point and the digits after it; of two dots in a row neither is a decimal point. -/
def fraction : List Char → Cut
  | '.' :: '.' :: cs => ([], '.' :: '.' :: cs)
  | '.' :: cs => (digits cs).push '.'
  | cs => ([], cs)

/-- The digits of an exponent, if there are any. -/
def exponentDigits : List Char → Option Cut
  | c :: cs => if c.isDigit then some (digits (c :: cs)) else none
  | [] => none

/-- The sign and digits of an exponent. -/
def signedExponent : List Char → Option Cut
  | c :: cs =>
    if c = '+' || c = '-' then (exponentDigits cs).map (·.push c) else exponentDigits (c :: cs)
  | [] => none

/-- An exponent: the letter is part of the number only if digits follow. -/
def exponent : List Char → Cut
  | c :: cs =>
    if c = 'e' || c = 'E' then
      match signedExponent cs with
      | some cut => cut.push c
      | none => ([], c :: cs)
    else ([], c :: cs)
  | [] => ([], [])

/-- Whether a text starts with a character that would continue a word. -/
def continuesWord : List Char → Bool
  | c :: _ => isWordPart c
  | [] => false

/-- The letter that gives a number its type. -/
def isSuffix (c : Char) : Bool :=
  c.toLower ∈ ['l', 's', 'y', 'd', 'f']

/-- A type suffix, one of the letters of `isSuffix` or the pair `bd`; it is part of the number only
if no word goes on behind it. -/
def suffix : List Char → Cut
  | c :: d :: cs =>
    if c.toLower = 'b' && d.toLower = 'd' then
      if continuesWord cs then ([], c :: d :: cs) else ([c, d], cs)
    else if isSuffix c && !isWordPart d then ([c], d :: cs)
    else ([], c :: d :: cs)
  | [c] => if isSuffix c then ([c], []) else ([], [c])
  | [] => ([], [])

/-- A number from its start, which is a digit or a decimal point with a digit behind it. -/
def number : List Char → Cut :=
  Cut.andThen (Cut.andThen digits fraction) (Cut.andThen exponent suffix)

@[simp] theorem whole_digits (cs : List Char) : (digits cs).whole = cs :=
  Cut.whole_whileTrue _ cs

@[simp] theorem whole_fraction (cs : List Char) : (fraction cs).whole = cs := by
  fun_cases fraction cs with
  | case2 => simp
  | _ => rfl

theorem whole_of_exponentDigits {cs : List Char} {cut : Cut} (h : exponentDigits cs = some cut) :
    cut.whole = cs := by
  fun_cases exponentDigits cs with
  | case1 c cs hc =>
    rw [exponentDigits, if_pos hc] at h
    cases h
    simp
  | case2 c cs hc =>
    rw [exponentDigits, if_neg hc] at h
    contradiction
  | case3 => contradiction

theorem whole_of_signedExponent {cs : List Char} {cut : Cut} (h : signedExponent cs = some cut) :
    cut.whole = cs := by
  fun_cases signedExponent cs with
  | case1 c cs hc =>
    rw [signedExponent, if_pos hc] at h
    obtain ⟨cut, hcut, rfl⟩ := Option.map_eq_some_iff.1 h
    simp [whole_of_exponentDigits hcut]
  | case2 c cs hc =>
    rw [signedExponent, if_neg hc] at h
    exact whole_of_exponentDigits h
  | case3 => contradiction

@[simp] theorem whole_exponent (cs : List Char) : (exponent cs).whole = cs := by
  fun_cases exponent cs with
  | case1 c cs hc cut hcut => simp [whole_of_signedExponent hcut]
  | _ => rfl

@[simp] theorem whole_suffix (cs : List Char) : (suffix cs).whole = cs := by
  fun_cases suffix cs <;> rfl

@[simp] theorem whole_number (cs : List Char) : (number cs).whole = cs :=
  Cut.whole_andThen (Cut.whole_andThen whole_digits whole_fraction)
    (Cut.whole_andThen whole_exponent whole_suffix) cs

/-! ## Symbols -/

/-- The symbol at the head of a text, the longest that fits, with its spelling's length less one. -/
def symbolAt (inHint : Bool) (c : Char) (cs : List Char) : Option (Symbol × Nat) :=
  match c, cs with
  | '/', '*' :: '+' :: _ => some (.hintStart, 2)
  | '*', '/' :: _ => if inHint then some (.hintEnd, 1) else some (.star, 0)
  | '<', '=' :: '>' :: _ => some (.nullSafeEq, 2)
  | '<', '=' :: _ => some (.ltEq, 1)
  | '<', '>' :: _ => some (.notEq, 1)
  | '<', _ => some (.lt, 0)
  | '>', '=' :: _ => some (.gtEq, 1)
  | '>', _ => some (.gt, 0)
  | '=', '=' :: _ => some (.doubleEq, 1)
  | '=', '>' :: _ => some (.fatArrow, 1)
  | '=', _ => some (.eq, 0)
  | '!', '=' :: _ => some (.bangEq, 1)
  | '!', _ => some (.bang, 0)
  | '|', '|' :: _ => some (.concat, 1)
  | '|', _ => some (.pipe, 0)
  | '-', '>' :: _ => some (.arrow, 1)
  | '-', _ => some (.minus, 0)
  | ':', ':' :: _ => some (.doubleColon, 1)
  | ':', _ => some (.colon, 0)
  | '+', _ => some (.plus, 0)
  | '*', _ => some (.star, 0)
  | '/', _ => some (.slash, 0)
  | '%', _ => some (.percent, 0)
  | '&', _ => some (.ampersand, 0)
  | '^', _ => some (.caret, 0)
  | '~', _ => some (.tilde, 0)
  | ',', _ => some (.comma, 0)
  | '.', _ => some (.dot, 0)
  | ';', _ => some (.semicolon, 0)
  | '(', _ => some (.lparen, 0)
  | ')', _ => some (.rparen, 0)
  | '[', _ => some (.lbracket, 0)
  | ']', _ => some (.rbracket, 0)
  | _, _ => none

/-! ## Items -/

/-- Something at the head of a text: a token, or a gap if there is none, and the characters it takes
behind its first one. -/
structure Item where
  token : Option Token
  tail : List Char

/-- What decides how the next item is read. -/
structure Context where
  /-- A hint has been opened and not closed. -/
  inHint : Bool
  /-- The previous item is a token that a separating dot may follow. -/
  afterName : Bool

namespace Context

/-- Where every text starts. -/
def start : Context := ⟨false, false⟩

/-- The context behind an item. -/
def after (ctx : Context) (i : Item) : Context :=
  match i.token with
  | none => ⟨ctx.inHint, false⟩
  | some (.symbol .hintStart) => ⟨true, false⟩
  | some (.symbol .hintEnd) => ⟨false, false⟩
  | some t => ⟨ctx.inHint, t.endsName⟩

end Context

/-- Why no item can be read, and how many bytes the error covers. -/
abbrev Fault := Cause × Nat

/-- The item that starts with the character `c`, before the characters `cs`. -/
def item (ctx : Context) (c : Char) (cs : List Char) : Except Fault Item :=
  let lexeme (make : String → Token) (taken : List Char) : Item :=
    ⟨some (make (String.ofList (c :: taken))), taken⟩
  let opensComment := c = '/' && cs.head? = some '*'
  let isRaw := (c = 'r' || c = 'R') && (cs.head? = some '\x27' || cs.head? = some '\x22')
  let isDecimalPoint := c = '.' && (cs.head?.any Char.isDigit) && !ctx.afterName
  if isBlank c then
    .ok ⟨none, []⟩
  else if c = '-' && cs.head? = some '-' then
    .ok ⟨none, cs.takeWhile (· ≠ '\n')⟩
  else if opensComment && cs.tail.head? ≠ some '+' then
    match closeComment 0 cs.tail with
    | some cut => .ok ⟨none, '*' :: cut.1⟩
    | none => .error (.unterminatedComment, 2)
  else if c = '\x27' || c = '\x22' then
    match closeString c cs with
    | some cut => .ok (lexeme .string cut.1)
    | none => .error (.unterminatedString, 1)
  else if c = '\x60' then
    match closeQuoted cs with
    | some cut => .ok ⟨some (.quoted (String.ofList cut.1)), cut.1 ++ ['\x60']⟩
    | none => .error (.unterminatedQuote, 1)
  else if c.isDigit || isDecimalPoint then
    .ok (lexeme .number ((number (c :: cs)).1.tail))
  else if isRaw then
    match cs with
    | q :: rest =>
      match closeRawString q rest with
      | some cut => .ok (lexeme .string (q :: cut.1))
      | none => .error (.unterminatedString, 1)
    | [] => .error (.unterminatedString, 1)
  else if isWordStart c then
    .ok (lexeme .word (cs.takeWhile isWordPart))
  else
    match symbolAt ctx.inHint c cs with
    | some (s, n) => .ok ⟨some (.symbol s), cs.take n⟩
    | none => .error (.unexpectedChar c, c.utf8Size)

/-- An item takes characters from the head of the text, one after the other. -/
theorem tail_isPrefix_of_item {ctx : Context} {c : Char} {cs : List Char} {i : Item}
    (h : item ctx c cs = .ok i) : i.tail <+: cs := by
  unfold item at h
  simp only at h
  split at h
  · cases h
    exact List.nil_prefix
  split at h
  · cases h
    exact List.takeWhile_prefix _
  split at h
  · rename_i hopen
    split at h
    · rename_i cut hcut
      cases h
      rcases cs with _ | ⟨d, cs⟩
      · simp at hopen
      · have hd : d = '*' := by simp_all
        subst hd
        exact ⟨cut.2, congrArg ('*' :: ·) (whole_of_closeComment hcut)⟩
    · contradiction
  split at h
  · split at h
    · rename_i cut hcut
      cases h
      exact ⟨cut.2, whole_of_closeString hcut⟩
    · contradiction
  split at h
  · split at h
    · rename_i cut hcut
      cases h
      exact ⟨cut.2, by simpa using append_of_closeQuoted hcut⟩
    · contradiction
  split at h
  · cases h
    have hw := whole_number (c :: cs)
    rcases hn : (number (c :: cs)).1 with _ | ⟨d, taken⟩
    · exact List.nil_prefix
    · simp only [Cut.whole, hn, List.cons_append, List.cons.injEq] at hw
      exact ⟨_, hw.2⟩
  split at h
  · split at h
    · split at h
      · rename_i cut hcut
        cases h
        exact ⟨cut.2, by simpa [Cut.whole] using whole_of_closeRawString hcut⟩
      · contradiction
    · contradiction
  split at h
  · cases h
    exact List.takeWhile_prefix _
  split at h
  · cases h
    exact List.take_prefix _ _
  · contradiction
/-! ## The whole text -/

/-- Scans a text from the byte offset `offset` on. The first `skip` characters belong to the item
that was read last, so the recursion follows the text itself. -/
def scanFrom : List Char → (skip : Nat) → (offset : Nat) → Context → Except Error (List Spanned)
  | [], _, offset, ctx =>
    if ctx.inHint then .error (.ofCause .unterminatedHint offset 0)
    else .ok [⟨.eof, offset, offset⟩]
  | c :: cs, skip + 1, offset, ctx => scanFrom cs skip (offset + c.utf8Size) ctx
  | c :: cs, 0, offset, ctx =>
    match item ctx c cs with
    | .error (cause, length) => .error (.ofCause cause offset length)
    | .ok i =>
      match scanFrom cs i.tail.length (offset + c.utf8Size) (ctx.after i), i.token with
      | .ok rest, some t => .ok (⟨t, offset, offset + byteSize (c :: i.tail)⟩ :: rest)
      | result, _ => result

end Scan

/-- The tokens of a text, or the first place where it cannot be cut into tokens. The last token is
always the end mark. -/
def Token.scan (text : String) : Except Error (List Spanned) :=
  Scan.scanFrom text.toList 0 0 .start

end SqlTidy
