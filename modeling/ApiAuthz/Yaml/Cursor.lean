/-
A place in a YAML text: what remains from there on, how many characters came
before, the line and the column. Line breaks are those of YAML 1.1; the byte
order mark takes no column.

A place also knows the length of the text. The readers walk over what remains, and
with the whole length for fuel none of them stops early, since each step takes a
character (`Cursor.fuel`). A carriage return with a line feed behind it is one
break, and the line is counted at the line feed (`Cursor.advance`).

`Flaw` is why a text cannot be read. Most flaws only say that it is malformed; a
scalar that has no value has words or a kind of its own, and these are passed on
without being taken for malformed text.
-/
import ApiAuthz.Fault

namespace ApiAuthz.Yaml

/-- Why a text denotes no value: it is malformed, or one of its scalars names
something that does not exist. -/
inductive Flaw where
  | malformed
  | unreadable (diagnosis : String)
  | misused (how : Misuse)

/-- A step of reading, which may fail. -/
abbrev Step := Except Flaw

/-- Fails because the text is malformed. -/
def malformed {α : Type} : Step α := .error .malformed

-- ==================================================== character classes

/-- The five characters that end a line. -/
def isBreak (c : Char) : Bool :=
  c == '\n' || c == '\r' || c == '\u0085' || c == '\u2028' || c == '\u2029'

/-- The two blanks within a line. -/
def isSpaceOrTab (c : Char) : Bool := c == ' ' || c == '\t'

/-- A line ends here: at a break or at the end of the text. -/
def endsLine : Option Char → Bool
  | none => true
  | some c => isBreak c

/-- A word ends here: at a blank, a break or the end of the text. -/
def endsWord : Option Char → Bool
  | none => true
  | some c => isSpaceOrTab c || isBreak c

/-- A name of a directive or a tag ends here; a tab does not end it. -/
def endsName : Option Char → Bool
  | none => true
  | some c => c == ' ' || isBreak c

/-- Letters, digits, hyphen and underscore. -/
def isNameChar (c : Char) : Bool := c.isAlphanum || c == '-' || c == '_'

-- ==================================================== places

/-- A place in a text: what follows, and where that starts. -/
structure Cursor where
  rest : List Char
  index : Nat
  line : Nat
  column : Nat
  /-- How many characters the whole text has. -/
  size : Nat

namespace Cursor

/-- The beginning of a text. -/
def start (text : List Char) : Cursor := ⟨text, 0, 0, 0, text.length⟩

/-- More steps than there are characters left. -/
def fuel (c : Cursor) : Nat := c.size + 1

/-- The character at the place. -/
def peek? (c : Cursor) : Option Char := c.rest.head?

/-- Nothing follows. -/
def atEnd (c : Cursor) : Bool := c.rest.isEmpty

/-- The character at the place is this one. -/
def sees (ch : Char) (c : Cursor) : Bool := c.rest.head? == some ch

/-- One character further. A carriage return before a line feed ends no line. -/
def advance (c : Cursor) : Cursor :=
  match c.rest with
  | [] => c
  | ch :: rest =>
    let c := { c with rest := rest, index := c.index + 1 }
    if isBreak ch && !(ch == '\r' && rest.head? == some '\n') then
      { c with line := c.line + 1, column := 0 }
    else if ch == '\ufeff' then c
    else { c with column := c.column + 1 }

/-- Past so many characters, or to the end. -/
def advanceBy : Nat → Cursor → Cursor
  | 0, c => c
  | n + 1, c => advanceBy n c.advance

/-- The characters that `p` holds of, and the place behind them. -/
def takeWhile (p : Char → Bool) (c : Cursor) : List Char × Cursor :=
  let taken := c.rest.takeWhile p
  (taken, c.advanceBy taken.length)

/-- Past all characters of a class. -/
def skipWhile (p : Char → Bool) (c : Cursor) : Cursor := (c.takeWhile p).2

/-- The line break at the place, and the place behind it. All but the two
separators count as a line feed. -/
def lineBreak? (c : Cursor) : Option (Char × Cursor) :=
  match c.rest with
  | '\r' :: '\n' :: _ => some ('\n', c.advanceBy 2)
  | ch :: _ =>
    if ch == '\u2028' || ch == '\u2029' then some (ch, c.advance)
    else if isBreak ch then some ('\n', c.advance)
    else none
  | [] => none

/-- Three characters of a kind, then the end of a word. -/
def atTriple (ch : Char) (c : Cursor) : Bool :=
  match c.rest with
  | a :: b :: d :: rest => a == ch && b == ch && d == ch && endsWord rest.head?
  | _ => false

/-- The mark of a document's start or end. -/
def atDocumentMark (c : Cursor) : Bool := c.atTriple '-' || c.atTriple '.'

/-- The place after blanks and a comment, which has to be the end of a line, and
after that end. -/
def endOfLine (c : Cursor) : Step Cursor :=
  let c := c.skipWhile (· == ' ')
  let c := if c.sees '#' then c.skipWhile fun ch => !isBreak ch else c
  if endsLine c.peek? then
    .ok (match c.lineBreak? with | some (_, c) => c | none => c)
  else malformed

end Cursor

end ApiAuthz.Yaml
