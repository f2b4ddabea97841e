/-
Scalars in quotes. In single quotes a quote is written twice; in double quotes
a backslash starts an escape. In both a line's end, with the blanks around it,
counts as one blank, and further breaks as themselves.

An escape by number is one code point, whatever stands beside it: the escapes of
the two halves of a UTF-16 pair are two halves, and not the character of the pair.

# Line ends

Blanks are kept unless a line ends behind them (`gap`). Then they go, and so do the
blanks at the start of the next line; the line end counts as one blank, or as
nothing if empty lines follow, each of which counts as a line feed. The two Unicode
separators count as themselves. An escaped line end counts as nothing, and what
stood in front of it is kept (`escape`). At the start of a line a document mark may
not stand, not even in quotes (`breaks`).

# Escapes

There are one-letter escapes, and three by number, of two, four and eight digits.
A number that is that of no code point is refused in one of two ways, by whether
it has more than 31 bits (`pointOf`).
-/
import ApiAuthz.Json.Reader
import ApiAuthz.Yaml.Cursor

namespace ApiAuthz.Yaml.QuotedScalar

-- ==================================================== escapes

/-- What a backslash and a letter stand for. -/
def simpleEscape? : Char → Option Char
  | '0' => some (Char.ofNat 0)
  | 'a' => some (Char.ofNat 7)
  | 'b' => some (Char.ofNat 8)
  | 't' => some '\t'
  | '\t' => some '\t'
  | 'n' => some '\n'
  | 'v' => some (Char.ofNat 11)
  | 'f' => some (Char.ofNat 12)
  | 'r' => some '\r'
  | 'e' => some (Char.ofNat 27)
  | ' ' => some ' '
  | '"' => some '"'
  | '\\' => some '\\'
  | '/' => some '/'
  | 'N' => some '\u0085'
  | '_' => some '\u00a0'
  | 'L' => some '\u2028'
  | 'P' => some '\u2029'
  | _ => none

/-- How many hexadecimal digits follow a backslash and a letter. -/
def codeLength? : Char → Option Nat
  | 'x' => some 2
  | 'u' => some 4
  | 'U' => some 8
  | _ => none

/-- The number of some hexadecimal digits; every one has to be there. -/
def code? : Nat → List Char → Option Nat
  | 0, _ => some 0
  | _ + 1, [] => none
  | n + 1, c :: cs => do
    let d ← Json.hexDigit? c
    let rest ← code? n cs
    return d * Nat.pow 16 n + rest

/-- The code point of a number. -/
def pointOf (code : Nat) : Step CodePoint :=
  if code < 0x110000 then .ok (.ofCode code)
  else if code < 0x80000000 then .error (.unreadable "chr() arg not in range(0x110000)")
  else .error (.misused .tooLarge)

-- ==================================================== line ends

/-- The breaks of blank lines at a place. A document mark may not stand there. -/
def breaks : Nat → List Char → Cursor → Step (List Char × Cursor)
  | 0, acc, c => .ok (acc.reverse, c)
  | fuel + 1, acc, c =>
    if c.atDocumentMark then malformed
    else
      let c := c.skipWhile isSpaceOrTab
      match c.lineBreak? with
      | some (b, c) => breaks fuel (b :: acc) c
      | none => .ok (acc.reverse, c)

/-- Breaks from a place on; the rest of the text is fuel enough. -/
def breaksFrom (c : Cursor) : Step (List Char × Cursor) := breaks c.fuel [] c

/-- Blanks and line ends at a place, as they count. -/
def gap (c : Cursor) : Step (List Char × Cursor) :=
  let (blanks, c) := c.takeWhile isSpaceOrTab
  if c.atEnd then malformed
  else
    match c.lineBreak? with
    | none => .ok (blanks, c)
    | some (b, c) =>
      match breaksFrom c with
      | .error f => .error f
      | .ok (more, c) =>
        .ok ((if b != '\n' then [b] else if more.isEmpty then [' '] else []) ++ more, c)

-- ==================================================== scalars

/-- What an escape at a place, behind its backslash, stands for. -/
def escape (c : Cursor) : Step (List CodePoint × Cursor) :=
  match c.peek? with
  | none => malformed
  | some ch =>
    match simpleEscape? ch, codeLength? ch with
    | some e, _ => .ok ([.char e], c.advance)
    | none, some n =>
      match code? n c.advance.rest with
      | none => malformed
      | some code =>
        match pointOf code with
        | .error f => .error f
        | .ok p => .ok ([p], c.advanceBy (n + 1))
    | none, none =>
      match c.lineBreak? with
      | some (_, c) =>
        match breaksFrom c with
        | .error f => .error f
        | .ok (text, c) => .ok (text.map .char, c)
      | none => malformed

/-- Parts up to the closing quote, last first, and the place behind it. -/
def parts (double : Bool) :
    Nat → List (List CodePoint) → Cursor → Step (List (List CodePoint) × Cursor)
  | 0, _, _ => malformed
  | fuel + 1, acc, c =>
    match c.rest with
    | [] => malformed
    | ch :: rest =>
      if isSpaceOrTab ch || isBreak ch then
        match gap c with
        | .error f => .error f
        | .ok (text, c) => parts double fuel (text.map .char :: acc) c
      else if double && ch == '"' then .ok (acc, c.advance)
      else if double && ch == '\\' then
        match escape c.advance with
        | .error f => .error f
        | .ok (text, c) => parts double fuel (text :: acc) c
      else if !double && ch == '\'' then
        if rest.head? == some '\'' then
          parts double fuel ([.char '\''] :: acc) (c.advanceBy 2)
        else .ok (acc, c.advance)
      else parts double fuel ([.char ch] :: acc) c.advance

/-- The scalar at a place, where its opening quote is, and the place behind it. -/
def scan (double : Bool) (c : Cursor) : Step (List CodePoint × Cursor) :=
  match parts double c.fuel [] c.advance with
  | .error f => .error f
  | .ok (acc, c) => .ok (acc.reverse.flatten, c)

end ApiAuthz.Yaml.QuotedScalar
