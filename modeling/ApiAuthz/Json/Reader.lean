/-
Reading JSON text. `read` takes a whole text to a value, or to what was
expected and the line on which it was not found. Three constants beside the
grammar are accepted, `NaN`, `Infinity` and `-Infinity`; control characters in
strings are not. A later member replaces an earlier one of the same name and
keeps its place.

The two escapes of a UTF-16 pair are one character. Half of a pair on its own is
kept as what it is, so a string is read as a list of code points, and a value that
is read may be broken.

The reader walks over what remains of the text, and a diagnosis carries what
remained where it arose; `lineOf` turns that into a line number. Every step of
`value` leaves less text, so the length of the text is fuel enough.
-/
import ApiAuthz.Number.Decimal
import ApiAuthz.Value

namespace ApiAuthz.Json

/-- What the reader did not find. -/
inductive Expectation where
  | value
  | propertyName
  | colon
  | comma
  | endOfText
  | closingQuote
  | noControl
  | escape
  | unicodeEscape
  | noByteOrderMark
  deriving DecidableEq

namespace Expectation

/-- What is said of an expectation that was not met. -/
def message : Expectation → String
  | .value => "Expecting value"
  | .propertyName => "Expecting property name enclosed in double quotes"
  | .colon => "Expecting ':' delimiter"
  | .comma => "Expecting ',' delimiter"
  | .endOfText => "Extra data"
  | .closingQuote => "Unterminated string starting at"
  | .noControl => "Invalid control character at"
  | .escape => "Invalid \\escape"
  | .unicodeEscape => "Invalid \\uXXXX escape"
  | .noByteOrderMark => "Unexpected UTF-8 BOM (decode using utf-8-sig)"

end Expectation

/-- Why reading stopped: something was not found at what remains of the text,
or an integer has too many digits. -/
inductive Stop where
  | unmet (expected : Expectation) (rest : List Char)
  | tooManyDigits (count : Nat)

/-- A result and what remains, or why reading stopped. -/
abbrev Reading (α : Type) := Except Stop (α × List Char)

/-- What may stand between tokens. -/
def isSpace (c : Char) : Bool := c == ' ' || c == '\t' || c == '\n' || c == '\r'

/-- The text from its next token on. -/
def skipSpace (cs : List Char) : List Char := cs.dropWhile isSpace

-- ==================================================== strings

/-- The value of a hexadecimal digit. -/
def hexDigit? (c : Char) : Option Nat :=
  if '0' ≤ c ∧ c ≤ '9' then some (c.toNat - '0'.toNat)
  else if 'a' ≤ c ∧ c ≤ 'f' then some (c.toNat - 'a'.toNat + 10)
  else if 'A' ≤ c ∧ c ≤ 'F' then some (c.toNat - 'A'.toNat + 10)
  else none

/-- Four hexadecimal digits with something after them. -/
def unit? : List Char → Option (Nat × List Char)
  | a :: b :: c :: d :: rest => do
    let a ← hexDigit? a
    let b ← hexDigit? b
    let c ← hexDigit? c
    let d ← hexDigit? d
    if rest.isEmpty then none
    else some (((a * 16 + b) * 16 + c) * 16 + d, rest)
  | _ => none

/-- The character of an escape of one letter. -/
def simpleEscape? : Char → Option Char
  | '"' => some '"'
  | '\\' => some '\\'
  | '/' => some '/'
  | 'b' => some (Char.ofNat 8)
  | 'f' => some (Char.ofNat 12)
  | 'n' => some '\n'
  | 'r' => some '\r'
  | 't' => some '\t'
  | _ => none

/-- What follows `\u`: one unit, or the two units of a pair. -/
def unicodeEscape (cs : List Char) : Reading CodePoint :=
  match unit? cs with
  | none => .error (.unmet .unicodeEscape cs)
  | some (high, rest) =>
    if CodePoint.opens high then
      match rest with
      | '\\' :: 'u' :: more =>
        match unit? more with
        | some (low, rest') =>
          if CodePoint.closes low then .ok (.char (CodePoint.paired high low), rest')
          else .ok (.ofCode high, rest)
        | none =>
          if more.length ≤ 4 then .ok (.ofCode high, rest)
          else .error (.unmet .unicodeEscape more)
      | _ => .ok (.ofCode high, rest)
    else .ok (.ofCode high, rest)

/-- The code points of a string up to its closing quote; `start` is what remained
at the opening one. -/
def stringBody (start : List Char) :
    Nat → List CodePoint → List Char → Reading (List CodePoint)
  | 0, _, _ => .error (.unmet .closingQuote start)
  | fuel + 1, acc, cs =>
    match cs with
    | [] => .error (.unmet .closingQuote start)
    | '"' :: rest => .ok (acc.reverse, rest)
    | '\\' :: [] => .error (.unmet .closingQuote start)
    | '\\' :: 'u' :: rest =>
      match unicodeEscape rest with
      | .ok (p, rest) => stringBody start fuel (p :: acc) rest
      | .error e => .error e
    | '\\' :: c :: rest =>
      match simpleEscape? c with
      | some e => stringBody start fuel (.char e :: acc) rest
      | none => .error (.unmet .escape cs)
    | c :: rest =>
      if c.toNat < 0x20 then .error (.unmet .noControl cs)
      else stringBody start fuel (.char c :: acc) rest

/-- A string from behind its opening quote. -/
def stringRest (start rest : List Char) : Reading (List CodePoint) :=
  stringBody start (rest.length + 1) [] rest

-- ==================================================== numbers

/-- A digit of ASCII. -/
def isDigit (c : Char) : Bool := '0' ≤ c && c ≤ '9'

/-- The number that decimal digits spell. -/
def natOf (digits : List Char) : Nat :=
  digits.foldl (fun n c => n * 10 + (c.toNat - '0'.toNat)) 0

/-- A fraction, if a digit follows the point: its digits and what remains. -/
def fraction (cs : List Char) : List Char × List Char :=
  match cs with
  | '.' :: c :: rest =>
    if isDigit c then (c :: rest.takeWhile isDigit, rest.dropWhile isDigit) else ([], cs)
  | _ => ([], cs)

/-- The sign of an exponent, and what remains. -/
def exponentSign : List Char → Bool × List Char
  | '-' :: rest => (true, rest)
  | '+' :: rest => (false, rest)
  | rest => (false, rest)

/-- An exponent, if it has a digit, and what remains. -/
def exponent? (cs : List Char) : Option Int × List Char :=
  match cs with
  | c :: rest =>
    if c = 'e' ∨ c = 'E' then
      let (negative, body) := exponentSign rest
      let digits := body.takeWhile isDigit
      if digits.isEmpty then (none, cs)
      else
        let n : Int := natOf digits
        (some (if negative then -n else n), body.dropWhile isDigit)
    else (none, cs)
  | [] => (none, cs)

/-- The digits before the point: a zero alone, or digits that do not start with one. -/
def wholeDigits (cs : List Char) : List Char × List Char :=
  match cs with
  | '0' :: rest => (['0'], rest)
  | _ => (cs.takeWhile isDigit, cs.dropWhile isDigit)

/-- A number: an integer unless it has a fraction or an exponent. -/
def number (start : List Char) (negative : Bool) (cs : List Char) : Reading (Value Broken) :=
  let (whole, rest) := wholeDigits cs
  if whole.isEmpty then .error (.unmet .value start)
  else
    let (frac, rest) := fraction rest
    let (exp, rest) := exponent? rest
    if frac.isEmpty ∧ exp.isNone then
      if DigitLimit.digits < whole.length then .error (.tooManyDigits whole.length)
      else
        let n : Int := natOf whole
        .ok (.int (if negative then -n else n), rest)
    else
      .ok (.scalar (.float (Binary64.ofDecimal negative (natOf (whole ++ frac))
        (exp.getD 0 - frac.length))), rest)

-- ==================================================== values

/-- A value that is neither a string nor a collection. -/
def plain (cs : List Char) : Reading (Value Broken) :=
  match cs with
  | 'n' :: 'u' :: 'l' :: 'l' :: rest => .ok (.null, rest)
  | 't' :: 'r' :: 'u' :: 'e' :: rest => .ok (.bool true, rest)
  | 'f' :: 'a' :: 'l' :: 's' :: 'e' :: rest => .ok (.bool false, rest)
  | 'N' :: 'a' :: 'N' :: rest => .ok (.scalar (.float (.nan 0)), rest)
  | 'I' :: 'n' :: 'f' :: 'i' :: 'n' :: 'i' :: 't' :: 'y' :: rest =>
    .ok (.scalar (.float (.infinite false)), rest)
  | '-' :: 'I' :: 'n' :: 'f' :: 'i' :: 'n' :: 'i' :: 't' :: 'y' :: rest =>
    .ok (.scalar (.float (.infinite true)), rest)
  | '-' :: rest => number cs true rest
  | _ => number cs false cs

mutual

/-- A value at the start of the text. -/
def value : Nat → List Char → Reading (Value Broken)
  | 0, cs => .error (.unmet .value cs)
  | fuel + 1, cs =>
    match cs with
    | '"' :: rest =>
      match stringRest cs rest with
      | .ok (ps, rest) => .ok (.scalar (.ofPoints ps), rest)
      | .error e => .error e
    | '[' :: rest =>
      match skipSpace rest with
      | ']' :: rest => .ok (.list [], rest)
      | rest => items fuel [] rest
    | '\x7b' :: rest =>
      match skipSpace rest with
      | '\x7d' :: rest => .ok (.map [], rest)
      | rest => members fuel [] rest
    | _ => plain cs

/-- The items of a list from the start of one of them. -/
def items : Nat → List (Value Broken) → List Char → Reading (Value Broken)
  | 0, _, cs => .error (.unmet .value cs)
  | fuel + 1, acc, cs =>
    match value fuel cs with
    | .error e => .error e
    | .ok (v, rest) =>
      match skipSpace rest with
      | ']' :: rest => .ok (.list (v :: acc).reverse, rest)
      | ',' :: rest => items fuel (v :: acc) (skipSpace rest)
      | rest => .error (.unmet .comma rest)

/-- The members of a mapping from the start of a name. -/
def members : Nat → Members (Value Broken) Broken → List Char → Reading (Value Broken)
  | 0, _, cs => .error (.unmet .value cs)
  | fuel + 1, acc, cs =>
    match cs with
    | '"' :: rest =>
      match stringRest cs rest with
      | .error e => .error e
      | .ok (name, rest) =>
        match skipSpace rest with
        | ':' :: rest =>
          match value fuel (skipSpace rest) with
          | .error e => .error e
          | .ok (v, rest) =>
            let acc := Members.put (.ofPoints name) v acc
            match skipSpace rest with
            | '\x7d' :: rest => .ok (.map acc, rest)
            | ',' :: rest => members fuel acc (skipSpace rest)
            | rest => .error (.unmet .comma rest)
        | rest => .error (.unmet .colon rest)
    | _ => .error (.unmet .propertyName cs)

end

/-- The whole text is one value, blanks around it allowed. -/
def read (cs : List Char) : Except Stop (Value Broken) :=
  match cs with
  | '\ufeff' :: _ => .error (.unmet .noByteOrderMark cs)
  | _ =>
    match value (2 * cs.length + 2) (skipSpace cs) with
    | .error e => .error e
    | .ok (v, rest) =>
      match skipSpace rest with
      | [] => .ok v
      | rest => .error (.unmet .endOfText rest)

/-- The line on which `rest` starts in a text that it is the end of. -/
def lineOf (cs rest : List Char) : Nat := cs.count '\n' - rest.count '\n' + 1

end ApiAuthz.Json
