/-
Quoted text, as messages show it. The quote is a single one unless the text has
single quotes and no double one; the backslash, the quote in use and what does
not print are escaped, with the shortest of the forms for two, four and eight
hexadecimal digits. Half of a UTF-16 pair does not print either, so a broken
string has a quoted form as well, and where it stands without quotes its halves
are shown in the same way.
-/
import ApiAuthz.Text.CodePoint
import ApiAuthz.Text.Unprintable

namespace ApiAuthz.Text

/-- The lower-case hexadecimal digits of a number, zeros in front up to the width. -/
def hex (width n : Nat) : List Char :=
  let digits := Nat.toDigits 16 n
  List.replicate (width - digits.length) '0' ++ digits

/-- The quote that a text is shown in. -/
def quoteFor (cs : List Char) : Char :=
  if cs.contains '\'' && !cs.contains '"' then '"' else '\''

/-- A character that does not print, by its code point. -/
def escapedCode (n : Nat) : List Char :=
  if n < 0x100 then '\\' :: 'x' :: hex 2 n
  else if n < 0x10000 then '\\' :: 'u' :: hex 4 n
  else '\\' :: 'U' :: hex 8 n

/-- A character between quotes of this kind. -/
def escapedChar (quote c : Char) : List Char :=
  if c = quote ∨ c = '\\' then ['\\', c]
  else if c = '\n' then ['\\', 'n']
  else if c = '\r' then ['\\', 'r']
  else if c = '\t' then ['\\', 't']
  else if isUnprintable c then escapedCode c.toNat
  else [c]

/-- The text between quotes. -/
def quoted (s : String) : String :=
  let cs := s.toList
  let q := quoteFor cs
  String.ofList (q :: cs.flatMap (escapedChar q) ++ [q])

/-- A code point in a quoted string. -/
def escapedPoint (quote : Char) : CodePoint → List Char
  | .char c => escapedChar quote c
  | .half place => escapedCode (CodePoint.half place).code

/-- A string of code points between quotes. -/
def quotedPoints (ps : List CodePoint) : String :=
  let q := quoteFor (ps.map CodePoint.character)
  String.ofList (q :: ps.flatMap (escapedPoint q) ++ [q])

/-- A string of code points as it is shown: the characters as they are. -/
def shown (ps : List CodePoint) : String :=
  String.ofList <| ps.flatMap fun
    | .char c => [c]
    | .half place => escapedCode (CodePoint.half place).code

/-- An octet in a quoted run of octets; what is not ASCII is escaped. -/
def escapedOctet (quote : Char) (b : UInt8) : List Char :=
  let n := b.toNat
  if 0x20 ≤ n ∧ n < 0x7f ∨ n = 9 ∨ n = 10 ∨ n = 13 then escapedChar quote (Char.ofNat n)
  else escapedCode n

/-- Octets between quotes, marked as octets. -/
def quotedOctets (bytes : List UInt8) : String :=
  let q := quoteFor (bytes.map fun b => Char.ofNat b.toNat)
  String.ofList ('b' :: q :: bytes.flatMap (escapedOctet q) ++ [q])

end ApiAuthz.Text
