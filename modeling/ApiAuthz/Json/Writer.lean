/-
JSON text in ASCII. A value is written compactly, on one line, or with an
indentation; the two forms are one function under two `Layout`s. What is not
printable ASCII is escaped by UTF-16 units. A key that is no text is written as
the text of its value. Dates, octets and sets have no JSON form, and neither has
a collection within itself or an integer beyond the limit on digits. Of several
faults of a value the first in the order of its text counts.

The functions for values, items and members are one recursion on the value
(`write`), and the depth counts the collections around it. A layout is two functions
of the depth: what stands between two members, and what stands before the first and
behind the last of them. A collection with nothing in it is two brackets, in either
layout (`Layout.enclose`).

Two keys may have the same text, such as a number and the text of its digits. Both
are written, and whoever reads the text finds the later one.
-/
import ApiAuthz.Fault

namespace ApiAuthz.Json

-- ==================================================== strings

/-- The UTF-16 units of a character. -/
def units (c : Char) : List Nat :=
  let n := c.toNat
  if n < 0x10000 then [n] else [0xd800 + (n - 0x10000) / 0x400, 0xdc00 + (n - 0x10000) % 0x400]

/-- A code unit by four hexadecimal digits. -/
def escapedUnit (n : Nat) : List Char := '\\' :: 'u' :: Text.hex 4 n

/-- A character inside a string. -/
def escapedChar (c : Char) : List Char :=
  if c = '"' ∨ c = '\\' then ['\\', c]
  else if ' ' ≤ c ∧ c ≤ '~' then [c]
  else if c = '\n' then ['\\', 'n']
  else if c = '\r' then ['\\', 'r']
  else if c = '\t' then ['\\', 't']
  else if c.toNat = 8 then ['\\', 'b']
  else if c.toNat = 12 then ['\\', 'f']
  else (units c).flatMap escapedUnit

/-- A text between quotes, in ASCII. -/
def string (s : String) : List Char := '"' :: s.toList.flatMap escapedChar ++ ['"']

-- ==================================================== scalars

/-- A double's JSON text; what is no number has a name. -/
def floatText : Binary64 → String
  | .nan _ => "NaN"
  | .infinite negative => if negative then "-Infinity" else "Infinity"
  | x => x.text

/-- The text of a scalar that is not a string. -/
def plainText : Scalar → Attempt String
  | .null => .ok "null"
  | .bool b => .ok (if b then "true" else "false")
  | .int n => if DigitLimit.isShown n then .ok (toString n) else .error .unshown
  | .float x => .ok (floatText x)
  | _ => Fault.wrongKind

/-- The text a key is written as. -/
def keyText : Scalar → Attempt String
  | .text s => .ok s
  | k => plainText k

/-- The text of a scalar where a value is asked for. -/
def scalar : Scalar → Attempt (List Char)
  | .text s => .ok (string s)
  | k => (plainText k).map String.toList

-- ==================================================== layouts

/-- What stands between members, and before the first and after the last of
them, at a depth. -/
structure Layout where
  between : Nat → List Char
  edge : Nat → List Char

namespace Layout

/-- Everything on one line. -/
def compact : Layout := ⟨fun _ => [',', ' '], fun _ => []⟩

/-- The break before an item of this depth. -/
def lineBreak (width depth : Nat) : List Char := '\n' :: List.replicate (width * depth) ' '

/-- Every member on a line of its own, `width` blanks deeper than its parent. -/
def indented (width : Nat) : Layout :=
  ⟨fun depth => ',' :: lineBreak width depth, lineBreak width⟩

/-- Members between brackets; the inner depth is one more. -/
def enclose (l : Layout) (depth : Nat) (opening closing : Char) : List (List Char) → List Char
  | [] => [opening, closing]
  | m :: ms =>
    opening :: l.edge (depth + 1) ++ m ++ ms.flatMap (l.between (depth + 1) ++ ·) ++
      l.edge depth ++ [closing]

end Layout

-- ==================================================== values

/-- The fault of a collection within itself. -/
def circular : Fault := .malformed "Circular reference detected"

mutual

/-- The text of a value at a depth, if it has a JSON form. -/
def write (l : Layout) (depth : Nat) : Value → Attempt (List Char)
  | .scalar s => scalar s
  | .list items => do return l.enclose depth '[' ']' (← writeItems l (depth + 1) items)
  | .pair a b => do
    let a ← write l (depth + 1) a
    let b ← write l (depth + 1) b
    return l.enclose depth '[' ']' [a, b]
  | .set _ => Fault.wrongKind
  | .map ms => do return l.enclose depth '\x7b' '\x7d' (← writeMembers l (depth + 1) ms)
  | .looped _ _ => .error circular

/-- The texts of the items of a list, one depth further in. -/
def writeItems (l : Layout) (depth : Nat) : List Value → Attempt (List (List Char))
  | [] => return []
  | v :: vs => do
    let t ← write l depth v
    let ts ← writeItems l depth vs
    return t :: ts

/-- The texts of the members of an object, each with its key. -/
def writeMembers (l : Layout) (depth : Nat) :
    List (Scalar × Value) → Attempt (List (List Char))
  | [] => return []
  | (k, v) :: ms => do
    let key ← keyText k
    let t ← write l depth v
    let ts ← writeMembers l depth ms
    return (string key ++ ':' :: ' ' :: t) :: ts

end

/-- The value on one line. -/
def compact (v : Value) : Attempt String := return String.ofList (← write .compact 0 v)

/-- The value with every member on its own line. -/
def indented (width : Nat) (v : Value) : Attempt String :=
  return String.ofList (← write (.indented width) 0 v)

end ApiAuthz.Json
