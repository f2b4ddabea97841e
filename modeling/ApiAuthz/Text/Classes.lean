/-
Classes of characters, and what a text is without those of a class. Blanks are Unicode white
space together with the four information separators, and `strip` takes them off both ends.
Line ends are of three kinds, a carriage return, alone or with a line feed behind it, or a
line feed alone, and are read as one line feed. Decimal digits are those of all scripts of
Unicode 14; each script has ten of them in a row, so the table lists the zeros, and numbers
are read from `numeral`, the text with the digits and blanks of ASCII.
-/

namespace ApiAuthz.Text

-- ==================================================== blanks

/-- A character that counts as blank at the ends of a text. -/
def isBlank (c : Char) : Bool :=
  let n := c.toNat
  (0x09 ≤ n && n ≤ 0x0d) || (0x1c ≤ n && n ≤ 0x20) || n == 0x85 || n == 0xa0 || n == 0x1680 ||
    (0x2000 ≤ n && n ≤ 0x200a) || n == 0x2028 || n == 0x2029 || n == 0x202f || n == 0x205f ||
    n == 0x3000

/-- The text without what `p` holds of at its end. -/
def stripRight (p : Char → Bool) (cs : List Char) : List Char :=
  (cs.reverse.dropWhile p).reverse

/-- The text without blanks at its ends. -/
def strip (cs : List Char) : List Char := stripRight isBlank (cs.dropWhile isBlank)

-- ==================================================== line ends

/-- Every line end as a line feed. -/
def unifyLineEnds : List Char → List Char
  | '\r' :: '\n' :: cs => '\n' :: unifyLineEnds cs
  | '\r' :: cs => '\n' :: unifyLineEnds cs
  | c :: cs => c :: unifyLineEnds cs
  | [] => []

-- ==================================================== decimal digits

/-- The digits zero of the scripts. -/
def zeroDigits : List Nat :=
  [0x30, 0x660, 0x6f0, 0x7c0, 0x966, 0x9e6, 0xa66, 0xae6, 0xb66, 0xbe6, 0xc66, 0xce6, 0xd66, 0xde6,
   0xe50, 0xed0, 0xf20, 0x1040, 0x1090, 0x17e0, 0x1810, 0x1946, 0x19d0, 0x1a80, 0x1a90, 0x1b50,
   0x1bb0, 0x1c40, 0x1c50, 0xa620, 0xa8d0, 0xa900, 0xa9d0, 0xa9f0, 0xaa50, 0xabf0, 0xff10, 0x104a0,
   0x10d30, 0x11066, 0x110f0, 0x11136, 0x111d0, 0x112f0, 0x11450, 0x114d0, 0x11650, 0x116c0,
   0x11730, 0x118e0, 0x11950, 0x11c50, 0x11d50, 0x11da0, 0x16a60, 0x16ac0, 0x16b50, 0x1d7ce,
   0x1d7d8, 0x1d7e2, 0x1d7ec, 0x1d7f6, 0x1e140, 0x1e2f0, 0x1e950, 0x1fbf0]

/-- What a decimal digit of any script counts. -/
def digitValue? (c : Char) : Option Nat :=
  (zeroDigits.find? fun z => z ≤ c.toNat && c.toNat < z + 10).map fun z => c.toNat - z

/-- A character beyond ASCII, if it is a digit or a blank, as that of ASCII. -/
def asciiOf (c : Char) : Char :=
  if c.toNat < 0x80 then c
  else
    match digitValue? c with
    | some d => Char.ofNat ('0'.toNat + d)
    | none => if isBlank c then ' ' else c

/-- The blanks of ASCII, without the information separators. -/
def isAsciiBlank (c : Char) : Bool := (9 ≤ c.toNat && c.toNat ≤ 13) || c == ' '

/-- The text that a number is read from. -/
def numeral (cs : List Char) : List Char :=
  stripRight isAsciiBlank ((cs.map asciiOf).dropWhile isAsciiBlank)

end ApiAuthz.Text
