/-
UTF-8. For reading, a lead octet says how many octets it owes and between which
bounds the first of them lies; the others lie between 0x80 and 0xbf. The first
octet that fits nowhere ends the reading with a diagnosis that names the
octets concerned and their position.

Every text can be written, but not every string of code points: half of a UTF-16
pair has no octets, and the diagnosis names the first run of halves.
-/
import ApiAuthz.Text.Quoted

namespace ApiAuthz.Text.Utf8

/-- What a lead octet starts: the bits it gives, how many octets it owes, and
the bounds of the first of them. -/
structure Lead where
  bits : Nat
  owed : Nat
  low : Nat
  high : Nat

/-- What the first octet of a character says: the bits it holds, how many octets it is owed, and the
bounds of the next one. Longer forms than need be are ruled out here, as are the halves of pairs. -/
def lead? (b : Nat) : Option Lead :=
  if b < 0x80 then some ⟨b, 0, 0x80, 0xbf⟩
  else if b < 0xc2 then none
  else if b < 0xe0 then some ⟨b - 0xc0, 1, 0x80, 0xbf⟩
  else if b = 0xe0 then some ⟨0, 2, 0xa0, 0xbf⟩
  else if b = 0xed then some ⟨0xd, 2, 0x80, 0x9f⟩
  else if b < 0xf0 then some ⟨b - 0xe0, 2, 0x80, 0xbf⟩
  else if b = 0xf0 then some ⟨0, 3, 0x90, 0xbf⟩
  else if b < 0xf4 then some ⟨b - 0xf0, 3, 0x80, 0xbf⟩
  else if b = 0xf4 then some ⟨4, 3, 0x80, 0x8f⟩
  else none

/-- Why octets are not a character, and how many of them are concerned. -/
inductive Flaw where
  | start
  | continuation (count : Nat)
  | ending (count : Nat)

namespace Flaw

/-- What is wrong, in words. -/
def words : Flaw → String
  | .start => "invalid start byte"
  | .continuation _ => "invalid continuation byte"
  | .ending _ => "unexpected end of data"

/-- How many octets are concerned. -/
def count : Flaw → Nat
  | .start => 1
  | .continuation n => n
  | .ending n => n

/-- The flaw at a position, where the octet is `b`. -/
def diagnosis (position b : Nat) (f : Flaw) : String :=
  let range :=
    if f.count = 1 then
      "byte 0x" ++ String.ofList (hex 2 b) ++ " in position " ++ toString position
    else
      "bytes in position " ++ toString position ++ "-" ++ toString (position + f.count - 1)
  "'utf-8' codec can't decode " ++ range ++ ": " ++ f.words

end Flaw

/-- Takes the octets owed; `taken` counts those already taken. -/
def continuation (bits low high taken : Nat) :
    Nat → List UInt8 → Except Flaw (Nat × List UInt8)
  | 0, bytes => .ok (bits, bytes)
  | _ + 1, [] => .error (.ending taken)
  | owed + 1, b :: bytes =>
    if low ≤ b.toNat ∧ b.toNat ≤ high then
      continuation (bits * 64 + (b.toNat - 0x80)) 0x80 0xbf (taken + 1) owed bytes
    else .error (.continuation taken)

/-- The next character and what remains. -/
def next (b : UInt8) (bytes : List UInt8) : Except Flaw (Char × List UInt8) :=
  match lead? b.toNat with
  | none => .error .start
  | some lead =>
    match continuation lead.bits lead.low lead.high 1 lead.owed bytes with
    | .ok (n, rest) => .ok (Char.ofNat n, rest)
    | .error f => .error f

/-- Characters one after the other; every one takes an octet at least, so the
number of octets is fuel enough. -/
def decodeFrom (total : Nat) : Nat → List Char → List UInt8 → Except String (List Char)
  | _, acc, [] => .ok acc.reverse
  | 0, acc, _ :: _ => .ok acc.reverse
  | fuel + 1, acc, b :: bytes =>
    match next b bytes with
    | .ok (c, rest) => decodeFrom total fuel (c :: acc) rest
    | .error f => .error (f.diagnosis (total - (bytes.length + 1)) b.toNat)

/-- The characters of the octets, or what is wrong with them. -/
def decode (bytes : List UInt8) : Except String (List Char) :=
  decodeFrom bytes.length bytes.length [] bytes

/-- The octets of a text. -/
def encode (s : String) : List UInt8 := s.toUTF8.toList

/-- Where the first halves of a string stand, and which it is if it is one alone. -/
def unencodable (ps : List CodePoint) : String :=
  let position := (ps.takeWhile fun p => !p.isHalf).length
  let range :=
    match (ps.drop position).takeWhile CodePoint.isHalf with
    | [p] =>
      "character '" ++ String.ofList (escapedCode p.code) ++ "' in position " ++ toString position
    | halves =>
      "characters in position " ++ toString position ++ "-" ++
        toString (position + halves.length - 1)
  "'utf-8' codec can't encode " ++ range ++ ": surrogates not allowed"

/-- The octets of a string of code points, or why it has none. -/
def encodePoints (ps : List CodePoint) : Except String (List UInt8) :=
  if ps.any CodePoint.isHalf then .error (unencodable ps)
  else .ok (encode (whole ps))

end ApiAuthz.Text.Utf8
