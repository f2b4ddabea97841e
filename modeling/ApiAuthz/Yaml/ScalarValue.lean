/-
The values of YAML scalars. Underscores in numbers do not count, and digits may
be those of any script; an integer is read by the notation of its start, numbers
with colons are to base sixty, and a day or a time of day has to exist.

`ofTag` gives the value of a text under a tag. The tag may have been written in
front of it, so the text need not have the form that the tag asks for, and each
reader has to refuse what it cannot read, in the way of its kind: a number that is
none and a day that is in no calendar are texts that cannot be read; a truth value
is looked up, and one that is not there is a key that is missing; a text that is
nothing but a sign has no first character. These faults are not those of malformed
text, and whoever reads a file may treat them otherwise.

A string is a list of code points, and a text only if no half of a pair is among
them. The readers of numbers, dates and octets are asked for texts alone, since a
plain scalar is always one.
-/
import ApiAuthz.Text.Classes
import ApiAuthz.Text.Lowercase
import ApiAuthz.Yaml.Cursor
import ApiAuthz.Yaml.PlainForm

namespace ApiAuthz.Yaml.ScalarValue

/-- The characters of a number; underscores in it are for the eye. -/
def withoutUnderscores (s : String) : List Char := s.toList.filter fun c => c != '_'

/-- Whether there is a minus in front, and the text behind the sign. -/
def signed : List Char → Bool × List Char
  | '-' :: cs => (true, cs)
  | '+' :: cs => (false, cs)
  | cs => (false, cs)

-- ==================================================== integers

/-- What may stand before the digits of a base. -/
def baseMark (base : Nat) : List Char → List Char
  | '0' :: c :: cs =>
    let marks := if base = 16 then ['x', 'X'] else if base = 8 then ['o', 'O']
      else if base = 2 then ['b', 'B'] else []
    if marks.contains c then cs else '0' :: c :: cs
  | cs => cs

/-- The number that digits of a base denote. -/
def natIn (base : Nat) (digits : List Char) : Option Nat :=
  if digits.isEmpty then none
  else
    digits.foldlM (fun n c => do
      let d ← Json.hexDigit? c
      if d < base then return n * base + d else none) 0

/-- How much of a text is quoted where it is no integer. -/
def quotedLength : Nat := 200

/-- An integer in a base, blanks around it allowed. How many digits a decimal
starts with is looked at first. -/
def intIn (base : Nat) (text : List Char) : Step Int :=
  let (negative, body) := signed (Text.numeral text)
  let digits := baseMark base body
  let count := (digits.takeWhile Char.isDigit).length
  if base = 10 ∧ DigitLimit.digits < count then
    .error (.unreadable (DigitLimit.unreadWords count))
  else
    match natIn base digits with
    | none =>
      .error (.unreadable ("invalid literal for int() with base " ++ toString base ++ ": " ++
        String.ofList ((Text.quoted (String.ofList text)).toList.take quotedLength)))
    | some n => .ok (Binary64.withSign negative n)

/-- Digits to base sixty, the first the most significant. -/
def sixtieths (digits : List Int) : Int := digits.foldl (fun n d => n * 60 + d) 0

/-- An integer without its sign, in any of the notations. -/
def unsignedInt (body : List Char) : Step Int :=
  match body with
  | [] => .error (.misused .outOfRange)
  | ['0'] => .ok 0
  | '0' :: 'b' :: cs => intIn 2 cs
  | '0' :: 'x' :: cs => intIn 16 cs
  | '0' :: _ => intIn 8 body
  | _ =>
    if body.contains ':' then ((List.splitOn ':' body).mapM (intIn 10)).map sixtieths
    else intIn 10 body

/-- The integer of a text in any of the notations. -/
def intOf (s : String) : Step Int :=
  let (negative, body) := signed (withoutUnderscores s)
  (unsignedInt body).map fun n => if negative then -n else n

-- ==================================================== floating numbers

/-- A decimal with an optional fraction and exponent, at least one digit in it. -/
def decimal? (negative : Bool) (cs : List Char) : Option Binary64 :=
  let whole := cs.takeWhile Char.isDigit
  let rest := cs.dropWhile Char.isDigit
  let (frac, rest) := match rest with
    | '.' :: more => (more.takeWhile Char.isDigit, more.dropWhile Char.isDigit)
    | _ => ([], rest)
  let value (exponent : Int) : Binary64 :=
    .ofDecimal negative (Json.natOf (whole ++ frac)) (exponent - frac.length)
  if whole.isEmpty && frac.isEmpty then none
  else
    match rest with
    | [] => some (value 0)
    | e :: more =>
      let (below, digits) := signed more
      if e == 'e' && PlainForm.allOf Char.isDigit digits then
        let n : Int := Json.natOf digits
        some (value (if below then -n else n))
      else none

/-- A floating number, blanks around it allowed. -/
def floatIn (text : List Char) : Step Binary64 :=
  let (negative, body) := signed (Text.numeral text)
  let name := String.ofList body
  if name == "inf" || name == "infinity" then .ok (.infinite negative)
  else if name == "nan" then .ok (.nan 0)
  else
    match decimal? negative body with
    | some x => .ok x
    | none =>
      .error (.unreadable ("could not convert string to float: " ++
        Text.quoted (String.ofList text)))

/-- Numbers to base sixty, the last the least significant: every one is
multiplied by its power of sixty, and they are added from the last on. A power
has to be a double. -/
def sixtiethsFrom (power : Nat) (total : Binary64) : List Binary64 → Step Binary64
  | [] => .ok total
  | x :: xs =>
    match Binary64.ofNat? power with
    | none => .error (.misused .tooLarge)
    | some p => sixtiethsFrom (power * 60) (total.add (x.mul p)) xs

/-- A floating number without its sign, in any of the notations. -/
def unsignedFloat (body : List Char) : Step Binary64 :=
  if body == ['.', 'i', 'n', 'f'] then .ok (.infinite false)
  else if body.contains ':' then do
    let parts ← (List.splitOn ':' body).mapM floatIn
    sixtiethsFrom 1 (.zero false) parts.reverse
  else floatIn body

/-- The floating number of a text in any of the notations. What is written as no
number is always the same; what turns out to be none has the payload. -/
def floatOf (payload : Nat) (s : String) : Step Binary64 :=
  let (negative, body) := signed (Text.lower (withoutUnderscores s))
  if body.isEmpty && s.toList.all (· == '_') then .error (.misused .outOfRange)
  else if body == ['.', 'n', 'a', 'n'] then .ok (.nan 0)
  else
    (unsignedFloat body).map fun x => (if negative then x.neg else x).withPayload payload

-- ==================================================== other scalars

/-- A truth value in any of its words, letter case aside. -/
def boolOf (s : String) : Step Bool :=
  let word := String.ofList (Text.lower s.toList)
  if ["yes", "true", "on"].contains word then .ok true
  else if ["no", "false", "off"].contains word then .ok false
  else .error (.misused .missingKey)

/-- What is said of a date that is not in the calendar. -/
def calendarDiagnosis : CalendarFault → String
  | .year n => "year " ++ toString n ++ " is out of range"
  | .month => "month must be in 1..12"
  | .day => "day is out of range for month"
  | .hour => "hour must be in 0..23"
  | .minute => "minute must be in 0..59"
  | .second => "second must be in 0..59"
  | .offset m =>
    "offset must be a timedelta strictly between -timedelta(hours=24) and " ++
      "timedelta(hours=24), not " ++ Scalar.spanLiteral m ++ "."

/-- The date, or date and time, of a text. -/
def momentOf (s : String) : Step (Scalar Broken) :=
  match PlainForm.moment? (PlainForm.withoutBreak s.toList) with
  | none => .error (.misused .noSuchPart)
  | some (.day d) =>
    match d.fault? with
    | some f => .error (.unreadable (calendarDiagnosis f))
    | none => .ok (.date d)
  | some (.time t) =>
    match t.fault? with
    | some f => .error (.unreadable (calendarDiagnosis f))
    | none => .ok (.timestamp t)

-- ==================================================== octets

/-- The six bits of a character of base 64. -/
def sextet? (c : Char) : Option Nat :=
  if 'A' ≤ c ∧ c ≤ 'Z' then some (c.toNat - 'A'.toNat)
  else if 'a' ≤ c ∧ c ≤ 'z' then some (c.toNat - 'a'.toNat + 26)
  else if '0' ≤ c ∧ c ≤ '9' then some (c.toNat - '0'.toNat + 52)
  else if c = '+' then some 62
  else if c = '/' then some 63
  else none

/-- Octets in base 64; `held` are the sextets of the group so far, last first,
and `pads` the equal signs behind them. Other characters do not count. -/
def octetsFrom (held : List Nat) (pads : Nat) : List Char → Option (List UInt8)
  | [] => if held.isEmpty then some [] else none
  | c :: cs =>
    match sextet? c, held with
    | some d, [c', b', a'] =>
      let n := ((a' * 64 + b') * 64 + c') * 64 + d
      (octetsFrom [] 0 cs).map fun rest =>
        UInt8.ofNat (n / 65536) :: UInt8.ofNat (n / 256) :: UInt8.ofNat n :: rest
    | some d, _ => octetsFrom (d :: held) 0 cs
    | none, _ =>
      if c == '=' then
        match held with
        | [b, a] =>
          if pads = 0 then octetsFrom held 1 cs else some [UInt8.ofNat ((a * 64 + b) / 16)]
        | [c', b, a] =>
          let n := (a * 64 + b) * 64 + c'
          some [UInt8.ofNat (n / 1024), UInt8.ofNat (n / 4)]
        | _ => octetsFrom held pads cs
      else octetsFrom held pads cs

/-- The octets of a text in base 64. -/
def octetsOf (s : String) : Step (List UInt8) :=
  if s.toList.any fun c => 0x80 ≤ c.toNat then malformed
  else
    match octetsFrom [] 0 s.toList with
    | some b => .ok b
    | none => malformed

-- ==================================================== by tag

/-- The value of a scalar with a tag; collections' tags and unknown ones have none.
A double that is no number has the payload. Only a string can be broken: no text of
another kind has half of a pair in it, nor what stands for one. -/
def ofTag (payload : Nat) (tag : Tag) (ps : List CodePoint) : Step (Scalar Broken) :=
  let s := Text.whole ps
  match tag with
  | .null => .ok .null
  | .bool => return .bool (← boolOf s)
  | .int => return .int (← intOf s)
  | .float => return .float (← floatOf payload s)
  | .binary => return .octets (← octetsOf s)
  | .timestamp => momentOf s
  | .str => .ok (.ofPoints ps)
  | _ => malformed

end ApiAuthz.Yaml.ScalarValue
