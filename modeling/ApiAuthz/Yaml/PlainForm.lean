/-
What plain scalars stand for. The form of a plain scalar decides its tag: null,
a truth value, an integer in one of five notations, a floating number in one of
four, a date or a date and time, the merge key, the default key; anything else
is text. The recognisers are pairs of "take as much as fits" steps, so each form
reads like its definition.

`tagOf` asks for one form after the other, and the first that fits decides. A form
is asked of the whole scalar: digits with colons between them are an integer to base
sixty, and with a point behind them a floating number; a zero with an eight behind it
starts like an octal integer and is none. A line break at the end is left aside, as
block scalars may have one.

An exponent needs a point in front of it and a sign, so some numbers of other
notations are texts here. No form looks at the value: a day that is in no calendar
has the form of a date all the same, and is refused when its value is asked for
(`Yaml/ScalarValue`).
-/
import ApiAuthz.Calendar
import ApiAuthz.Json.Reader

namespace ApiAuthz.Yaml

/-- The tags of the YAML repository, and any other tag by its text. -/
inductive Tag where
  | null
  | bool
  | int
  | float
  | binary
  | timestamp
  | omap
  | pairs
  | set
  | str
  | seq
  | map
  | merge
  | value
  | other (text : String)
  deriving DecidableEq

namespace Tag

/-- What every tag of the repository starts with. -/
def repository : String := "tag:yaml.org,2002:"

/-- The tag that a text stands for. -/
def ofText (text : String) : Tag :=
  let known : List (String × Tag) :=
    [("null", .null), ("bool", .bool), ("int", .int), ("float", .float), ("binary", .binary),
     ("timestamp", .timestamp), ("omap", .omap), ("pairs", .pairs), ("set", .set), ("str", .str),
     ("seq", .seq), ("map", .map), ("merge", .merge), ("value", .value)]
  match known.find? fun k => repository ++ k.1 == text with
  | some k => k.2
  | none => .other text

end Tag

namespace PlainForm

-- ==================================================== pieces

/-- A digit of a binary integer, or an underscore. -/
def isBinaryDigit (c : Char) : Bool := c == '0' || c == '1' || c == '_'

/-- A digit of an octal integer, or an underscore. -/
def isOctalDigit (c : Char) : Bool := ('0' ≤ c && c ≤ '7') || c == '_'

/-- A digit of a decimal integer, or an underscore. -/
def isDecimalDigit (c : Char) : Bool := c.isDigit || c == '_'

/-- A digit of a hexadecimal integer, or an underscore. -/
def isHexDigit (c : Char) : Bool := (Json.hexDigit? c).isSome || c == '_'

/-- The text without a sign in front. -/
def unsigned : List Char → List Char
  | '+' :: cs => cs
  | '-' :: cs => cs
  | cs => cs

/-- At least one character, all of a class. -/
def allOf (p : Char → Bool) (cs : List Char) : Bool := !cs.isEmpty && cs.all p

/-- A colon and a number below sixty, at least once, and the rest. -/
def sixties : Nat → List Char → Option (List Char)
  | 0, _ => none
  | fuel + 1, ':' :: a :: b :: cs =>
    if '0' ≤ a && a ≤ '5' && b.isDigit then some ((sixties fuel cs).getD cs)
    else if a.isDigit then some ((sixties fuel (b :: cs)).getD (b :: cs))
    else none
  | _ + 1, [':', a] => if a.isDigit then some [] else none
  | _ + 1, _ => none

/-- Sixties up to the end of a number; each takes a character, so there is fuel enough. -/
def sixtiesOf (cs : List Char) : Option (List Char) := sixties (cs.length + 1) cs

-- ==================================================== numbers

/-- Binary, octal, decimal, hexadecimal or to base sixty. -/
def isInt (text : List Char) : Bool :=
  match unsigned text with
  | ['0'] => true
  | '0' :: 'b' :: cs => allOf isBinaryDigit cs
  | '0' :: 'x' :: cs => allOf isHexDigit cs
  | '0' :: cs => allOf isOctalDigit cs
  | c :: cs =>
    c.isDigit &&
      (let rest := cs.dropWhile isDecimalDigit
       rest.isEmpty || sixtiesOf rest == some [])
  | [] => false

/-- No exponent, or one with a sign. -/
def isExponent : List Char → Bool
  | [] => true
  | e :: s :: cs => (e == 'e' || e == 'E') && (s == '-' || s == '+') && allOf Char.isDigit cs
  | _ => false

/-- A point, digits and an exponent. -/
def isPointed (cs : List Char) : Bool :=
  match cs with
  | '.' :: cs => isExponent (cs.dropWhile isDecimalDigit)
  | _ => false

/-- A point and digits. -/
def isPointedPlain (cs : List Char) : Bool :=
  match cs with
  | '.' :: cs => cs.all isDecimalDigit
  | _ => false

/-- The spellings of infinity, without a sign. -/
def infinityTexts : List String := [".inf", ".Inf", ".INF"]

/-- The spellings of what is no number. -/
def nanTexts : List String := [".nan", ".NaN", ".NAN"]

/-- Decimal with a point, to base sixty with a point, infinite, or no number. -/
def isFloat (text : List Char) : Bool :=
  let cs := unsigned text
  let decimal :=
    match cs with
    | c :: rest =>
      c.isDigit &&
        (let rest := rest.dropWhile isDecimalDigit
         isPointed rest || (sixtiesOf rest).any isPointedPlain)
    | [] => false
  let bare :=
    match text with
    | '.' :: c :: rest => c.isDigit && isExponent (rest.dropWhile isDecimalDigit)
    | _ => false
  decimal || bare || infinityTexts.contains (String.ofList cs) ||
    nanTexts.contains (String.ofList text)

-- ==================================================== dates

/-- One or two digits as a number, and the rest. -/
def shortNumber : List Char → Option (Nat × List Char)
  | a :: b :: cs =>
    if a.isDigit then
      if b.isDigit then some (Json.natOf [a, b], cs) else some (Json.natOf [a], b :: cs)
    else none
  | [a] => if a.isDigit then some (Json.natOf [a], []) else none
  | [] => none

/-- Two digits as a number, and the rest. -/
def twoDigits : List Char → Option (Nat × List Char)
  | a :: b :: cs => if a.isDigit && b.isDigit then some (Json.natOf [a, b], cs) else none
  | _ => none

/-- Past one character that has to be there. -/
def literal (c : Char) : List Char → Option (List Char)
  | d :: cs => if c == d then some cs else none
  | [] => none

/-- A year, which has four digits. -/
def yearNumber : List Char → Option (Nat × List Char)
  | a :: b :: c :: d :: cs =>
    if [a, b, c, d].all Char.isDigit then some (Json.natOf [a, b, c, d], cs) else none
  | _ => none

/-- Year, month and day with hyphens between, and the rest. -/
def date (cs : List Char) : Option (Date × List Char) := do
  let (year, cs) ← yearNumber cs
  let cs ← literal '-' cs
  let (month, cs) ← shortNumber cs
  let cs ← literal '-' cs
  let (day, cs) ← shortNumber cs
  return (⟨year, month, day⟩, cs)

/-- A letter `t` or blanks between a date and a time. -/
def timeMark (cs : List Char) : Option (List Char) :=
  match cs with
  | 't' :: cs => some cs
  | 'T' :: cs => some cs
  | c :: _ =>
    if c == ' ' || c == '\t' then some (cs.dropWhile fun c => c == ' ' || c == '\t') else none
  | [] => none

/-- Digits behind a point as microseconds; those behind the sixth do not count. -/
def fraction : List Char → Nat × List Char
  | '.' :: cs =>
    let digits := cs.takeWhile Char.isDigit
    (Json.natOf ((digits ++ List.replicate 6 '0').take 6), cs.dropWhile Char.isDigit)
  | cs => (0, cs)

/-- An offset from universal time at the end of a text, in minutes. -/
def zone (cs : List Char) : Option (Option Int) :=
  match cs, cs.dropWhile fun c => c == ' ' || c == '\t' with
  | [], _ => some none
  | _, ['Z'] => some (some 0)
  | _, sign :: cs =>
    if sign == '+' || sign == '-' then do
      let (hours, cs) ← shortNumber cs
      let minutes ← match cs with
        | [] => some 0
        | ':' :: cs =>
          match twoDigits cs with
          | some (m, []) => some m
          | _ => none
        | _ => none
      let total : Int := hours * 60 + minutes
      return some (if sign == '-' then -total else total)
    else none
  | _, [] => none

/-- The time of day at the end of a text, on a date. -/
def timeOn (d : Date) (cs : List Char) : Option Timestamp := do
  let cs ← timeMark cs
  let (hour, cs) ← shortNumber cs
  let cs ← literal ':' cs
  let (minute, cs) ← twoDigits cs
  let cs ← literal ':' cs
  let (second, cs) ← twoDigits cs
  let (microsecond, cs) := fraction cs
  let offset ← zone cs
  return { date := d, hour, minute, second, microsecond, offset }

/-- A date, alone or with a time of day. -/
inductive Moment where
  | day (d : Date)
  | time (t : Timestamp)

/-- A date or a time that takes the whole text. -/
def moment? (text : List Char) : Option Moment := do
  let (d, rest) ← date text
  if rest.isEmpty then return .day d else return .time (← timeOn d rest)

/-- A date alone is plain only with two digits for month and day. -/
def isMoment (text : List Char) : Bool :=
  match moment? text with
  | some (.time _) => true
  | some (.day _) => text.length == 10
  | none => false

-- ==================================================== the tag of a form

/-- The spellings of truth values. -/
def boolTexts : List String :=
  ["yes", "Yes", "YES", "no", "No", "NO", "true", "True", "TRUE", "false", "False", "FALSE",
   "on", "On", "ON", "off", "Off", "OFF"]

/-- The spellings of nothing. -/
def nullTexts : List String := ["", "~", "null", "Null", "NULL"]

/-- The signs that are scalars of a kind of their own, which has no values. -/
def signTexts : List String := ["!", "&", "*"]

/-- The text without a line break at its end, unless it is nothing else. -/
def withoutBreak (cs : List Char) : List Char :=
  if 1 < cs.length && cs.getLast? == some '\n' then cs.dropLast else cs

/-- The tag of a scalar by its form. A line break at its end does not count. -/
def tagOf (text : String) : Tag :=
  let cs := withoutBreak text.toList
  let s := String.ofList cs
  if boolTexts.contains s then .bool
  else if isFloat cs then .float
  else if isInt cs then .int
  else if s == "<<" then .merge
  else if nullTexts.contains s then .null
  else if isMoment cs then .timestamp
  else if s == "=" then .value
  else if signTexts.contains s then .other (Tag.repository ++ "yaml")
  else .str

end PlainForm

end ApiAuthz.Yaml
