/-
Days and times of day in the Gregorian calendar, as far as documents hold them.
A `Date` is checked by `Date.fault?`, which names the first part that is out of
range; a `Timestamp` adds the time of day and, optionally, an offset from
universal time in minutes. `Timestamp.instant` is what two timestamps are
compared by.
-/

namespace ApiAuthz

/-- A day of the calendar, checked or not. -/
structure Date where
  year : Nat
  month : Nat
  day : Nat
  deriving DecidableEq

/-- A day and a time on it. -/
structure Timestamp where
  date : Date
  hour : Nat
  minute : Nat
  second : Nat
  microsecond : Nat
  /-- Minutes ahead of universal time; none for a time of no known zone. -/
  offset : Option Int
  deriving DecidableEq

/-- What is wrong with a date, a time of day or an offset. -/
inductive CalendarFault where
  | year (n : Nat)
  | month
  | day
  | hour
  | minute
  | second
  | offset (minutes : Int)
  deriving DecidableEq

/-- A natural with zeros in front up to the width. -/
def paddedNat (width n : Nat) : String :=
  let digits := Nat.toDigits 10 n
  String.ofList (List.replicate (width - digits.length) '0' ++ digits)

namespace Date

/-- The year has a twenty-ninth of February. -/
def isLeap (year : Nat) : Bool :=
  year % 4 == 0 && (year % 100 != 0 || year % 400 == 0)

/-- The last day of a month, which is one of twelve. -/
def daysInMonth (year month : Nat) : Nat :=
  if month = 2 then (if isLeap year then 29 else 28)
  else if month = 4 ∨ month = 6 ∨ month = 9 ∨ month = 11 then 30
  else 31

/-- Year, month and day are looked at in this order. -/
def fault? (d : Date) : Option CalendarFault :=
  if d.year < 1 ∨ 9999 < d.year then some (.year d.year)
  else if d.month < 1 ∨ 12 < d.month then some .month
  else if d.day < 1 ∨ daysInMonth d.year d.month < d.day then some .day
  else none

/-- Days in the months of a year before the given one. -/
def daysBeforeMonth (year month : Nat) : Nat :=
  (List.range (month - 1)).foldl (fun days m => days + daysInMonth year (m + 1)) 0

/-- The day's number, the first of January of year 1 being 1. -/
def number (d : Date) : Nat :=
  let y := d.year - 1
  y * 365 + y / 4 - y / 100 + y / 400 + daysBeforeMonth d.year d.month + d.day

/-- The date in ISO form. -/
def isoText (d : Date) : String :=
  paddedNat 4 d.year ++ "-" ++ paddedNat 2 d.month ++ "-" ++ paddedNat 2 d.day

end Date

namespace Timestamp

/-- The date, then hour, minute, second and offset are looked at. An offset
stays within a day. -/
def fault? (t : Timestamp) : Option CalendarFault :=
  match t.offset with
  | some m => if m.natAbs < 24 * 60 then timeFault? else some (.offset m)
  | none => timeFault?
where
  timeFault? : Option CalendarFault :=
    t.date.fault? <|>
      if 23 < t.hour then some .hour
      else if 59 < t.minute then some .minute
      else if 59 < t.second then some .second
      else none

/-- Microseconds on the calendar's own line, the offset taken off. -/
def instant (t : Timestamp) : Int :=
  let minutes : Int := (t.date.number * 24 + t.hour) * 60 + t.minute - t.offset.getD 0
  (minutes * 60 + t.second) * 1000000 + t.microsecond

/-- An offset from universal time in hours and minutes, signed. -/
def offsetText (minutes : Int) : String :=
  (if minutes < 0 then "-" else "+") ++ paddedNat 2 (minutes.natAbs / 60) ++ ":" ++
    paddedNat 2 (minutes.natAbs % 60)

/-- Date, a separator, time of day with a fraction if there is one, offset. -/
def isoText (separator : String) (t : Timestamp) : String :=
  t.date.isoText ++ separator ++ paddedNat 2 t.hour ++ ":" ++ paddedNat 2 t.minute ++ ":" ++
    paddedNat 2 t.second ++
    (if t.microsecond = 0 then "" else "." ++ paddedNat 6 t.microsecond) ++
    (match t.offset with
     | some m => offsetText m
     | none => "")

end Timestamp

end ApiAuthz
