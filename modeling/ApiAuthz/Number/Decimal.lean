/-
Numbers in decimal. Of integers only the number of digits is limited: a longer text is not
read, and an integer that would need one is not shown; both faults have words of their own.

The text of a double is the shortest that reads back. `shortest` gives the fewest digits that
read back as the same double, the nearest such digits if there are several: for 1, 2, … 17
digits it tries the two decimals next to the exact value and keeps the first grid on which one
of them lies in the interval of reals that round to the double (its ends included when the
mantissa is even). `Binary64.text` writes them positionally while the decimal point falls from
three zeros before to sixteen digits after the first digit, and with an exponent of at least
two digits beyond.
-/
import ApiAuthz.Number.Binary64

-- ==================================================== the limit on digits

namespace ApiAuthz.DigitLimit

/-- The most digits that a text is read or written with. -/
def digits : Nat := 4300

/-- The least natural with more digits. -/
def beyond : Nat := Nat.pow 10 digits

/-- The integer has a text. -/
def isShown (n : Int) : Bool := n.natAbs < beyond

/-- What the diagnoses of all integers beyond the limit start with. -/
def exceeded : String :=
  "Exceeds the limit (" ++ toString digits ++ " digits) for integer string conversion"

/-- What they end with. -/
def remedy : String := "; use sys.set_int_max_str_digits() to increase the limit"

/-- The words for a text that is too long to be read. -/
def unreadWords (count : Nat) : String :=
  exceeded ++ ": value has " ++ toString count ++ " digits" ++ remedy

/-- The words for an integer that is too long to be shown. -/
def unshownWords : String := exceeded ++ remedy

end ApiAuthz.DigitLimit

-- ==================================================== doubles

namespace ApiAuthz.Binary64

/-- Digits `d` and a power `p`, standing for `d · 10 ^ p`. -/
structure Decimal where
  digits : Nat
  power : Int
  deriving DecidableEq

/-- The power of ten of the leading digit of `n / d`, for `n` above zero. -/
def leadingPower (n d : Nat) : Int :=
  (digitCount (n * Nat.pow 10 340 / d) : Int) - 341

/-- The value and the two ends of its rounding interval, in quarters of the
unit `2 ^ exponent`. Below a power of two the lower half-gap is halved. -/
def interval (mantissa : Nat) (exponent : Int) : Nat × Nat × Nat :=
  let halfGap := if mantissa = fullMantissa ∧ minExponent < exponent then 1 else 2
  (4 * mantissa - halfGap, 4 * mantissa, 4 * mantissa + 2)

/-- The decimal with `count` digits nearest to the double, if it reads back. -/
def onGrid (mantissa : Nat) (exponent : Int) (leading : Int) (count : Nat) : Option Decimal :=
  let (low, value, high) := interval mantissa exponent
  let step := leading - count + 1
  let up := Nat.pow 2 (exponent - 2).toNat * Nat.pow 10 (-step).toNat
  let down := Nat.pow 2 (2 - exponent).toNat * Nat.pow 10 step.toNat
  let floor := value * up / down
  let hits (g : Nat) : Bool :=
    if mantissa % 2 = 0 then low * up ≤ g * down ∧ g * down ≤ high * up
    else low * up < g * down ∧ g * down < high * up
  let below := value * up - floor * down
  let above := (floor + 1) * down - value * up
  let lower : Option Decimal := if hits floor ∧ 0 < floor then some ⟨floor, step⟩ else none
  let upper : Option Decimal := if hits (floor + 1) then some ⟨floor + 1, step⟩ else none
  match lower, upper with
  | some l, some u => some (if above < below ∨ (above = below ∧ floor % 2 = 1) then u else l)
  | some l, none => some l
  | none, u => u

/-- Seventeen digits always read back, so the search ends. -/
def shortestFrom (mantissa : Nat) (exponent leading : Int) : Nat → Nat → Decimal
  | _, 0 => ⟨mantissa, exponent⟩
  | count, tries + 1 =>
    (onGrid mantissa exponent leading count).getD
      (shortestFrom mantissa exponent leading (count + 1) tries)

/-- The shortest decimal of a double above zero. -/
def shortest (mantissa : Nat) (exponent : Int) : Decimal :=
  let (n, d) := magnitude mantissa exponent
  shortestFrom mantissa exponent (leadingPower n d) 1 17

/-- The digits without the zeros at their end, and where the decimal point
stands behind the first of them. -/
def pointed (x : Decimal) : List Char × Int :=
  let all := Nat.toDigits 10 x.digits
  ((all.reverse.dropWhile (· == '0')).reverse, x.power + all.length)

/-- Digits with the point at `point`: positional in the middle of the range,
otherwise one digit before the point and an exponent. -/
def layOut (digits : List Char) (point : Int) : List Char :=
  if -4 < point ∧ point ≤ 16 then
    if point ≤ 0 then
      '0' :: '.' :: List.replicate (-point).toNat '0' ++ digits
    else
      let whole := digits.take point.toNat
      let rest := digits.drop point.toNat
      whole ++ List.replicate (point.toNat - whole.length) '0' ++
        '.' :: (if rest.isEmpty then ['0'] else rest)
  else
    let power := point - 1
    let shown := Nat.toDigits 10 power.natAbs
    let padded := if shown.length < 2 then '0' :: shown else shown
    digits.take 1 ++ (if digits.length ≤ 1 then [] else '.' :: digits.drop 1) ++
      'e' :: (if power < 0 then '-' else '+') :: padded

/-- The shortest text that reads back as the double. -/
def text : Binary64 → String
  | .nan _ => "nan"
  | .infinite negative => if negative then "-inf" else "inf"
  | .finite negative m e =>
    let body :=
      if m = 0 then ['0', '.', '0']
      else
        let (digits, point) := pointed (shortest m e)
        layOut digits point
    String.ofList (if negative then '-' :: body else body)

end ApiAuthz.Binary64
