/-
Double-precision numbers by their value. A finite double is a sign, a mantissa
below 2^53 and a power of two, so that reading, comparing and printing them is
exact arithmetic on naturals; no machine float occurs anywhere.

The one rounding function is `ofRatio`: the double nearest to a ratio of two
naturals, a tie going to the even mantissa. `ofDecimal` reads a decimal through
it, `add` and `mul` round the exact sum and product with it. What is not a
number has a payload, by which two such doubles can be told apart.
-/

namespace ApiAuthz

/-- A double: not a number, an infinity, or `± mantissa · 2 ^ exponent`. -/
inductive Binary64 where
  | nan (payload : Nat)
  | infinite (negative : Bool)
  | finite (negative : Bool) (mantissa : Nat) (exponent : Int)
  deriving DecidableEq

namespace Binary64

/-- The exponent of the smallest doubles. -/
def minExponent : Int := -1074

/-- The largest exponent of a finite double. -/
def maxExponent : Int := 971

/-- The least mantissa of 53 bits, two to the 52nd. -/
def fullMantissa : Nat := 0x10000000000000

/-- The two zeros. -/
def zero (negative : Bool) : Binary64 := .finite negative 0 minExponent

/-- `num / den` measured in units of `2 ^ e`, as a ratio of naturals. -/
def inUnits (num den : Nat) (e : Int) : Nat × Nat :=
  (num * Nat.pow 2 (-e).toNat, den * Nat.pow 2 e.toNat)

/-- The unit in which `num / den` has a mantissa of 53 bits, never below the
smallest one. -/
def unitOf (num den : Nat) : Int :=
  let guess : Int := (num.log2 : Int) - den.log2 - 52
  let (n, d) := inUnits num den guess
  max minExponent (if n / d < fullMantissa then guess - 1 else guess)

/-- The quotient rounded to the nearest natural, a tie to the even one. -/
def roundQuotient (n d : Nat) : Nat :=
  let q := n / d
  let twice := 2 * (n % d)
  if d < twice ∨ (d = twice ∧ q % 2 = 1) then q + 1 else q

/-- The double nearest to `± num / den`. -/
def ofRatio (negative : Bool) (num den : Nat) : Binary64 :=
  if num = 0 then zero negative
  else
    let e := unitOf num den
    let (n, d) := inUnits num den e
    let m := roundQuotient n d
    let (m, e) := if m = 2 * fullMantissa then (fullMantissa, e + 1) else (m, e)
    if maxExponent < e then .infinite negative else .finite negative m e

/-- How many decimal digits a natural has; zero has one. -/
def digitCount (n : Nat) : Nat := (Nat.toDigits 10 n).length

/-- The double nearest to `± digits · 10 ^ exponent`. Far outside the range of
doubles the answer is known without the power. -/
def ofDecimal (negative : Bool) (digits : Nat) (exponent : Int) : Binary64 :=
  if digits = 0 then zero negative
  else if 320 < exponent + digitCount digits then .infinite negative
  else if exponent + digitCount digits < -340 then zero negative
  else ofRatio negative (digits * Nat.pow 10 exponent.toNat) (Nat.pow 10 (-exponent).toNat)

/-- The magnitude of a finite double as a ratio of naturals. -/
def magnitude (mantissa : Nat) (exponent : Int) : Nat × Nat :=
  (mantissa * Nat.pow 2 exponent.toNat, Nat.pow 2 (-exponent).toNat)

/-- The integer a double equals, if it equals one. -/
def toInt? : Binary64 → Option Int
  | .finite negative m e =>
    let (n, d) := magnitude m e
    if n % d = 0 then some (if negative then -((n / d : Nat) : Int) else (n / d : Nat)) else none
  | _ => none

/-- One of the two zeros. -/
def isZero : Binary64 → Bool
  | .finite _ m _ => m == 0
  | _ => false

/-- The number with the other sign; what is no number has none. -/
def neg : Binary64 → Binary64
  | .nan p => .nan p
  | .infinite s => .infinite (!s)
  | .finite s m e => .finite (!s) m e

/-- The double with another payload, if it has one. -/
def withPayload (payload : Nat) : Binary64 → Binary64
  | .nan _ => .nan payload
  | x => x

/-- A natural with a sign. -/
def withSign (negative : Bool) (n : Nat) : Int := if negative then -(n : Int) else n

/-- The product, rounded once. Nothing times an infinity is no number. -/
def mul : Binary64 → Binary64 → Binary64
  | .nan p, _ => .nan p
  | _, .nan p => .nan p
  | .finite s m e, .finite s' m' e' =>
    let (n, d) := magnitude m e
    let (n', d') := magnitude m' e'
    ofRatio (s != s') (n * n') (d * d')
  | .infinite s, .infinite s' => .infinite (s != s')
  | .infinite s, .finite s' m _ => if m = 0 then .nan 0 else .infinite (s != s')
  | .finite s m _, .infinite s' => if m = 0 then .nan 0 else .infinite (s != s')

/-- The sum, rounded once. Infinities of both signs have none, and a sum of zero
is negative only if both terms are. -/
def add : Binary64 → Binary64 → Binary64
  | .nan p, _ => .nan p
  | _, .nan p => .nan p
  | .finite s m e, .finite s' m' e' =>
    let (n, d) := magnitude m e
    let (n', d') := magnitude m' e'
    let sum := withSign s (n * d') + withSign s' (n' * d)
    if sum = 0 then zero (s && s') else ofRatio (sum < 0) sum.natAbs (d * d')
  | .infinite s, .infinite s' => if s = s' then .infinite s else .nan 0
  | .infinite s, .finite _ _ _ => .infinite s
  | .finite _ _ _, .infinite s => .infinite s

/-- The double nearest to a natural, if it is not too large for one. -/
def ofNat? (n : Nat) : Option Binary64 :=
  match ofRatio false n 1 with
  | .infinite _ => none
  | x => some x

end Binary64

end ApiAuthz
