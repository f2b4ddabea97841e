/-
The order of keys. Numbers are ordered by value, truth values among them; text
by code points; octets and dates among themselves. Keys of different sorts are
not comparable, and a list of keys has an order only if all of it is. What is
not a number is among the numbers, but neither below nor above any of them, so
how keys are sorted is part of the order: a run at the start stays as it is, and
every further key is put in its place by halving.

Comparing goes by ranks (`rank?`): finite numbers are ratios of integers, which are
compared without rounding, infinities are above or below them, dates and times are
counted in days and in instants. A time with an offset and one without cannot be
compared, nor can a key that has no rank.

Sorting takes the longest run at the start, ascending or strictly descending, turns it
round if it descends, and then inserts one key after the other (`sortedBy`). For keys
that are ordered this is any stable sort. It is only where something that is no
number is among them that the way of sorting shows.
-/
import ApiAuthz.Scalar

namespace ApiAuthz.Scalar

-- ==================================================== comparing two keys

/-- A number as a ratio with a natural above zero below the line. -/
def ratio? : Scalar → Option (Int × Nat)
  | .bool b => some (if b then 1 else 0, 1)
  | .int n => some (n, 1)
  | .float (.finite negative m e) =>
    let (n, d) := Binary64.magnitude m e
    some (Binary64.withSign negative n, d)
  | _ => none

/-- What keys of one sort are compared by. -/
inductive Rank where
  | number (num : Int) (den : Nat)
  | infinity (negative : Bool)
  | noNumber
  | text (s : String)
  | octets (bytes : List UInt8)
  | day (number : Nat)
  | moment (zoned : Bool) (instant : Int)

/-- Where a key stands among those it can be compared with, if there are any. -/
def rank? : Scalar → Option Rank
  | .text s => some (.text s)
  | .octets b => some (.octets b)
  | .date d => some (.day d.number)
  | .timestamp t => some (.moment t.offset.isSome t.instant)
  | .float (.infinite negative) => some (.infinity negative)
  | .float (.nan _) => some .noNumber
  | s => (ratio? s).map fun r => .number r.1 r.2

namespace Rank

/-- A rank that can be compared with numbers. -/
def isNumeric : Rank → Bool
  | .number _ _ | .infinity _ | .noNumber => true
  | _ => false

/-- Whether one rank is below another, if they are of one sort. -/
def below? : Rank → Rank → Option Bool
  | .number n d, .number n' d' => some (n * d' < n' * d)
  | .number _ _, .infinity negative => some (!negative)
  | .infinity negative, .number _ _ => some negative
  | .infinity a, .infinity b => some (a && !b)
  | .text s, .text t => some (s < t)
  | .octets a, .octets b => some (a.map UInt8.toNat < b.map UInt8.toNat)
  | .day a, .day b => some (a < b)
  | .moment z a, .moment z' b => if z == z' then some (a < b) else none
  | a, b => if a.isNumeric && b.isNumeric then some false else none

end Rank

/-- Whether one scalar is below another, if they are comparable. -/
def below? (a b : Scalar) : Option Bool := do (← rank? a).below? (← rank? b)

-- ==================================================== sorting

section Sorting

variable {α : Type} (below : α → α → Bool)

/-- The items that go on with a run, downwards or not, and those behind it. -/
def runFrom (down : Bool) (last : α) : List α → List α × List α
  | [] => ([], [])
  | x :: xs =>
    if below x last == down then
      let (run, rest) := runFrom down x xs
      (x :: run, rest)
    else ([], x :: xs)

/-- The run at the start of a list, in ascending order, and what is behind it. -/
def firstRun : List α → List α × List α
  | x :: y :: xs =>
    let down := below y x
    let (run, rest) := runFrom below down x (y :: xs)
    (if down then (x :: run).reverse else x :: run, rest)
  | xs => (xs, [])

/-- Where an item goes between two positions: behind all that it is not below,
as far as halving shows. -/
def placeBetween (x : α) (xs : List α) (low high : Nat) : Nat :=
  if low < high then
    let middle := low + (high - low) / 2
    if (xs[middle]?).any (below x) then placeBetween x xs low middle
    else placeBetween x xs (middle + 1) high
  else low
termination_by high - low

/-- Puts an item in its place. -/
def putInPlace (xs : List α) (x : α) : List α :=
  let i := placeBetween below x xs 0 xs.length
  xs.take i ++ x :: xs.drop i

/-- The items in ascending order, equal ones as they came. -/
def sortedBy (xs : List α) : List α :=
  let (run, rest) := firstRun below xs
  rest.foldl (putInPlace below) run

end Sorting

/-- The keys in ascending order, if every two of them are comparable. -/
def sorted? (keys : List Scalar) : Option (List Scalar) :=
  let comparable := keys.all fun a => keys.all fun b => (a.below? b).isSome
  if comparable || keys.length ≤ 1 then
    some (sortedBy (fun a b => (a.below? b).getD false) keys)
  else none

end ApiAuthz.Scalar
