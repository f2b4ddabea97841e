/-
Words that look alike. Two words are compared by their longest common run of
letters, then by the longest runs to the left and to the right of it, and so on;
the likeness is twice the letters in common over all letters. `similar` gives at
most three words whose likeness is three fifths or more, the most alike first.

Of several longest runs the first one counts, in the first word and then in the
second (`longestRun`); it matters which, for the parts beside it are compared next.
Of words that are equally alike the greater one comes first (`precedes`).
-/

namespace ApiAuthz.CommandLine.Similar

/-- How many letters two words have in common at their starts. -/
def sharedStart : List Char → List Char → Nat
  | a :: as, b :: bs => if a = b then sharedStart as bs + 1 else 0
  | _, _ => 0

/-- A run of characters that two texts share: where it stands in each, and how long it is. -/
structure Run where
  left : Nat
  right : Nat
  size : Nat

/-- The longest common run; of several the first in the left word, then in the
right one. -/
def longestRun (a b : List Char) : Run :=
  (List.range a.length).foldl (fun best i =>
    (List.range b.length).foldl (fun best j =>
      let size := sharedStart (a.drop i) (b.drop j)
      if best.size < size then ⟨i, j, size⟩ else best) best) ⟨0, 0, 0⟩

/-- How many letters two words have in common, run by run. -/
def common : Nat → List Char → List Char → Nat
  | 0, _, _ => 0
  | fuel + 1, a, b =>
    let r := longestRun a b
    if r.size = 0 then 0
    else
      r.size + common fuel (a.take r.left) (b.take r.right) +
        common fuel (a.drop (r.left + r.size)) (b.drop (r.right + r.size))

/-- The letters in common of a candidate and a word, and the letters of both. -/
def likeness (candidate word : String) : Nat × Nat :=
  let a := candidate.toList
  let b := word.toList
  (2 * common (a.length + 1) a b, a.length + b.length)

/-- Whether one candidate comes before another: more alike, or else greater. -/
def precedes (x y : String × Nat × Nat) : Bool :=
  let l := x.2.1 * y.2.2
  let r := y.2.1 * x.2.2
  r < l || (r == l && y.1 < x.1)

/-- The candidates most like a word. -/
def similar (word : String) (candidates : List String) : List String :=
  let scored := (candidates.map fun c => (c, likeness c word)).filter fun c =>
    3 * c.2.2 ≤ 5 * c.2.1
  ((scored.mergeSort precedes).take 3).map Prod.fst

end ApiAuthz.CommandLine.Similar
