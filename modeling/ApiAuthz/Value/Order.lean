/-
Comparing values. Two values are the same if they are equal as numbers, texts,
or collections, whatever the order of a mapping's members; a value is above
another if both are numbers, both are texts, or both are lists, the first
difference between two lists deciding. Other values cannot be compared.
-/
import ApiAuthz.KeyOrder
import ApiAuthz.Value

namespace ApiAuthz.Value

mutual

/-- Both values are equal. -/
def same : Value → Value → Bool
  | .scalar s, w => (w.key?).any s.same
  | .list vs, w =>
    match w with
    | .list ws => sameItems vs ws
    | _ => false
  | .pair a b, w =>
    match w with
    | .pair a' b' => same a a' && same b b'
    | _ => false
  | .set ks, w =>
    match w with
    | .set ls => ks.length == ls.length && ks.all fun k => ls.any k.same
    | _ => false
  | .map ms, w =>
    match w with
    | .map ns => ms.length == ns.length && sameMembers ms ns
    | _ => false
  | .looped _ v, w => same v w

/-- Items are the same one by one. -/
def sameItems : List Value → List Value → Bool
  | [], [] => true
  | v :: vs, w :: ws => same v w && sameItems vs ws
  | _, _ => false

/-- Every member has one of the same key and value. -/
def sameMembers : List (Scalar × Value) → Members Value → Bool
  | [], _ => true
  | (k, v) :: ms, ns => (Members.find? k ns).any (same v) && sameMembers ms ns

end

mutual

/-- Whether a value is above another, if they can be compared. -/
def above? : Value → Value → Option Bool
  | .scalar s, w => w.key?.bind fun t => t.below? s
  | .list vs, w =>
    match w with
    | .list ws => itemsAbove? vs ws
    | _ => none
  | _, _ => none

/-- Of two lists with no difference the longer one is above the other. -/
def itemsAbove? : List Value → List Value → Option Bool
  | [], _ => some false
  | _ :: _, [] => some true
  | v :: vs, w :: ws => if same v w then itemsAbove? vs ws else above? v w

end

/-- One more, for a number. -/
def successor? : Value → Option Value
  | .scalar (.bool b) => some (.int (if b then 2 else 1))
  | .scalar (.int n) => some (.int (n + 1))
  | .scalar (.float x) => some (.scalar (.float (x.add (.ofRatio false 1 1))))
  | _ => none

end ApiAuthz.Value
