/-
YAML documents as values. The parts of a document are put together from the
leaves on; what no leaf supports stands within itself, or holds something that
does, and is written out from the outside, level by level and deeper than any
use of it reaches.

A part is known once all parts in it are (`Part.value?`), and rounds over the parts
make more of them known until one adds nothing (`Known.settled`). What is not known
then lies on a circle or leads to one. It is unfolded to a number of levels
(`unfolded`): schemas are not looked at deeper than a limit, and a path through the
document comes to a collection for the second time before it has met more
collections than there are (`levelsFor`). Each copy is marked by the number of its
node, so that it can be told that it is one.

A text has one document or none, which is null, and may only have characters that
are allowed (`isAllowed`); that is asked of the whole text, before anything else.
-/
import ApiAuthz.Value
import ApiAuthz.Yaml.Part

namespace ApiAuthz.Yaml

-- ==================================================== parts as values

namespace Part

/-- The value of a part, if those of the parts in it are known. -/
def value? (known : Nat → Option (Value Broken)) : Part → Option (Value Broken)
  | .scalar s => some (.scalar s)
  | .list items => (items.mapM known).map .list
  | .pair a b => do return .pair (← known a) (← known b)
  | .set keys => some (.set keys)
  | .map members => (members.mapM fun m => (known m.2).map fun v => (m.1, v)).map .map

end Part

/-- Values of parts by their numbers, as far as they are known. -/
abbrev Known := Array (Option (Value Broken))

namespace Known

/-- What is known of a node. -/
def at? (known : Known) (number : Nat) : Option (Value Broken) := (known[number]?).join

/-- Puts together whatever is supported by what is known. Later parts come first,
as they mostly stand in earlier ones. -/
def round (parts : Array (Option Part)) (known : Known) : Known :=
  (List.range parts.size).reverse.foldl (fun known number =>
    match known.at? number, (parts[number]?).join with
    | none, some p => known.setIfInBounds number (p.value? known.at?)
    | _, _ => known) known

/-- Of how many nodes the values are known. -/
def count (known : Known) : Nat := known.foldl (fun n v => if v.isSome then n + 1 else n) 0

/-- Rounds until one adds nothing. -/
def settled (parts : Array (Option Part)) : Nat → Known → Known
  | 0, known => known
  | fuel + 1, known =>
    let next := round parts known
    if next.count = known.count then known else settled parts fuel next

/-- What all leaves support. -/
def ofParts (parts : Array (Option Part)) : Known :=
  settled parts (parts.size + 1) (Array.replicate parts.size none)

end Known

-- ==================================================== collections within themselves

/-- The parts that are not known. -/
def loopedParts (parts : Array (Option Part)) (known : Known) : List (Nat × Part) :=
  (List.range parts.size).filterMap fun number =>
    match known.at? number, (parts[number]?).join with
    | none, some p => some (number, p)
    | _, _ => none

/-- The looped parts written out to a number of levels. -/
def unfolded (looped : List (Nat × Part)) (known : Known) : Nat → Known
  | 0 => known.map fun v => some (v.getD .null)
  | levels + 1 =>
    let inner := unfolded looped known levels
    looped.foldl (fun values l =>
      values.setIfInBounds l.1 ((l.2.value? inner.at?).map (.looped l.1))) inner

/-- More levels than a path through a document that is looked at has before it
comes to a collection for the second time. -/
def levelsFor (looped : List (Nat × Part)) : Nat := looped.length + 100

-- ==================================================== texts

/-- The characters a YAML text may have. -/
def isAllowed (c : Char) : Bool :=
  let n := c.toNat
  n == 0x09 || n == 0x0a || n == 0x0d || (0x20 ≤ n && n ≤ 0x7e) || n == 0x85 ||
    (0xa0 ≤ n && n ≤ 0xfffd) || 0x10000 ≤ n

namespace Document

/-- The value of a node. -/
def ofGraph (nodes : Graph) (root : Nat) : Step (Value Broken) := do
  let parts ← Part.ofGraph nodes root
  let known := Known.ofParts parts
  match known.at? root with
  | some v => return v
  | none =>
    let looped := loopedParts parts known
    return ((unfolded looped known (levelsFor looped)).at? root).getD .null

/-- The document of a text; a text without one is null. -/
def ofText (text : List Char) : Step (Value Broken) := do
  if !text.all isAllowed then malformed
  else
    match ← Graph.ofTokens (Token.ofText text) with
    | (none, _) => return .null
    | (some root, nodes) => ofGraph nodes root

end Document

end ApiAuthz.Yaml
