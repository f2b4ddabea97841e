/-
A schema in the making and its last projection, side by side. A projection is a
copy of the schema but for one thing: the values among the annotations of an
action are taken over as they are, so what is changed inside one of them on one
side is changed on the other. A `Link` keeps the two places of such a value until
another value is put in one of them.
-/
import ApiAuthz.Draft

namespace ApiAuthz

-- ==================================================== ways

namespace Value

/-- A way of keys into a document by the keys and positions it leads through. -/
def wayOf : List Value → Value → Attempt (List Scalar)
  | [], _ => .ok []
  | k :: ks, target =>
    match target with
    | .map ms =>
      match k.key? with
      | none => Fault.wrongKind
      | some key => do
        let inner := (Members.find? key ms).getD .null
        return key :: (← wayOf ks inner)
    | .list items => do
      let i ← position items.length k
      return .int i :: (← wayOf ks (items[i]?.getD .null))
    | _ => Fault.wrongKind

/-- What stands at the end of a way. -/
def follow : List Scalar → Value → Option Value
  | [], v => some v
  | k :: ks, .map ms => (Members.find? k ms).bind (follow ks)
  | .int i :: ks, .list items => (items[i.toNat]?).bind (follow ks)
  | _, _ => none

end Value

/-- The first way is the start of the second, or all of it. -/
def isAlong : List Scalar → List Scalar → Bool
  | [], _ => true
  | _ :: _, [] => false
  | a :: as, b :: bs => a.same b && isAlong as bs

-- ==================================================== links

/-- The two documents that can be changed. -/
inductive Side where
  | schema
  | projection
  deriving DecidableEq

/-- The places of a value that stands on both sides. -/
structure Link where
  inSchema : List Scalar
  inProjection : List Scalar

namespace Link

/-- The place on one side. -/
def on (l : Link) : Side → List Scalar
  | .schema => l.inSchema
  | .projection => l.inProjection

/-- The place on the other side. -/
def across (l : Link) : Side → List Scalar
  | .schema => l.inProjection
  | .projection => l.inSchema

/-- The links of the annotations of one action: by their keys, or by their
positions in a list of pairs, of which the last with a key counts. -/
def ofAction (namespaceName : Scalar) (action : Scalar × Value) : List Link :=
  let atKey (inside : List Scalar) (key : Scalar) : Link :=
    ⟨.text "action_annotations" :: action.1 :: inside,
      [namespaceName, .text "actions", action.1, .text "annotations", key]⟩
  match action.2 with
  | .map ms => ms.map fun m => atKey [m.1] m.1
  | .list items =>
    let pairs := items.zipIdx.filterMap fun p =>
      match p.1 with
      | .list [.scalar key, _] => some (key, atKey [.int p.2, .int 1] key)
      | _ => none
    (Members.ofEntries pairs).map Prod.snd
  | _ => []

/-- The links between a draft and a projection of it with annotations. -/
def ofDraft (d : Draft) : List Link :=
  match d.namespaceName.key?, d.actionAnnotations.members? with
  | some name, some recorded => recorded.flatMap (ofAction name)
  | _, _ => []

end Link

-- ==================================================== the workbench

/-- A schema beside its last projection, and what the two have in common. -/
structure Workbench where
  /-- The draft as a mapping of its parts. -/
  schema : Value
  /-- Null before there is a projection. -/
  projection : Value
  links : List Link

namespace Workbench

/-- A schema that has not been projected. -/
def start (d : Draft) : Workbench := ⟨d.toValue, .null, []⟩

/-- The document of a side. -/
def document (b : Workbench) : Side → Value
  | .schema => b.schema
  | .projection => b.projection

/-- Another document on a side. -/
def withDocument (b : Workbench) (v : Value) : Side → Workbench
  | .schema => { b with schema := v }
  | .projection => { b with projection := v }

/-- The side across. -/
def other : Side → Side
  | .schema => .projection
  | .projection => .schema

/-- Replaces the last projection. -/
def project (b : Workbench) (annotations : Value) : Attempt Workbench := do
  let d := Draft.ofParts b.schema
  let v ← d.project annotations
  return { b with projection := v, links := if annotations.isNull then [] else Link.ofDraft d }

/-- Takes a changed value over to the other side. -/
def carry (side : Side) (b : Workbench) (l : Link) : Workbench :=
  match (b.document side).follow (l.on side) with
  | none => b
  | some v =>
    match Value.assign v ((l.across side).map .scalar) (b.document (other side)) with
    | .ok w => b.withDocument w (other side)
    | .error _ => b

/-- Puts a value at the end of a way on one side. -/
def assign (b : Workbench) (side : Side) (keys : List Value) (value : Value) :
    Attempt Workbench := do
  let target := b.document side
  let v ← Value.assign value keys target
  let way ← Value.wayOf keys target
  let links := b.links.filter fun l => !isAlong way (l.on side)
  let inside := links.filter fun l => isAlong (l.on side) way
  return inside.foldl (carry side) { b.withDocument v side with links }

end Workbench

end ApiAuthz
