/-
Schemas as documents in the making. A `Draft` has the five parts of a schema as
values; `project` puts them together under the namespace, with annotations or
without. The parts are values of their own, so a change to a projection never
reaches the draft.

`Value.assign` changes a document at one place.

# Projections

Without annotations the definitions of actions are taken as they are. With
annotations each is given those that are recorded for it, and the annotations of the
namespace stand behind the other parts (`project`). Annotations may be any value that
a mapping can be made of: one that is a mapping, or a collection of pairs, and for an
item that is no pair there are words of their own (`entriesOf`).

# Any value for any part

A draft need not come from `CedarSchema.build`. Its parts may be given by name, and
then they may be of any kind (`ofFields`), so projecting it has faults that the draft
of a schema never has. A namespace has to be a key, actions have to be a mapping where
they are annotated, and so has each definition.
-/
import ApiAuthz.Fault

namespace ApiAuthz

/-- The parts of a schema as values, which may be changed before they are put together. -/
structure Draft where
  namespaceName : Value
  entityTypes : Value
  actions : Value
  commonTypes : Value
  actionAnnotations : Value

-- ==================================================== projections

namespace Draft

/-- An empty mapping. -/
def emptyMap : Value := .map []

/-- Entries of a mapping given as a list of pairs; `index` counts them. -/
def entriesOf : Nat → Members Value → List Value → Attempt (Members Value)
  | _, acc, [] => .ok acc
  | index, acc, v :: vs =>
    match v.elements? with
    | some [k, x] =>
      match k.key? with
      | some key => entriesOf (index + 1) (Members.put key x acc) vs
      | none => Fault.wrongKind
    | some parts =>
      .error (.malformed ("dictionary update sequence element #" ++ toString index ++
        " has length " ++ toString parts.length ++ "; 2 is required"))
    | none => Fault.wrongKind

/-- The mapping that a value denotes: itself, or the one with its pairs. -/
def mappingOf (v : Value) : Attempt (Members Value) :=
  match v with
  | .map ms => .ok ms
  | _ =>
    match v.elements? with
    | some vs => entriesOf 0 [] vs
    | none => Fault.wrongKind

/-- One action with the annotations recorded for it. -/
def annotate (annotations : Value) (action : Scalar × Value) : Attempt (Scalar × Value) :=
  match annotations with
  | .map recorded =>
    match Members.find? action.1 recorded with
    | none => .error (.misused .missingKey)
    | some own => do
      let own ← mappingOf own
      match action.2 with
      | .map ms => return (action.1, .map (Members.put (.text "annotations") (.map own) ms))
      | _ => Fault.wrongKind
  | _ => Fault.wrongKind

/-- The actions, each annotated if the projection is. -/
def projectedActions (d : Draft) (annotated : Bool) : Attempt Value :=
  if annotated then
    match d.actions with
    | .map as => return .map (← as.mapM (annotate d.actionAnnotations))
    | _ => Fault.noSuchPart
  else .ok d.actions

/-- The annotations of the namespace, if any are given. Null is none. -/
def ownAnnotations (annotations : Value) : Attempt (List (String × Value)) :=
  if annotations.isNull then .ok []
  else do return [("annotations", .map (← mappingOf annotations))]

/-- The schema document: everything under the namespace, with the annotations of
the namespace and of the actions if any are given. -/
def project (d : Draft) (annotations : Value) : Attempt Value := do
  let actions ← d.projectedActions !annotations.isNull
  let own ← ownAnnotations annotations
  let body : List (String × Value) :=
    [("entityTypes", d.entityTypes), ("actions", actions), ("commonTypes", d.commonTypes)] ++ own
  match d.namespaceName.key? with
  | some key => return .map [(key, .object body)]
  | none => Fault.wrongKind

-- ==================================================== parts by name

/-- The names of the parts, in order. -/
def fieldNames : List String :=
  ["namespace", "entity_types", "actions", "common_types", "action_annotations"]

/-- The draft as a mapping of its parts. -/
def toValue (d : Draft) : Value :=
  .object [("namespace", d.namespaceName), ("entity_types", d.entityTypes),
    ("actions", d.actions), ("common_types", d.commonTypes),
    ("action_annotations", d.actionAnnotations)]

/-- The draft whose parts a mapping has; a part that is absent is empty. -/
def ofParts (v : Value) : Draft :=
  let part (name : String) : Value := (v.field? name).getD emptyMap
  ⟨part "namespace", part "entity_types", part "actions", part "common_types",
    part "action_annotations"⟩

/-- The draft with given parts: the namespace is required, others are refused. -/
def ofFields (v : Value) : Attempt Draft :=
  match v with
  | .map ms =>
    let known := ms.all fun m =>
      match m.1 with
      | .text s => fieldNames.contains s
      | _ => false
    if known && (v.field? "namespace").isSome then .ok (ofParts v) else Fault.wrongKind
  | _ => Fault.wrongKind

end Draft

-- ==================================================== changes

namespace Value

/-- The position a value denotes in a list of this length; negative ones count
from the end. -/
def position (length : Nat) (v : Value) : Attempt Nat :=
  let at? (n : Int) : Attempt Nat :=
    let i := if n < 0 then n + length else n
    if 0 ≤ i ∧ i < length then .ok i.toNat else .error (.misused .outOfRange)
  match v with
  | .scalar (.int n) => at? n
  | .scalar (.bool b) => at? (if b then 1 else 0)
  | _ => Fault.wrongKind

/-- Why nothing is put into a text: it is not changed at a position, and a number
of more than 64 bits is no position. -/
def unchangedText {α : Type} (k : Value) : Attempt α :=
  match k with
  | .scalar (.int n) =>
    if -0x8000000000000000 ≤ n ∧ n < 0x8000000000000000 then Fault.wrongKind
    else .error (.misused .outOfRange)
  | _ => Fault.wrongKind

/-- The text of one character of a text. -/
def characterAt (s : String) (position : Nat) : Value :=
  .text (.ofList ((s.toList.drop position).take 1))

/-- The document with a value put at the end of a way of keys. A way may lead into
a text, whose characters are texts themselves, but nothing is put there. -/
def assign (value : Value) : List Value → Value → Attempt Value
  | [], _ => .error (.misused .outOfRange)
  | [k], target =>
    match target with
    | .map ms =>
      match k.key? with
      | some key => .ok (.map (Members.put key value ms))
      | none => Fault.wrongKind
    | .list items => do
      let i ← position items.length k
      return .list (items.set i value)
    | .scalar (.text _) => unchangedText k
    | _ => Fault.wrongKind
  | k :: ks, target =>
    match target with
    | .map ms =>
      match k.key? with
      | none => Fault.wrongKind
      | some key =>
        match Members.find? key ms with
        | none => .error (.misused .missingKey)
        | some inner => do
          let inner ← assign value ks inner
          return .map (Members.put key inner ms)
    | .list items => do
      let i ← position items.length k
      let inner ← assign value ks (items[i]?.getD .null)
      return .list (items.set i inner)
    | .scalar (.text s) => do
      let i ← position s.length k
      assign value ks (characterAt s i)
    | _ => Fault.wrongKind

end Value

end ApiAuthz
