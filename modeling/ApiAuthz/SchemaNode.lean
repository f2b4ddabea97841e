/-
From schema objects to Cedar types. A `$ref` to a component becomes a reference
to the type of that name and is never followed, an object becomes a record, an
array a set, and the primitive types their Cedar counterparts. Whatever else a
node is, is reported.

A `Converter` fixes which components may be referred to and how deep nodes may
nest. The depth of a node is compared with the limit before anything else is
asked of it, so no part of a node below the limit is looked at. Depth and limit
are values, usually integers; doubles are rounded as the depth grows.

A node is asked in a fixed order: its depth, whether it is a mapping, a reference,
then the type. A node without a type is reported with its keys in order, so the keys
have to be comparable (`untyped`). Beside a reference, a type and what the type asks
for nothing is read, so combinations of schemas that stand beside a type are passed
over, and reported only where there is no type. An object without properties, or with
an empty value in their place, is an empty record.

The name of a node is for reports. A property is reported under its own name, the
items of an array under that of the array (`convertBelow`, `convertAt`).
-/
import ApiAuthz.CedarType
import ApiAuthz.Fault
import ApiAuthz.KeyOrder
import ApiAuthz.Value.Order

namespace ApiAuthz

/-- What references may name, if that is limited, and the deepest level. -/
structure Converter where
  names : Option (List Scalar)
  limit : Value

namespace Converter

/-- How deep nodes may be nested if nothing else is asked for. -/
def defaultLimit : Value := .int 32

/-- A converter for documents with these components. -/
def forSchemas (names : List String) : Converter :=
  ⟨some (names.map .text), defaultLimit⟩

/-- A converter for component names and a limit given as values: the names are
what a collection iterates over, and have to be keys. -/
def ofValues (names limit : Value) : Attempt Converter :=
  match names with
  | .null => .ok ⟨none, limit⟩
  | _ =>
    match names.elements? with
    | none => Fault.wrongKind
    | some vs =>
      match vs.mapM Value.key? with
      | none => Fault.wrongKind
      | some keys => .ok ⟨some keys, limit⟩

-- ==================================================== references

/-- What every reference to a component starts with. -/
def componentStart : List Char := "#/components/schemas/".toList

/-- The component a reference names: whatever follows, unless it is empty or
has a slash. -/
def component? (ref : String) : Option String :=
  let cs := ref.toList
  let name := cs.drop componentStart.length
  if componentStart.isPrefixOf cs && !name.isEmpty && !name.contains '/' then
    some (String.ofList name)
  else none

/-- The target of a `$ref` on the node of a name. -/
def target (c : Converter) (name ref : Value) : Attempt String :=
  match ref.text? with
  | none => Fault.report (.foreignRef name ref)
  | some text =>
    match component? text with
    | none => Fault.report (.foreignRef name ref)
    | some t =>
      match c.names with
      | none => .ok t
      | some names =>
        if names.contains (.text t) then .ok t else Fault.report (.danglingRef name text)

-- ==================================================== nodes

/-- Both kinds of number are integers in Cedar. -/
def primitive? : String → Option CedarType
  | "string" => some .text
  | "number" => some .long
  | "integer" => some .long
  | "boolean" => some .boolean
  | _ => none

/-- What is wrong with a node that has no type. The name is looked at before the
keys are. -/
def untyped (name : Value) (keys : List Scalar) : Attempt CedarType :=
  if !name.isShown then .error .unshown
  else
    match Scalar.sorted? keys with
    | some keys => Fault.report (.untypedSchema name keys)
    | none => Fault.wrongKind

/-- The type of a node whose type name is neither `object` nor `array`. -/
def primitive (name type : Value) : Attempt CedarType :=
  match type.text?.bind primitive? with
  | some t => .ok t
  | none => Fault.report (.unsupportedType name type)

mutual

/-- Converts a node that stands at a depth; the name is for reports. -/
def convertAt (c : Converter) (depth name node : Value) : Attempt CedarType :=
  match depth.above? c.limit with
  | none => Fault.wrongKind
  | some true => Fault.report (.depthExceeded name c.limit)
  | some false =>
    match _ : node.members? with
    | none => Fault.report (.notSchemaObject name)
    | some ms =>
      match Members.find? (.text "$ref") ms with
      | some ref => return .named (← c.target name ref)
      | none =>
        match (Members.find? (.text "type") ms).getD .null with
        | .null => untyped name (Members.keys ms)
        | .text "object" =>
          match _ : Members.find? (.text "properties") ms with
          | none => .ok .emptyRecord
          | some properties =>
            if !properties.truthy then .ok .emptyRecord
            else
              match _ : properties.members? with
              | none => Fault.noSuchPart
              | some ps => return .record (← convertBelow c depth ps)
        | .text "array" =>
          match _ : Members.find? (.text "items") ms with
          | none => Fault.report (.missingItems name)
          | some element =>
            if element.isNull then Fault.report (.missingItems name)
            else
              match depth.successor? with
              | none => Fault.wrongKind
              | some next => return .set (← convertAt c next name element)
        | type => primitive name type
termination_by sizeOf node
decreasing_by
  · have := Value.sizeOf_lt_of_members? ‹node.members? = some ms›
    have := Value.sizeOf_lt_of_find? ‹Members.find? _ ms = some properties›
    have := Value.sizeOf_lt_of_members? ‹properties.members? = some ps›
    omega
  · have := Value.sizeOf_lt_of_members? ‹node.members? = some ms›
    have := Value.sizeOf_lt_of_find? ‹Members.find? _ ms = some element›
    omega

/-- Converts the properties of a node that stands at a depth. -/
def convertBelow (c : Converter) (depth : Value) (properties : Members Value) :
    Attempt (Members CedarType) :=
  match properties with
  | [] => .ok []
  | (k, v) :: ps =>
    match depth.successor? with
    | none => Fault.wrongKind
    | some next => do
      let t ← convertAt c next (.scalar k) v
      return (k, t) :: (← convertBelow c depth ps)
termination_by sizeOf properties

end

/-- Converts a node at the top. -/
def convertTop (c : Converter) (name node : Value) : Attempt CedarType :=
  c.convertAt (.int 0) name node

/-- The types of named components, in order. -/
def commonTypes (c : Converter) (schemas : Members Value) : Attempt (Members CedarType) :=
  schemas.mapM fun s => do return (s.1, ← c.convertTop (.scalar s.1) s.2)

end Converter

end ApiAuthz
