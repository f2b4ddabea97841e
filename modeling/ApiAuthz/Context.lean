/-
The context of an action, from the parameters of its operation. Path and query
parameters become attributes of one record each; other locations are left out.
A later parameter of the same name and location replaces an earlier one and
keeps its place, so the parameters of a path item come before those of an
operation.
-/
import ApiAuthz.SchemaNode

namespace ApiAuthz

/-- What a request brings along, as two records. -/
structure Context where
  path : Members Attribute
  query : Members Attribute

/-- The locations whose parameters are part of the context. -/
inductive Location where
  | path
  | query
  deriving DecidableEq

namespace Location

/-- The location that a key names, if it is one that a context has. -/
def ofKey? : Scalar → Option Location
  | .text "path" => some .path
  | .text "query" => some .query
  | _ => none

end Location

namespace Context

/-- The context of an operation without parameters. -/
def empty : Context := ⟨[], []⟩

/-- The attributes at a location. -/
def at? (c : Context) : Location → Members Attribute
  | .path => c.path
  | .query => c.query

/-- Puts an attribute at a location. -/
def put (location : Location) (name : Scalar) (a : Attribute) (c : Context) : Context :=
  match location with
  | .path => { c with path := Members.put name a c.path }
  | .query => { c with query := Members.put name a c.query }

/-- One of the two records as a value. -/
def groupValue (attributes : Members Attribute) : Value :=
  .object [("type", .text "Record"),
    ("attributes", .map (attributes.map fun a => (a.1, a.2.toValue)))]

/-- The form of a context in a schema: a record of two records. -/
def toValue (c : Context) : Value :=
  .object [("type", .text "Record"),
    ("attributes", .object
      [("pathParameters", groupValue c.path), ("queryStringParameters", groupValue c.query)])]

/-- The fields a parameter needs, in the order in which they are reported. -/
def requiredFields : List String := ["name", "in", "schema"]

/-- Adds one parameter. -/
def addParameter (converter : Converter) (c : Context) (parameter : Value) : Attempt Context :=
  if !parameter.isMap then Fault.report (.notParameter parameter)
  else
    match parameter.field? "$ref" with
    | some ref => Fault.report (.parameterRef ref)
    | none =>
      let missing := requiredFields.filter fun f => (parameter.field f).isBlank
      if !missing.isEmpty then
        Fault.report (.incompleteParameter (parameter.field? "name") missing)
      else
        match (parameter.field "in").key? with
        | none => Fault.wrongKind
        | some place =>
          match Location.ofKey? place with
          | none => .ok c
          | some location => do
            let name := parameter.field "name"
            let type ← converter.convertTop name (parameter.field "schema")
            match name.key? with
            | none => Fault.wrongKind
            | some key => return c.put location key ⟨type, (parameter.field "required").truthy⟩

/-- The context of parameters, taken in order. -/
def ofParameters (converter : Converter) (parameters : List Value) : Attempt Context :=
  parameters.foldlM (addParameter converter) empty

/-- The items of a list that may be absent or empty in any way. -/
def listed (v : Value) : Attempt (List Value) :=
  if !v.truthy then .ok []
  else
    match v.elements? with
    | some vs => .ok vs
    | none => Fault.wrongKind

/-- The context of parameters given as a value. -/
def ofValue (converter : Converter) (parameters : Value) : Attempt Context := do
  ofParameters converter (← listed parameters)

end Context

end ApiAuthz
