/-
What is generated for an API: its schema as JSON text in two variants. The one
for Cedar 2 and 3 has no annotations; the one for Cedar 4 has the mapping type
on the namespace and the request on every action.
-/
import ApiAuthz.CedarSchema
import ApiAuthz.Json.Writer

namespace ApiAuthz

/-- What comes of a description: both forms of its schema, and the kind of mapping. -/
structure Generated where
  mappingType : String
  plain : String
  annotated : String

namespace Generated

/-- The only way of mapping there is. -/
def simpleRest : String := "SimpleRest"

/-- A projection of a schema as JSON text with an indentation of two. -/
def textOf (d : Draft) (annotations : Value) : Attempt String := do
  Json.indented 2 (← d.project annotations)

/-- The annotations of the namespace. -/
def namespaceAnnotations (mappingType : Value) : Value :=
  .object [("mappingType", mappingType)]

/-- Both texts of a schema. The mapping type is checked after they are written. -/
def ofSchema (s : CedarSchema) (mappingType : Value) : Attempt Generated := do
  let plain ← textOf s.draft .null
  let annotated ← textOf s.draft (namespaceAnnotations mappingType)
  match mappingType with
  | .scalar (.text t) =>
    if t = simpleRest then return ⟨t, plain, annotated⟩
    else .error (.invalid [⟨[.text "mapping_type"], .notLiteral⟩])
  | _ => .error (.invalid [⟨[.text "mapping_type"], .notLiteral⟩])

/-- What is generated for an API under a namespace. -/
def ofDocument (doc : ApiDocument) (namespaceName mappingType base : Value) : Logged Generated :=
  (CedarSchema.build doc namespaceName base).andThen fun s => .silent (ofSchema s mappingType)

end Generated

end ApiAuthz
