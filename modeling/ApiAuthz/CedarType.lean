/-
Types of a Cedar schema: text, integers, truth values, references to a type by
its name, sets, and records with ordered attributes. `CedarType.toValue` is the
form a type has in a schema document.
-/
import ApiAuthz.Value

namespace ApiAuthz

/-- A type of Cedar, by its kind. -/
inductive CedarType where
  | text
  | long
  | boolean
  | named (target : String)
  | set (element : CedarType)
  | record (attributes : List (Scalar × CedarType))

namespace CedarType

/-- The record without attributes. -/
def emptyRecord : CedarType := .record []

mutual

/-- The members of a type's form in a schema. -/
def toMembers : CedarType → List (String × Value)
  | .text => [("type", .text "String")]
  | .long => [("type", .text "Long")]
  | .boolean => [("type", .text "Boolean")]
  | .named target => [("type", .text target)]
  | .set element => [("type", .text "Set"), ("element", .object (toMembers element))]
  | .record attributes =>
    [("type", .text "Record"), ("attributes", .map (attributeValues attributes))]

/-- Attributes by their names, in order. -/
def attributeValues : List (Scalar × CedarType) → List (Scalar × Value)
  | [] => []
  | (name, type) :: rest => (name, .object (toMembers type)) :: attributeValues rest

end

/-- The form of a type in a schema. -/
def toValue (t : CedarType) : Value := .object t.toMembers

theorem attributeValues_eq_map (attributes : Members CedarType) :
    attributeValues attributes = attributes.map fun a => (a.1, a.2.toValue) := by
  induction attributes with
  | nil => rw [attributeValues, List.map_nil]
  | cons a attributes ih => rw [attributeValues, ih, List.map_cons, toValue]

end CedarType

/-- An attribute of a record, which may be required. -/
structure Attribute where
  type : CedarType
  required : Bool

namespace Attribute

/-- The mark of a required attribute is the last member of its type. -/
def toValue (a : Attribute) : Value :=
  .object (a.type.toMembers ++ if a.required then [("required", .bool true)] else [])

end Attribute

end ApiAuthz
