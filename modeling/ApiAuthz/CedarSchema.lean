/-
The Cedar schema of an API. Its entity types are three fixed ones and those that
actions apply to; its actions are those of all operations, a later one of the
same name replacing an earlier one; its common types are the component schemas.

`build` reports the first error of a document: no paths, a bad namespace, no
base path, then the operations in order, then the component schemas in order.
It logs every operation it maps and, at the end, what the schema contains.

# Entity types

The table is made in three steps (`EntityType.table`). The seeds come first. The resource
types of the actions are gone through in order, and the own name of each waits for
an entry unless it has one or waits already (`EntityType.await`). Then the names that
wait are entered one by one, with a component schema of the name for their shape, if
there is one. At last the type of users has its shape replaced by the component
schema of that name.

# Actions

Operations are mapped one after the other up to the first that fails, and those that
were mapped are entered before it is known that one failed (`assemble`): the name of
an action has to be a key, and the first one that is none counts before a later
operation that cannot be mapped. The log has a line for each operation up to either
of them (`mappedLines`).
-/
import ApiAuthz.Action
import ApiAuthz.ApiDocument
import ApiAuthz.BasePath
import ApiAuthz.Draft
import ApiAuthz.Log
import ApiAuthz.Namespace

namespace ApiAuthz

-- ==================================================== entity types

/-- A kind of principals or resources: its attributes, and the types that contain it. -/
structure EntityType where
  shape : CedarType
  /-- None for a type that does not say which types contain it. -/
  memberOf : Option (List String)

namespace EntityType

/-- The definition of an entity type as the schema has it. -/
def toValue (e : EntityType) : Value :=
  .object ([("shape", e.shape.toValue)] ++
    match e.memberOf with
    | some names => [("memberOfTypes", .texts names)]
    | none => [])

/-- The types that every schema has. -/
def seeds : List (String × EntityType) :=
  [("User", ⟨.emptyRecord, some ["UserGroup"]⟩), ("UserGroup", ⟨.emptyRecord, none⟩),
   ("Application", ⟨.emptyRecord, none⟩)]

/-- The type's own name, its namespace taken off. -/
def baseName (resourceType : String) : String :=
  String.ofList ((Namespace.components resourceType.toList).getLast?.getD [])

/-- The names that wait for an entry, after one more resource type: a name that has an entry
already does not wait, and one that waits keeps its place. -/
def await (names : List String) (resourceType : String) : List String :=
  let name := baseName resourceType
  if seeds.any (·.1 == name) || names.contains name then names else names ++ [name]

/-- The names that the resource types of actions make wait for an entry. -/
def pending (actions : List Action) : List String :=
  actions.foldl (fun names a => a.resourceTypes.foldl await names) []

/-- A component schema of the same name is the shape, otherwise it is empty. -/
def shapeOf (schemaNames : List String) (name : String) : CedarType :=
  if schemaNames.contains name then .named name else .emptyRecord

/-- Enters a type under a name that has none yet. -/
def enter (name : String) (e : EntityType) (entries : List (String × EntityType)) :
    List (String × EntityType) :=
  if entries.any (·.1 == name) then entries else entries ++ [(name, e)]

/-- The component schema of a user, if there is one, is the shape of that type. -/
def withUserShape (schemaNames : List String) (entries : List (String × EntityType)) :
    List (String × EntityType) :=
  if schemaNames.contains "User" then
    entries.map fun e => if e.1 = "User" then (e.1, { e.2 with shape := .named "User" }) else e
  else entries

/-- The entity types of a schema: the fixed ones, then those that actions apply to. -/
def table (schemaNames : List String) (actions : List Action) : List (String × EntityType) :=
  let entries := (pending actions).foldl
    (fun entries name => enter name ⟨shapeOf schemaNames name, some []⟩ entries) seeds
  withUserShape schemaNames entries

end EntityType

-- ==================================================== schemas

/-- A schema of one namespace. -/
structure CedarSchema where
  namespaceName : String
  entityTypes : List (String × EntityType)
  actions : Members Action
  commonTypes : Members CedarType

namespace CedarSchema

/-- The schema by its parts. -/
def draft (s : CedarSchema) : Draft where
  namespaceName := .text s.namespaceName
  entityTypes := .object (s.entityTypes.map fun e => (e.1, e.2.toValue))
  actions := .map (s.actions.map fun a => (a.1, a.2.definition))
  commonTypes := .map (s.commonTypes.map fun t => (t.1, t.2.toValue))
  actionAnnotations := .map (s.actions.map fun a => (a.1, a.2.annotations))

/-- The actions of all paths with their paths, up to the first failing operation. -/
def mappedActions (c : Converter) (base : String) (paths : List (String × Value)) :
    Progress (String × Action) :=
  .through (fun p => (Action.ofPathItem c (.text p.1) (.text base) p.2).map fun a => (p.1, a))
    paths

/-- Enters actions by their names; a name has to be a key. -/
def tableOf (actions : List Action) : Attempt (Members Action) :=
  actions.foldlM (fun table a =>
    match a.name.key? with
    | some key => .ok (Members.put key a table)
    | none => Fault.wrongKind) []

/-- The converter for a document's schemas. -/
def converterFor (doc : ApiDocument) : Converter := .forSchemas (doc.schemas.map Prod.fst)

/-- The component schemas as members. -/
def schemaMembers (doc : ApiDocument) : Members Value :=
  doc.schemas.map fun s => (.text s.1, s.2)

/-- The schema of a document whose operations have been mapped. -/
def assemble (doc : ApiDocument) (namespaceName : String) (mapped : Progress Action) :
    Attempt CedarSchema := do
  let actions ← tableOf mapped.done
  let all ← mapped.all
  let commonTypes ← (converterFor doc).commonTypes (schemaMembers doc)
  let entityTypes := EntityType.table (doc.schemas.map Prod.fst) all
  return { namespaceName, entityTypes, actions, commonTypes }

-- ==================================================== with log lines

/-- Where lines of log about schemas come from. -/
def logSource : String := "cedar_openapi.schema.assembler"

/-- The line of log for an action that was mapped. -/
def mappedLine (path : String) (a : Action) : LogLine :=
  .about .debug logSource ("Mapped " ++ a.verb.display ++ " " ++ path ++ " to action ") a.name ""

/-- A line for every operation up to the first whose name is no key. -/
def mappedLines : List (String × Action) → List LogLine
  | [] => []
  | (path, a) :: rest =>
    mappedLine path a :: if a.name.key?.isSome then mappedLines rest else []

/-- The line of log for a whole schema. -/
def summaryLine (s : CedarSchema) : LogLine :=
  ⟨.debug, logSource, some
    ("Namespace " ++ s.namespaceName ++ ": " ++ toString s.actions.length ++ " actions, " ++
      toString s.entityTypes.length ++ " entity types, " ++ toString s.commonTypes.length ++
      " common types")⟩

/-- What a document has to have before its operations are looked at: paths, a
namespace and a base path. -/
def preconditions (doc : ApiDocument) (namespaceName base : Value) :
    Attempt (List (String × Value) × String × String) :=
  match doc.paths with
  | none => Fault.report .missingPaths
  | some paths => do
    let name ← Namespace.ofValue namespaceName
    let base ← BasePath.resolve doc.servers base
    return (paths, name, base)

/-- The schema of a document under a namespace. -/
def build (doc : ApiDocument) (namespaceName base : Value) : Logged CedarSchema :=
  match preconditions doc namespaceName base with
  | .error f => ⟨[], .error f⟩
  | .ok (paths, name, base) =>
    let mapped := mappedActions (converterFor doc) base paths
    let lines := mappedLines mapped.done
    match assemble doc name (mapped.map Prod.snd) with
    | .error f => ⟨lines, .error f⟩
    | .ok schema => ⟨lines ++ [summaryLine schema], .ok schema⟩

end CedarSchema

end ApiAuthz
