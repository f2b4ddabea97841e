/-
Actions: what a principal may do to a resource, one per operation of the API.
The name is the operation's own, or its verb and path template; the resource
types are those of its `x-cedar` extension, or the application as a whole. An
action also knows the request it stands for.
-/
import ApiAuthz.Context
import ApiAuthz.Progress
import ApiAuthz.UrlPath

namespace ApiAuthz

/-- An operation as an action of the schema: what it is called, what a request brings along, what it
applies to, and where it was found. -/
structure Action where
  /-- Any value until it is entered into a schema, where it has to be a key. -/
  name : Value
  context : Context
  resourceTypes : List String
  /-- A text in every path item. -/
  verb : Value
  pathTemplate : String

namespace Action

/-- Every action is for users. -/
def principalTypes : List String := ["User"]

/-- What an action applies to if its operation does not say. -/
def defaultResourceTypes : List String := ["Application"]

/-- The form of an action in a schema without annotations. -/
def definition (a : Action) : Value :=
  .object [("appliesTo", .object
    [("context", a.context.toValue),
     ("principalTypes", .texts principalTypes),
     ("resourceTypes", .texts a.resourceTypes)])]

/-- The request that the action stands for. -/
def annotations (a : Action) : Value :=
  .object [("httpVerb", a.verb), ("httpPathTemplate", .text a.pathTemplate)]

/-- Texts that are not empty, at least one. -/
def resourceTypeNames? (types : Value) : Option (List String) :=
  match types.body with
  | .list [] => none
  | .list items => items.mapM fun v => v.text?.bind fun s => if s = "" then none else some s
  | _ => none

/-- The resource types of an operation whose action has this name. -/
def resourceTypesOf (operation name : Value) : Attempt (List String) :=
  if !operation.isMap then Fault.noSuchPart
  else
    let extension := operation.field "x-cedar"
    if extension.isNull then .ok defaultResourceTypes
    else if !extension.isMap then Fault.report (.extensionNotObject name extension)
    else
      match extension.field? "appliesToResourceTypes" with
      | none => .ok defaultResourceTypes
      | some types =>
        match resourceTypeNames? types with
        | some names => .ok names
        | none => Fault.report (.malformedResourceTypes name types)

/-- The name of an operation, or one made of its verb and path. -/
def nameOf (verb path operation : Value) : Value :=
  let id := operation.field "operationId"
  if id.truthy then id else .text (verb.display ++ " " ++ path.display)

/-- The action of one operation. The parameters of the path item come first. -/
def ofOperation (c : Converter) (verb path operation base pathParameters : Value) :
    Attempt Action :=
  if !operation.isMap then Fault.noSuchPart
  else do
    let name := nameOf verb path operation
    let inherited ← Context.listed pathParameters
    let own ← Context.listed (operation.field "parameters")
    let context ← Context.ofParameters c (inherited ++ own)
    let resourceTypes ← resourceTypesOf operation name
    let pathTemplate ← UrlPath.joinValues base path
    return { name, context, resourceTypes, verb, pathTemplate }

-- ==================================================== path items

/-- The verbs that operations are mapped for. -/
def verbs : List String := ["get", "post", "put", "patch", "delete"]

/-- A path item with this key has its verbs taken in the fixed order. -/
def anyMethodKey : String := "x-amazon-apigateway-any-method"

/-- The verbs of a path item in the order in which they are mapped. -/
def verbsOf (item : Members Value) : List String :=
  if Members.contains (.text anyMethodKey) item then verbs
  else
    (Members.keys item).filterMap fun k =>
      match k with
      | .text s => if verbs.contains s then some s else none
      | _ => none

/-- The action of one verb of a path item, if it has a non-empty operation. -/
def ofVerb (c : Converter) (path base item : Value) (verb : String) : Progress Action :=
  let operation := item.field verb
  if !operation.truthy then .complete []
  else if !operation.isMap then .ofAttempt (Fault.report (.notOperation verb path))
  else .ofAttempt (ofOperation c (.text verb) path operation base (item.field "parameters"))

/-- The actions of a path item, up to the first operation that cannot be mapped. -/
def ofPathItem (c : Converter) (path base item : Value) : Progress Action :=
  match item.members? with
  | some ms => .through (ofVerb c path base item) (verbsOf ms)
  | none => .complete []

end Action

end ApiAuthz
