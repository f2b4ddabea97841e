/-
Starter policies for a Cedar schema: one that lets the administrators do
everything, and one that lets a group to be named do each action of a list. The
schema's only namespace and the names of its actions are read from its JSON
text; in a policy a name stands in quotes, with quotes and backslashes escaped.

A name of JSON text may be broken, so names and policies are strings of code
points; where every name is a text, so are the policies.

A schema has to be an object with one member, whose value is an object with an
object of actions (`actionsOf`); everything else in it is passed over. A text that
is no JSON and a document of another shape are reported, and an integer with too
many digits is the one fault of reading that is not (`readJson`). A schema with no
actions has a policy with an empty list.
-/
import ApiAuthz.Fault
import ApiAuthz.Json.Reader

namespace ApiAuthz.Policy

open Text (points)

/-- The group that may do everything. -/
def adminGroup : String := "admin"

/-- Stands in a policy where the name of a group is to be filled in. -/
def placeholderGroup : String := "ENTER_THE_USER_GROUP_HERE"

-- ==================================================== reading schemas

/-- The value of a schema's JSON text. -/
def readJson (text : String) : Attempt (Value Broken) :=
  match Json.read text.toList with
  | .ok v => .ok v
  | .error (.unmet e rest) =>
    Fault.report (.schemaNotJson e.message (Json.lineOf text.toList rest))
  | .error (.tooManyDigits n) => .error (.malformed (DigitLimit.unreadWords n))

/-- The only namespace of a schema and the names of its actions. -/
def actionsOf (schema : Value Broken) : Attempt (List CodePoint × List (List CodePoint)) :=
  match schema with
  | .map [(name, body)] =>
    match body.field "actions" with
    | .map actions => .ok (name.points, (Members.keys actions).map Scalar.points)
    | _ => Fault.report (.schemaWithoutActions name)
  | .map ms => Fault.report (.schemaNamespaces (Members.keys ms))
  | _ => Fault.report .schemaNotObject

/-- The namespace and the actions of a schema's text. -/
def readActions (text : String) : Attempt (List CodePoint × List (List CodePoint)) := do
  actionsOf (← readJson text)

-- ==================================================== writing policies

/-- A code point of a name between quotes. -/
def escapedPoint (p : CodePoint) : List CodePoint :=
  if p = .char '\\' ∨ p = .char '"' then [.char '\\', p] else [p]

/-- The entity of an action. -/
def actionEntity (namespaceName action : List CodePoint) : List CodePoint :=
  namespaceName ++ points "::Action::\"" ++ action.flatMap escapedPoint ++ points "\""

/-- The policy of the administrators. -/
def adminPolicy (namespaceName : List CodePoint) : List CodePoint :=
  points "// Allows admin usergroup access to everything\n" ++
  points "permit (\n" ++
  points "    principal in " ++ namespaceName ++
    points ("::UserGroup::\"" ++ adminGroup ++ "\",\n") ++
  points "    action,\n" ++
  points "    resource\n" ++
  points ");\n"

/-- The policy of the group to be named. -/
def groupPolicy (namespaceName : List CodePoint) (actions : List (List CodePoint)) :
    List CodePoint :=
  points "// Allows more granular user group control, change actions as needed\n" ++
  points "permit (\n" ++
  points "    principal in " ++ namespaceName ++
    points ("::UserGroup::\"" ++ placeholderGroup ++ "\",\n") ++
  points "    action in [\n" ++
  (points ",\n").intercalate
    (actions.map fun a => points "        " ++ actionEntity namespaceName a) ++ points "\n" ++
  points "    ],\n" ++
  points "    resource\n" ++
  points ");\n"

/-- Both policies for a schema's text. -/
def forSchema (text : String) : Attempt (List (List CodePoint)) := do
  let (name, actions) ← readActions text
  return [adminPolicy name, groupPolicy name actions]

end ApiAuthz.Policy
