/-
The part of an API description that the mapping reads: the paths, the URLs of
the servers and the component schemas. `ofValue` takes it from a document and
checks its shape; servers are checked one by one, then paths and schemas
together, so that all their problems are listed.

Servers and components may be left out, and any empty value counts as that; paths
may be left out or null, which is then for the mapping to refuse. An entry of the
server list is a URL, or a mapping that has one (`serverUrl`).

The keys of paths and schemas are texts. Octets count as the text they encode, so
two different keys may be one name; the later one then takes the place of the
earlier one (`textMapping`). Every key that is no text is a problem with a location
of its own, in which numbers stand as such, and other keys by their text
(`keyLocation`). What stands under the keys is not checked: path items and schemas
are any value.
-/
import ApiAuthz.Fault
import ApiAuthz.Text.Utf8

namespace ApiAuthz

/-- The parts of a description that a schema is made of: paths, the URLs of servers and component
schemas. -/
structure ApiDocument where
  /-- Absent and null are the same. -/
  paths : Option (List (String × Value))
  servers : List String
  schemas : List (String × Value)

/-- The text a scalar is taken for where text is required: octets count as the
text they encode. -/
def Scalar.asText : Scalar → Except ProblemKind String
  | .text s => .ok s
  | .octets b =>
    match Text.Utf8.decode b with
    | .ok cs => .ok (String.ofList cs)
    | .error _ => .error .undecodableText
  | _ => .error .notText

/-- The text a value is taken for where text is required. -/
def Value.asText : Value → Except ProblemKind String
  | .scalar s => s.asText
  | _ => .error .notText

namespace Problem

/-- How a key is named in a location: numbers as such, other keys by their text, if
they have one. -/
def keyLocation : Scalar → Scalar
  | .text s => .text s
  | .bool b => .int (if b then 1 else 0)
  | .int n =>
    if -0x8000000000000000 ≤ n ∧ n < 0x8000000000000000 then .int n
    else if DigitLimit.isShown n then .text (toString n)
    else .text "<unprintable int object>"
  | k => .text k.literal

/-- Members under text keys; a key that is no text is a problem of its own. -/
def textMembers (field : String) : Members Value → Except (List Problem) (List (String × Value))
  | [] => .ok []
  | (k, v) :: ms =>
    match k.asText, textMembers field ms with
    | .ok s, .ok rest => .ok ((s, v) :: rest)
    | .ok _, .error ps => .error ps
    | .error kind, rest =>
      let p : Problem := ⟨[.text field, keyLocation k, .text "[key]"], kind⟩
      .error (p :: (match rest with | .ok _ => [] | .error ps => ps))

/-- Puts a value under a name, in the place that the name already has, if any. -/
def putNamed (name : String) (value : Value) : List (String × Value) → List (String × Value)
  | [] => [(name, value)]
  | m :: ms => if m.1 = name then (name, value) :: ms else m :: putNamed name value ms

/-- A mapping with text keys. Octets and text may be the same name. -/
def textMapping (field : String) (v : Value) : Except (List Problem) (List (String × Value)) :=
  match v.members? with
  | some ms => (textMembers field ms).map fun named =>
    named.foldl (fun acc m => putNamed m.1 m.2 acc) []
  | none => .error [⟨[.text field], .notMapping⟩]

end Problem

namespace ApiDocument

/-- The URL of one entry of the server list: a text, or a mapping with a `url`. -/
def serverUrl (entry : Value) : Attempt String :=
  match entry.body with
  | .scalar (.text url) => .ok url
  | .map ms =>
    if ms.all fun m => (Value.scalar m.1).text?.isSome then
      match entry.field? "url" with
      | none => .error (.invalid [⟨[.text "url"], .missing⟩])
      | some url =>
        match url.asText with
        | .ok s => .ok s
        | .error kind => .error (.invalid [⟨[.text "url"], kind⟩])
    else Fault.wrongKind
  | _ => Fault.wrongKind

/-- The servers of a document; any empty value counts as none. -/
def serverUrls (doc : Value) : Attempt (List String) :=
  let servers := doc.field "servers"
  if !servers.truthy then .ok []
  else
    match servers.elements? with
    | some entries => entries.mapM serverUrl
    | none => Fault.wrongKind

/-- The component schemas of a document; any empty value counts as none. -/
def schemasOf (doc : Value) : Attempt Value :=
  let components := doc.field "components"
  if !components.truthy then .ok (.map [])
  else if !components.isMap then Fault.noSuchPart
  else
    let schemas := components.field "schemas"
    .ok (if schemas.truthy then schemas else .map [])

/-- Paths and schemas checked together. -/
def check (paths : Value) (servers : List String) (schemas : Value) : Attempt ApiDocument :=
  let paths? : Except (List Problem) (Option (List (String × Value))) :=
    match paths with
    | .null => .ok none
    | v => (Problem.textMapping "paths" v).map some
  match paths?, Problem.textMapping "schemas" schemas with
  | .ok paths, .ok schemas => .ok ⟨paths, servers, schemas⟩
  | .error ps, .ok _ => .error (.invalid ps)
  | .ok _, .error qs => .error (.invalid qs)
  | .error ps, .error qs => .error (.invalid (ps ++ qs))

/-- The API description in a document. -/
def ofValue (doc : Value) : Attempt ApiDocument :=
  if !doc.isMap then Fault.noSuchPart
  else do
    let servers ← serverUrls doc
    let schemas ← schemasOf doc
    check (doc.field "paths") servers schemas

end ApiDocument

end ApiAuthz
