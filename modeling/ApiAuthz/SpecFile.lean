/-
API descriptions in files. JSON is read as the YAML it is part of. A file that
holds no mapping is refused; one in the older description format is read, with a
warning that names its version.

A file gives the document that its text denotes, broken strings included. The
description is made of the texts nearest to them.
-/
import ApiAuthz.ApiDocument
import ApiAuthz.FileTree
import ApiAuthz.Log
import ApiAuthz.Yaml.Document

namespace ApiAuthz.SpecFile

/-- Where lines of log about descriptions come from. -/
def logSource : String := "cedar_openapi.parser.openapi"

/-- The warning about a description in the older format. -/
def olderFormat (path : FilePath) (version : Value Broken) : LogLine :=
  .about .warning logSource (path.text ++ " is a Swagger ") version
    " document; servers and components.schemas are only read from OpenAPI 3"

/-- The YAML document of a file's text. -/
def parse (path : FilePath) (text : List Char) : Attempt (Value Broken) :=
  match Yaml.Document.ofText text with
  | .ok v => .ok v
  | .error .malformed =>
    .error (.malformed (path.text ++ " is not valid JSON or YAML: " ++ yamlDiagnosis))
  | .error (.unreadable diagnosis) => .error (.malformed diagnosis)
  | .error (.misused how) => .error (.misused how)

/-- A document that is a mapping. -/
def checked (path : FilePath) (v : Value Broken) : Attempt (Value Broken) :=
  if v.isMap then .ok v
  else .error (.malformed (path.text ++ " does not contain an OpenAPI document"))

/-- The warning that a document asks for, if it is in the older format. -/
def warnings (path : FilePath) (doc : Value Broken) : List LogLine :=
  match doc.field? "swagger" with
  | some version => [olderFormat path version]
  | none => []

/-- The document in a file. -/
def load (t : FileTree) (path : FilePath) : Logged (Value Broken) :=
  let outcome : Attempt (Value Broken) := do checked path (← parse path (← t.readText path))
  match outcome with
  | .ok v => ⟨warnings path v, .ok v⟩
  | .error f => ⟨[], .error f⟩

/-- The API description in a file. -/
def describe (t : FileTree) (path : FilePath) : Logged ApiDocument :=
  (load t path).andThen fun v => .silent (ApiDocument.ofValue v.nearest)

end ApiAuthz.SpecFile
