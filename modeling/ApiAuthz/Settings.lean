/-
Settings of the generator, from a YAML file and from overrides. A file's values
are checked, all of them before any is reported; overrides are taken as they
are, and null overrides nothing.
-/
import ApiAuthz.ApiDocument
import ApiAuthz.FileTree
import ApiAuthz.Generated
import ApiAuthz.Yaml.Document

namespace ApiAuthz

/-- Where the schema files go: a path, or an override that is none. -/
inductive Destination where
  | path (p : FilePath)
  | unchecked (v : Value)

/-- The settings of a run, checked when they are read and no more when they are overridden. -/
structure Settings where
  namespaceName : Value
  mappingType : Value
  basePath : Value
  destination : Destination

namespace Settings

/-- The settings where a file says nothing. -/
def default : Settings := ⟨.null, .text Generated.simpleRest, .null, .path .here⟩

-- ==================================================== from files

/-- A text or null. -/
def textOrNull (name : String) (v : Value) : Except Problem Value :=
  match v with
  | .null => .ok .null
  | _ =>
    match v.asText with
    | .ok s => .ok (.text s)
    | .error kind => .error ⟨[.text name], kind⟩

/-- The mapping type; a setting that is absent has its default, but null has not. -/
def mappingTypeOf : Option Value → Except Problem Value
  | none => .ok default.mappingType
  | some (.scalar (.text t)) =>
    if t = Generated.simpleRest then .ok (.text t)
    else .error ⟨[.text "mapping_type"], .notLiteral⟩
  | some _ => .error ⟨[.text "mapping_type"], .notLiteral⟩

/-- The destination that a file gives. -/
def destinationOf : Option Value → Except Problem Destination
  | none => .ok default.destination
  | some (.scalar (.text s)) => .ok (.path (.ofString s))
  | some _ => .error ⟨[.text "output_dir"], .notPath⟩

/-- The problem of a setting, if it has one. -/
def problemOf {α : Type} : Except Problem α → List Problem
  | .ok _ => []
  | .error p => [p]

/-- The settings in a mapping; other members are left alone. -/
def ofMembers (doc : Value) : Except (List Problem) Settings :=
  let namespaceName := textOrNull "namespace" (doc.field "namespace")
  let mappingType := mappingTypeOf (doc.field? "mapping_type")
  let basePath := textOrNull "base_path" (doc.field "base_path")
  let destination := destinationOf (doc.field? "output_dir")
  match namespaceName, mappingType, basePath, destination with
  | .ok n, .ok m, .ok b, .ok d => .ok ⟨n, m, b, d⟩
  | _, _, _, _ =>
    .error (problemOf namespaceName ++ problemOf mappingType ++ problemOf basePath ++
      problemOf destination)

/-- The settings in a document; an empty one has the defaults. -/
def ofDocument (path : FilePath) (doc : Value) : Attempt Settings :=
  match doc.body with
  | .null => .ok default
  | .map ms =>
    if ms.all fun m => (Value.scalar m.1).text?.isSome then
      match ofMembers doc with
      | .ok s => .ok s
      | .error ps => Fault.report (.invalidSettings path.text ps)
    else Fault.wrongKind
  | _ => Fault.report (.settingsNotMapping path.text)

/-- The settings in a text; a broken string counts as the text nearest to it. -/
def ofText (path : FilePath) (text : List Char) : Attempt Settings :=
  match Yaml.Document.ofText text with
  | .ok v => ofDocument path v.nearest
  | .error .malformed => Fault.report (.unreadableSettings path.text yamlDiagnosis)
  | .error (.unreadable diagnosis) => .error (.malformed diagnosis)
  | .error (.misused how) => .error (.misused how)

/-- The settings in a file. -/
def ofFile (t : FileTree) (path : FilePath) : Attempt Settings :=
  match t.readText path with
  | .ok text => ofText path text
  | .error (.file f) => Fault.report (.unreadableSettings path.text (f.text path.text))
  | .error f => .error f

/-- The settings in a file, or the defaults if there is none. -/
def load (t : FileTree) : Option FilePath → Attempt Settings
  | none => .ok default
  | some path => ofFile t path

-- ==================================================== overrides

/-- The override, unless it is absent or null. -/
def override (old : Value) : Option Value → Value
  | none => old
  | some .null => old
  | some v => v

/-- What settings call themselves; no override has this name. -/
def ownName : String := "self"

/-- The settings with overrides by the names of a file's members. -/
def overridden (s : Settings) (overrides : Value) : Settings where
  namespaceName := override s.namespaceName (overrides.field? "namespace")
  mappingType := override s.mappingType (overrides.field? "mapping_type")
  basePath := override s.basePath (overrides.field? "base_path")
  destination :=
    match overrides.field "output_dir" with
    | .null => s.destination
    | v => .unchecked v

/-- The settings with overrides, which have to be a mapping. -/
def merged (s : Settings) (overrides : Value) : Attempt Settings :=
  if overrides.isMap && (overrides.field? ownName).isNone then .ok (s.overridden overrides)
  else Fault.wrongKind

/-- The settings after none, one, two and so on of the overrides. -/
def mergedEach (s : Settings) : List Value → Attempt (List Settings)
  | [] => .ok [s]
  | o :: os => do return s :: (← mergedEach (← s.merged o) os)

end Settings

end ApiAuthz
