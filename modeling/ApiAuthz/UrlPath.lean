/-
URL paths. The segments of a path are what stands between its slashes, blanks
around it taken off, nothing left out but empty segments; the sanitized path is
a slash and the segments with one slash between them. Path templates are joined
to a base path, which counts as nothing when it is a slash alone.
-/
import ApiAuthz.Fault
import ApiAuthz.Text.Classes

namespace ApiAuthz.UrlPath

/-- The parts of a path that are not blank. -/
def segments (path : List Char) : List (List Char) :=
  ((List.splitOn '/' path).map Text.strip).filter fun s => !s.isEmpty

/-- One leading slash, no empty segment, no slash at the end. -/
def sanitize (path : String) : String :=
  String.ofList ('/' :: ['/'].intercalate (segments path.toList))

/-- The template with a slash in front. -/
def rooted (template : List Char) : List Char :=
  match template with
  | '/' :: _ => template
  | _ => '/' :: template

/-- The template below a base path. -/
def join (base template : String) : String :=
  String.ofList (Text.stripRight (· == '/') base.toList ++ rooted template.toList)

/-- A path given as a value has to be text. -/
def sanitizeValue (v : Value) : Attempt String :=
  match v.text? with
  | some s => .ok (sanitize s)
  | none => Fault.noSuchPart

/-- A base path and a template given as values have to be text. -/
def joinValues (base template : Value) : Attempt String :=
  match base.text?, template.text? with
  | some b, some t => .ok (join b t)
  | _, _ => Fault.noSuchPart

end ApiAuthz.UrlPath
