/-
The base path of an API, from the servers it declares. With no server it is
empty; with one it is that server's path; with several the caller chooses one
of their paths. A chosen path has to be the path of a declared server.
-/
import ApiAuthz.Url
import ApiAuthz.UrlPath

namespace ApiAuthz.BasePath

/-- The sanitized path of a server's URL. -/
def ofServer (url : String) : Attempt String := do
  return UrlPath.sanitize (← Url.path url)

/-- A choice has to be the path of a declared server. -/
def checkChoice (servers paths : List String) : Option String → Attempt Unit
  | none => .ok ()
  | some base =>
    if paths.contains (UrlPath.sanitize base) then .ok ()
    else Fault.report (.basePathMismatch base servers)

/-- The base path among the servers' paths. The choice is checked first; then a single server
has its own path, and of several one has to be chosen. -/
def choose (servers paths : List String) (base? : Option String) : Attempt String := do
  checkChoice servers paths base?
  match paths, base? with
  | [path], _ => return path
  | _, none => Fault.report (.ambiguousServers servers)
  | _, some base => return UrlPath.sanitize base

/-- A choice given as a value: null is none, and anything else has to be text. -/
def choiceOf : Value → Attempt (Option String)
  | .null => .ok none
  | .scalar (.text b) => .ok (some b)
  | _ => Fault.noSuchPart

/-- The base path of an API with these servers. Every server is looked at before
the choice is. -/
def resolve (servers : List String) (base : Value) : Attempt String :=
  if servers.isEmpty then .ok ""
  else do
    let paths ← servers.mapM ofServer
    choose servers paths (← choiceOf base)

-- ==================================================== servers as values

/-- A server given as a value has to be text. What is empty or no key is
of the wrong kind, anything else lacks the parts of a URL. -/
def ofServerValue (v : Value) : Attempt String :=
  match v with
  | .scalar (.text url) => ofServer url
  | .scalar s => if (Value.scalar s).truthy then Fault.noSuchPart else Fault.wrongKind
  | _ => Fault.wrongKind

/-- The base path for servers given as a value. -/
def resolveValues (servers base : Value) : Attempt String :=
  if !servers.truthy then .ok ""
  else
    match servers.elements? with
    | none => Fault.wrongKind
    | some urls => do
      let paths ← urls.mapM ofServerValue
      choose (urls.filterMap Value.text?) paths (← choiceOf base)

end ApiAuthz.BasePath
