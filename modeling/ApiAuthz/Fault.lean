/-
Why a request can fail. A `MappingError` is a cause that the mapping reports,
with the names and values that caused it; its `Report` is the kind of error,
the message and the details shown to the user. A `Fault` is any way to fail:
a reported error, a document that lacks the required shape (a list of
`Problem`s), malformed text, a failing file, or a value used as something it is
not.

# Reports

The message and the details of a cause are made in one place (`MappingError.report`),
so a cause can be told by its constructor and what it holds. A message may show
values of the document, and one that is an integer with too many digits cannot be
shown: then there is no report, and the fault is another one (`Fault.report`).
`MappingError.hasMessage` says when there is one.

# What is not reported

The other faults are those of the language and the libraries that the program is
written with: a key that is missing, a value of the wrong kind, octets that are no
text, a text that has no octets, a file that cannot be opened. Whether they are
reported is for the caller to say, and each command does it in its own way.
-/
import ApiAuthz.Value.Display

namespace ApiAuthz

-- ==================================================== reports

/-- The kinds of error that are reported to the user. -/
inductive ErrorKind where
  | general
  | missingInput
  | missingNamespace
  | invalidNamespace
  | ambiguousServers
  | basePathMismatch
  | unsupportedRef
  | unsupportedSchemaShape
  | missingArrayItems
  | unsupportedParameterRef
  | missingParameterFields
  | invalidCedarExtension
  | depthExceeded
  | invalidSchemaDocument
  | configurationError
  deriving DecidableEq

namespace ErrorKind

/-- All kinds, in the order of their declaration. -/
def all : List ErrorKind :=
  [.general, .missingInput, .missingNamespace, .invalidNamespace, .ambiguousServers,
   .basePathMismatch, .unsupportedRef, .unsupportedSchemaShape, .missingArrayItems,
   .unsupportedParameterRef, .missingParameterFields, .invalidCedarExtension, .depthExceeded,
   .invalidSchemaDocument, .configurationError]

/-- The name a kind is reported by. -/
def name : ErrorKind → String
  | .general => "CedarOpenApiError"
  | .missingInput => "MissingInput"
  | .missingNamespace => "MissingNamespace"
  | .invalidNamespace => "InvalidNamespace"
  | .ambiguousServers => "AmbiguousServers"
  | .basePathMismatch => "BasePathMismatch"
  | .unsupportedRef => "UnsupportedRef"
  | .unsupportedSchemaShape => "UnsupportedSchemaShape"
  | .missingArrayItems => "MissingArrayItems"
  | .unsupportedParameterRef => "UnsupportedParameterRef"
  | .missingParameterFields => "MissingParameterFields"
  | .invalidCedarExtension => "InvalidCedarExtension"
  | .depthExceeded => "DepthExceeded"
  | .invalidSchemaDocument => "InvalidSchemaDocument"
  | .configurationError => "ConfigurationError"

/-- The kind of a name. -/
def ofName? (s : String) : Option ErrorKind := all.find? fun k => k.name == s

end ErrorKind

/-- An error as it is shown: what kind, what happened, and to which names. -/
structure Report where
  kind : ErrorKind
  message : String
  /-- What the error is about; names that are no texts can be among it. -/
  details : List (Scalar Broken × Value Broken)

namespace Report

/-- The message, with the details in brackets if there are any. -/
def text (r : Report) : String :=
  if r.details.isEmpty then r.message
  else r.message ++ " (details: " ++ (Value.map r.details).literal ++ ")"

/-- All details have a text. -/
def isShown (r : Report) : Bool := (Value.map r.details).isShown

/-- A report with details under text names. -/
def of (kind : ErrorKind) (message : String) (details : List (String × Value Broken)) : Report :=
  ⟨kind, message, details.map fun d => (.text d.1, d.2)⟩

end Report

-- ==================================================== problems with a shape

/-- What is wrong with one value of a checked record. -/
inductive ProblemKind where
  | missing
  | notText
  | undecodableText
  | notMapping
  | notLiteral
  | notPath
  deriving DecidableEq

namespace ProblemKind

/-- The name of a problem with one setting or one part of a description. -/
def name : ProblemKind → String
  | .missing => "missing"
  | .notText => "string_type"
  | .undecodableText => "string_unicode"
  | .notMapping => "dict_type"
  | .notLiteral => "literal_error"
  | .notPath => "path_type"

end ProblemKind

/-- A problem and the way to the value that has it. -/
structure Problem where
  location : List Scalar
  kind : ProblemKind
  deriving DecidableEq

-- ==================================================== causes

/-- What the mapping, the policy writer and the settings reader report. -/
inductive MappingError where
  | missingPaths
  | missingNamespace
  | invalidNamespace (namespaceName : String)
  | ambiguousServers (servers : List String)
  | basePathMismatch (basePath : String) (servers : List String)
  | depthExceeded (schema limit : Value)
  | notSchemaObject (schema : Value)
  | untypedSchema (schema : Value) (keys : List Scalar)
  | missingItems (schema : Value)
  | unsupportedType (schema type : Value)
  | foreignRef (schema ref : Value)
  | danglingRef (schema : Value) (ref : String)
  | notParameter (parameter : Value)
  | parameterRef (ref : Value)
  | incompleteParameter (name : Option Value) (missing : List String)
  | notOperation (verb : String) (path : Value)
  | extensionNotObject (action extension : Value)
  | malformedResourceTypes (action types : Value)
  | schemaNotJson (diagnosis : String) (line : Nat)
  | schemaNotObject
  | schemaNamespaces (names : List (Scalar Broken))
  | schemaWithoutActions (namespaceName : Scalar Broken)
  | unreadableSettings (path diagnosis : String)
  | settingsNotMapping (path : String)
  | invalidSettings (path : String) (problems : List Problem)

/-- Stands in messages for the diagnosis of malformed YAML, which is not part of them. -/
def yamlDiagnosis : String := "<yaml error>"

/-- Stands in messages for a list of problems, which is reported beside them. -/
def problemDiagnosis : String := "<validation error>"

namespace MappingError

/-- What is reported for a namespace of the wrong form. -/
def invalidNamespaceMessage : String :=
  "Invalid namespace format. Namespace must start with a letter or underscore (_), " ++
  "and can include alphanumeric characters and underscores. Double colons (::) can " ++
  "separate components, where each component must start with a letter or underscore. " ++
  "Reserved words cannot be used as namespaces."

open Report (of) in
/-- How a cause is reported. -/
def report : MappingError → Report
  | missingPaths => of .missingInput "Invalid OpenAPI spec - missing paths object" []
  | missingNamespace => of .missingNamespace "Invalid input - missing namespace" []
  | invalidNamespace ns =>
    of .invalidNamespace invalidNamespaceMessage [("namespace", .text ns)]
  | ambiguousServers servers =>
    of .ambiguousServers "The API declares more than one server; a base path must be supplied"
      [("servers", .texts servers)]
  | basePathMismatch base servers =>
    of .basePathMismatch
      ("Base path " ++ Text.quoted base ++ " does not match any declared server")
      [("base_path", .text base), ("servers", .texts servers)]
  | depthExceeded schema limit =>
    of .depthExceeded
      ("Schema " ++ schema.display ++ " is nested deeper than " ++ limit.display ++ " levels")
      [("schema", schema.lift), ("max_depth", limit.lift)]
  | notSchemaObject schema =>
    of .unsupportedSchemaShape
      ("Unsupported shape of " ++ schema.display ++ ", it is not a schema object.")
      [("schema", schema.lift)]
  | untypedSchema schema keys =>
    of .unsupportedSchemaShape
      ("Unsupported shape of " ++ schema.display ++ ", it neither has a type nor a $ref.")
      [("schema", schema.lift), ("keys", .list (keys.map fun k => .scalar k.lift))]
  | missingItems schema =>
    of .missingArrayItems
      ("Unsupported schema for " ++ schema.display ++
        " - array items are not defined directly under the property.")
      [("schema", schema.lift)]
  | unsupportedType schema type =>
    of .unsupportedSchemaShape
      ("Unsupported schema for " ++ schema.display ++ " - type " ++ type.display ++
        " is not supported")
      [("schema", schema.lift), ("type", type.lift)]
  | foreignRef schema ref =>
    of .unsupportedRef
      ("Unsupported $ref value for " ++ schema.display ++
        ". Only local refs to #/components/schemas/MyType are supported")
      [("schema", schema.lift), ("ref", ref.lift)]
  | danglingRef schema ref =>
    of .unsupportedRef
      ("$ref " ++ ref ++ " in " ++ schema.display ++
        " does not resolve to a schema in #/components/schemas")
      [("schema", schema.lift), ("ref", .text ref)]
  | notParameter parameter =>
    of .missingParameterFields
      ("Parameter " ++ parameter.literal ++ " is not a parameter object")
      [("parameter", parameter.lift), ("missing", .texts ["name", "in", "schema"])]
  | parameterRef ref =>
    of .unsupportedParameterRef
      ("Parameter $ref " ++ ref.display ++ " is not supported, define parameters inline")
      [("ref", ref.lift)]
  | incompleteParameter name missing =>
    of .missingParameterFields
      ("Parameter " ++ (name.getD (.text "<unnamed>")).display ++ " is missing " ++
        joined ", " missing)
      [("parameter", (name.getD .null).lift), ("missing", .texts missing)]
  | notOperation verb path =>
    of .unsupportedSchemaShape
      ("Operation " ++ verb ++ " " ++ path.display ++ " is not an operation object")
      [("path", path.lift), ("verb", .text verb)]
  | extensionNotObject action extension =>
    of .invalidCedarExtension ("x-cedar on " ++ action.display ++ " must be an object")
      [("action", action.lift), ("extension", extension.lift)]
  | malformedResourceTypes action types =>
    of .invalidCedarExtension
      ("x-cedar.appliesToResourceTypes on " ++ action.display ++
        " must be a non-empty list of strings")
      [("action", action.lift), ("appliesToResourceTypes", types.lift)]
  | schemaNotJson diagnosis line =>
    of .invalidSchemaDocument
      ("Schema is not valid JSON: " ++ diagnosis ++ " (line " ++ toString line ++ ")") []
  | schemaNotObject =>
    of .invalidSchemaDocument "Schema must be a JSON object keyed by namespace" []
  | schemaNamespaces names =>
    of .invalidSchemaDocument "Schema must have exactly one namespace"
      [("namespaces", .list (names.map .scalar))]
  | schemaWithoutActions ns =>
    of .invalidSchemaDocument ("Namespace " ++ ns.display ++ " has no actions object")
      [("namespace", .scalar ns)]
  | unreadableSettings path diagnosis =>
    of .configurationError ("Cannot read config file " ++ path ++ ": " ++ diagnosis)
      [("path", .text path)]
  | settingsNotMapping path =>
    of .configurationError ("Config file " ++ path ++ " must contain a mapping")
      [("path", .text path)]
  | invalidSettings path _ =>
    of .configurationError ("Invalid config file " ++ path ++ ": " ++ problemDiagnosis)
      [("path", .text path)]

/-- The values whose texts are part of the message. -/
def shownValues : MappingError → List Value
  | depthExceeded schema limit => [schema, limit]
  | notSchemaObject schema => [schema]
  | untypedSchema schema _ => [schema]
  | missingItems schema => [schema]
  | unsupportedType schema type => [schema, type]
  | foreignRef schema _ => [schema]
  | danglingRef schema _ => [schema]
  | notParameter parameter => [parameter]
  | parameterRef ref => [ref]
  | incompleteParameter name _ => name.toList
  | notOperation _ path => [path]
  | extensionNotObject action _ => [action]
  | malformedResourceTypes action _ => [action]
  | _ => []

/-- The message can be written. -/
def hasMessage (e : MappingError) : Bool := e.shownValues.all Value.isShown

/-- The problems behind an error, if it is about a record's shape. -/
def problems? : MappingError → Option (List Problem)
  | invalidSettings _ ps => some ps
  | _ => none

end MappingError

-- ==================================================== faults

/-- Ways to use a value as something it is not. -/
inductive Misuse where
  /-- An operation on a value of the wrong kind. -/
  | wrongKind
  /-- Asking a value for a part that its kind does not have. -/
  | noSuchPart
  /-- A key that a mapping does not have. -/
  | missingKey
  /-- A position that a list does not have. -/
  | outOfRange
  /-- A number too large for its use. -/
  | tooLarge
  /-- A structure without end where a finite one is needed. -/
  | endless
  deriving DecidableEq

/-- Why a file could not be used. -/
inductive FileFault where
  | notFound
  | isDirectory
  | notDirectory
  | alreadyExists
  | nameTooLong
  deriving DecidableEq

namespace FileFault

/-- The system's number and words for the fault, with the path it concerns. -/
def text (path : String) : FileFault → String
  | .notFound => "[Errno 2] No such file or directory: " ++ Text.quoted path
  | .isDirectory => "[Errno 21] Is a directory: " ++ Text.quoted path
  | .notDirectory => "[Errno 20] Not a directory: " ++ Text.quoted path
  | .alreadyExists => "[Errno 17] File exists: " ++ Text.quoted path
  | .nameTooLong => "[Errno 36] File name too long: " ++ Text.quoted path

end FileFault

/-- Any way to fail. -/
inductive Fault where
  /-- An error reported to the user. -/
  | reported (cause : MappingError)
  /-- A record that lacks the required shape. -/
  | invalid (problems : List Problem)
  /-- Text that denotes no value, with the diagnosis. -/
  | malformed (diagnosis : String)
  /-- Octets that are not UTF-8, with the diagnosis. -/
  | undecodable (diagnosis : String)
  /-- A broken string that was to be written in UTF-8, with the diagnosis. -/
  | unencodable (diagnosis : String)
  | file (fault : FileFault)
  | misused (how : Misuse)

/-- A computation that may fail. -/
abbrev Attempt := Except Fault

namespace Fault

/-- An integer beyond the limit on digits was to be shown. -/
def unshown : Fault := .malformed DigitLimit.unshownWords

/-- Fails with a reported cause, or because its message cannot be written. -/
def report {α : Type} (cause : MappingError) : Attempt α :=
  .error (if cause.hasMessage then .reported cause else unshown)

/-- Fails because a value is of the wrong kind. -/
def wrongKind {α : Type} : Attempt α := .error (.misused .wrongKind)

/-- Fails because a value has no such part. -/
def noSuchPart {α : Type} : Attempt α := .error (.misused .noSuchPart)

/-- What is said of a path with a null character. -/
def nullInPath : Fault := .malformed "embedded null byte"

end Fault

/-- The text of a report, if all of it can be shown. -/
def Report.shownText (r : Report) : Attempt String :=
  if r.isShown then .ok r.text else .error .unshown

end ApiAuthz
