/-
The command line. `generate-schema` reads settings and an API description and
writes the two schema files; `generate-policies` reads a schema and writes two
policies. A run is a function of the arguments, the environment and the files;
its outcome is the text shown, the files afterwards, and how it ended.

A file is written only after everything has been computed, so a run that reports
an error has changed nothing. Writing itself may fail, and what was written before
stays.

# How a run ends

With exit code 0 it has done what was asked, or shown a help text, which is left out
here. With 2 the command line was not understood (`Outcome.usage`). With 1 something
failed: it was reported with a line of its own (`Outcome.reported`), or it was not,
and then the fault stands beside the output (`Outcome.failed`). Which faults a
command reports is said by `schemaMessage` and `policyMessage`, and the second has
fewer. Even a report may fail, if it would show an integer that has no text
(`ended`).

# The order of things

Values of options are checked in the order in which they are given, those that are not
given behind them, and what is left over comes last (`checkAll`). The settings are read
before the description. Log lines stand in the output as far as they are wanted, in front
of what is reported (`shownLines`).

# Files

Both commands create the directory they write into. The schema files are written one
behind the other into the directory of the settings, the policies into one of their own
below the output directory, with a line of output for each. A policy may hold half of a
UTF-16 pair, if a name in the schema does; it has no octets, so the file is opened and
left empty (`FileTree.writePoints`).
-/
import ApiAuthz.CommandLine.Options
import ApiAuthz.CommandLine.Similar
import ApiAuthz.Policy
import ApiAuthz.Settings
import ApiAuthz.SpecFile
import ApiAuthz.Text.ControlSequence

namespace ApiAuthz.CommandLine

-- ==================================================== commands

/-- The option that every command has. -/
def helpOption : OptionSpec := ⟨.help, none, "--help", false⟩

/-- Options before the command. -/
def mainOptions : List OptionSpec := [⟨.verbose, some 'v', "--verbose", false⟩, helpOption]

/-- The options of schema generation, in the order of their declaration. -/
def schemaOptions : List OptionSpec :=
  [⟨.apiSpec, none, "--api-spec", true⟩, ⟨.namespaceName, none, "--namespace", true⟩,
   ⟨.mappingType, none, "--mapping-type", true⟩, ⟨.basePath, none, "--base-path", true⟩,
   ⟨.output, some 'o', "--output", true⟩, ⟨.config, none, "--config", true⟩, helpOption]

/-- The options of policy generation, in the order of their declaration. -/
def policyOptions : List OptionSpec :=
  [⟨.schema, none, "--schema", true⟩, ⟨.output, some 'o', "--output", true⟩, helpOption]

/-- The two things to do. -/
inductive Command where
  | generateSchema
  | generatePolicies
  deriving DecidableEq

namespace Command

/-- The commands as they are written. -/
def names : List String := ["generate-schema", "generate-policies"]

/-- The command of a name, which has to be written in full. -/
def ofName? : String → Option Command
  | "generate-schema" => some .generateSchema
  | "generate-policies" => some .generatePolicies
  | _ => none

/-- The options of a command. -/
def options : Command → List OptionSpec
  | .generateSchema => schemaOptions
  | .generatePolicies => policyOptions

end Command

-- ==================================================== checking values

/-- A path that can be looked at. -/
def checkPath (value : String) : Usage Unit :=
  if FilePath.holdsNull value then .error (.unusable Fault.nullInPath) else .ok ()

/-- A file that exists. -/
def checkFile (t : FileTree) (o : OptionSpec) (value : String) : Usage Unit := do
  checkPath value
  match t.entryOfText value with
  | .error _ =>
    .error (.invalidValue o.hint ("File " ++ Text.quoted value ++ " does not exist."))
  | .ok .directory =>
    .error (.invalidValue o.hint ("File " ++ Text.quoted value ++ " is a directory."))
  | .ok (.file _) => .ok ()

/-- A directory, or nothing yet. -/
def checkDirectory (t : FileTree) (o : OptionSpec) (value : String) : Usage Unit := do
  checkPath value
  match t.entryOfText value with
  | .ok (.file _) =>
    .error (.invalidValue o.hint ("Directory " ++ Text.quoted value ++ " is a file."))
  | _ => .ok ()

/-- The only mapping type there is. -/
def checkMappingType (o : OptionSpec) (value : String) : Usage Unit :=
  if value = Generated.simpleRest then .ok ()
  else
    .error (.invalidValue o.hint
      (Text.quoted value ++ " is not " ++ Text.quoted Generated.simpleRest ++ "."))

/-- What is wrong with the value of an option, or with its absence. -/
def check (t : FileTree) (g : Given) (o : OptionSpec) : Usage Unit :=
  match o.name, g.value? o.name with
  | .apiSpec, none => .error (.missingOption o.hint)
  | .schema, none => .error (.missingOption o.hint)
  | .apiSpec, some v => checkFile t o v
  | .schema, some v => checkFile t o v
  | .config, some v => checkFile t o v
  | .output, some v => checkDirectory t o v
  | .mappingType, some v => checkMappingType o v
  | _, _ => .ok ()

/-- The options in the order in which they are checked: those given by their
first occurrence, then the others. -/
def checkOrder (specs : List OptionSpec) (g : Given) : List OptionSpec :=
  (g.order.filterMap fun n => specs.find? fun o => o.name == n) ++
    specs.filter fun o => !g.has o.name

/-- Every option is in order, and nothing is left over. -/
def checkAll (t : FileTree) (specs : List OptionSpec) (g : Given) : Usage Unit := do
  (checkOrder specs g).forM (check t g)
  if g.rest.isEmpty then return else .error (.extraArguments g.rest)

-- ==================================================== outcomes

/-- A line of output, without what only a terminal understands. -/
def line (text : String) : String :=
  String.ofList (Text.withoutSequences text.toList) ++ "\n"

/-- How a run ends, what it has shown, and the files it leaves. -/
structure Outcome where
  exitCode : Nat
  output : String
  files : FileTree
  /-- A fault that is not reported but ends the run. -/
  uncaught : Option Fault

namespace Outcome

/-- A fault that nothing takes care of. -/
def failed (t : FileTree) (output : String) (f : Fault) : Outcome := ⟨1, output, t, some f⟩

/-- A command line that is not understood. -/
def usage (t : FileTree) (e : UsageError) : Outcome :=
  match e with
  | .unusable f => failed t "" f
  | e => ⟨2, line ("Error: " ++ e.message), t, none⟩

/-- A fault that is shown as an error. -/
def reported (t : FileTree) (output message : String) : Outcome :=
  ⟨1, output ++ line ("Error: " ++ message), t, none⟩

/-- Nothing went wrong. -/
def succeeded (t : FileTree) (output : String) : Outcome := ⟨0, output, t, none⟩

end Outcome

/-- The message of a fault that schema generation reports, or the fault that ends
the run instead. -/
def schemaMessage : Fault → Attempt String
  | .reported e => e.report.shownText
  | .invalid _ => .ok problemDiagnosis
  | .malformed diagnosis => .ok diagnosis
  | .undecodable diagnosis => .ok diagnosis
  | .unencodable diagnosis => .ok diagnosis
  | f => .error f

/-- The message of a fault that policy generation reports, or the fault that ends
the run instead. -/
def policyMessage : Fault → Attempt String
  | .reported e => e.report.shownText
  | f => .error f

/-- How a fault ends a run. -/
def ended (message : Fault → Attempt String) (t : FileTree) (output : String) (f : Fault) :
    Outcome :=
  match message f with
  | .ok m => .reported t output m
  | .error f => .failed t output f

/-- The log lines that are shown. -/
def shownLines (verbose : Bool) (lines : List LogLine) : String :=
  let wanted := lines.filter fun l => verbose || l.level == .warning
  String.join ((wanted.filterMap LogLine.text?).map fun text => text ++ "\n")

-- ==================================================== generate-schema

/-- The file of the schema without annotations. -/
def plainName : String := "v2.cedarschema.json"

/-- The file of the schema with annotations. -/
def annotatedName : String := "v4.cedarschema.json"

/-- What is shown when both schema files have been written. -/
def schemaNotice : String :=
  "Cedar schema successfully generated. Your schema files are named: " ++ plainName ++ ", " ++
    annotatedName ++ ".\n" ++
  plainName ++ " is compatible with Cedar 2.x and 3.x\n" ++
  annotatedName ++ " is compatible with Cedar 4.x and required by the Cedar authorization " ++
    "plugins.\n"

/-- The namespace option; without it the environment's, unless that is empty. -/
def namespaceOption (g : Given) (environment : Option String) : Option String :=
  match g.value? .namespaceName with
  | some v => some v
  | none => environment.bind fun v => if v = "" then none else some v

/-- An option in place of a setting, if it is given. -/
def orSetting (option : Option String) (setting : Value) : Value :=
  match option with
  | some v => .text v
  | none => setting

/-- The settings of a run: options before the file's values. -/
def effective (g : Given) (environment : Option String) (s : Settings) : Settings where
  namespaceName := orSetting (namespaceOption g environment) s.namespaceName
  mappingType := orSetting (g.value? .mappingType) s.mappingType
  basePath := orSetting (g.value? .basePath) s.basePath
  destination :=
    match g.value? .output with
    | some v => .path (.ofString v)
    | none => s.destination

/-- Writes both schema files into a directory, which is created if need be. -/
def writeSchemas (t : FileTree) (directory : FilePath) (x : Generated) (output : String) :
    Outcome :=
  match t.makeDirectories directory with
  | (t, some f) => .failed t output f
  | (t, none) =>
    match t.writeText (directory.child plainName) x.plain with
    | .error f => .failed t output f
    | .ok t =>
      match t.writeText (directory.child annotatedName) x.annotated with
      | .error f => .failed t output f
      | .ok t => .succeeded t (output ++ schemaNotice)

/-- The directory that settings name; an unchecked override is taken by its text. -/
def directoryOf : Destination → FilePath
  | .path p => p
  | .unchecked v => .ofString v.display

/-- What is generated for the description in a file, with the settings of a run. -/
def generatedFrom (t : FileTree) (spec : FilePath) (s : Settings) : Logged Generated :=
  (SpecFile.describe t spec).andThen fun doc =>
    Generated.ofDocument doc s.namespaceName s.mappingType s.basePath

/-- Generates both forms of a schema for a description, and writes them if all went well. -/
def generateSchema (t : FileTree) (verbose : Bool) (environment : Option String) (g : Given) :
    Outcome :=
  let spec := FilePath.ofString ((g.value? .apiSpec).getD "")
  match Settings.load t ((g.value? .config).map FilePath.ofString) with
  | .error f => ended schemaMessage t "" f
  | .ok s =>
    let s := effective g environment s
    let x := generatedFrom t spec s
    let output := line ("Parsing " ++ spec.text ++ "...") ++ shownLines verbose x.lines
    match x.outcome with
    | .error f => ended schemaMessage t output f
    | .ok x => writeSchemas t (directoryOf s.destination) x output

-- ==================================================== generate-policies

/-- The directory that policies are put into. -/
def policiesName : String := "policies"

/-- The file of a policy, by its number. -/
def policyName (index : Nat) : String := "policy_" ++ toString index ++ ".cedar"

/-- Writes policies one by one, numbered from `index` on. -/
def writePolicies (directory : FilePath) :
    Nat → List (List CodePoint) → FileTree → String → Outcome
  | _, [], t, output => .succeeded t output
  | index, p :: ps, t, output =>
    match t.writePoints (directory.child (policyName index)) p with
    | (t, some f) => .failed t output f
    | (t, none) =>
      writePolicies directory (index + 1) ps t
        (output ++ "Cedar policy successfully generated in " ++ policiesName ++ "/" ++
          policyName index ++ "\n")

/-- Makes the policies for a schema before anything is created, then writes them. -/
def generatePolicies (t : FileTree) (g : Given) : Outcome :=
  let schema := FilePath.ofString ((g.value? .schema).getD "")
  let directory := (FilePath.ofString ((g.value? .output).getD ".")).child policiesName
  let policies : Attempt (List (List CodePoint)) := do
    Policy.forSchema (String.ofList (← t.readText schema))
  match policies with
  | .error f => ended policyMessage t "" f
  | .ok ps =>
    match t.makeDirectories directory with
    | (t, some f) => .failed t "" f
    | (t, none) => writePolicies directory 1 ps t ""

-- ==================================================== runs

/-- A run of one command with the arguments behind its name. -/
def runCommand (t : FileTree) (verbose : Bool) (environment : Option String) (c : Command)
    (arguments : List String) : Outcome :=
  match read Similar.similar c.options true arguments with
  | .error e => .usage t e
  | .ok g =>
    if g.has .help then .succeeded t ""
    else
      match checkAll t c.options g with
      | .error e => .usage t e
      | .ok () =>
        match c with
        | .generateSchema => generateSchema t verbose environment g
        | .generatePolicies => generatePolicies t g

/-- A run whose first argument is no command. One that looks like an option, which
only stands there behind two hyphens, is read as one first. -/
def unknownCommand (t : FileTree) (name : String) (rest : List String) : Outcome :=
  match read Similar.similar mainOptions false (name :: rest) with
  | .error e => .usage t e
  | .ok g =>
    if g.has .help then .succeeded t ""
    else .usage t (.noSuchCommand name (Similar.similar name Command.names))

/-- A run with these arguments; `environment` is the namespace set outside. -/
def run (t : FileTree) (environment : Option String) (arguments : List String) : Outcome :=
  match read Similar.similar mainOptions false arguments with
  | .error e => .usage t e
  | .ok g =>
    if g.has .help then .succeeded t ""
    else
      match g.rest with
      | [] => if arguments.isEmpty then ⟨2, "", t, none⟩ else .usage t .missingCommand
      | name :: rest =>
        match Command.ofName? name with
        | some c => runCommand t (g.has .verbose) environment c rest
        | none => unknownCommand t name rest

-- ==================================================== paths

/-- The paths that an argument may be: the whole of it, or the value joined to an
option. -/
def pathsIn (argument : String) : List FilePath :=
  ([argument, String.ofList (argument.toList.drop 2)] ++ (splitEquals argument).2.toList).map
    FilePath.ofString

/-- The directory that the settings in a file name. -/
def directoryIn? (t : FileTree) (p : FilePath) : Option FilePath :=
  match Settings.ofFile t p with
  | .ok s => some (directoryOf s.destination)
  | .error _ => none

/-- The files that a run may write, given its output directory. -/
def pathsBelow (directory : FilePath) : List FilePath :=
  [directory.child plainName, directory.child annotatedName,
   (directory.child policiesName).child (policyName 1),
   (directory.child policiesName).child (policyName 2)]

/-- The paths that a run with these arguments may look at, as far as the files are
known. -/
def pathsOf (t : FileTree) (arguments : List String) : List FilePath :=
  let mentioned := arguments.flatMap pathsIn
  mentioned ++ (.here :: mentioned ++ mentioned.filterMap (directoryIn? t)).flatMap pathsBelow

end ApiAuthz.CommandLine
