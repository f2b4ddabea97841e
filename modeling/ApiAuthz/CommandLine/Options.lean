/-
Options on a command line. A command declares its options by their names, long
and short, and whether they take a value. The arguments are then read from left
to right: what is given, in order, and what is left over. A value may be joined
to a long name by an equals sign and to a short one directly; two hyphens end
the options.

Reading knows the declarations and nothing else: whether a value is any good, and
whether an option has to be given, is checked behind it (`CommandLine/Run`). So the
first fault of reading comes before all faults of values. An option may be given
several times; the last value counts (`Given.value?`), and the first occurrence says
when it is checked (`Given.order`).

An option behind other arguments is one for a command, but not in front of the
command, where everything from the name on belongs to it (`readFrom`). A name that
is not known is refused with those that look like it; which these are is for the
caller to say, and short options have no such help (`readOption`).
-/
import ApiAuthz.Fault

namespace ApiAuthz.CommandLine

/-- What an option is for, on whichever command it stands. -/
inductive OptionName where
  | help
  | verbose
  | apiSpec
  | namespaceName
  | mappingType
  | basePath
  | output
  | config
  | schema
  deriving DecidableEq

/-- An option as a command declares it. -/
structure OptionSpec where
  name : OptionName
  short : Option Char
  long : String
  takesValue : Bool

/-- What is wrong with a command line. -/
inductive UsageError where
  | noSuchOption (name : String) (similar : List String)
  | unwantedValue (name : String)
  | missingValue (name : String)
  | missingOption (hint : String)
  | invalidValue (hint reason : String)
  | extraArguments (arguments : List String)
  | missingCommand
  | noSuchCommand (name : String) (similar : List String)
  /-- A value that cannot be looked at, which is not reported but ends the run. -/
  | unusable (fault : Fault)

namespace UsageError

/-- What may have been meant: one name, or several in order. -/
def suggestion : List String → String
  | [] => ""
  | [s] => " Did you mean " ++ Text.quoted s ++ "?"
  | ss =>
    " (Did you mean one of: " ++
      joined ", " ((ss.mergeSort fun a b => a ≤ b).map Text.quoted) ++ "?)"

/-- What is shown for arguments that are not understood. -/
def message : UsageError → String
  | .noSuchOption name similar =>
    "No such option " ++ Text.quoted name ++ "." ++ suggestion similar
  | .unwantedValue name => "Option " ++ Text.quoted name ++ " does not take a value."
  | .missingValue name => "Option " ++ Text.quoted name ++ " requires an argument."
  | .missingOption hint => "Missing option " ++ hint ++ "."
  | .invalidValue hint reason => "Invalid value for " ++ hint ++ ": " ++ reason
  | .extraArguments [a] => "Got unexpected extra argument (" ++ a ++ ")"
  | .extraArguments as => "Got unexpected extra arguments (" ++ joined " " as ++ ")"
  | .missingCommand => "Missing command."
  | .noSuchCommand name similar =>
    "No such command " ++ Text.quoted name ++ "." ++ suggestion similar
  | .unusable _ => ""

end UsageError

/-- A step of reading a command line. -/
abbrev Usage := Except UsageError

namespace OptionSpec

/-- An option of one letter as it is written. -/
def shortText (c : Char) : String := String.ofList ['-', c]

/-- The names of an option, as messages show them. -/
def hint (o : OptionSpec) : String :=
  joined " / " ((match o.short with | some c => [shortText c] | none => []) ++ [o.long]
    |>.map Text.quoted)

end OptionSpec

/-- What a command line gives: options with their values, in order, and the rest. -/
structure Given where
  options : List (OptionName × String)
  rest : List String

namespace Given

/-- No argument has been read. -/
def nothing : Given := ⟨[], []⟩

/-- One option more, behind those that were given. -/
def add (name : OptionName) (value : String) (g : Given) : Given :=
  { g with options := g.options ++ [(name, value)] }

/-- The option was given, once or more. -/
def has (name : OptionName) (g : Given) : Bool := g.options.any fun o => o.1 == name

/-- The value of an option; of several the last counts. -/
def value? (name : OptionName) (g : Given) : Option String :=
  (g.options.reverse.find? fun o => o.1 == name).map Prod.snd

/-- The options by their first occurrence. -/
def order (g : Given) : List OptionName := (g.options.map Prod.fst).eraseDups

end Given

-- ==================================================== one argument

/-- The text before an equals sign, and the text behind it, if there is one. -/
def splitEquals (argument : String) : String × Option String :=
  let cs := argument.toList
  match cs.dropWhile (· != '=') with
  | [] => (argument, none)
  | _ :: value => (String.ofList (cs.takeWhile (· != '=')), some (String.ofList value))

/-- The value of an option: the one joined to it, or the next argument. -/
def takeValue (shown : String) (joinedValue : Option String) (rest : List String) :
    Usage (String × List String) :=
  match joinedValue, rest with
  | some v, _ => .ok (v, rest)
  | none, v :: rest => .ok (v, rest)
  | none, [] => .error (.missingValue shown)

/-- A long option. -/
def readLong (o : OptionSpec) (value : Option String) (g : Given) (rest : List String) :
    Usage (Given × List String) :=
  if o.takesValue then do
    let (v, rest) ← takeValue o.long value rest
    return (g.add o.name v, rest)
  else
    match value with
    | some _ => .error (.unwantedValue o.long)
    | none => .ok (g.add o.name "", rest)

/-- Short options in one argument, up to one that takes the rest of it. -/
def readShort (specs : List OptionSpec) :
    List Char → Given → List String → Usage (Given × List String)
  | [], g, rest => .ok (g, rest)
  | c :: cs, g, rest =>
    match specs.find? fun o => o.short == some c with
    | none => .error (.noSuchOption (OptionSpec.shortText c) [])
    | some o =>
      if o.takesValue then do
        let value := if cs.isEmpty then none else some (String.ofList cs)
        let (v, rest) ← takeValue (OptionSpec.shortText c) value rest
        return (g.add o.name v, rest)
      else readShort specs cs (g.add o.name "") rest

/-- An argument that starts with a hyphen and is not one alone. -/
def readOption (similar : String → List String → List String) (specs : List OptionSpec)
    (argument : String) (g : Given) (rest : List String) : Usage (Given × List String) :=
  let (name, value) := splitEquals argument
  match specs.find? fun o => o.long == name with
  | some o => readLong o value g rest
  | none =>
    match argument.toList with
    | '-' :: '-' :: _ => .error (.noSuchOption name (similar name (specs.map OptionSpec.long)))
    | _ :: cs => readShort specs cs g rest
    | [] => .ok (g, rest)

-- ==================================================== all arguments

/-- An argument that is taken for an option: a lone hyphen is not. -/
def isOption (argument : String) : Bool :=
  match argument.toList with
  | '-' :: _ :: _ => true
  | _ => false

/-- Reads arguments from left to right; `mixed` allows options behind other
arguments. Every round takes an argument at least. -/
def readFrom (similar : String → List String → List String) (specs : List OptionSpec)
    (mixed : Bool) : Nat → Given → List String → Usage Given
  | 0, g, rest => .ok { g with rest := g.rest ++ rest }
  | _ + 1, g, [] => .ok g
  | fuel + 1, g, a :: rest =>
    if a == "--" then .ok { g with rest := g.rest ++ rest }
    else if isOption a then
      match readOption similar specs a g rest with
      | .ok (g, rest) => readFrom similar specs mixed fuel g rest
      | .error e => .error e
    else if mixed then readFrom similar specs mixed fuel { g with rest := g.rest ++ [a] } rest
    else .ok { g with rest := g.rest ++ a :: rest }

/-- Reads all arguments; each takes one round at most, so their number is fuel enough. -/
def read (similar : String → List String → List String) (specs : List OptionSpec) (mixed : Bool)
    (arguments : List String) : Usage Given :=
  readFrom similar specs mixed (arguments.length + 1) .nothing arguments

end ApiAuthz.CommandLine
