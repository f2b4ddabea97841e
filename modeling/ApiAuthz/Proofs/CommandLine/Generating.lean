/-
Runs that come to write schema files. `asked?` is what arguments ask for, and
`Generates` says that a run of `generate-schema` has everything it needs: its options
are in order, the settings are read, and there is something to write. Such a run
writes it (`Generates.run_eq`); any other stops and leaves the files as they are
(`stopped_or_generates`), for nothing is written before everything has been computed.
It has failed then, unless it was asked for help.

# The ways to stop

There are three: a command line that is not understood, a fault, and help
(`stopped_usage`, `stopped_ended`, `stopped_succeeded`). `Stopped` is what they have
in common, and `stopped_or_generates` goes through a run from its start, one decision
after the other, and finds one of the three at each of them.

# Directories

The directory of the schema files comes from an option or from the settings, which
have it from a file or by default. Wherever it comes from, the way to it starts at a
root or at the present directory (`Generates.rooted`); what is known of making
directories asks for that.
-/
import ApiAuthz.Proofs.CommandLine.Help
import ApiAuthz.Proofs.FilePath

namespace ApiAuthz.CommandLine

variable {t : FileTree} {environment : Option String} {arguments : List String}
  {d : FilePath} {x : Generated}

-- ==================================================== what a run is asked to do

/-- The command that a run carries out, with the options before it and the arguments
behind it. -/
structure Asked where
  verbose : Bool
  command : Command
  arguments : List String

/-- What arguments ask for; nothing if they are not understood, name no command or ask
for help. -/
def asked? (arguments : List String) : Option Asked :=
  match read Similar.similar mainOptions false arguments with
  | .error _ => none
  | .ok g =>
    if g.has .help then none
    else
      match g.rest with
      | [] => none
      | name :: rest => (Command.ofName? name).map fun c => ⟨g.has .verbose, c, rest⟩

/-- A run has stopped: nothing has changed, and it has failed unless arguments ask for
help. -/
def Stopped (t : FileTree) (arguments : List String) (o : Outcome) : Prop :=
  o.files = t ∧ (o.exitCode ≠ 0 ∨ asksHelp arguments = true)

/-- A command line that is not understood stops the run before anything is written. -/
theorem stopped_usage (t : FileTree) (arguments : List String) (e : UsageError) :
    Stopped t arguments (.usage t e) := by
  cases e with
  | unusable f => exact ⟨rfl, Or.inl Nat.one_ne_zero⟩
  | _ => exact ⟨rfl, Or.inl (Nat.succ_ne_zero 1)⟩

/-- So does a fault, reported or not. -/
theorem stopped_ended (message : Fault → Attempt String) (t : FileTree)
    (arguments : List String) (output : String) (f : Fault) :
    Stopped t arguments (ended message t output f) := by
  unfold ended
  split <;> exact ⟨rfl, Or.inl Nat.one_ne_zero⟩

/-- So does help, where it is asked for. -/
theorem stopped_succeeded (t : FileTree) (output : String) (h : asksHelp arguments = true) :
    Stopped t arguments (.succeeded t output) :=
  ⟨rfl, Or.inr h⟩

/-- A run that asks for neither command stops. -/
theorem stopped_of_not_asked (h : asked? arguments = none) :
    Stopped t arguments (run t environment arguments) := by
  unfold asked? at h
  unfold run
  cases hread : read Similar.similar mainOptions false arguments with
  | error e => exact stopped_usage t arguments e
  | ok g =>
      have hhelps : asksHelp arguments = true ↔ g.has .help = true ∨ helpsBehind g.rest = true := by
        rw [asksHelp, hread, Bool.or_eq_true]
      simp only [hread] at h ⊢
      by_cases hhelp : g.has .help = true
      · rw [if_pos hhelp]
        exact stopped_succeeded t "" (hhelps.2 (Or.inl hhelp))
      · rw [if_neg hhelp] at h ⊢
        cases hrest : g.rest with
        | nil =>
            dsimp only
            split
            · exact ⟨rfl, Or.inl (Nat.succ_ne_zero 1)⟩
            · exact stopped_usage t arguments _
        | cons name rest =>
            simp only [hrest, Option.map_eq_none_iff] at h
            simp only [h]
            unfold unknownCommand
            cases hagain : read Similar.similar mainOptions false (name :: rest) with
            | error e => exact stopped_usage t arguments e
            | ok g' =>
                dsimp only
                split
                · rename_i hhelp'
                  refine stopped_succeeded t "" (hhelps.2 (Or.inr ?_))
                  simp only [helpsBehind, hrest, h, hagain]
                  exact hhelp'
                · exact stopped_usage t arguments _

/-- A run that asks for a command is a run of that command. -/
theorem run_of_asked {a : Asked} (h : asked? arguments = some a) :
    run t environment arguments = runCommand t a.verbose environment a.command a.arguments := by
  unfold asked? at h
  unfold run
  cases hread : read Similar.similar mainOptions false arguments with
  | error e =>
      rw [hread] at h
      cases h
  | ok g =>
      simp only [hread] at h ⊢
      by_cases hhelp : g.has .help = true
      · rw [if_pos hhelp] at h
        cases h
      · rw [if_neg hhelp] at h ⊢
        cases hrest : g.rest with
        | nil =>
            rw [hrest] at h
            cases h
        | cons name rest =>
            simp only [hrest] at h
            obtain ⟨c, hc, rfl⟩ := Option.map_eq_some_iff.1 h
            simp only [hc]

-- ==================================================== runs that come to write

/-- A run that generates schema files: its options are in order, the settings are read,
and there is something to write. -/
inductive Generates (t : FileTree) (environment : Option String) (arguments : List String) :
    FilePath → Generated → Prop
  | intro {a : Asked} {g : Given} {s : Settings} {x : Generated}
      (asked : asked? arguments = some a) (command : a.command = .generateSchema)
      (options : read Similar.similar schemaOptions true a.arguments = .ok g)
      (help : g.has .help = false) (checked : checkAll t schemaOptions g = .ok ())
      (settings : Settings.load t ((g.value? .config).map FilePath.ofString) = .ok s)
      (generated : (generatedFrom t (.ofString ((g.value? .apiSpec).getD ""))
        (effective g environment s)).outcome = .ok x) :
      Generates t environment arguments (directoryOf (effective g environment s).destination) x

/-- A run that generates schema files writes them. -/
theorem Generates.run_eq (h : Generates t environment arguments d x) :
    ∃ output, run t environment arguments = writeSchemas t d x output := by
  obtain ⟨hasked, hcommand, hoptions, hhelp, hchecked, hsettings, hgenerated⟩ := h
  rw [run_of_asked hasked, hcommand, runCommand]
  simp only [Command.options, hoptions, hhelp, Bool.false_eq_true, if_false, hchecked,
    generateSchema, hsettings, hgenerated]
  exact ⟨_, rfl⟩

/-- A command asked for asks for help if its options do. -/
theorem asksHelp_of_asked {a : Asked} {g : Given} (h : asked? arguments = some a)
    (hread : read Similar.similar a.command.options true a.arguments = .ok g)
    (hhelp : g.has .help = true) : asksHelp arguments = true := by
  unfold asked? at h
  unfold asksHelp
  cases hmain : read Similar.similar mainOptions false arguments with
  | error e =>
      rw [hmain] at h
      cases h
  | ok main =>
      simp only [hmain] at h ⊢
      by_cases hbefore : main.has .help = true
      · rw [hbefore, Bool.true_or]
      · rw [if_neg hbefore] at h
        cases hrest : main.rest with
        | nil =>
            rw [hrest] at h
            cases h
        | cons name rest =>
            simp only [hrest] at h
            obtain ⟨c, hc, rfl⟩ := Option.map_eq_some_iff.1 h
            dsimp only at hread
            simp only [helpsBehind, hc, hread, helps, hhelp, Bool.or_true]

/-- A run that does not come to write has stopped. -/
theorem stopped_or_generates
    (h : ∀ a, asked? arguments = some a → a.command = .generateSchema) :
    Stopped t arguments (run t environment arguments) ∨
      ∃ d x, Generates t environment arguments d x := by
  cases hasked : asked? arguments with
  | none => exact Or.inl (stopped_of_not_asked hasked)
  | some a =>
      have hcommand := h a hasked
      rw [run_of_asked hasked, hcommand, runCommand]
      split
      · exact Or.inl (stopped_usage t arguments _)
      · rename_i g hoptions
        split
        · rename_i hhelp
          exact Or.inl (stopped_succeeded t ""
            (asksHelp_of_asked hasked (hcommand ▸ hoptions) hhelp))
        · rename_i hhelp
          split
          · exact Or.inl (stopped_usage t arguments _)
          · rename_i hchecked
            show Stopped t arguments (generateSchema t a.verbose environment g) ∨ _
            unfold generateSchema
            dsimp only
            split
            · exact Or.inl (stopped_ended _ t arguments _ _)
            · rename_i s hsettings
              split
              · exact Or.inl (stopped_ended _ t arguments _ _)
              · rename_i x hgenerated
                exact Or.inr ⟨_, x, .intro hasked hcommand hoptions (Bool.not_eq_true _ ▸ hhelp)
                  hchecked hsettings hgenerated⟩

/-- A run that does not come to write has changed nothing. -/
theorem unchanged_or_generates
    (h : ∀ a, asked? arguments = some a → a.command = .generateSchema) :
    (run t environment arguments).files = t ∨ ∃ d x, Generates t environment arguments d x :=
  (stopped_or_generates h).imp_left And.left

-- ==================================================== directories of settings

/-- The destination of a file of settings starts at a root or at the present directory. -/
theorem rooted_of_destinationOf {v? : Option Value} {destination : Destination}
    (h : Settings.destinationOf v? = .ok destination) : (directoryOf destination).Rooted := by
  unfold Settings.destinationOf at h
  split at h
  · cases h
    exact Or.inl rfl
  · cases h
    exact FilePath.rooted_ofString _
  · cases h

/-- The directory of settings starts here or at a root, also where no option names it. -/
theorem rooted_of_ofDocument {path : FilePath} {doc : Value} {s : Settings}
    (h : Settings.ofDocument path doc = .ok s) : (directoryOf s.destination).Rooted := by
  unfold Settings.ofDocument at h
  split at h
  · cases h
    exact Or.inl rfl
  · split at h
    · split at h
      · rename_i hmembers
        cases h
        unfold Settings.ofMembers at hmembers
        dsimp only at hmembers
        split at hmembers
        · rename_i hdestination
          cases hmembers
          exact rooted_of_destinationOf hdestination
        · cases hmembers
      · cases h
    · cases h
  · cases h

/-- So does the destination of settings that have been loaded. -/
theorem rooted_of_load {path? : Option FilePath} {s : Settings}
    (h : Settings.load t path? = .ok s) : (directoryOf s.destination).Rooted := by
  cases path? with
  | none =>
      cases h
      exact Or.inl rfl
  | some path =>
      unfold Settings.load Settings.ofFile at h
      dsimp only at h
      split at h
      · unfold Settings.ofText at h
        split at h
        · exact rooted_of_ofDocument h
        · cases h
        · cases h
        · cases h
      · cases h
      · cases h

/-- An option for the directory wins over the setting. -/
theorem directoryOf_effective (g : Given) (environment : Option String) (s : Settings) :
    directoryOf (effective g environment s).destination =
      (g.value? .output).elim (directoryOf s.destination) .ofString := by
  unfold effective
  cases g.value? .output <;> rfl

/-- The directory of generated schemas starts at a root or at the present directory. -/
theorem Generates.rooted (h : Generates t environment arguments d x) : d.Rooted := by
  cases h with
  | @intro a g s x _ _ _ _ _ settings _ =>
      rw [directoryOf_effective]
      cases g.value? .output with
      | some v => exact FilePath.rooted_ofString v
      | none => exact rooted_of_load settings

end ApiAuthz.CommandLine
