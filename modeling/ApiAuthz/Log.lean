/-
Log lines. What is logged stands beside the outcome of the work, so that the
lines of failing work are kept. A line with an integer beyond the limit on
digits cannot be shown; where lines are shown as they are logged, the work ends
at the first such line.
-/
import ApiAuthz.Fault

namespace ApiAuthz

/-- The levels that are used. -/
inductive LogLevel where
  | debug
  | warning
  deriving DecidableEq

namespace LogLevel

/-- The level as it is shown. -/
def name : LogLevel → String
  | .debug => "DEBUG"
  | .warning => "WARNING"

end LogLevel

/-- A line of log, and what it is about. -/
structure LogLine where
  level : LogLevel
  source : String
  /-- None if the line cannot be shown. -/
  message : Option String
  deriving DecidableEq

namespace LogLine

/-- A line about a value, whose text stands between two others. -/
def about {ε : Type} [HasPoints ε] (level : LogLevel) (source before : String) (v : Value ε)
    (after : String) : LogLine :=
  ⟨level, source, if v.isShown then some (before ++ v.display ++ after) else none⟩

/-- The line as it is shown, if it can be. -/
def text? (l : LogLine) : Option String :=
  l.message.map fun m => l.level.name ++ " " ++ l.source ++ ": " ++ m

end LogLine

/-- The lines logged, and how the work ended. -/
structure Logged (α : Type) where
  lines : List LogLine
  outcome : Attempt α

namespace Logged

variable {α β : Type}

/-- Work that logs nothing. -/
def silent (outcome : Attempt α) : Logged α := ⟨[], outcome⟩

/-- Goes on with what the work gave, if it gave anything. -/
def andThen (l : Logged α) (next : α → Logged β) : Logged β :=
  match l.outcome with
  | .error f => ⟨l.lines, .error f⟩
  | .ok a => ⟨l.lines ++ (next a).lines, (next a).outcome⟩

/-- The work as it goes when every line is shown: it ends at the first line that
cannot be. -/
def observed (l : Logged α) : Logged α :=
  let shown := l.lines.takeWhile fun line => line.message.isSome
  if shown.length = l.lines.length then l else ⟨shown, .error .unshown⟩

end Logged

end ApiAuthz
