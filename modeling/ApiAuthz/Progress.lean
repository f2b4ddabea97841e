/-
Work that is done item by item and may stop at one of them: what was done until
then, and the fault it stopped with, if it did. Going through a list of steps
stops with the first one that does.
-/
import ApiAuthz.Fault

namespace ApiAuthz

/-- What has been given so far, and the fault that ended the giving, if any. -/
structure Progress (α : Type) where
  done : List α
  stop : Option Fault

namespace Progress

variable {α β : Type}

/-- Everything was given. -/
def complete (done : List α) : Progress α := ⟨done, none⟩

/-- One item, or the fault it has. -/
def ofAttempt : Attempt α → Progress α
  | .ok a => ⟨[a], none⟩
  | .error f => ⟨[], some f⟩

/-- Goes on with the second unless the first stopped. -/
def andThen (p q : Progress α) : Progress α :=
  match p.stop with
  | some _ => p
  | none => ⟨p.done ++ q.done, q.stop⟩

/-- Goes through the steps in order. -/
def through (step : β → Progress α) : List β → Progress α
  | [] => complete []
  | b :: bs => (step b).andThen (through step bs)

/-- The same progress with every item changed. -/
def map (f : α → β) (p : Progress α) : Progress β := ⟨p.done.map f, p.stop⟩

/-- Everything done, if the work did not stop. -/
def all (p : Progress α) : Attempt (List α) :=
  match p.stop with
  | some f => .error f
  | none => .ok p.done

end Progress

end ApiAuthz
