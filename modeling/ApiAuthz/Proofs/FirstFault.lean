/-
The fault of work that is done in order. An attempt made of others has the fault
of the first of them that fails, so its fault is what `List.findSome?` finds in
the list of its parts; that list says what is looked at, and in which order, and
nothing of what is made of it.

There is a law for each way of putting attempts together: a bind looks at what
follows only where the first part gives something (`of?_bind`), a walk has the
fault of its first item with one (`of?_mapM`), and a fold too if what its steps
fail with does not hang on what they go on from (`of?_foldlM`). Progress that is
used as it is given has the first fault of its items or of its stop, whichever
comes first (`firstFault`).
-/
import ApiAuthz.Proofs.Attempt

namespace ApiAuthz

namespace Fault

variable {α β : Type}

/-- The fault of an attempt, if it fails. -/
def of? : Attempt α → Option Fault
  | .ok _ => none
  | .error f => some f

@[simp] theorem of?_ok (a : α) : of? (.ok a) = none := rfl

@[simp] theorem of?_error (f : Fault) : of? (.error f : Attempt α) = some f := rfl

/-- The fault of an attempt is the one it fails with. -/
theorem of?_eq_some {x : Attempt α} {f : Fault} : of? x = some f ↔ x = .error f := by
  cases x with
  | ok a => simp
  | error e => simp

/-- An attempt without a fault has a result. -/
theorem exists_ok_iff {x : Attempt α} : (∃ a, x = .ok a) ↔ of? x = none := by
  cases x with
  | ok a => simp
  | error f => simp

/-- A step that fails ends the work, one that does not leaves it to the next. -/
theorem of?_bind {x : Attempt α} {next : α → Attempt β} {rest : Option Fault}
    (h : ∀ a, x = .ok a → of? (next a) = rest) : of? (x >>= next) = (of? x).or rest := by
  cases x with
  | ok a => exact h a rfl
  | error f => rfl

/-- A change of the result brings no fault and hides none. -/
theorem of?_map {x : Attempt α} (change : α → β) : of? (x.map change) = of? x := by
  cases x with
  | ok a => rfl
  | error f => rfl

/-- What is made of a result does not fail. -/
theorem of?_bind_pure {x : Attempt α} (make : α → β) :
    of? (x >>= fun a => pure (make a)) = of? x := by
  cases x with
  | ok a => rfl
  | error f => rfl

/-- The first fault of a list is that of its head, or else the first one behind it. -/
theorem findSome?_cons_or {fault : β → Option Fault} (b : β) (bs : List β) :
    (b :: bs).findSome? fault = (fault b).or (bs.findSome? fault) := by
  rw [List.findSome?_cons]
  cases fault b with
  | none => rfl
  | some f => rfl

theorem findSome?_congr {fault fault' : β → Option Fault} {bs : List β}
    (h : ∀ b ∈ bs, fault b = fault' b) : bs.findSome? fault = bs.findSome? fault' := by
  induction bs with
  | nil => rfl
  | cons b bs ih =>
      obtain ⟨hb, hbs⟩ := List.forall_mem_cons.1 h
      rw [findSome?_cons_or, findSome?_cons_or, hb, ih hbs]

/-- The first fault of parts is found part by part. -/
theorem findSome?_flatMap {fault : α → Option Fault} (parts : β → List α) (bs : List β) :
    (bs.flatMap parts).findSome? fault = bs.findSome? fun b => (parts b).findSome? fault := by
  induction bs with
  | nil => rfl
  | cons b bs ih => rw [List.flatMap_cons, List.findSome?_append, ih, findSome?_cons_or]

/-- A walk has the fault of the first item that has one. -/
theorem of?_mapM {step : β → Attempt α} (bs : List β) :
    of? (bs.mapM step) = bs.findSome? fun b => of? (step b) := by
  induction bs with
  | nil => rfl
  | cons b bs ih =>
      rw [List.mapM_cons, findSome?_cons_or, ← ih]
      exact of?_bind fun a _ => of?_bind_pure fun as => a :: as

/-- So has a fold whose steps fail whatever has been made before. -/
theorem of?_foldlM {step : α → β → Attempt α} {fault : β → Option Fault}
    (h : ∀ a b, of? (step a b) = fault b) (bs : List β) (a : α) :
    of? (bs.foldlM step a) = bs.findSome? fault := by
  induction bs generalizing a with
  | nil => rfl
  | cons b bs ih =>
      rw [List.foldlM_cons, findSome?_cons_or, ← h a b]
      exact of?_bind fun a' _ => ih a'

end Fault

namespace Progress

variable {α β : Type}

/-- The first fault of what was done, and otherwise the one the work stopped with. -/
def firstFault (fault : α → Option Fault) (p : Progress α) : Option Fault :=
  (p.done.findSome? fault).or p.stop

/-- A change of what is given changes what is looked at. -/
theorem firstFault_map {fault : β → Option Fault} (change : α → β) (p : Progress α) :
    (p.map change).firstFault fault = p.firstFault fun a => fault (change a) := by
  unfold map firstFault
  rw [List.findSome?_map]
  rfl

/-- The first fault of two runs is that of the first one, or else that of the second. -/
theorem firstFault_andThen (fault : α → Option Fault) (p q : Progress α) :
    (p.andThen q).firstFault fault = (p.firstFault fault).or (q.firstFault fault) := by
  unfold andThen firstFault
  cases hstop : p.stop with
  | none =>
      simp only
      rw [List.findSome?_append, Option.or_none, Option.or_assoc]
  | some f =>
      simp only
      rw [Option.or_assoc, Option.some_or, hstop]

/-- The first fault of a run through a list is that of the first step with one. -/
theorem firstFault_through (fault : α → Option Fault) (step : β → Progress α) (bs : List β) :
    (through step bs).firstFault fault = bs.findSome? fun b => (step b).firstFault fault := by
  induction bs with
  | nil => rfl
  | cons b bs ih =>
      rw [Fault.findSome?_cons_or, ← ih]
      exact firstFault_andThen fault (step b) (through step bs)

end Progress

end ApiAuthz
