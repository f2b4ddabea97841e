/-
Attempts and progress taken apart. A chain of attempts gives a result exactly
if each of its links does; a walk over a list gives one exactly if every item
does, and then its results stand beside the items in order.

# Results without faults

Two ways to come to a result may fail differently, and often only their results
matter: a report shows what was left out, or which of two faults was met first.
The second half is about results alone (`toOption`). It is stable under everything
attempts are built with, so that an equality of results goes through a bind, a
walk and a fold (`toOption_bind_congr`, `toOption_mapM_congr`,
`toOption_foldlM_congr`).

# Progress

Progress is work that gives items and may stop with a fault. Two pieces of work
behind one another go on only if the first did not stop (`stop_andThen`,
`done_andThen`), and a walk through a list is its steps behind one another
(`stop_through`, `done_through`). Asking for all items makes an attempt of
progress (`all_eq_ok`); for those the laws of attempts hold again.
-/
import ApiAuthz.Progress
import Mathlib.Data.List.Forall2

namespace ApiAuthz

namespace Attempt

variable {α β : Type}

/-- Two steps give a result where the second gives it for what the first one gave. -/
theorem bind_eq_ok {x : Attempt α} {f : α → Attempt β} {b : β} :
    x >>= f = .ok b ↔ ∃ a, x = .ok a ∧ f a = .ok b := by
  cases x with
  | error e => simp [bind, Except.bind]
  | ok a => simp [bind, Except.bind]

/-- A change of the result does not fail. -/
theorem map_eq_ok {ε : Type} {x : Except ε α} {f : α → β} {b : β} :
    x.map f = .ok b ↔ ∃ a, x = .ok a ∧ f a = b := by
  cases x with
  | error e => simp [Except.map]
  | ok a => simp [Except.map]

/-- Nor does it hide a failure. -/
theorem map_eq_error {ε : Type} {x : Except ε α} {f : α → β} {e : ε} :
    x.map f = .error e ↔ x = .error e := by
  cases x with
  | error e => simp [Except.map]
  | ok a => simp [Except.map]

theorem pure_eq_ok {a b : α} : (pure a : Attempt α) = .ok b ↔ a = b := by
  simp [pure, Except.pure]

/-- What is no failure is a result; this is how one is found by evaluation. -/
theorem exists_eq_ok {x : Attempt α} (h : x.isOk = true) : ∃ a, x = .ok a := by
  cases x with
  | error e => cases h
  | ok a => exact ⟨a, rfl⟩

/-- Results can be compared where faults cannot. -/
theorem eq_ok_of_toOption {x : Attempt α} {a : α} (h : x.toOption = some a) : x = .ok a := by
  cases x with
  | error e => cases h
  | ok b =>
      cases h
      rfl

/-- The results of a walk stand beside the items they came from. -/
theorem mapM_eq_ok {f : α → Attempt β} {xs : List α} {ys : List β} :
    xs.mapM f = .ok ys ↔ List.Forall₂ (fun x y => f x = .ok y) xs ys := by
  induction xs generalizing ys with
  | nil =>
      rw [List.mapM_nil, pure_eq_ok, List.forall₂_nil_left_iff]
      exact eq_comm
  | cons x xs ih =>
      rw [List.mapM_cons, bind_eq_ok, List.forall₂_cons_left_iff]
      constructor
      · rintro ⟨y, hy, h⟩
        obtain ⟨zs, hzs, h⟩ := bind_eq_ok.1 h
        exact ⟨y, zs, hy, ih.1 hzs, (pure_eq_ok.1 h).symm⟩
      · rintro ⟨y, zs, hy, hzs, rfl⟩
        exact ⟨y, hy, bind_eq_ok.2 ⟨zs, ih.2 hzs, rfl⟩⟩

/-- What stands on the right has a partner on the left. -/
theorem exists_of_mem_right {R : α → β → Prop} {xs : List α} {ys : List β}
    (h : List.Forall₂ R xs ys) {y : β} (hy : y ∈ ys) : ∃ x ∈ xs, R x y := by
  induction h with
  | nil => cases hy
  | cons hr _ ih =>
      rcases List.mem_cons.1 hy with rfl | hy
      · exact ⟨_, List.mem_cons_self .., hr⟩
      · obtain ⟨x, hx, hr⟩ := ih hy
        exact ⟨x, List.mem_cons_of_mem _ hx, hr⟩

/-- What every step preserves holds after all of them. -/
theorem foldlM_invariant {P : β → Prop} {step : β → α → Attempt β}
    (hstep : ∀ {b a b'}, P b → step b a = .ok b' → P b') {xs : List α} {b b' : β} (hb : P b)
    (h : xs.foldlM step b = .ok b') : P b' := by
  induction xs generalizing b with
  | nil =>
      obtain rfl := pure_eq_ok.1 h
      exact hb
  | cons x xs ih =>
      rw [List.foldlM_cons] at h
      obtain ⟨c, hc, h⟩ := bind_eq_ok.1 h
      exact ih (hstep hb hc) h

/-- A fold whose steps attempt something of the item alone attempts all of it first. -/
theorem foldlM_map {γ : Type} {f : α → Attempt β} {g : γ → β → γ} (xs : List α) (c : γ) :
    xs.foldlM (fun c x => (f x).map (g c)) c = (xs.mapM f).map fun ys => ys.foldl g c := by
  induction xs generalizing c with
  | nil => rfl
  | cons x xs ih =>
      rw [List.foldlM_cons, List.mapM_cons]
      cases f x with
      | error e => rfl
      | ok y =>
          refine (ih (g c y)).trans ?_
          cases xs.mapM f <;> rfl

-- ==================================================== the same results

theorem toOption_eq_some {x : Attempt α} {a : α} : x.toOption = some a ↔ x = .ok a := by
  cases x with
  | error e => simp [Except.toOption]
  | ok b => simp [Except.toOption]

theorem toOption_eq_none {x : Attempt α} : x.toOption = none ↔ ∃ f, x = .error f := by
  cases x with
  | error f => simp [Except.toOption]
  | ok a => simp [Except.toOption]

/-- Attempts with the same results, whatever their faults, go on to the same results. -/
theorem toOption_bind_congr {x y : Attempt α} {f g : α → Attempt β}
    (hx : x.toOption = y.toOption) (hf : ∀ a, (f a).toOption = (g a).toOption) :
    (x >>= f).toOption = (y >>= g).toOption := by
  cases x with
  | error e =>
      cases y with
      | error e' => rfl
      | ok b => cases hx
  | ok a =>
      cases y with
      | error e' => cases hx
      | ok b =>
          cases hx
          exact hf a

/-- Steps with the same results have the same lists of results, whatever their faults are. -/
theorem toOption_mapM_congr {f g : α → Attempt β} {xs : List α}
    (h : ∀ x ∈ xs, (f x).toOption = (g x).toOption) :
    (xs.mapM f).toOption = (xs.mapM g).toOption := by
  induction xs with
  | nil => rfl
  | cons x xs ih =>
      rw [List.forall_mem_cons] at h
      rw [List.mapM_cons, List.mapM_cons]
      refine toOption_bind_congr h.1 fun y => ?_
      exact toOption_bind_congr (ih h.2) fun _ => rfl

/-- The same of steps that go on from one another's result. -/
theorem toOption_foldlM_congr {f g : β → α → Attempt β}
    (h : ∀ b a, (f b a).toOption = (g b a).toOption) (xs : List α) (b : β) :
    (xs.foldlM f b).toOption = (xs.foldlM g b).toOption := by
  induction xs generalizing b with
  | nil => rfl
  | cons x xs ih =>
      rw [List.foldlM_cons, List.foldlM_cons]
      exact toOption_bind_congr (h b x) fun c => ih c

end Attempt

namespace Progress

variable {α β : Type}

/-- Nothing ends two runs if nothing ends either of them. -/
theorem stop_andThen {p q : Progress α} :
    (p.andThen q).stop = none ↔ p.stop = none ∧ q.stop = none := by
  unfold andThen
  cases h : p.stop with
  | none => simp
  | some f => simp [h]

/-- Where nothing ends the first run, what the second one gives stands behind what the first gave.
-/
theorem done_andThen {p q : Progress α} (h : p.stop = none) :
    (p.andThen q).done = p.done ++ q.done := by
  unfold andThen
  rw [h]

/-- Nothing ends a run through a list if nothing ends any of its steps. -/
theorem stop_through {step : β → Progress α} {bs : List β} :
    (through step bs).stop = none ↔ ∀ b ∈ bs, (step b).stop = none := by
  induction bs with
  | nil => simp [through, complete]
  | cons b bs ih =>
      rw [List.forall_mem_cons, ← ih]
      exact stop_andThen

theorem through_congr {step step' : β → Progress α} {bs : List β}
    (h : ∀ b ∈ bs, step b = step' b) : through step bs = through step' bs := by
  induction bs with
  | nil => rfl
  | cons b bs ih =>
      rw [List.forall_mem_cons] at h
      rw [through, through, h.1, ih h.2]

/-- Work that goes through every step without stopping has done what each step
did, one after the other. -/
theorem done_through {step : β → Progress α} {bs : List β}
    (h : (through step bs).stop = none) :
    (through step bs).done = bs.flatMap fun b => (step b).done := by
  induction bs with
  | nil => rfl
  | cons b bs ih =>
      obtain ⟨hb, hbs⟩ := stop_andThen.1 h
      rw [List.flatMap_cons, ← ih hbs]
      exact done_andThen hb

/-- All of two runs is all of the first and then all of the second. -/
theorem all_andThen (p q : Progress α) :
    (p.andThen q).all = p.all >>= fun done => q.all >>= fun rest => pure (done ++ rest) := by
  unfold all andThen
  cases hp : p.stop with
  | some f => simp [hp, bind, Except.bind]
  | none => cases hq : q.stop <;> simp [bind, Except.bind, pure, Except.pure]

/-- Steps with the same results go through to the same results. -/
theorem toOption_all_through {step step' : β → Progress α} {bs : List β}
    (h : ∀ b ∈ bs, (step b).all.toOption = (step' b).all.toOption) :
    (through step bs).all.toOption = (through step' bs).all.toOption := by
  induction bs with
  | nil => rfl
  | cons b bs ih =>
      rw [List.forall_mem_cons] at h
      rw [through, through, all_andThen, all_andThen]
      refine Attempt.toOption_bind_congr h.1 fun done => ?_
      exact Attempt.toOption_bind_congr (ih h.2) fun _ => rfl

theorem toOption_all_ofAttempt (x : Attempt α) :
    (ofAttempt x).all.toOption = x.toOption.map fun a => [a] := by
  cases x <;> rfl

/-- All is given if nothing ended the giving. -/
theorem all_eq_ok {p : Progress α} {done : List α} :
    p.all = .ok done ↔ p.stop = none ∧ p.done = done := by
  unfold all
  cases p.stop with
  | none => simp
  | some f => simp

end Progress

end ApiAuthz
