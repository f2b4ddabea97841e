/-
Scans that come to the end of the text. `complete` gives the tokens of a scan that does;
otherwise no document is read from them (`streamEnd_not_mem_run`). A scan `Leads` to another
one if the two come to the same, and `Fails` if it never comes to the end. An `Outcome` says
which of the two it is and by what condition, and outcomes follow on each other like steps do.

# Fuel

A scan has fuel for each of its steps, and how many steps there are is not known where it starts.
`Leads` has the number of steps in it, with the one thing that is to be known of it: they take at
least as many characters. So the fuel of the whole text, one step for each of its characters and one
for the end, is enough however the steps are put together (`Leads.trans`), and more fuel changes
nothing (`complete_succ`, `complete_add`).

# Failing

A step that fails ends the scan, and whatever leads to it fails as well (`Leads.fails`). It leaves
a flaw among the tokens, but the end of the text is not among them, and this is all that has to be
known of a scan that fails: no document is read without the end
(`Proofs/Yaml/Reading`).
-/
import ApiAuthz.Proofs.Yaml.Flaws

namespace ApiAuthz.Yaml.Scan

variable {s s' s'' : Scan} {fuel : Nat} {ts : List Token}

-- ==================================================== complete scans

/-- The end of the text is found. -/
def isOver (s : Scan) : Bool :=
  match s.tokens with
  | .streamEnd :: _ => true
  | _ => false

/-- The tokens of a scan that comes to the end of the text. -/
def complete : Nat → Scan → Option (List Token)
  | 0, _ => none
  | fuel + 1, s =>
    match s.step with
    | .error _ => none
    | .ok s' => if s'.isOver then some s'.tokens.reverse else complete fuel s'

/-- A scan is complete if it is over behind its next step, or completes from there. -/
theorem complete_of_step (h : s.step = .ok s') :
    complete (fuel + 1) s = if s'.isOver then some s'.tokens.reverse else complete fuel s' := by
  rw [complete, h]

/-- A flaw keeps it from being complete. -/
theorem complete_of_flaw {f : Flaw} (h : s.step = .error f) : complete fuel s = none := by
  cases fuel with
  | zero => rfl
  | succ fuel => rw [complete, h]

theorem run_of_step (h : s.step = .ok s') :
    run (fuel + 1) s = if s'.isOver then s'.tokens.reverse else run fuel s' := by
  rw [run, h]
  unfold isOver
  dsimp only
  cases s'.tokens with
  | nil => rfl
  | cons t ts => cases t <;> rfl

/-- The tokens of a complete scan are those it comes to. -/
theorem run_of_complete (h : complete fuel s = some ts) : run fuel s = ts := by
  induction fuel generalizing s with
  | zero => cases h
  | succ fuel ih =>
      cases hs : s.step with
      | error f =>
          rw [complete_of_flaw hs] at h
          cases h
      | ok s' =>
          rw [complete_of_step hs] at h
          rw [run_of_step hs]
          split at h
          · next hover =>
            rw [if_pos hover]
            exact Option.some.inj h
          · next hover =>
            rw [if_neg hover]
            exact ih h

/-- A scan that does not come to the end of the text leaves it out of the tokens. -/
theorem streamEnd_not_mem_run (hs : s.Unended) (h : complete fuel s = none) :
    .streamEnd ∉ run fuel s := by
  induction fuel generalizing s with
  | zero => exact fun hmem => hs _ (List.mem_reverse.1 hmem) .streamEnd
  | succ fuel ih =>
      cases hstep : s.step with
      | error f =>
          rw [run, hstep]
          intro hmem
          rcases List.mem_append.1 hmem with hmem | hmem
          · exact hs _ (List.mem_reverse.1 (List.mem_of_mem_take hmem)) .streamEnd
          · cases List.mem_singleton.1 hmem
      | ok s' =>
          rw [complete_of_step hstep] at h
          rw [run_of_step hstep]
          split at h
          · cases h
          · next hover =>
            rw [if_neg hover]
            refine ih ((unended_or_ended hs hstep).resolve_right ?_) h
            rintro ⟨ts, heq, _⟩
            unfold isOver at hover
            rw [heq] at hover
            exact hover rfl

/-- More fuel does not change them. -/
theorem complete_succ (h : complete fuel s = some ts) : complete (fuel + 1) s = some ts := by
  induction fuel generalizing s with
  | zero => cases h
  | succ fuel ih =>
      cases hs : s.step with
      | error f =>
          rw [complete_of_flaw hs] at h
          cases h
      | ok s' =>
          rw [complete_of_step hs] at h ⊢
          split at h
          · next hover => rwa [if_pos hover]
          · next hover =>
            rw [if_neg hover]
            exact ih h

/-- However much more it is. -/
theorem complete_add (n : Nat) (h : complete fuel s = some ts) :
    complete (fuel + n) s = some ts := by
  induction n with
  | zero => exact h
  | succ n ih => exact complete_succ ih

-- ==================================================== what a scan leads to

/-- The two scans come to the same, and the second has as many characters less before it as it
takes steps to get there. -/
def Leads (s s' : Scan) : Prop :=
  ∃ n, n + s'.place.rest.length ≤ s.place.rest.length ∧
    ∀ fuel, complete (fuel + n) s = complete fuel s'

/-- The scan does not come to the end of the text. -/
def Fails (s : Scan) : Prop := ∀ fuel, complete fuel s = none

theorem Leads.refl (s : Scan) : Leads s s := ⟨0, by omega, fun _ => rfl⟩

/-- What leads on leads on from there. -/
theorem Leads.trans (h : Leads s s') (h' : Leads s' s'') : Leads s s'' := by
  obtain ⟨n, hn, hrun⟩ := h
  obtain ⟨m, hm, hrun'⟩ := h'
  refine ⟨m + n, by omega, fun fuel => ?_⟩
  rw [← Nat.add_assoc, hrun, hrun']

/-- A step that takes something leads on. -/
theorem leads_of_step (h : s.step = .ok s') (hover : s'.isOver = false)
    (hless : s'.place.rest.length < s.place.rest.length) : Leads s s' := by
  refine ⟨1, by omega, fun fuel => ?_⟩
  rw [complete_of_step h, hover]
  rfl

/-- A flaw is a failure. -/
theorem fails_of_step {f : Flaw} (h : s.step = .error f) : Fails s := fun _ => complete_of_flaw h

/-- What leads to a failure fails. -/
theorem Leads.fails (h : Leads s s') (hs' : Fails s') : Fails s := by
  obtain ⟨n, _, hrun⟩ := h
  intro fuel
  cases hc : complete fuel s with
  | none => rfl
  | some ts =>
      have hmore := complete_add n hc
      rw [hrun, hs'] at hmore
      cases hmore

-- ==================================================== outcomes

/-- Under the condition the scan leads to such a one, and otherwise it fails. -/
structure Outcome (P : Prop) (s : Scan) (Q : Scan → Prop) : Prop where
  leads : P → ∃ s', Leads s s' ∧ Q s'
  fails : ¬P → Fails s

variable {P P' : Prop} {Q Q' : Scan → Prop}

/-- Where nothing is asked a scan leads on. -/
theorem Outcome.of_leads (h : ∃ s', Leads s s' ∧ Q s') : Outcome True s Q :=
  ⟨fun _ => h, fun hnot => absurd trivial hnot⟩

/-- One outcome behind the other. -/
theorem Outcome.bind (h : Outcome P s Q) (h' : ∀ s', Q s' → Outcome P' s' Q') :
    Outcome (P ∧ P') s Q' := by
  constructor
  · rintro ⟨hP, hP'⟩
    obtain ⟨s', hleads, hs'⟩ := h.leads hP
    obtain ⟨s'', hleads', hs''⟩ := (h' s' hs').leads hP'
    exact ⟨s'', hleads.trans hleads', hs''⟩
  · intro hnot
    by_cases hP : P
    · obtain ⟨s', hleads, hs'⟩ := h.leads hP
      exact hleads.fails ((h' s' hs').fails fun hP' => hnot ⟨hP, hP'⟩)
    · exact h.fails hP

/-- What follows where the scan leads anyway. -/
theorem Outcome.of_bind (h : ∃ s', Leads s s' ∧ Q s') (h' : ∀ s', Q s' → Outcome P s' Q') :
    Outcome P s Q' := by
  obtain ⟨s', hleads, hs'⟩ := h
  constructor
  · intro hP
    obtain ⟨s'', hleads', hs''⟩ := (h' s' hs').leads hP
    exact ⟨s'', hleads.trans hleads', hs''⟩
  · exact fun hP => hleads.fails ((h' s' hs').fails hP)

/-- What it leads to may be said with less. -/
theorem Outcome.imp (h : Outcome P s Q) (hQ : ∀ s', Q s' → Q' s') : Outcome P s Q' :=
  ⟨fun hP => (h.leads hP).imp fun s' => And.imp_right (hQ s'), h.fails⟩

/-- What is asked may be said otherwise. -/
theorem Outcome.congr (h : Outcome P s Q) (hP : P' ↔ P) : Outcome P' s Q :=
  ⟨fun hP' => h.leads (hP.1 hP'), fun hP' => h.fails (mt hP.2 hP')⟩

end ApiAuthz.Yaml.Scan
