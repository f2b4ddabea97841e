/-
What the policy writer refuses. It refuses a schema with a report, and the report can be
written: what is named in it was read from JSON text, where names are strings, broken ones
among them (`StringKeyed`), and every string has a form that can be shown. The one other
fault is an integer with more digits than are read (`forSchema_cases`); octets that are not
UTF-8 are refused before that, where the text is read, and broken names after it, where the
policies are written (`Proofs/CommandLine/Policies`).

That names are strings holds of the mapping at the top alone, which is all a report names; so
the induction is on the steps of `members`, and looks neither into items nor into values.
-/
import ApiAuthz.Policy
import ApiAuthz.Proofs.Keyed

namespace ApiAuthz

-- ==================================================== names in JSON text

namespace Json

/-- Keys that are strings, texts or broken. -/
def StringKeyed (ms : Members (Value Broken) Broken) : Prop :=
  ∀ k ∈ Members.keys ms, ∃ ps, k = .ofPoints ps

/-- A name that is put is a string. -/
theorem StringKeyed.put {acc : Members (Value Broken) Broken} (h : StringKeyed acc)
    (name : List CodePoint) (v : Value Broken) :
    StringKeyed (Members.put (.ofPoints name) v acc) := by
  intro k hk
  rw [Members.keys_put] at hk
  split at hk
  · exact h k hk
  · rcases List.mem_append.1 hk with hk | hk
    · exact h k hk
    · exact ⟨name, List.mem_singleton.1 hk⟩

/-- Items are not read as a mapping. -/
theorem items_ne_map {fuel : Nat} {acc : List (Value Broken)} {cs rest : List Char}
    {ms : Members (Value Broken) Broken} :
    items fuel acc cs ≠ .ok (.map ms, rest) := by
  induction fuel generalizing acc cs with
  | zero =>
      intro h
      cases h
  | succ fuel ih =>
      intro h
      unfold items at h
      split at h
      · cases h
      · split at h
        · cases h
        · exact ih h
        · cases h

/-- Members are put under strings. -/
theorem stringKeyed_members {fuel : Nat} {acc ms : Members (Value Broken) Broken}
    {cs rest : List Char} (hacc : StringKeyed acc)
    (h : members fuel acc cs = .ok (.map ms, rest)) : StringKeyed ms := by
  induction fuel generalizing acc cs with
  | zero => cases h
  | succ fuel ih =>
      unfold members at h
      split at h
      · split at h
        · cases h
        · next name _ _ =>
          split at h
          · split at h
            · cases h
            · next v _ _ =>
              have hput := hacc.put name v
              dsimp only at h
              split at h
              · cases h
                exact hput
              · exact ih hput h
              · cases h
          · cases h
      · cases h

theorem stringKeyed_nil : StringKeyed [] := fun _ h => nomatch h

/-- The keys of a mapping read from JSON text are strings. -/
theorem stringKeyed_read {cs : List Char} {ms : Members (Value Broken) Broken}
    (h : read cs = .ok (.map ms)) :
    StringKeyed ms := by
  unfold read at h
  split at h
  · cases h
  · split at h
    · cases h
    · next v rest hv =>
      split at h
      · cases h
        unfold value at hv
        split at hv
        · split at hv <;> cases hv
        · split at hv
          · cases hv
          · exact absurd hv items_ne_map
        · split at hv
          · cases hv
            exact stringKeyed_nil
          · exact stringKeyed_members stringKeyed_nil hv
        · obtain ⟨s, hs⟩ := scalar_of_plain hv
          cases hs
      · cases h

end Json

-- ==================================================== reports

/-- A string can be shown, broken or not. -/
@[simp] theorem Scalar.isShown_ofPoints (ps : List CodePoint) : (ofPoints ps).isShown = true := by
  unfold ofPoints
  split
  · rfl
  · rfl

/-- Names that are strings can be shown in a list. -/
theorem Value.areShownWithin_strings {keys : List (Scalar Broken)}
    (h : ∀ k ∈ keys, ∃ ps, k = .ofPoints ps) :
    areShownWithin [] (keys.map .scalar) = true := by
  rw [areShownWithin_eq_all, List.all_map, List.all_eq_true]
  intro k hk
  obtain ⟨ps, rfl⟩ := h k hk
  exact Scalar.isShown_ofPoints ps

namespace Policy

open Json (StringKeyed)
open Text (points)

/-- A fault that is a report, and one that can be written. -/
def IsReport (f : Fault) : Prop := ∃ cause, f = .reported cause ∧ cause.report.isShown = true

/-- A value read from JSON text names a namespace and actions, or is refused with a report. -/
theorem isReport_of_actionsOf {schema : Value Broken} {f : Fault}
    (hkeys : ∀ ms, schema = .map ms → StringKeyed ms) (h : actionsOf schema = .error f) :
    IsReport f := by
  unfold actionsOf at h
  split at h
  · next name body =>
    split at h
    · cases h
    · cases h
      obtain ⟨ps, rfl⟩ := hkeys _ rfl name List.mem_cons_self
      refine ⟨_, rfl, ?_⟩
      show (Value.map [(.text "namespace", .scalar (Scalar.ofPoints ps))]).isShown = true
      simp only [Value.isShown, Value.isShownWithin, Value.membersAreShownWithin,
        Scalar.isShown_ofPoints]
      rfl
  · next ms _ =>
    cases h
    have hnames := Value.areShownWithin_strings (hkeys ms rfl)
    refine ⟨_, rfl, ?_⟩
    show (Value.map [(.text "namespaces", .list ((Members.keys ms).map .scalar))]).isShown = true
    simp only [Value.isShown, Value.isShownWithin, Value.membersAreShownWithin, hnames]
    rfl
  · cases h
    exact ⟨_, rfl, rfl⟩

/-- A text has two policies for the names that are read from it. -/
theorem forSchema_of_readActions {text : String} {name : List CodePoint}
    {actions : List (List CodePoint)} (h : readActions text = .ok (name, actions)) :
    forSchema text = .ok [adminPolicy name, groupPolicy name actions] := by
  unfold forSchema
  rw [h]
  rfl

/-- A text is refused for its digits as it is; any other names a namespace and actions, or is
refused with a report. -/
theorem forSchema_cases (text : String) :
    (∃ n, Json.read text.toList = .error (.tooManyDigits n) ∧
      forSchema text = .error (.malformed (DigitLimit.unreadWords n))) ∨
    ((∀ n, Json.read text.toList ≠ .error (.tooManyDigits n)) ∧
      ((∃ name actions, readActions text = .ok (name, actions)) ∨
        ∃ f, IsReport f ∧ forSchema text = .error f)) := by
  unfold forSchema readActions readJson
  cases hread : Json.read text.toList with
  | error stop =>
      cases stop with
      | unmet expected rest =>
          refine Or.inr ⟨fun n htoo => ?_, Or.inr ⟨_, ⟨_, rfl, rfl⟩, rfl⟩⟩
          cases htoo
      | tooManyDigits n => exact Or.inl ⟨n, rfl, rfl⟩
  | ok schema =>
      refine Or.inr ⟨fun n htoo => ?_, ?_⟩
      · cases htoo
      · cases hactions : actionsOf schema with
        | ok found => exact Or.inl ⟨found.1, found.2, hactions⟩
        | error f =>
            have hkeys : ∀ ms, schema = .map ms → StringKeyed ms := by
              rintro ms rfl
              exact Json.stringKeyed_read hread
            refine Or.inr ⟨f, isReport_of_actionsOf hkeys hactions, ?_⟩
            show (actionsOf schema >>= _) = _
            rw [hactions]
            rfl

-- ==================================================== halves of pairs

/-- An escape has the half that it escapes, if any. -/
theorem any_isHalf_escapedPoint (p : CodePoint) :
    (escapedPoint p).any CodePoint.isHalf = p.isHalf := by
  by_cases hp : p = .char '\\' ∨ p = .char '"'
  · rw [escapedPoint, if_pos hp, List.any_cons, List.any_cons, List.any_nil, Bool.or_false]
    exact Bool.false_or _
  · rw [escapedPoint, if_neg hp, List.any_cons, List.any_nil, Bool.or_false]

/-- An entity has a half in it where the namespace or the action has one. -/
theorem any_isHalf_actionEntity (name action : List CodePoint) :
    (actionEntity name action).any CodePoint.isHalf =
      (name.any CodePoint.isHalf || action.any CodePoint.isHalf) := by
  have hescaped : (action.flatMap escapedPoint).any CodePoint.isHalf =
      action.any CodePoint.isHalf := by
    rw [List.any_flatMap]
    exact congrArg (action.any ·) (funext any_isHalf_escapedPoint)
  unfold actionEntity
  simp only [List.any_append, Text.any_isHalf_points, hescaped, Bool.or_false]

/-- The policy of the administrators has a half in it where the namespace has one. -/
theorem any_isHalf_adminPolicy (name : List CodePoint) :
    (adminPolicy name).any CodePoint.isHalf = name.any CodePoint.isHalf := by
  unfold adminPolicy
  simp only [List.any_append, Text.any_isHalf_points, Bool.false_or, Bool.or_false]

/-- Items without halves between them bring no half into a list of lines. -/
theorem any_isHalf_intercalate (between : String) (lines : List (List CodePoint)) :
    ((points between).intercalate lines).any CodePoint.isHalf =
      lines.any fun line => line.any CodePoint.isHalf := by
  induction lines with
  | nil => rfl
  | cons line lines ih =>
      cases lines with
      | nil => rw [List.intercalate_singleton, List.any_cons, List.any_nil, Bool.or_false]
      | cons other lines =>
          rw [List.intercalate_cons_cons, List.any_append, List.any_append,
            Text.any_isHalf_points, Bool.or_false, ih]
          rfl

/-- The policy of the group has a half in it where the namespace or an action has one. -/
theorem any_isHalf_groupPolicy (name : List CodePoint) (actions : List (List CodePoint)) :
    (groupPolicy name actions).any CodePoint.isHalf =
      (name.any CodePoint.isHalf || actions.any fun action => action.any CodePoint.isHalf) := by
  have hlines : ((points ",\n").intercalate
      (actions.map fun a => points "        " ++ actionEntity name a)).any CodePoint.isHalf =
        actions.any fun action =>
          name.any CodePoint.isHalf || action.any CodePoint.isHalf := by
    rw [any_isHalf_intercalate, List.any_map]
    refine congrArg (actions.any ·) (funext fun action => ?_)
    simp only [Function.comp_apply, List.any_append, Text.any_isHalf_points,
      any_isHalf_actionEntity, Bool.false_or]
  unfold groupPolicy
  simp only [List.any_append, Text.any_isHalf_points, hlines, Bool.false_or, Bool.or_false]
  -- with a half in the namespace the policy has one, whatever the actions are
  cases name.any CodePoint.isHalf with
  | true => rfl
  | false => simp only [Bool.false_or]

/-- Names without halves give a policy of the group without halves. -/
theorem any_isHalf_groupPolicy_of_whole {name : List CodePoint}
    {actions : List (List CodePoint)} (hname : name.any CodePoint.isHalf = false)
    (hactions : ∀ a ∈ actions, a.any CodePoint.isHalf = false) :
    (groupPolicy name actions).any CodePoint.isHalf = false := by
  rw [any_isHalf_groupPolicy, hname, Bool.false_or, List.any_eq_false]
  exact fun a ha => Bool.eq_false_iff.1 (hactions a ha)

end Policy

end ApiAuthz
