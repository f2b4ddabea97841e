/-
Documents that are the same but for the order of members, in any of their mappings and at
any level (`Value.Reordered`). Whatever is asked of a value has the same answer, or answers
that are the same but for order, as long as no mapping has two keys that are the same: the
accessors one by one, up to `field?` and `field`.

The order of the items of a list is no such matter. So only a mapping that is gone through as
if it were a list shows its order.

# The relation

`Reordered` is inductive along values. A mapping has partners side by side first and then
another order, so that the constructor has no list of its own to choose;
`reordered_map` is the form to use, with both at once (`Matched`, `SameKey`). It is a relation
of values that may hold themselves, too: under a loop the insides are reordered, and so is what
the loop stands for (`body_reordered`).

That no two keys are the same has to hold at every level (`Value.Keyed`) and goes over to the
other value (`keyed`). It is used once, in `field?_reordered`: with two keys that are the same
the one that comes first would be found, and that depends on the order.
-/
import ApiAuthz.Proofs.Keyed
import ApiAuthz.Proofs.Matched

namespace ApiAuthz

namespace Value

/-- The same value but for the order of members. -/
inductive Reordered : Value → Value → Prop
  | scalar (s : Scalar) : Reordered (.scalar s) (.scalar s)
  | list {vs ws : List Value} (h : List.Forall₂ Reordered vs ws) : Reordered (.list vs) (.list ws)
  | pair {a b a' b' : Value} (ha : Reordered a a') (hb : Reordered b b') :
      Reordered (.pair a b) (.pair a' b')
  | set (items : List Scalar) : Reordered (.set items) (.set items)
  | map {ms ms' ns : Members Value} (h : List.Forall₂ (SameKey Reordered) ms ms')
      (hp : ms'.Perm ns) : Reordered (.map ms) (.map ns)
  | looped (n : Nat) {v w : Value} (h : Reordered v w) : Reordered (.looped n v) (.looped n w)

/-- Mappings are reordered member by member, in any order. -/
theorem reordered_map {ms ns : Members Value} :
    (map ms).Reordered (map ns) ↔ Matched (SameKey Reordered) ms ns := by
  constructor
  · intro h
    cases h with
    | map h hp => exact ⟨_, h, hp⟩
  · rintro ⟨ms', h, hp⟩
    exact .map h hp

/-- Mappings with text keys, by their values. -/
theorem reordered_object {ms ns : List (String × Value)}
    (h : Matched (SameKey Reordered) ms ns) : (object ms).Reordered (object ns) := by
  refine reordered_map.2 (h.map fun m n hmn => ?_)
  cases hmn with
  | intro hvalue => exact .intro hvalue

theorem reordered_fields {ms ns : List (String × Value)}
    (h : List.Forall₂ (SameKey Reordered) ms ns) : (object ms).Reordered (object ns) :=
  reordered_object (.of_forall₂ h)

namespace Reordered

/-- A value is a reordering of itself. -/
theorem refl (v : Value) : v.Reordered v := by
  induction v with
  | scalar s => exact .scalar s
  | list items ih => exact .list (List.forall₂_same.2 ih)
  | pair a b iha ihb => exact .pair iha ihb
  | set items => exact .set items
  | map ms ih => exact .map (List.forall₂_same.2 fun m hm => .intro (ih m hm)) (List.Perm.refl ms)
  | looped n v ih => exact .looped n ih

/-- Members in another order are a reordering. -/
theorem of_perm {ms ns : Members Value} (h : ms.Perm ns) :
    (Value.map ms).Reordered (.map ns) := by
  refine reordered_map.2 ((Matched.of_perm h).mono fun m n hmn => ?_)
  rw [hmn]
  exact .intro (refl n.2)

/-- No two keys are the same in one if they are not in the other. -/
theorem keyed {v w : Value} (h : v.Reordered w) (hv : v.Keyed) : w.Keyed := by
  induction hv generalizing w with
  | scalar s =>
      cases h
      exact .scalar s
  | list _ ih =>
      cases h with
      | list h =>
          refine .list fun w hw => ?_
          obtain ⟨v, hv, hvw⟩ := Attempt.exists_of_mem_right h hw
          exact ih v hv hvw
  | pair _ _ iha ihb =>
      cases h with
      | pair ha hb => exact .pair (iha ha) (ihb hb)
  | set items =>
      cases h
      exact .set items
  | map hd _ ih =>
      cases h with
      | map h hp =>
          refine .map (Members.distinct_of_matched ⟨_, h, hp⟩ hd) fun n hn => ?_
          obtain ⟨m, hm, hmn⟩ := Matched.exists_of_mem_right ⟨_, h, hp⟩ hn
          cases hmn with
          | intro hvw => exact ih _ hm hvw
  | looped _ ih =>
      cases h with
      | looped n h => exact .looped (ih h)

-- ==================================================== what is asked of a value

variable {v w : Value}

/-- What holds itself is reordered with what it holds. -/
theorem body_reordered (h : v.Reordered w) : v.body.Reordered w.body := by
  induction v generalizing w with
  | looped n v ih =>
      cases h with
      | looped n h =>
          have hunfolded := ih h
          exact hunfolded
  | scalar s =>
      cases h
      exact .scalar s
  | list items _ =>
      cases h with
      | list h => exact .list h
  | pair a b _ _ =>
      cases h with
      | pair ha hb => exact .pair ha hb
  | set items =>
      cases h
      exact .set items
  | map ms _ =>
      cases h with
      | map h hp => exact .map h hp

/-- Where one has members the other has them too. -/
theorem members?_reordered (h : v.Reordered w) :
    Option.Rel (Matched (SameKey Reordered)) v.members? w.members? := by
  have hbody := h.body_reordered
  unfold members?
  generalize v.body = b at hbody ⊢
  generalize w.body = b' at hbody ⊢
  cases hbody with
  | map h hp => exact .some ⟨_, h, hp⟩
  | scalar s => exact .none
  | list h => exact .none
  | pair ha hb => exact .none
  | set items => exact .none
  | looped n h => exact .none

/-- A reordering is of the same kind. -/
theorem isMap_eq (h : v.Reordered w) : w.isMap = v.isMap := by
  have hmembers := h.members?_reordered
  unfold isMap
  generalize v.members? = ms? at hmembers ⊢
  generalize w.members? = ns? at hmembers ⊢
  cases hmembers <;> rfl

/-- It counts as true or false alike. -/
theorem truthy_eq (h : v.Reordered w) : w.truthy = v.truthy := by
  induction v generalizing w with
  | list items _ =>
      cases h with
      | list h =>
          have hempty := (Matched.of_forall₂ h).isEmpty_eq
          exact congrArg not hempty
  | map ms _ =>
      cases h with
      | map h hp =>
          have hempty := Matched.isEmpty_eq ⟨_, h, hp⟩
          exact congrArg not hempty
  | looped n v ih =>
      cases h with
      | looped n h =>
          have hunfolded := ih h
          exact hunfolded
  | scalar s =>
      cases h
      rfl
  | pair a b _ _ =>
      cases h
      rfl
  | set items =>
      cases h
      rfl

theorem isNull_eq (h : v.Reordered w) : w.isNull = v.isNull := by
  cases h <;> rfl

theorem isBlank_eq (h : v.Reordered w) : w.isBlank = v.isBlank := by
  cases h <;> rfl

/-- It is the same text, if it is one. -/
theorem text?_eq (h : v.Reordered w) : w.text? = v.text? := by
  cases h <;> rfl

/-- It is the same key, if it can be one. -/
theorem key?_eq (h : v.Reordered w) : w.key? = v.key? := by
  cases h <;> rfl

/-- The fields of keyed values are found under the same names. -/
theorem field?_reordered (h : v.Reordered w) (hv : v.Keyed) (name : String) :
    Option.Rel Reordered (v.field? name) (w.field? name) := by
  have hmembers := h.members?_reordered
  have hdistinct : ∀ ms, v.members? = some ms → Members.Distinct ms :=
    fun ms hms => (hv.members hms).1
  unfold field?
  generalize v.members? = ms? at hmembers hdistinct ⊢
  generalize w.members? = ns? at hmembers ⊢
  cases hmembers with
  | none => exact .none
  | some hmatched => exact Members.find?_matched hmatched (hdistinct _ rfl) _

/-- So are those that are null where nothing is found. -/
theorem field_reordered (h : v.Reordered w) (hv : v.Keyed) (name : String) :
    (v.field name).Reordered (w.field name) := by
  have hfield := h.field?_reordered hv name
  unfold field
  generalize v.field? name = v? at hfield ⊢
  generalize w.field? name = w? at hfield ⊢
  cases hfield with
  | none => exact .scalar .null
  | some h => exact h

end Reordered

end Value

end ApiAuthz
