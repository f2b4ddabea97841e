/-
Lists that agree item by item in some order (`Matched`), and attempts that both fail or have
results that agree (`Attempt.Alike`). Walks over lists that agree are attempts that do
(`Attempt.alike_mapM_matched`): whether a walk has a result is no matter of the order, and
its results come in the order of the items.

For members, order aside, it is their keys that say which belong together (`SameKey`). As
long as no two keys are the same, they are found alike (`Members.find?_matched`).

# One relation for order and for change

Two documents may differ in the order of their members and, inside them, in the order of other
members. So items have to be permuted and related at once: `Matched R` is a list of partners
side by side and a permutation of it. Every lemma about it is proved for the two halves, and
those about attempts likewise: `alike_mapM_forall₂` for partners side by side,
`alike_mapM_perm` for another order, and `Alike.comp` puts one behind the other.

# Faults are not compared

A walk stops at its first fault, and in another order another one may come first. That both
fail is all that can be said, so `Alike` says no more; where faults are to be compared as well
the order has to be kept (`Proofs/Attempt`). A fold goes on from one result to the next, and
its steps have to be taken in the order of the items: `alike_foldlM` is for partners side by
side only.
-/
import ApiAuthz.Proofs.Attempt
import ApiAuthz.Proofs.Members
import Mathlib.Data.List.Perm.Basic

namespace ApiAuthz

variable {α β γ δ : Type}

-- ==================================================== lists

/-- The items of two lists agree, in some order. -/
def Matched (R : α → β → Prop) (xs : List α) (ys : List β) : Prop :=
  ∃ zs, List.Forall₂ R xs zs ∧ zs.Perm ys

namespace Matched

variable {R : α → β → Prop} {S : γ → δ → Prop} {xs : List α} {ys : List β}

/-- Partners may stand side by side. -/
theorem of_forall₂ (h : List.Forall₂ R xs ys) : Matched R xs ys := ⟨ys, h, .refl ys⟩

/-- A list has itself for partners in any order. -/
theorem of_perm {xs ys : List α} (h : xs.Perm ys) : Matched Eq xs ys :=
  ⟨xs, List.forall₂_refl xs, h⟩

theorem nil : Matched R [] [] := of_forall₂ .nil

/-- Partners stay so under a weaker relation. -/
theorem mono {R' : α → β → Prop} (hR : ∀ x y, R x y → R' x y) (h : Matched R xs ys) :
    Matched R' xs ys := by
  obtain ⟨zs, hzs, hp⟩ := h
  exact ⟨zs, hzs.imp hR, hp⟩

/-- Lists with partners are put behind one another. -/
theorem append {xs' : List α} {ys' : List β} (h : Matched R xs ys) (h' : Matched R xs' ys') :
    Matched R (xs ++ xs') (ys ++ ys') := by
  obtain ⟨zs, hzs, hp⟩ := h
  obtain ⟨zs', hzs', hp'⟩ := h'
  exact ⟨zs ++ zs', List.rel_append hzs hzs', hp.append hp'⟩

/-- Partners are changed side by side. -/
theorem map {f : α → γ} {g : β → δ} (hR : ∀ x y, R x y → S (f x) (g y)) (h : Matched R xs ys) :
    Matched S (xs.map f) (ys.map g) := by
  obtain ⟨zs, hzs, hp⟩ := h
  refine ⟨zs.map g, ?_, hp.map g⟩
  rw [List.forall₂_map_left_iff, List.forall₂_map_right_iff]
  exact hzs.imp hR

/-- Each gives way to items that have partners in turn. -/
theorem flatMap {f : α → List γ} {g : β → List δ} (hR : ∀ x y, R x y → Matched S (f x) (g y))
    (h : Matched R xs ys) : Matched S (xs.flatMap f) (ys.flatMap g) := by
  obtain ⟨zs, hzs, hp⟩ := h
  obtain ⟨ws, hws, hq⟩ : Matched S (xs.flatMap f) (zs.flatMap g) := by
    clear hp
    induction hzs with
    | nil => exact .nil
    | cons hxy _ ih =>
        rw [List.flatMap_cons, List.flatMap_cons]
        exact (hR _ _ hxy).append ih
  exact ⟨ws, hws, hq.trans (hp.flatMap_right g)⟩

/-- Whatever stands on the left has a partner. -/
theorem exists_of_mem (h : Matched R xs ys) {x : α} (hx : x ∈ xs) : ∃ y ∈ ys, R x y := by
  obtain ⟨zs, hzs, hp⟩ := h
  obtain ⟨y, hy, hxy⟩ := Attempt.exists_of_mem_right hzs.flip hx
  exact ⟨y, hp.subset hy, hxy⟩

/-- So does whatever stands on the right. -/
theorem exists_of_mem_right (h : Matched R xs ys) {y : β} (hy : y ∈ ys) : ∃ x ∈ xs, R x y := by
  obtain ⟨zs, hzs, hp⟩ := h
  exact Attempt.exists_of_mem_right hzs (hp.symm.subset hy)

/-- What holds of every item on one side may be used where it is matched. -/
theorem and_left {P : α → Prop} (hP : ∀ x ∈ xs, P x) (h : Matched R xs ys) :
    Matched (fun x y => P x ∧ R x y) xs ys := by
  obtain ⟨zs, hzs, hp⟩ := h
  exact ⟨zs, (List.forall₂_and_left xs zs).2 ⟨hP, hzs⟩, hp⟩

theorem isEmpty_eq (h : Matched R xs ys) : ys.isEmpty = xs.isEmpty := by
  obtain ⟨zs, hzs, hp⟩ := h
  rw [Bool.eq_iff_iff, List.isEmpty_iff, List.isEmpty_iff]
  constructor
  · rintro rfl
    cases hp.eq_nil
    cases hzs
    rfl
  · rintro rfl
    cases hzs
    exact hp.nil_eq.symm

/-- Lists without doubles and with the same items are the same in some order. -/
theorem of_nodup {xs ys : List α} (hx : xs.Nodup) (hy : ys.Nodup) (h : ∀ x, x ∈ xs ↔ x ∈ ys) :
    Matched Eq xs ys :=
  of_perm ((List.perm_ext_iff_of_nodup hx hy).2 h)

end Matched

-- ==================================================== attempts

namespace Attempt

/-- Both fail, or both have results, which agree. -/
def Alike (R : α → β → Prop) : Attempt α → Attempt β → Prop
  | .ok a, .ok b => R a b
  | .error _, .error _ => True
  | _, _ => False

variable {R : α → β → Prop} {S : γ → δ → Prop} {x : Attempt α} {y : Attempt β}

/-- Both fail, or both have results that are related. -/
theorem Alike.cases (h : Alike R x y) :
    (∃ e e', x = .error e ∧ y = .error e') ∨ ∃ a b, x = .ok a ∧ y = .ok b ∧ R a b := by
  cases x with
  | error e =>
      cases y with
      | error e' => exact Or.inl ⟨e, e', rfl, rfl⟩
      | ok b => exact h.elim
  | ok a =>
      cases y with
      | error e => exact h.elim
      | ok b => exact Or.inr ⟨a, b, rfl, rfl, h⟩

/-- One has a result where the other has. -/
theorem Alike.exists_iff (h : Alike R x y) : (∃ a, x = .ok a) ↔ ∃ b, y = .ok b := by
  rcases h.cases with ⟨e, e', rfl, rfl⟩ | ⟨a, b, rfl, rfl, -⟩
  · simp
  · simp

/-- Results are related. -/
theorem Alike.of_ok (h : Alike R x y) {a : α} {b : β} (hx : x = .ok a) (hy : y = .ok b) :
    R a b := by
  subst hx hy
  exact h

theorem Alike.mono {R' : α → β → Prop} (hR : ∀ a b, R a b → R' a b) (h : Alike R x y) :
    Alike R' x y := by
  rcases h.cases with ⟨e, e', rfl, rfl⟩ | ⟨a, b, rfl, rfl, hab⟩
  · exact trivial
  · exact hR a b hab

/-- Steps that are alike are so one behind the other. -/
theorem Alike.bind {f : α → Attempt γ} {g : β → Attempt δ} (h : Alike R x y)
    (hR : ∀ a b, R a b → Alike S (f a) (g b)) : Alike S (x >>= f) (y >>= g) := by
  rcases h.cases with ⟨e, e', rfl, rfl⟩ | ⟨a, b, rfl, rfl, hab⟩
  · exact trivial
  · exact hR a b hab

/-- Results that are changed alike stay so. -/
theorem Alike.map {f : α → γ} {g : β → δ} (h : Alike R x y)
    (hR : ∀ a b, R a b → S (f a) (g b)) : Alike S (x.map f) (y.map g) := by
  rcases h.cases with ⟨e, e', rfl, rfl⟩ | ⟨a, b, rfl, rfl, hab⟩
  · exact trivial
  · exact hR a b hab

/-- Results that agree may be used as the results that they are. -/
theorem Alike.of_results (h : Alike R x y) :
    Alike (fun a b => x = .ok a ∧ y = .ok b ∧ R a b) x y := by
  rcases h.cases with ⟨e, e', rfl, rfl⟩ | ⟨a, b, rfl, rfl, hab⟩
  · exact trivial
  · exact ⟨rfl, rfl, hab⟩

/-- Being alike goes on from one to the next. -/
theorem Alike.comp {T : β → γ → Prop} {z : Attempt γ} (h : Alike R x y) (h' : Alike T y z) :
    Alike (Relation.Comp R T) x z := by
  rcases h.cases with ⟨e, e', rfl, rfl⟩ | ⟨a, b, rfl, rfl, hab⟩
  · cases z with
    | error e'' => exact trivial
    | ok c => exact h'.elim
  · cases z with
    | error e => exact h'.elim
    | ok c => exact ⟨b, hab, h'⟩

/-- Two failures are alike, whatever the faults. -/
theorem alike_of_errors (hx : ∃ e, x = .error e) (hy : ∃ e, y = .error e) : Alike R x y := by
  obtain ⟨e, rfl⟩ := hx
  obtain ⟨e', rfl⟩ := hy
  exact trivial

theorem alike_refl (x : Attempt α) : Alike Eq x x := by
  cases x with
  | error e => exact trivial
  | ok a => exact rfl

/-- Steps over partners that stand side by side. -/
theorem alike_mapM_forall₂ {f : α → Attempt γ} {g : β → Attempt δ} {xs : List α} {ys : List β}
    (hR : ∀ a b, R a b → Alike S (f a) (g b)) (h : List.Forall₂ R xs ys) :
    Alike (List.Forall₂ S) (xs.mapM f) (ys.mapM g) := by
  induction h with
  | nil => exact .nil
  | cons hab _ ih =>
      rw [List.mapM_cons, List.mapM_cons]
      exact (hR _ _ hab).bind fun c d hcd => ih.bind fun cs ds hcds => .cons hcd hcds

/-- Steps over a list in another order: where there is more than one fault it may be another one,
which is why faults are not compared. -/
theorem alike_mapM_perm {f : α → Attempt γ} {xs ys : List α} (h : xs.Perm ys) :
    Alike List.Perm (xs.mapM f) (ys.mapM f) := by
  induction h with
  | nil => exact .nil
  | cons a _ ih =>
      rw [List.mapM_cons, List.mapM_cons]
      refine (alike_refl (f a)).bind fun c d hcd => ih.bind fun cs ds hcds => ?_
      rw [hcd]
      exact hcds.cons d
  | swap a b xs =>
      simp only [List.mapM_cons]
      cases f a with
      | error e =>
          cases f b with
          | error e' => exact trivial
          | ok d => exact trivial
      | ok c =>
          cases f b with
          | error e => exact trivial
          | ok d =>
              cases xs.mapM f with
              | error e => exact trivial
              | ok cs => exact .swap c d cs
  | trans _ _ ih ih' => exact (ih.comp ih').mono fun _ _ ⟨_, h, h'⟩ => List.Perm.trans h h'

/-- Walks over lists that agree in some order have results that do. -/
theorem alike_mapM_matched {f : α → Attempt γ} {g : β → Attempt δ} {xs : List α} {ys : List β}
    (hR : ∀ a b, R a b → Alike S (f a) (g b)) (h : Matched R xs ys) :
    Alike (Matched S) (xs.mapM f) (ys.mapM g) := by
  obtain ⟨zs, hzs, hp⟩ := h
  exact (alike_mapM_forall₂ hR hzs).comp (alike_mapM_perm hp)

/-- Steps that go on from one another's result, over partners that stand side by side. -/
theorem alike_foldlM {f : γ → α → Attempt γ} {g : δ → β → Attempt δ}
    {xs : List α} {ys : List β} (h : List.Forall₂ R xs ys) {c : γ} {d : δ} (hcd : S c d)
    (hR : ∀ a b, R a b → ∀ c d, S c d → Alike S (f c a) (g d b)) :
    Alike S (xs.foldlM f c) (ys.foldlM g d) := by
  induction h generalizing c d with
  | nil => exact hcd
  | cons hab _ ih =>
      rw [List.foldlM_cons, List.foldlM_cons]
      exact (hR _ _ hab c d hcd).bind fun c' d' hcd' => ih hcd'

end Attempt

-- ==================================================== members

/-- Members of one key whose values agree. -/
inductive SameKey {κ : Type} (R : α → β → Prop) : κ × α → κ × β → Prop
  | intro {key : κ} {a : α} {b : β} (h : R a b) : SameKey R (key, a) (key, b)

/-- Members keep their keys when their values are changed. -/
theorem SameKey.map {κ : Type} {R : α → β → Prop} {S : γ → δ → Prop} {m : κ × α} {n : κ × β}
    {f : α → γ} {g : β → δ} (h : SameKey R m n) (hR : ∀ a b, R a b → S (f a) (g b)) :
    SameKey S (m.1, f m.2) (n.1, g n.2) := by
  cases h with
  | intro hab => exact .intro (hR _ _ hab)

theorem SameKey.fst_eq {κ : Type} {R : α → β → Prop} {m : κ × α} {n : κ × β}
    (h : SameKey R m n) : m.1 = n.1 := by
  cases h
  rfl

namespace Members

variable {R : α → β → Prop} {ms : Members α} {ns : Members β}

/-- Members side by side have the same keys. -/
theorem keys_of_forall₂ (h : List.Forall₂ (SameKey R) ms ns) : keys ns = keys ms := by
  induction h with
  | nil => rfl
  | cons hm _ ih =>
      cases hm
      exact congrArg₂ List.cons rfl ih

/-- The order of members does not matter to their keys being different. -/
theorem distinct_of_perm {ms ns : Members α} (h : ms.Perm ns) (hd : Distinct ms) :
    Distinct ns := by
  refine (h.pairwise_iff fun {a b} hab => ?_).1 hd
  rw [Scalar.same_comm]
  exact hab

theorem distinct_of_forall₂ (h : List.Forall₂ (SameKey R) ms ns) (hd : Distinct ms) :
    Distinct ns := by
  rw [distinct_iff_apart, keys_of_forall₂ h, ← distinct_iff_apart]
  exact hd

theorem distinct_of_matched (h : Matched (SameKey R) ms ns) (hd : Distinct ms) :
    Distinct ns := by
  obtain ⟨zs, hzs, hp⟩ := h
  exact distinct_of_perm hp (distinct_of_forall₂ hzs hd)

/-- Keys that are the same find the same. -/
theorem find?_congr {key key' : Scalar} (h : key.same key' = true) (ms : Members α) :
    find? key ms = find? key' ms := by
  unfold find? Scalar.same
  rw [Scalar.same_iff.1 h]

/-- Where no two keys are the same, what is found under one is a matter of the members
alone. -/
theorem find?_eq_some_iff {ms : Members α} (hd : Distinct ms) {key : Scalar} {a : α} :
    find? key ms = some a ↔ ∃ m ∈ ms, m.1.same key = true ∧ m.2 = a := by
  constructor
  · intro h
    obtain ⟨m, hm, hma⟩ := Option.map_eq_some_iff.1 h
    have hsame : m.1.same key = true := by simpa using List.find?_some hm
    exact ⟨m, List.mem_of_find?_eq_some hm, hsame, hma⟩
  · rintro ⟨m, hm, hsame, rfl⟩
    rw [← find?_congr hsame, find?_of_mem hd hm]

/-- With different keys the order does not matter to what is found. -/
theorem find?_of_perm {ms ns : Members α} (h : ms.Perm ns) (hd : Distinct ms) (key : Scalar) :
    find? key ns = find? key ms := by
  refine Option.ext fun a => ?_
  rw [find?_eq_some_iff hd, find?_eq_some_iff (distinct_of_perm h hd)]
  simp only [h.mem_iff]

/-- Members side by side find partners. -/
theorem find?_of_forall₂ (h : List.Forall₂ (SameKey R) ms ns) (key : Scalar) :
    Option.Rel R (find? key ms) (find? key ns) := by
  induction h with
  | nil => exact .none
  | cons hm _ ih =>
      cases hm with
      | intro hab =>
          rw [find?_cons, find?_cons]
          split
          · exact .some hab
          · exact ih

/-- What is found under a key agrees. -/
theorem find?_matched (h : Matched (SameKey R) ms ns) (hd : Distinct ms) (key : Scalar) :
    Option.Rel R (find? key ms) (find? key ns) := by
  obtain ⟨zs, hzs, hp⟩ := h
  rw [find?_of_perm hp (distinct_of_forall₂ hzs hd)]
  exact find?_of_forall₂ hzs key

/-- Partners that are put under one key stay side by side. -/
theorem forall₂_put (h : List.Forall₂ (SameKey R) ms ns) (key : Scalar) {a : α} {b : β}
    (hab : R a b) : List.Forall₂ (SameKey R) (put key a ms) (put key b ns) := by
  induction h with
  | nil => exact .cons (.intro hab) .nil
  | cons hm hms ih =>
      cases hm with
      | intro hab' =>
          unfold put
          split
          · exact .cons (.intro hab) hms
          · exact .cons (.intro hab') ih

end Members

end ApiAuthz
