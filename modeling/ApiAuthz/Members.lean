/-
Ordered members: what a mapping holds, and what records, action tables and type
tables are made of. A key occurs once; putting a value under a key that is
already there keeps the key, and its place, and replaces the value.

The view of a member list is `find?`; its keys in order are `keys`. Each
operation has one lemma through each view.
-/
import ApiAuthz.Scalar

namespace ApiAuthz

/-- Keys with what they hold, in order. -/
abbrev Members (α : Type) (ε : Type := Empty) := List (Scalar ε × α)

namespace Members

variable {α β ε : Type}

/-- The keys, in their order. -/
def keys (ms : Members α ε) : List (Scalar ε) := List.map Prod.fst ms

variable [DecidableEq ε]

/-- What the key holds. -/
def find? (key : Scalar ε) (ms : Members α ε) : Option α :=
  (List.find? (fun m => m.1.same key) ms).map Prod.snd

/-- There is a member for this key. -/
def contains (key : Scalar ε) (ms : Members α ε) : Bool :=
  List.any ms fun m => m.1.same key

/-- Replaces the value under the key, or adds the key at the end. -/
def put (key : Scalar ε) (value : α) : Members α ε → Members α ε
  | [] => [(key, value)]
  | m :: ms => if m.1.same key then (m.1, value) :: ms else m :: put key value ms

/-- Entries put one after the other: the last value of a key stands in the
place of its first. -/
def ofEntries (entries : List (Scalar ε × α)) : Members α ε :=
  entries.foldl (fun ms e => put e.1 e.2 ms) []

/-- No two keys are the same. -/
def Distinct (ms : Members α ε) : Prop :=
  ms.Pairwise fun a b => a.1.same b.1 = false

-- ==================================================== looking up

@[simp] theorem find?_nil (key : Scalar ε) : find? key ([] : Members α ε) = none := rfl

theorem find?_cons (key : Scalar ε) (m : Scalar ε × α) (ms : Members α ε) :
    find? key (m :: ms) = if m.1.same key then some m.2 else find? key ms := by
  unfold find?
  rw [List.find?_cons]
  cases m.1.same key <;> rfl

theorem contains_eq_isSome (key : Scalar ε) (ms : Members α ε) :
    contains key ms = (find? key ms).isSome := by
  induction ms with
  | nil => rfl
  | cons m ms ih =>
    rw [find?_cons]
    cases h : m.1.same key <;> simp_all [contains]

-- ==================================================== putting

theorem find?_put (key other : Scalar ε) (value : α) (ms : Members α ε) :
    find? other (put key value ms) =
      if key.same other then some value else find? other ms := by
  induction ms with
  | nil => simp [put, find?_cons]
  | cons m ms ih =>
    unfold put
    split
    · next h =>
      rw [find?_cons, find?_cons]
      cases hk : key.same other with
      | true => simp [Scalar.same_trans h hk]
      | false =>
        have : m.1.same other = false := by
          rw [Bool.eq_false_iff] at hk ⊢
          exact fun hm => hk (Scalar.same_trans (Scalar.same_comm key m.1 ▸ h) hm)
        simp [this]
    · next h =>
      rw [find?_cons, find?_cons, ih]
      cases hm : m.1.same other with
      | true =>
        have : key.same other = false := by
          rw [Bool.eq_false_iff]
          exact fun hk => h (Scalar.same_trans hm (Scalar.same_comm key other ▸ hk))
        simp [this]
      | false => simp

/-- A key that is there keeps its place, a new one comes last. -/
theorem keys_put (key : Scalar ε) (value : α) (ms : Members α ε) :
    keys (put key value ms) = if contains key ms then keys ms else keys ms ++ [key] := by
  induction ms with
  | nil => rfl
  | cons m ms ih =>
    unfold put
    cases h : m.1.same key with
    | true => simp [keys, contains, h]
    | false =>
      have : contains key (m :: ms) = contains key ms := by simp [contains, h]
      rw [this]
      simp only [Bool.false_eq_true, if_false]
      change m.1 :: keys (put key value ms) = _
      rw [ih]
      split <;> rfl

end Members

end ApiAuthz
