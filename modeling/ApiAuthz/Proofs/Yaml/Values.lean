/-
The values of parts that hold later parts only. A round goes from the last part to the first, so
the values of what a part holds are known when its turn comes, and one round gives every part
its value (`knownFrom_round`). The next one adds nothing, so these are the values that
`Known.ofParts` settles on (`known_ofParts`).

Rounds are there for documents in which parts hold earlier ones, as aliases allow; then a value may
take several rounds, or never be known. Where there are no aliases `HoldLater` holds, and the
invariant of a round is `KnownFrom`: the values from some number on are known, each made of the
values of the parts in it, and none before it is. A visit moves that number down by one
(`knownFrom_visit`). A value is stated by the values of other numbers and not by recursion, so it is
for the caller to put them together along the document (`Part.value`).
-/
import ApiAuthz.Yaml.Document

namespace ApiAuthz.Yaml

-- ==================================================== parts

namespace Part

/-- The numbers of the parts in a part. -/
def numbers : Part → List Nat
  | .scalar _ => []
  | .list items => items
  | .pair first second => [first, second]
  | .set _ => []
  | .map members => members.map Prod.snd

/-- The value of a part, given those of the parts in it. -/
def value (values : Nat → Value Broken) : Part → Value Broken
  | .scalar s => .scalar s
  | .list items => .list (items.map values)
  | .pair first second => .pair (values first) (values second)
  | .set keys => .set keys
  | .map members => .map (members.map fun m => (m.1, values m.2))

variable {p : Part} {known : Nat → Option (Value Broken)} {values values' : Nat → Value Broken}

/-- The value of a part depends on the values of the nodes in it. -/
theorem value_congr (h : ∀ i ∈ p.numbers, values i = values' i) :
    p.value values = p.value values' := by
  cases p with
  | scalar s => rfl
  | list items => exact congrArg Value.list (List.map_congr_left h)
  | pair first second =>
      show Value.pair (values first) (values second) = .pair (values' first) (values' second)
      rw [h first (by simp [numbers]), h second (by simp [numbers])]
  | set keys => rfl
  | map members =>
      refine congrArg Value.map (List.map_congr_left fun m hm => ?_)
      rw [h m.2 (List.mem_map_of_mem hm)]

theorem mapM_eq_some_map {α β : Type} {f : α → Option β} {g : α → β} {xs : List α}
    (h : ∀ x ∈ xs, f x = some (g x)) : xs.mapM f = some (xs.map g) := by
  induction xs with
  | nil => rfl
  | cons x xs ih =>
      rw [List.forall_mem_cons] at h
      rw [List.mapM_cons, h.1, ih h.2]
      rfl

/-- It is known where these are. -/
theorem value?_eq (h : ∀ i ∈ p.numbers, known i = some (values i)) :
    p.value? known = some (p.value values) := by
  cases p with
  | scalar s => rfl
  | list items => exact congrArg (Option.map Value.list) (mapM_eq_some_map h)
  | pair first second =>
      have hfirst := h first (by simp [numbers])
      have hsecond := h second (by simp [numbers])
      show (do return Value.pair (← known first) (← known second)) = _
      rw [hfirst, hsecond]
      rfl
  | set keys => rfl
  | map members =>
      have hmembers : ∀ m ∈ members, (known m.2).map (fun v => (m.1, v)) =
          some ((fun m : Scalar Broken × Nat => (m.1, values m.2)) m) := by
        intro m hm
        rw [h m.2 (List.mem_map_of_mem hm)]
        rfl
      exact congrArg (Option.map Value.map) (mapM_eq_some_map hmembers)

end Part

-- ==================================================== rounds

/-- Parts hold later parts only, which are there. -/
def HoldLater (parts : Array (Option Part)) : Prop :=
  ∀ (n : Nat) (p : Part), parts[n]? = some (some p) →
    ∀ i ∈ p.numbers, n < i ∧ ∃ q, parts[i]? = some (some q)

namespace Known

variable {parts : Array (Option Part)} {known : Known} {n k : Nat}

/-- The value of a number, if it is known. -/
def valueAt (known : Known) (n : Nat) : Value Broken := (known.at? n).getD .null

/-- From this number on the values of all parts are known, and in front of it none. -/
structure KnownFrom (parts : Array (Option Part)) (k : Nat) (known : Known) : Prop where
  size_eq : known.size = parts.size
  before : ∀ n, n < k → known.at? n = none
  known : ∀ n p, k ≤ n → parts[n]? = some (some p) →
    known.at? n = some (p.value known.valueAt)

/-- One part in a round. -/
def visit (parts : Array (Option Part)) (known : Known) (number : Nat) : Known :=
  match known.at? number, (parts[number]?).join with
  | none, some p => known.setIfInBounds number (p.value? known.at?)
  | _, _ => known

theorem round_eq (parts : Array (Option Part)) (known : Known) :
    round parts known = (List.range parts.size).reverse.foldl (visit parts) known := rfl

/-- What is learned of one node leaves the others. -/
theorem at?_setIfInBounds_of_ne (v : Option (Value Broken)) (h : n ≠ k) :
    at? (known.setIfInBounds k v) n = known.at? n := by
  unfold at?
  rw [Array.getElem?_setIfInBounds_ne (Ne.symm h)]

theorem at?_setIfInBounds_self (v : Option (Value Broken)) (h : k < known.size) :
    at? (known.setIfInBounds k v) k = v := by
  unfold at?
  rw [Array.getElem?_setIfInBounds_self, if_pos h]
  rfl

/-- A visit from the end makes one value more known, for what is in a part stands behind it. -/
theorem knownFrom_visit (hparts : HoldLater parts) (h : KnownFrom parts (k + 1) known) :
    KnownFrom parts k (visit parts known k) := by
  have hnone := h.before k (Nat.lt_succ_self k)
  unfold visit
  rw [hnone]
  cases hp : (parts[k]?).join with
  | none =>
      refine ⟨h.size_eq, fun n hn => h.before n (Nat.lt_succ_of_lt hn), fun n p hn hpart => ?_⟩
      rcases Nat.eq_or_lt_of_le hn with rfl | hlt
      · rw [hpart] at hp
        cases hp
      · exact h.known n p hlt hpart
  | some p =>
      have hpart : parts[k]? = some (some p) := Option.join_eq_some_iff.1 hp
      have hsize : k < known.size := by
        rw [h.size_eq]
        exact (Array.getElem?_eq_some_iff.1 hpart).1
      have hvalue : p.value? known.at? = some (p.value known.valueAt) := by
        refine Part.value?_eq fun i hi => ?_
        obtain ⟨hlt, q, hq⟩ := hparts k p hpart i hi
        unfold valueAt
        rw [h.known i q hlt hq]
        rfl
      dsimp only
      rw [hvalue]
      have hlater {m : Nat} (hm : k < m) :
          at? (known.setIfInBounds k (some (p.value known.valueAt))) m = known.at? m :=
        at?_setIfInBounds_of_ne _ (Nat.ne_of_gt hm)
      have hsame {m : Nat} {q : Part} (hm : k ≤ m) (hq : parts[m]? = some (some q)) :
          q.value known.valueAt =
            q.value (valueAt (known.setIfInBounds k (some (p.value known.valueAt)))) := by
        refine Part.value_congr fun i hi => ?_
        have hlt := Nat.lt_of_le_of_lt hm (hparts m q hq i hi).1
        exact congrArg (fun v => v.getD .null) (hlater hlt).symm
      refine ⟨(Array.size_setIfInBounds ..).trans h.size_eq, fun n hn => ?_, fun n q hn hq => ?_⟩
      · rw [at?_setIfInBounds_of_ne _ (Nat.ne_of_lt hn)]
        exact h.before n (Nat.lt_succ_of_lt hn)
      · rcases Nat.eq_or_lt_of_le hn with rfl | hlt
        · rw [hpart] at hq
          cases hq
          exact (at?_setIfInBounds_self _ hsize).trans
            (congrArg some (hsame (Nat.le_refl k) hpart))
        · rw [hlater hlt, h.known n q hlt hq, hsame hn hq]

/-- So one round makes all of them known. -/
theorem knownFrom_visits (hparts : HoldLater parts) (h : KnownFrom parts k known) :
    KnownFrom parts 0 ((List.range k).reverse.foldl (visit parts) known) := by
  induction k generalizing known with
  | zero => exact h
  | succ k ih =>
      rw [List.range_succ, List.reverse_append, List.reverse_singleton, List.singleton_append,
        List.foldl_cons]
      exact ih (knownFrom_visit hparts h)

/-- A round that starts with no values gives all parts theirs. -/
theorem knownFrom_round (hparts : HoldLater parts) :
    KnownFrom parts 0 (round parts (Array.replicate parts.size none)) := by
  rw [round_eq]
  refine knownFrom_visits hparts ⟨Array.size_replicate, fun n _ => ?_, fun n p hn hp => ?_⟩
  · unfold at?
    rw [Array.getElem?_replicate]
    split <;> rfl
  · exact absurd (Array.getElem?_eq_some_iff.1 hp).1 (Nat.not_lt.2 hn)

/-- Where all values are known a round adds nothing. -/
theorem round_eq_self (h : KnownFrom parts 0 known) : round parts known = known := by
  have hvisit (n : Nat) : visit parts known n = known := by
    unfold visit
    split
    · next p hnone hp =>
      rw [h.known n p (Nat.zero_le n) (Option.join_eq_some_iff.1 hp)] at hnone
      cases hnone
    · rfl
  rw [round_eq]
  generalize (List.range parts.size).reverse = ns
  induction ns with
  | nil => rfl
  | cons n ns ih => rw [List.foldl_cons, hvisit n, ih]

-- ==================================================== settling

/-- How many values are known. -/
theorem count_eq (known : Known) : known.count = known.toList.countP Option.isSome := by
  unfold count
  rw [← Array.foldl_toList]
  have hfold (vs : List (Option (Value Broken))) (m : Nat) :
      vs.foldl (fun n v => if v.isSome then n + 1 else n) m = m + vs.countP Option.isSome := by
    induction vs generalizing m with
    | nil => rfl
    | cons v vs ih =>
        rw [List.foldl_cons, ih, List.countP_cons]
        cases v with
        | none => rfl
        | some v =>
            show m + 1 + vs.countP Option.isSome = m + (vs.countP Option.isSome + 1)
            omega
  rw [hfold, Nat.zero_add]

theorem count_eq_zero_of_none {m : Nat} : count (Array.replicate m none) = 0 := by
  rw [count_eq, Array.toList_replicate, List.countP_eq_zero]
  intro v hv
  rw [List.eq_of_mem_replicate hv]
  exact nofun

/-- A value that is known counts. -/
theorem count_ne_zero {v : Value Broken} (h : known.at? n = some v) : known.count ≠ 0 := by
  rw [count_eq]
  have hmem : some v ∈ known.toList :=
    Array.mem_toList_iff.2 (Array.mem_of_getElem? (Option.join_eq_some_iff.1 h))
  exact Nat.ne_of_gt (List.countP_pos_iff.2 ⟨some v, hmem, rfl⟩)

/-- Once all are known no round changes anything. -/
theorem settled_eq_self (h : KnownFrom parts 0 known) (fuel : Nat) :
    settled parts fuel known = known := by
  cases fuel with
  | zero => rfl
  | succ fuel =>
      unfold settled
      dsimp only
      rw [round_eq_self h, if_pos rfl]

/-- The values that are settled on, if there is any part. -/
theorem known_ofParts (hparts : HoldLater parts) {p : Part}
    (hp : parts[n]? = some (some p)) :
    (ofParts parts).at? n = some (p.value (ofParts parts).valueAt) := by
  have hround := knownFrom_round hparts
  have hknown := hround.known n p (Nat.zero_le n) hp
  have hsettled : ofParts parts = round parts (Array.replicate parts.size none) := by
    unfold ofParts settled
    dsimp only
    rw [if_neg]
    · exact settled_eq_self hround _
    · rw [count_eq_zero_of_none]
      exact count_ne_zero hknown
  rw [hsettled]
  exact hknown

end Known

end ApiAuthz.Yaml
