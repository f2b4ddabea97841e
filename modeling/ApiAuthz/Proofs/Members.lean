/-
The theory of ordered members: what becomes of entries that are put into a table
one after the other. The keys of the table are the entries' keys by first
occurrence, no two of them the same; under each stands the value of the last
entry with that key; and changing the values before or after they are put is
the same.

`Scalar.firsts` is the list of first occurrences, stated without tables.

# Keys that are the same

Keys are compared by `Scalar.same`, under which a number and a truth value may be
the same key. So distinct keys are not just different ones: `Scalar.Apart` says
that no two are the same, and `Members.Distinct` says it of the keys of members
(`distinct_iff_apart`). For texts this is equality (`distinct_text_iff`,
`eq_text_of_same`), and the first occurrences are those that are left when doubles
are erased (`firsts_map_text`).

# Tables by induction on the entries

A table is made by putting entries one after the other into what is there. The
lemmas about `ofEntries` are cases of ones about a fold that starts with any
members (`keys_foldl_put`, `find?_foldl_put`), which is what the induction needs:
the keys that were there stay in front, and what was there counts behind all that
is put. Entries with distinct keys are a table as they stand
(`ofEntries_eq_self`).
-/
import ApiAuthz.Members
import Mathlib.Data.List.Basic

namespace ApiAuthz

-- ==================================================== first occurrences

/-- Doubles may be erased before or after filtering. -/
theorem eraseDups_filter {α : Type} [BEq α] [LawfulBEq α] (p : α → Bool) (xs : List α) :
    (xs.filter p).eraseDups = xs.eraseDups.filter p := by
  induction hn : xs.length using Nat.strongRecOn generalizing xs with
  | ind n ih =>
      subst hn
      cases xs with
      | nil => rfl
      | cons a xs =>
          have hrest := ih _ (Nat.lt_succ_of_le (List.length_filter_le (fun b => !b == a) xs)) _ rfl
          rw [List.eraseDups_cons, List.filter_cons, List.filter_cons, ← hrest, List.filter_filter]
          cases hp : p a with
          | true =>
              rw [if_pos rfl, if_pos rfl, List.eraseDups_cons, List.filter_filter]
              simp only [Bool.and_comm]
          | false =>
              -- what is the same as `a` is dropped with it
              rw [if_neg Bool.false_ne_true, if_neg Bool.false_ne_true]
              congr 1
              refine List.filter_congr fun b _ => ?_
              cases hb : b == a with
              | true => simp [eq_of_beq hb, hp]
              | false => simp

/-- No item is left twice. -/
theorem nodup_eraseDups {α : Type} [BEq α] [LawfulBEq α] (xs : List α) : xs.eraseDups.Nodup := by
  induction hn : xs.length using Nat.strongRecOn generalizing xs with
  | ind n ih =>
      subst hn
      cases xs with
      | nil => exact List.nodup_nil
      | cons a xs =>
          rw [List.eraseDups_cons, List.nodup_cons, List.mem_eraseDups, List.mem_filter]
          have hshorter : (xs.filter fun b => !b == a).length < (a :: xs).length :=
            Nat.lt_succ_of_le (List.length_filter_le _ xs)
          exact ⟨by simp, ih _ hshorter _ rfl⟩

namespace Scalar

variable {ε : Type} [DecidableEq ε]

/-- The keys without those that are the same as an earlier one. -/
def firsts : List (Scalar ε) → List (Scalar ε)
  | [] => []
  | k :: ks => k :: (firsts ks).filter fun j => !k.same j

/-- No two of the keys are the same. -/
def Apart (ks : List (Scalar ε)) : Prop := ks.Pairwise fun a b => a.same b = false

/-- Only a text is the same key as a text. -/
theorem eq_text_of_same {k : Scalar ε} {s : String} (h : k.same (.text s) = true) : k = .text s := by
  rw [same_iff, identity_text] at h
  unfold identity at h
  split at h
  · cases h
  · cases h
  · cases h
  · split at h
    · cases h
    · cases h
  · cases h
    rfl
  · cases h
  · cases h
  · cases h
  · cases h

/-- The first ones of their kind are different. -/
theorem apart_firsts (ks : List (Scalar ε)) : Apart (firsts ks) := by
  induction ks with
  | nil => exact List.Pairwise.nil
  | cons k ks ih =>
      refine List.pairwise_cons.2 ⟨fun j hj => ?_, ih.filter _⟩
      simpa using (List.mem_filter.1 hj).2

theorem firsts_sublist (ks : List (Scalar ε)) : (firsts ks).Sublist ks := by
  induction ks with
  | nil => exact List.Sublist.slnil
  | cons k ks ih => exact List.Sublist.cons_cons k (List.filter_sublist.trans ih)

/-- Where keys are different each is the first one. -/
theorem firsts_eq_self {ks : List (Scalar ε)} (h : Apart ks) : firsts ks = ks := by
  induction ks with
  | nil => rfl
  | cons k ks ih =>
      obtain ⟨hk, hks⟩ := List.pairwise_cons.1 h
      unfold firsts
      rw [ih hks, List.filter_eq_self.2 fun j hj => by simp [hk j hj]]

/-- Nothing is dropped exactly if no two keys are the same. -/
theorem length_firsts {ks : List (Scalar ε)} : (firsts ks).length = ks.length ↔ Apart ks := by
  constructor
  · intro h
    rw [← (firsts_sublist ks).eq_of_length h]
    exact apart_firsts ks
  · intro h
    rw [firsts_eq_self h]

/-- Of texts the first occurrences are those that are left when doubles are erased. -/
theorem firsts_map_text (ss : List String) :
    firsts (ss.map (.text : String → Scalar ε)) = ss.eraseDups.map .text := by
  induction ss with
  | nil => rfl
  | cons s ss ih =>
      rw [List.map_cons, firsts, ih, List.eraseDups_cons, List.map_cons, List.filter_map,
        eraseDups_filter]
      congr 3
      funext t
      show (!(Scalar.text s : Scalar ε).same (.text t)) = !t == s
      rw [Scalar.same_text, Bool.beq_comm]
      rfl

end Scalar

namespace Members

variable {α β ε : Type}

/-- Changing the values leaves the keys. -/
theorem keys_map (f : α → β) (ms : Members α ε) :
    keys (ms.map fun m => (m.1, f m.2)) = keys ms := by
  unfold keys
  rw [List.map_map]
  rfl

variable [DecidableEq ε]

-- ==================================================== tables of entries

/-- What matters to having a member are the keys. -/
theorem contains_eq_any_keys (key : Scalar ε) (ms : Members α ε) :
    contains key ms = (keys ms).any fun k => k.same key := by
  unfold contains keys
  rw [List.any_map]
  rfl

/-- A member that was put is there, and no other one went. -/
theorem contains_put (key other : Scalar ε) (value : α) (ms : Members α ε) :
    contains other (put key value ms) = (key.same other || contains other ms) := by
  rw [contains_eq_isSome, contains_eq_isSome, find?_put]
  cases key.same other <;> simp

/-- The keys of a table after further entries: those that were there, then the
new ones by first occurrence. -/
theorem keys_foldl_put (es : List (Scalar ε × α)) (ms : Members α ε) :
    keys (es.foldl (fun ms e => put e.1 e.2 ms) ms) =
      keys ms ++ (Scalar.firsts (es.map Prod.fst)).filter fun k => !contains k ms := by
  induction es generalizing ms with
  | nil => simp [Scalar.firsts]
  | cons e es ih =>
      rw [List.foldl_cons, ih, keys_put, List.map_cons, Scalar.firsts, List.filter_cons,
        List.filter_filter]
      have hkept : ∀ k, (!contains k (put e.1 e.2 ms))
          = (!contains k ms && !e.1.same k) := by
        intro k
        rw [contains_put]
        cases e.1.same k <;> simp
      cases contains e.1 ms with
      | true =>
          simp only [hkept, Bool.not_true, Bool.false_eq_true, if_false, if_true]
      | false =>
          simp only [hkept, Bool.not_false, Bool.false_eq_true, if_false, if_true,
            List.append_assoc, List.singleton_append]

/-- The keys of a table are those of its entries by first occurrence. -/
theorem keys_ofEntries (es : List (Scalar ε × α)) :
    keys (ofEntries es) = Scalar.firsts (es.map Prod.fst) := by
  unfold ofEntries
  rw [keys_foldl_put]
  simp [keys, contains]

/-- Of members put one after another the last one counts, and behind them what was there. -/
theorem find?_foldl_put (key : Scalar ε) (es : List (Scalar ε × α)) (ms : Members α ε) :
    find? key (es.foldl (fun ms e => put e.1 e.2 ms) ms) =
      ((es.reverse.find? fun e => e.1.same key).map Prod.snd).or (find? key ms) := by
  induction es generalizing ms with
  | nil => simp
  | cons e es ih =>
      rw [List.foldl_cons, ih, find?_put, List.reverse_cons, List.find?_append]
      cases es.reverse.find? fun e => e.1.same key with
      | some last => simp
      | none => cases he : e.1.same key <;> simp [he]

/-- Under a key stands the value of the last entry with that key. -/
theorem find?_ofEntries (key : Scalar ε) (es : List (Scalar ε × α)) :
    find? key (ofEntries es) = (es.reverse.find? fun e => e.1.same key).map Prod.snd := by
  unfold ofEntries
  rw [find?_foldl_put]
  simp

-- ==================================================== distinct keys

/-- Members are distinct where their keys are apart. -/
theorem distinct_iff_apart {ms : Members α ε} : Distinct ms ↔ Scalar.Apart (keys ms) := by
  unfold Distinct Scalar.Apart keys
  rw [List.pairwise_map]

/-- Texts are distinct keys exactly if they differ. -/
theorem distinct_text_iff {es : List (String × α)} (f : String × α → β) :
    Distinct (es.map fun e => ((.text e.1 : Scalar ε), f e)) ↔ (es.map Prod.fst).Nodup := by
  unfold Distinct List.Nodup
  rw [List.pairwise_map, List.pairwise_map]
  simp only [Scalar.same_text, decide_eq_false_iff_not, ne_eq]

/-- Members that were put one after another are distinct. -/
theorem distinct_ofEntries (es : List (Scalar ε × α)) : Distinct (ofEntries es) := by
  rw [distinct_iff_apart, keys_ofEntries]
  exact Scalar.apart_firsts _

/-- Where keys are distinct, every member is found under its key. -/
theorem find?_of_mem {ms : Members α ε} (hd : Distinct ms) {m : Scalar ε × α} (hm : m ∈ ms) :
    find? m.1 ms = some m.2 := by
  induction ms with
  | nil => cases hm
  | cons n ms ih =>
      obtain ⟨hn, hms⟩ := List.pairwise_cons.1 hd
      rw [find?_cons]
      rcases List.mem_cons.1 hm with rfl | hm
      · simp
      · rw [hn m hm]
        exact ih hms hm

/-- Where keys are distinct, members of one key are one. -/
theorem eq_of_same {ms : Members α ε} (hd : Distinct ms) {m n : Scalar ε × α} (hm : m ∈ ms)
    (hn : n ∈ ms) (h : m.1.same n.1 = true) : m = n := by
  induction ms with
  | nil => cases hm
  | cons k ms ih =>
      obtain ⟨hk, hms⟩ := List.pairwise_cons.1 hd
      rcases List.mem_cons.1 hm with rfl | hmem
      · rcases List.mem_cons.1 hn with rfl | hnmem
        · rfl
        · rw [hk n hnmem] at h
          cases h
      · rcases List.mem_cons.1 hn with rfl | hnmem
        · rw [Scalar.same_comm, hk m hmem] at h
          cases h
        · exact ih hms hmem hnmem

/-- Putting a member keeps members distinct. -/
theorem distinct_put {key : Scalar ε} {value : α} {ms : Members α ε} (h : Distinct ms) :
    Distinct (put key value ms) := by
  rw [distinct_iff_apart] at h ⊢
  rw [keys_put]
  split
  · exact h
  · next hnew =>
    refine List.pairwise_append.2 ⟨h, List.pairwise_singleton .., fun k hk j hj => ?_⟩
    obtain rfl := List.mem_singleton.1 hj
    rw [contains_eq_any_keys, Bool.not_eq_true, List.any_eq_false] at hnew
    exact Bool.eq_false_iff.2 (hnew k hk)

/-- A new key goes behind the others. -/
theorem put_of_contains_eq_false {key : Scalar ε} (value : α) {ms : Members α ε}
    (h : contains key ms = false) : put key value ms = ms ++ [(key, value)] := by
  induction ms with
  | nil => rfl
  | cons m ms ih =>
      unfold contains at h
      rw [List.any_cons, Bool.or_eq_false_iff] at h
      unfold put
      rw [h.1, if_neg Bool.false_ne_true, ih h.2]
      rfl

/-- Entries with distinct keys are a table as they stand. -/
theorem ofEntries_eq_self {es : Members α ε} (h : Distinct es) : ofEntries es = es := by
  have step : ∀ (es ms : Members α ε), Distinct (ms ++ es) →
      es.foldl (fun ms e => put e.1 e.2 ms) ms = ms ++ es := by
    intro es
    induction es with
    | nil =>
        intro ms _
        exact (List.append_nil ms).symm
    | cons e es ih =>
        intro ms hd
        have hnew : contains e.1 ms = false := by
          refine List.any_eq_false.2 fun m hm => ?_
          rw [Bool.not_eq_true]
          exact (List.pairwise_append.1 hd).2.2 m hm e (List.mem_cons_self ..)
        rw [List.foldl_cons, put_of_contains_eq_false e.2 hnew]
        rw [ih (ms ++ [(e.1, e.2)]) (by simpa using hd), List.append_assoc]
        rfl
  exact step es [] h

-- ==================================================== members of tables

theorem mem_put {key : Scalar ε} {value : α} {ms : Members α ε} {m : Scalar ε × α}
    (h : m ∈ put key value ms) : m.2 = value ∨ m ∈ ms := by
  induction ms with
  | nil =>
      obtain rfl := List.mem_singleton.1 h
      exact Or.inl rfl
  | cons n ms ih =>
      unfold put at h
      split at h
      · rcases List.mem_cons.1 h with rfl | h
        · exact Or.inl rfl
        · exact Or.inr (List.mem_cons_of_mem _ h)
      · rcases List.mem_cons.1 h with rfl | h
        · exact Or.inr (List.mem_cons_self ..)
        · rcases ih h with hv | h
          · exact Or.inl hv
          · exact Or.inr (List.mem_cons_of_mem _ h)

/-- Every value of a table is that of an entry. -/
theorem mem_ofEntries {es : List (Scalar ε × α)} {m : Scalar ε × α} (h : m ∈ ofEntries es) :
    ∃ e ∈ es, e.2 = m.2 := by
  suffices hall : ∀ n ∈ ofEntries es, ∃ e ∈ es, e.2 = n.2 from hall m h
  refine es.foldlRecOn (motive := fun ms => ∀ n ∈ ms, ∃ e ∈ es, e.2 = Prod.snd n) _ ?_ ?_
  · exact List.forall_mem_nil _
  · intro ms ih e he n hn
    rcases mem_put hn with hv | hn
    · exact ⟨e, he, hv.symm⟩
    · exact ih n hn

theorem mem_of_find? {key : Scalar ε} {ms : Members α ε} {v : α} (h : find? key ms = some v) :
    ∃ m ∈ ms, m.2 = v := by
  obtain ⟨m, hm, hv⟩ := Option.map_eq_some_iff.1 h
  exact ⟨m, List.mem_of_find?_eq_some hm, hv⟩

-- ==================================================== changing values

/-- What is found is changed with the rest. -/
theorem find?_map (f : α → β) (key : Scalar ε) (ms : Members α ε) :
    find? key (ms.map fun m => (m.1, f m.2)) = (find? key ms).map f := by
  induction ms with
  | nil => rfl
  | cons m ms ih =>
      rw [List.map_cons, find?_cons, find?_cons, ih]
      cases m.1.same key <;> rfl

/-- A change of values may come before or behind the putting. -/
theorem put_map (f : α → β) (key : Scalar ε) (value : α) (ms : Members α ε) :
    put key (f value) (ms.map fun m => (m.1, f m.2)) =
      (put key value ms).map fun m => (m.1, f m.2) := by
  induction ms with
  | nil => rfl
  | cons m ms ih =>
      unfold put
      cases h : m.1.same key with
      | true => simp [h]
      | false => simpa [h] using ih

/-- Values may be changed before or after they are put under their keys. -/
theorem ofEntries_map (f : α → β) (es : List (Scalar ε × α)) :
    ofEntries (es.map fun e => (e.1, f e.2)) =
      (ofEntries es).map fun m => (m.1, f m.2) := by
  unfold ofEntries
  rw [List.foldl_map]
  have step : ∀ (es : List (Scalar ε × α)) (ms : Members α ε),
      es.foldl (fun ms e => put e.1 (f e.2) ms) (ms.map fun m => (m.1, f m.2)) =
        (es.foldl (fun ms e => put e.1 e.2 ms) ms).map fun m => (m.1, f m.2) := by
    intro es
    induction es with
    | nil => intro ms; rfl
    | cons e es ih =>
        intro ms
        rw [List.foldl_cons, List.foldl_cons, put_map, ih]
  exact step es []

end Members

end ApiAuthz
