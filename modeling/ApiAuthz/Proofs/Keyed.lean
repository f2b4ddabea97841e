/-
What documents promise of their mappings: no two keys of one are the same
(`Value.Keyed`). JSON text denotes only such values (`Json.keyed_read`); the three
functions of the reader call one another with one step less, so the induction is on
the steps, and `ReadsKeyed` holds for all three what it needs to be known of each.

Taking the nearest texts may make one key of two, but enters the members anew, so it
keeps the promise for any value (`Value.keyed_nearest`). The API description in a value
that keeps it has names that occur once (`ApiDocument.wellFormed_ofValue`), also where
octets and text turn out to be one name. So whatever a file holds, the mapping starts
from a well-formed description, which is what `Proofs/Reordered` asks for.
-/
import ApiAuthz.ApiDocument
import ApiAuthz.Json.Reader
import ApiAuthz.Proofs.Attempt
import ApiAuthz.Proofs.Members

namespace ApiAuthz

-- ==================================================== values

namespace Value

variable {ε : Type} [DecidableEq ε]

/-- In no mapping of the value are two keys the same. -/
inductive Keyed : Value ε → Prop where
  | scalar (s : Scalar ε) : Keyed (.scalar s)
  | list {items : List (Value ε)} (h : ∀ v ∈ items, Keyed v) : Keyed (.list items)
  | pair {a b : Value ε} (ha : Keyed a) (hb : Keyed b) : Keyed (.pair a b)
  | set (items : List (Scalar ε)) : Keyed (.set items)
  | map {ms : Members (Value ε) ε} (hd : Members.Distinct ms) (h : ∀ m ∈ ms, Keyed m.2) :
      Keyed (.map ms)
  | looped {n : Nat} {v : Value ε} (h : Keyed v) : Keyed (.looped n v)

namespace Keyed

/-- What holds itself has the keys of what it holds. -/
theorem body {v : Value ε} (h : v.Keyed) : v.body.Keyed := by
  induction h with
  | looped _ ih => exact ih
  | scalar s => exact .scalar s
  | list hi => exact .list hi
  | pair ha hb => exact .pair ha hb
  | set items => exact .set items
  | map hd hm => exact .map hd hm

/-- The members of a keyed value have different keys, and values that are keyed. -/
theorem members {v : Value ε} {ms : Members (Value ε) ε} (h : v.Keyed) (hm : v.members? = some ms) :
    Members.Distinct ms ∧ ∀ m ∈ ms, m.2.Keyed := by
  have hb := h.body
  unfold Value.members? at hm
  revert hm hb
  cases v.body with
  | map ns =>
      intro hm hb
      cases hm
      cases hb with
      | map hd hm => exact ⟨hd, hm⟩
  | _ =>
      intro hm
      cases hm

/-- What a field holds keeps the promise. -/
theorem field {v : Value ε} (h : v.Keyed) (name : String) : (v.field name).Keyed := by
  unfold Value.field Value.field?
  cases hm : v.members? with
  | none => exact .scalar .null
  | some ms =>
      cases hf : Members.find? (.text name) ms with
      | none =>
          rw [Option.bind_some, hf]
          exact .scalar .null
      | some w =>
          obtain ⟨m, hmem, rfl⟩ := Members.mem_of_find? hf
          rw [Option.bind_some, hf]
          exact (h.members hm).2 m hmem

theorem emptyMap : Keyed (.map [] : Value ε) :=
  .map List.Pairwise.nil fun _ h => nomatch h

/-- Putting a member keeps the promise. -/
theorem put {ms : Members (Value ε) ε} {v : Value ε} (key : Scalar ε) (h : Keyed (.map ms))
    (hv : v.Keyed) : Keyed (.map (Members.put key v ms)) := by
  obtain ⟨hd, hm⟩ := h.members rfl
  refine .map (Members.distinct_put hd) fun m hmem => ?_
  rcases Members.mem_put hmem with rfl | hmem
  · exact hv
  · exact hm m hmem

/-- Members that are entered one after the other are a mapping that keeps the promise. -/
theorem ofEntries {es : Members (Value ε) ε} (h : ∀ e ∈ es, e.2.Keyed) :
    Keyed (.map (Members.ofEntries es)) :=
  es.foldlRecOn (motive := fun ms => Keyed (.map ms)) _ emptyMap
    fun _ hms e he => hms.put e.1 (h e he)

end Keyed

theorem nearestItems_eq_map (vs : List (Value Broken)) : nearestItems vs = vs.map nearest := by
  induction vs with
  | nil => rfl
  | cons v vs ih => rw [nearestItems, ih, List.map_cons]

theorem nearestMembers_eq_map (ms : Members (Value Broken) Broken) :
    nearestMembers ms = ms.map fun m => (m.1.nearest, m.2.nearest) := by
  induction ms with
  | nil => rfl
  | cons m ms ih => rw [nearestMembers, ih, List.map_cons]

/-- With the nearest texts every value keeps the promise. -/
theorem keyed_nearest (v : Value Broken) : v.nearest.Keyed := by
  induction v with
  | scalar s =>
      rw [nearest]
      exact .scalar _
  | list items ih =>
      rw [nearest, nearestItems_eq_map]
      exact .list (List.forall_mem_map.2 ih)
  | pair a b iha ihb =>
      rw [nearest]
      exact .pair iha ihb
  | set items =>
      rw [nearest]
      exact .set _
  | map ms ih =>
      rw [nearest, nearestMembers_eq_map]
      exact .ofEntries (List.forall_mem_map.2 ih)
  | looped n v ih =>
      rw [nearest]
      exact .looped ih

end Value

-- ==================================================== JSON text

namespace Json

/-- A number is read as a scalar. -/
theorem scalar_of_number {start cs rest : List Char} {negative : Bool} {v : Value Broken}
    (h : number start negative cs = .ok (v, rest)) : ∃ s, v = .scalar s := by
  unfold number at h
  simp only at h
  split at h
  · cases h
  · split at h
    · split at h
      · cases h
      · cases h
        exact ⟨_, rfl⟩
    · cases h
      exact ⟨_, rfl⟩

/-- So is every other word. -/
theorem scalar_of_plain {cs rest : List Char} {v : Value Broken} (h : plain cs = .ok (v, rest)) :
    ∃ s, v = .scalar s := by
  unfold plain at h
  split at h
  case h_7 => exact scalar_of_number h
  case h_8 => exact scalar_of_number h
  all_goals
    cases h
    exact ⟨_, rfl⟩

/-- What is read with this much fuel keeps the promise, within a list or a mapping
that has kept it so far. -/
structure ReadsKeyed (fuel : Nat) : Prop where
  value : ∀ {cs rest : List Char} {v : Value Broken}, value fuel cs = .ok (v, rest) → v.Keyed
  items : ∀ {acc : List (Value Broken)} {cs rest : List Char} {v : Value Broken},
    (∀ w ∈ acc, w.Keyed) → items fuel acc cs = .ok (v, rest) → v.Keyed
  members : ∀ {acc : Members (Value Broken) Broken} {cs rest : List Char} {v : Value Broken},
    (Value.map acc).Keyed → members fuel acc cs = .ok (v, rest) → v.Keyed

section

variable {fuel : Nat} {cs rest : List Char} {v : Value Broken}

/-- One round more for a value. -/
theorem ReadsKeyed.value_succ (ih : ReadsKeyed fuel)
    (h : Json.value (fuel + 1) cs = .ok (v, rest)) : v.Keyed := by
  unfold Json.value at h
  split at h
  · split at h
    · cases h
      exact .scalar _
    · cases h
  · split at h
    · cases h
      exact .list fun _ hw => nomatch hw
    · exact ih.items (List.forall_mem_nil _) h
  · split at h
    · cases h
      exact .emptyMap
    · exact ih.members .emptyMap h
  · obtain ⟨s, rfl⟩ := scalar_of_plain h
    exact .scalar s

/-- An item that is read joins the list. -/
theorem ReadsKeyed.items_succ (ih : ReadsKeyed fuel) {acc : List (Value Broken)}
    (hacc : ∀ w ∈ acc, w.Keyed) (h : Json.items (fuel + 1) acc cs = .ok (v, rest)) :
    v.Keyed := by
  unfold Json.items at h
  split at h
  · cases h
  · next w rest hw =>
    have hall : ∀ u ∈ w :: acc, u.Keyed := List.forall_mem_cons.2 ⟨ih.value hw, hacc⟩
    split at h
    · cases h
      exact .list fun u hu => hall u (List.mem_reverse.1 hu)
    · exact ih.items hall h
    · cases h

/-- A member that is read is put into the mapping, where its name stands only once. -/
theorem ReadsKeyed.members_succ (ih : ReadsKeyed fuel) {acc : Members (Value Broken) Broken}
    (hacc : (Value.map acc).Keyed) (h : Json.members (fuel + 1) acc cs = .ok (v, rest)) :
    v.Keyed := by
  unfold Json.members at h
  split at h
  · split at h
    · cases h
    · next name rest hname =>
      split at h
      · split at h
        · cases h
        · next w rest hw =>
          have hput := hacc.put (.ofPoints name) (ih.value hw)
          simp only at h
          split at h
          · cases h
            exact hput
          · exact ih.members hput h
          · cases h
      · cases h
  · cases h

end

/-- All three readers give keyed values, whatever the fuel. -/
theorem readsKeyed (fuel : Nat) : ReadsKeyed fuel := by
  induction fuel with
  | zero => exact ⟨nofun, nofun, nofun⟩
  | succ fuel ih => exact ⟨ih.value_succ, ih.items_succ, ih.members_succ⟩

/-- JSON text denotes values whose mappings have distinct keys only. -/
theorem keyed_read {cs : List Char} {v : Value Broken} (h : read cs = .ok v) : v.Keyed := by
  unfold read at h
  split at h
  · cases h
  · split at h
    · cases h
    · next hv =>
      split at h
      · cases h
        exact (readsKeyed _).value hv
      · cases h

end Json

-- ==================================================== API descriptions

namespace Problem

/-- Values under names keep the promise: no name stands twice, and the values
keep it too. -/
def KeyedNames (ms : List (String × Value)) : Prop :=
  (ms.map Prod.fst).Nodup ∧ ∀ m ∈ ms, m.2.Keyed

/-- Named values keep the promise exactly if the mapping of them does. -/
theorem keyedNames_iff {ms : List (String × Value)} :
    KeyedNames ms ↔ (Value.object ms).Keyed := by
  constructor
  · rintro ⟨hnames, hvalues⟩
    refine .map ((Members.distinct_text_iff Prod.snd).2 hnames) fun m hm => ?_
    obtain ⟨n, hn, rfl⟩ := List.mem_map.1 hm
    exact hvalues n hn
  · intro h
    obtain ⟨hnames, hvalues⟩ := h.members rfl
    exact ⟨(Members.distinct_text_iff Prod.snd).1 hnames, fun m hm =>
      hvalues _ (List.mem_map_of_mem hm)⟩

/-- A value is put under a name as it is put under the text that is the name. -/
theorem object_putNamed (name : String) (v : Value) (ms : List (String × Value)) :
    Value.object (putNamed name v ms) =
      .map (Members.put (.text name) v (ms.map fun m => (.text m.1, m.2))) := by
  refine congrArg Value.map ?_
  induction ms with
  | nil => rfl
  | cons m ms ih =>
      rw [putNamed, List.map_cons, Members.put, Scalar.same_text]
      by_cases hm : m.1 = name
      · simp [hm]
      · simp [hm, ih]

/-- A member that is put does not repeat a name. -/
theorem KeyedNames.putNamed {ms : List (String × Value)} {v : Value} (name : String)
    (h : KeyedNames ms) (hv : v.Keyed) : KeyedNames (putNamed name v ms) := by
  rw [keyedNames_iff] at h ⊢
  rw [object_putNamed]
  exact h.put _ hv

/-- Whatever stands under a text name stood under a key. -/
theorem mem_of_textMembers {field : String} {ms : Members Value} {named : List (String × Value)}
    (h : textMembers field ms = .ok named) : ∀ m ∈ named, ∃ n ∈ ms, n.2 = m.2 := by
  induction ms generalizing named with
  | nil =>
      cases h
      exact List.forall_mem_nil _
  | cons n ms ih =>
      unfold textMembers at h
      split at h
      · next hrest =>
        cases h
        intro m hm
        rcases List.mem_cons.1 hm with rfl | hm
        · exact ⟨n, List.mem_cons_self .., rfl⟩
        · obtain ⟨k, hk, hv⟩ := ih hrest m hm
          exact ⟨k, List.mem_cons_of_mem _ hk, hv⟩
      · cases h
      · cases h

/-- A mapping that has been checked has different names. -/
theorem keyedNames_textMapping {field : String} {v : Value} {ms : List (String × Value)}
    (hv : v.Keyed) (h : textMapping field v = .ok ms) : KeyedNames ms := by
  unfold textMapping at h
  cases hm : v.members? with
  | none =>
      rw [hm] at h
      cases h
  | some entries =>
      rw [hm] at h
      cases hn : textMembers field entries with
      | error ps =>
          simp only [hn] at h
          cases h
      | ok named =>
          simp only [hn] at h
          cases h
          have hall : ∀ m ∈ named, m.2.Keyed := by
            intro m hmem
            obtain ⟨n, hn, heq⟩ := mem_of_textMembers hn m hmem
            exact heq ▸ (hv.members hm).2 n hn
          refine named.foldlRecOn (motive := KeyedNames) _ ?_ fun acc hacc m hmem => ?_
          · exact ⟨List.nodup_nil, List.forall_mem_nil _⟩
          · exact hacc.putNamed m.1 (hall m hmem)

end Problem

namespace ApiDocument

/-- An API description keeps the promise of its mappings. -/
structure WellFormed (doc : ApiDocument) : Prop where
  paths : ∀ paths, doc.paths = some paths → Problem.KeyedNames paths
  schemas : Problem.KeyedNames doc.schemas

/-- A checked document is well-formed. -/
theorem wellFormed_check {paths schemas : Value} {servers : List String} {doc : ApiDocument}
    (hpaths : paths.Keyed) (hschemas : schemas.Keyed)
    (h : check paths servers schemas = .ok doc) : doc.WellFormed := by
  unfold check at h
  simp only at h
  split at h
  · next hp hs =>
    cases h
    refine ⟨fun ps heq => ?_, Problem.keyedNames_textMapping hschemas hs⟩
    split at hp
    · cases hp
      cases heq
    · obtain ⟨named, hnamed, rfl⟩ := Attempt.map_eq_ok.1 hp
      cases heq
      exact Problem.keyedNames_textMapping hpaths hnamed
  · cases h
  · cases h
  · cases h

/-- The component schemas are part of the document. -/
theorem keyed_schemasOf {v schemas : Value} (hv : v.Keyed) (h : schemasOf v = .ok schemas) :
    schemas.Keyed := by
  unfold schemasOf at h
  simp only at h
  split at h
  · cases h
    exact .emptyMap
  · split at h
    · cases h
    · cases h
      split
      · exact (hv.field _).field _
      · exact .emptyMap

/-- The API description in a document keeps the promise if the document does. -/
theorem wellFormed_ofValue {v : Value} {doc : ApiDocument} (hv : v.Keyed)
    (h : ofValue v = .ok doc) : doc.WellFormed := by
  unfold ofValue at h
  split at h
  · cases h
  · obtain ⟨servers, -, h⟩ := Attempt.bind_eq_ok.1 h
    obtain ⟨schemas, hs, h⟩ := Attempt.bind_eq_ok.1 h
    exact wellFormed_check (hv.field _) (keyed_schemasOf hv hs) h

end ApiDocument

end ApiAuthz
