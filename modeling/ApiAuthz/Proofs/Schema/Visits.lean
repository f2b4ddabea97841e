/-
The nodes of a schema. A way leads from a node to one below it, by properties and items, and
`Value.visits` lists a node and all nodes below it with the ways to them, each before those below
it. What holds of a document holds of its nodes; `Value.Plain` is what is asked of one whose names
and values can all be shown.

The list does not say how nodes are converted: it goes below every node that is no reference,
whatever is wrong with it.

# Below a node

What is below a node is told by its type alone, object or array (`Value.childSteps`), and each of
these nodes is smaller than the node (`sizeOf_lt_of_mem_childSteps`), which is what the recursion
of `visits` and the inductions along it go by. Properties that count as true without being a
mapping lead nowhere here; `Value.MapsProperties` says that a node has none.

# Names

A way has the names of the properties on it, and `nameAt` is the last of them, or the name of the
whole if there is none. It can be made step by step from the outer end (`nameAt_cons`), as the name
is handed on in conversion. Below a plain node all ways are of text names, so what they lead to is
reported under a name that can be shown (`isShown_nameAt`).
-/
import ApiAuthz.Proofs.Members
import ApiAuthz.Proofs.Schema.Grammar

namespace ApiAuthz

-- ==================================================== plain documents

namespace Value

/-- All keys of mappings are texts, and no integer is beyond the limit on digits. -/
inductive Plain : Value → Prop where
  | scalar {s : Scalar} (h : s.isShown = true) : Plain (.scalar s)
  | list {items : List Value} (h : ∀ v ∈ items, Plain v) : Plain (.list items)
  | pair {a b : Value} (ha : Plain a) (hb : Plain b) : Plain (.pair a b)
  | set {items : List Scalar} (h : ∀ s ∈ items, s.isShown = true) : Plain (.set items)
  | map {ms : Members Value} (texts : ∀ m ∈ ms, ∃ s, m.1 = .text s) (h : ∀ m ∈ ms, Plain m.2) :
      Plain (.map ms)
  | looped {n : Nat} {v : Value} (h : Plain v) : Plain (.looped n v)

/-- Text keys never stand in the way. -/
theorem plain_object {ms : List (String × Value)} (h : ∀ m ∈ ms, m.2.Plain) : (object ms).Plain :=
  .map (List.forall_mem_map.2 fun m _ => ⟨m.1, rfl⟩) (List.forall_mem_map.2 h)

namespace Plain

variable {v : Value}

/-- A plain value has a text, inside whatever collections it stands. -/
theorem isShownWithin (h : v.Plain) (around : List Nat) : v.isShownWithin around = true := by
  induction h generalizing around with
  | scalar h => rwa [Value.isShownWithin]
  | list _ ih =>
      rw [Value.isShownWithin, areShownWithin_eq_all, List.all_eq_true]
      exact fun v hv => ih v hv around
  | pair _ _ iha ihb => rw [Value.isShownWithin, iha, ihb, Bool.and_self]
  | set h => rwa [Value.isShownWithin, List.all_eq_true]
  | map texts _ ih =>
      rw [Value.isShownWithin, membersAreShownWithin_eq_all, List.all_eq_true]
      intro m hm
      obtain ⟨s, hs⟩ := texts m hm
      rw [hs, ih m hm around]
      rfl
  | looped _ ih => rw [Value.isShownWithin, ih, Bool.or_true]

theorem isShown (h : v.Plain) : v.isShown = true := h.isShownWithin []

/-- The members of a plain value have texts for keys and are plain. -/
theorem members (h : v.Plain) {ms : Members Value} (hm : v.members? = some ms) :
    (∀ m ∈ ms, ∃ s, m.1 = .text s) ∧ ∀ m ∈ ms, m.2.Plain := by
  induction h with
  | looped _ ih => exact ih hm
  | map texts h =>
      cases hm
      exact ⟨texts, h⟩
  | _ => cases hm

/-- So is every field of one. -/
theorem field (h : v.Plain) (name : String) : (v.field name).Plain := by
  cases hf : v.field? name with
  | none =>
      rw [Value.field, hf]
      exact .scalar rfl
  | some w =>
      obtain ⟨ms, hms, hfind⟩ := members?_of_field? hf
      obtain ⟨m, hm, rfl⟩ := Members.mem_of_find? hfind
      rw [field_of_field? hf]
      exact (h.members hms).2 m hm

end Plain

end Value

/-- Texts can be sorted. -/
theorem Scalar.exists_sorted? {keys : List Scalar} (h : ∀ k ∈ keys, ∃ s, k = .text s) :
    ∃ sorted, sorted? keys = some sorted := by
  have hcomparable : (keys.all fun a => keys.all fun b => (a.below? b).isSome) = true := by
    simp only [List.all_eq_true]
    intro a ha b hb
    obtain ⟨s, rfl⟩ := h a ha
    obtain ⟨t, rfl⟩ := h b hb
    rfl
  unfold sorted?
  rw [hcomparable]
  exact ⟨_, rfl⟩

-- ==================================================== the nodes of a schema

/-- A step from a node to one right below it. -/
inductive Step where
  | property (name : Scalar)
  | items
  deriving DecidableEq

namespace Step

/-- The name of a property. -/
def property? : Step → Option Scalar
  | .property name => some name
  | .items => none

/-- The name of the property nearest to the end of a way, and an outer name if there is none. -/
def nameAt (outer : Value) (way : List Step) : Value :=
  ((way.filterMap property?).getLast?.map Value.scalar).getD outer

/-- Names are made longer step by step. -/
theorem nameAt_cons (outer : Value) (step : Step) (way : List Step) :
    nameAt outer (step :: way) = nameAt (nameAt outer [step]) way := by
  cases step with
  | items => rfl
  | property name =>
      have hnames :
          (property name :: way).filterMap property? = name :: way.filterMap property? := rfl
      unfold nameAt
      rw [hnames, List.getLast?_cons]
      cases (way.filterMap property?).getLast? <;> rfl

end Step

namespace Value

open Step (nameAt)

instance (node : Value) (typeName : String) : Decidable (node.OfType typeName) :=
  decidable_of_iff (node.field? "$ref" = none ∧ (node.field? "type").bind text? = some typeName)
    ⟨fun h => ⟨h.1, by
      obtain ⟨type, htype, htext⟩ := Option.bind_eq_some_iff.1 h.2
      rw [htype, eq_text_of_text? htext]⟩,
    fun h => ⟨h.noRef, by rw [h.type]; rfl⟩⟩

/-- If the node is an object, its properties are a mapping, unless they count for nothing. -/
def MapsProperties (node : Value) : Prop :=
  node.OfType "object" → (node.field "properties").truthy = true →
    (node.field "properties").isMap = true

instance (node : Value) : Decidable node.MapsProperties :=
  inferInstanceAs (Decidable (node.OfType "object" → (node.field "properties").truthy = true →
    (node.field "properties").isMap = true))

/-- The nodes right below a node, with the steps to them: the properties of an object in their
order, or the items of an array. A reference has none. -/
def childSteps (node : Value) : List (Step × Value) :=
  if node.OfType "object" then
    ((node.field "properties").members?.getD []).map fun m => (.property m.1, m.2)
  else if node.OfType "array" ∧ (node.field "items").isNull = false then
    [(.items, node.field "items")]
  else []

theorem sizeOf_field_lt {node : Value} {name : String} (h : (node.field name).isNull = false) :
    sizeOf (node.field name) < sizeOf node := by
  cases hf : node.field? name with
  | none =>
      rw [field, hf] at h
      cases h
  | some w =>
      obtain ⟨ms, hms, hfind⟩ := members?_of_field? hf
      rw [field_of_field? hf]
      exact Nat.lt_trans (sizeOf_lt_of_find? hfind) (sizeOf_lt_of_members? hms)

/-- Every step leads to something smaller. -/
theorem sizeOf_lt_of_mem_childSteps {node : Value} {s : Step × Value} (h : s ∈ node.childSteps) :
    sizeOf s.2 < sizeOf node := by
  unfold childSteps at h
  split at h
  · obtain ⟨m, hm, rfl⟩ := List.mem_map.1 h
    cases hps : (node.field "properties").members? with
    | none =>
        rw [hps] at hm
        cases hm
    | some ps =>
        rw [hps] at hm
        have hnull : (node.field "properties").isNull = false := by
          cases hp : node.field "properties" with
          | scalar s =>
              rw [hp] at hps
              cases hps
          | _ => rfl
        have hmember := List.sizeOf_lt_of_mem hm
        have hps := sizeOf_lt_of_members? hps
        have hfield := sizeOf_field_lt hnull
        obtain ⟨k, v⟩ := m
        simp only [Option.getD_some, Prod.mk.sizeOf_spec] at hmember
        show sizeOf v < sizeOf node
        omega
  · split at h
    · next hitems =>
      obtain rfl := List.mem_singleton.1 h
      exact sizeOf_field_lt hitems.2
    · cases h

/-- Induction over nodes, from those right below a node to the node. -/
@[elab_as_elim]
theorem childSteps_induction {motive : Value → Prop}
    (step : ∀ node, (∀ s ∈ node.childSteps, motive s.2) → motive node) (node : Value) :
    motive node := by
  induction hsize : sizeOf node using Nat.strongRecOn generalizing node with
  | ind size ih =>
      subst hsize
      exact step node fun s hs => ih _ (sizeOf_lt_of_mem_childSteps hs) s.2 rfl

/-- A node and all nodes below it, with the ways to them, each before those below it. -/
def visits (node : Value) : List (List Step × Value) :=
  ([], node) :: node.childSteps.attach.flatMap fun s =>
    (visits s.1.2).map fun v => (s.1.1 :: v.1, v.2)
termination_by sizeOf node
decreasing_by exact sizeOf_lt_of_mem_childSteps s.2

/-- The visits of a node: itself, then those of each child with the step in front. -/
theorem visits_eq (node : Value) :
    node.visits = ([], node) :: node.childSteps.flatMap fun s =>
      s.2.visits.map fun v => (s.1 :: v.1, v.2) := by
  rw [visits]
  congr 1
  conv_rhs => rw [← List.attach_map_subtype_val node.childSteps, List.flatMap_map]

/-- The children of a plain node are plain. -/
theorem Plain.childSteps {node : Value} (h : node.Plain) {s : Step × Value}
    (hs : s ∈ node.childSteps) :
    s.2.Plain ∧ ∀ name, s.1 = .property name → ∃ text, name = .text text := by
  unfold Value.childSteps at hs
  split at hs
  · obtain ⟨m, hm, rfl⟩ := List.mem_map.1 hs
    cases hps : (node.field "properties").members? with
    | none =>
        rw [hps] at hm
        cases hm
    | some ps =>
        rw [hps] at hm
        obtain ⟨texts, hplain⟩ := (h.field "properties").members hps
        refine ⟨hplain m hm, fun name hname => ?_⟩
        cases hname
        exact texts m hm
  · split at hs
    · obtain rfl := List.mem_singleton.1 hs
      exact ⟨h.field "items", fun name hname => nomatch hname⟩
    · cases hs

/-- What is below a plain node is plain, and is reached by text names. -/
theorem Plain.visits {node : Value} (h : node.Plain) :
    ∀ v ∈ node.visits, v.2.Plain ∧ ∀ name, .property name ∈ v.1 → ∃ text, name = .text text := by
  induction node using childSteps_induction with
  | step node ih =>
      intro v hv
      rw [visits_eq, List.mem_cons, List.mem_flatMap] at hv
      rcases hv with rfl | ⟨s, hs, hv⟩
      · exact ⟨h, fun name hname => nomatch hname⟩
      · obtain ⟨w, hw, rfl⟩ := List.mem_map.1 hv
        obtain ⟨hplain, htext⟩ := h.childSteps hs
        obtain ⟨hbelow, htexts⟩ := ih s hs hplain w hw
        refine ⟨hbelow, fun name hname => ?_⟩
        rcases List.mem_cons.1 hname with hname | hname
        · exact htext name hname.symm
        · exact htexts name hname

/-- A way of text names leads to a name that can be shown. -/
theorem isShown_nameAt {outer : Value} {way : List Step} (houter : outer.isShown = true)
    (h : ∀ name, .property name ∈ way → ∃ text, name = .text text) :
    (nameAt outer way).isShown = true := by
  unfold nameAt
  cases hlast : (way.filterMap Step.property?).getLast? with
  | none => exact houter
  | some name =>
      obtain ⟨s, hs, hname⟩ := List.mem_filterMap.1 (List.mem_of_getLast? hlast)
      cases s with
      | items => cases hname
      | property other =>
          cases hname
          obtain ⟨text, rfl⟩ := h _ hs
          rfl

end Value

end ApiAuthz
