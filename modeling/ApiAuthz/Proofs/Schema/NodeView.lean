/-
Schema nodes one level at a time. `Converter.view` is what is asked of a node
itself: it faults, or the node is a type by itself, or it is a record or a set of
nodes further down. `convertAt_eq` says that conversion looks at a node and then
converts what is below it, in order; properties of conversion are proved along
it, by induction from what is below a node to the node (`Converter.view_induction`).

# The equation

Conversion is written with the tests of a node and the walk over its properties in
one. `view` has the tests alone, with a `Shape` for what is left to do, and
`convertShape` has the walk. Where the type of a node decides, the two are taken
apart kind by kind (`bind_viewObject`, `bind_viewArray`, `convertAt_of_members`);
a properties walk makes each depth anew, from the depth of the node, and as that
is the same for all of them it can be made once (`convertBelow_eq`).

# What a view tells

`Views` has a constructor for each way in which a node does not fault, with what
was found in the node (`view_inv`). The induction is on the size of nodes: what
is viewed below a node is a part of it (`sizeOf_lt_of_record`,
`sizeOf_lt_of_set`), so a property of conversion follows if it goes over from
the nodes below to the node, at whatever depth and under whatever name.
-/
import ApiAuthz.Proofs.Attempt
import ApiAuthz.SchemaNode

namespace ApiAuthz

/-- A mapping counts for something if it is not empty. -/
theorem Value.truthy_of_members? {v : Value} {ms : Members Value} (h : v.members? = some ms) :
    v.truthy = !ms.isEmpty := by
  induction v with
  | looped n v ih => exact ih h
  | map ns _ =>
      cases h
      rfl
  | scalar s => cases h
  | list items _ => cases h
  | pair a b _ _ => cases h
  | set items => cases h

/-- Integers are compared as such. -/
theorem Value.above?_int (m n : Int) : (int m).above? (.int n) = some (decide (n < m)) := by
  simp [above?, key?, Scalar.below?, Scalar.rank?, Scalar.ratio?, Scalar.Rank.below?]

/-- What a node is at its own level. -/
inductive Shape where
  | leaf (type : CedarType)
  /-- Properties, and the depth at which they stand. -/
  | record (depth : Value) (properties : Members Value)
  /-- An element, and the depth at which it stands. -/
  | set (depth element : Value)

namespace Converter

-- ==================================================== one level

/-- An object with these properties, null if it has none. Any empty value is none. -/
def viewObject (depth properties : Value) : Attempt Shape :=
  if !properties.truthy then .ok (.leaf .emptyRecord)
  else
    match properties.members? with
    | none => Fault.noSuchPart
    | some ps =>
      match depth.successor? with
      | none => Fault.wrongKind
      | some below => .ok (.record below ps)

/-- An array with these items, null if it has none. -/
def viewArray (depth name items : Value) : Attempt Shape :=
  if items.isNull then Fault.report (.missingItems name)
  else
    match depth.successor? with
    | none => Fault.wrongKind
    | some below => .ok (.set below items)

/-- A mapping that is no reference, by its type. -/
def viewTyped (depth name : Value) (ms : Members Value) : Attempt Shape :=
  match (Members.find? (.text "type") ms).getD .null with
  | .null => (untyped name (Members.keys ms)).map .leaf
  | .text "object" => viewObject depth ((Members.find? (.text "properties") ms).getD .null)
  | .text "array" => viewArray depth name ((Members.find? (.text "items") ms).getD .null)
  | type => (primitive name type).map .leaf

/-- What is asked of a node at a depth before what is below it is looked at. -/
def view (c : Converter) (depth name node : Value) : Attempt Shape :=
  match depth.above? c.limit with
  | none => Fault.wrongKind
  | some true => Fault.report (.depthExceeded name c.limit)
  | some false =>
    match node.members? with
    | none => Fault.report (.notSchemaObject name)
    | some ms =>
      match Members.find? (.text "$ref") ms with
      | some ref => (c.target name ref).map fun t => .leaf (.named t)
      | none => viewTyped depth name ms

variable {c : Converter} {depth name node : Value}

/-- A reference has a target, or is reported as foreign or as dangling. -/
theorem target_cases (c : Converter) (name ref : Value) :
    (∃ t, c.target name ref = .ok t) ∨ c.target name ref = Fault.report (.foreignRef name ref) ∨
      ∃ text, c.target name ref = Fault.report (.danglingRef name text) := by
  unfold target
  split
  · exact Or.inr (Or.inl rfl)
  · split
    · exact Or.inr (Or.inl rfl)
    · split
      · exact Or.inl ⟨_, rfl⟩
      · split
        · exact Or.inl ⟨_, rfl⟩
        · exact Or.inr (Or.inr ⟨_, rfl⟩)

/-- What an object is seen as: an empty record, or a record of its properties one level down. -/
theorem viewObject_eq_ok {properties : Value} {shape : Shape} :
    viewObject depth properties = .ok shape ↔
      (properties.truthy = false ∧ shape = .leaf .emptyRecord) ∨
        ∃ below ps, properties.truthy = true ∧ properties.members? = some ps ∧
          depth.successor? = some below ∧ shape = .record below ps := by
  unfold viewObject
  cases properties.truthy with
  | false => simp [eq_comm]
  | true =>
      cases properties.members? with
      | none => simp [Fault.noSuchPart]
      | some ps =>
          cases depth.successor? with
          | none => simp [Fault.wrongKind]
          | some below => simp [eq_comm]

/-- What a list is seen as: a set of its items one level down. -/
theorem viewArray_eq_ok {items : Value} {shape : Shape} :
    viewArray depth name items = .ok shape ↔
      ∃ below, items.isNull = false ∧ depth.successor? = some below ∧
        shape = .set below items := by
  unfold viewArray
  cases items.isNull with
  | true => simp [Fault.report]
  | false =>
      cases depth.successor? with
      | none => simp [Fault.wrongKind]
      | some below => simp [eq_comm]

/-- A node deeper than the limit is refused, whatever it is. -/
theorem view_deeper {limit deep : Int} (hlimit : c.limit = .int limit) (h : limit < deep) :
    c.view (.int deep) name node = Fault.report (.depthExceeded name c.limit) := by
  have habove : (Value.int deep).above? c.limit = some true := by
    rw [hlimit, Value.above?_int, decide_eq_true h]
  unfold view
  simp only [habove]

/-- The type of a node from the types of what is below it. -/
def convertShape (c : Converter) (name : Value) : Shape → Attempt CedarType
  | .leaf type => .ok type
  | .record below properties => do
    return .record (← properties.mapM fun m => do
      return (m.1, ← c.convertAt below (.scalar m.1) m.2))
  | .set below element => do return .set (← c.convertAt below name element)

/-- Properties are converted one by one, each under its own name. -/
theorem convertBelow_eq {below : Value} (h : depth.successor? = some below) (ps : Members Value) :
    c.convertBelow depth ps =
      ps.mapM fun m => do return (m.1, ← c.convertAt below (.scalar m.1) m.2) := by
  induction ps with
  | nil =>
      rw [convertBelow]
      rfl
  | cons m ps ih =>
      obtain ⟨k, v⟩ := m
      rw [convertBelow, h, List.mapM_cons, ih]
      simp only [bind_assoc, pure_bind]

/-- An object with properties has at least one, so the depth below it is asked for. -/
theorem bind_viewObject (properties : Value) :
    viewObject depth properties >>= c.convertShape name =
      if !properties.truthy then .ok .emptyRecord
      else
        match properties.members? with
        | none => Fault.noSuchPart
        | some ps => do return .record (← c.convertBelow depth ps) := by
  unfold viewObject
  split
  · rfl
  · next htruthy =>
    cases hps : properties.members? with
    | none => rfl
    | some ps =>
        cases hbelow : depth.successor? with
        | some below =>
            simp only [convertBelow_eq hbelow]
            rfl
        | none =>
            rw [Bool.not_eq_true, Bool.not_eq_false'] at htruthy
            cases ps with
            | nil =>
                rw [Value.truthy_of_members? hps] at htruthy
                cases htruthy
            | cons m ps =>
                obtain ⟨k, v⟩ := m
                simp only
                rw [convertBelow, hbelow]
                rfl

/-- Seeing a list and then converting its items is what the converter does. -/
theorem bind_viewArray (items : Value) :
    viewArray depth name items >>= c.convertShape name =
      if items.isNull then Fault.report (.missingItems name)
      else
        match depth.successor? with
        | none => Fault.wrongKind
        | some below => do return .set (← c.convertAt below name items) := by
  unfold viewArray
  split
  · rfl
  · cases depth.successor? with
    | none => rfl
    | some below => rfl

/-- A mapping that is no reference is converted by its type. -/
theorem convertAt_of_members {ms : Members Value} (hlimit : depth.above? c.limit = some false)
    (hms : node.members? = some ms) (href : Members.find? (.text "$ref") ms = none) :
    c.convertAt depth name node = viewTyped depth name ms >>= c.convertShape name := by
  -- The right side is named, so that only conversion is split.
  generalize hr : viewTyped depth name ms >>= c.convertShape name = r
  unfold viewTyped at hr
  unfold convertAt
  simp only [hlimit]
  split
  · next hnone => cases hms.symm.trans hnone
  · next ms' hms' =>
    obtain rfl := Option.some.inj (hms.symm.trans hms')
    simp only [href]
    split
    · next htype =>
      simp only [htype] at hr
      rw [← hr]
      cases untyped name (Members.keys ms) with
      | error f => rfl
      | ok t => rfl
    · next htype =>
      simp only [htype] at hr
      rw [← hr, bind_viewObject]
      split
      · next hp =>
        rw [hp]
        rfl
      · next properties hp =>
        rw [hp, Option.getD_some]
        split
        · rfl
        · split
          · next hps => rw [hps]
          · next ps hps => rw [hps]
    · next htype =>
      simp only [htype] at hr
      rw [← hr, bind_viewArray]
      split
      · next hi =>
        rw [hi]
        rfl
      · next element hi =>
        rw [hi]
        rfl
    · next hnull hobject harray =>
      split at hr
      · next htype => exact absurd htype hnull
      · next htype => exact absurd htype hobject
      · next htype => exact absurd htype harray
      · rw [← hr]
        cases primitive name ((Members.find? (.text "type") ms).getD .null) with
        | error f => rfl
        | ok t => rfl

/-- Conversion looks at a node, then converts what is below it. -/
theorem convertAt_eq : c.convertAt depth name node =
    c.view depth name node >>= c.convertShape name := by
  unfold view
  split
  · next hlimit =>
    unfold convertAt
    rw [hlimit]
    rfl
  · next hlimit =>
    unfold convertAt
    rw [hlimit]
    rfl
  · next hlimit =>
    split
    · next hnone =>
      unfold convertAt
      simp only [hlimit]
      split
      · rfl
      · next hms => cases hnone.symm.trans hms
    · next ms hms =>
      split
      · next ref href =>
        unfold convertAt
        simp only [hlimit]
        split
        · next hnone => cases hms.symm.trans hnone
        · next ms' hms' =>
          obtain rfl := Option.some.inj (hms.symm.trans hms')
          simp only [href]
          cases c.target name ref with
          | error f => rfl
          | ok t => rfl
      · next href => exact convertAt_of_members hlimit hms href

-- ==================================================== what a node can be

/-- What a node that does not fault is: a reference, an object with or without
properties, an array or a primitive type. -/
inductive Views (c : Converter) (depth name : Value) (ms : Members Value) : Shape → Prop where
  | ref {ref : Value} {target : String} (hr : Members.find? (.text "$ref") ms = some ref)
      (ht : c.target name ref = .ok target) : Views c depth name ms (.leaf (.named target))
  | emptyObject (hr : Members.find? (.text "$ref") ms = none)
      (ht : Members.find? (.text "type") ms = some (.text "object")) :
      Views c depth name ms (.leaf .emptyRecord)
  | object {below properties : Value} {ps : Members Value}
      (hr : Members.find? (.text "$ref") ms = none)
      (ht : Members.find? (.text "type") ms = some (.text "object"))
      (hp : Members.find? (.text "properties") ms = some properties)
      (hps : properties.members? = some ps) (hn : depth.successor? = some below) :
      Views c depth name ms (.record below ps)
  | array {below items : Value} (hr : Members.find? (.text "$ref") ms = none)
      (ht : Members.find? (.text "type") ms = some (.text "array"))
      (hi : Members.find? (.text "items") ms = some items) (hn : depth.successor? = some below) :
      Views c depth name ms (.set below items)
  | primitive {typeName : String} {type : CedarType}
      (hr : Members.find? (.text "$ref") ms = none)
      (ht : Members.find? (.text "type") ms = some (.text typeName))
      (hp : primitive? typeName = some type) : Views c depth name ms (.leaf type)

theorem eq_some_of_getD_null {v : Option Value} {s : String} (h : v.getD .null = .text s) :
    v = some (.text s) := by
  cases v with
  | none => cases h
  | some w =>
      rw [Option.getD_some] at h
      rw [h]

/-- A node that is seen by its type has no reference. -/
theorem views_of_viewTyped {ms : Members Value} {shape : Shape}
    (hr : Members.find? (.text "$ref") ms = none) (h : viewTyped depth name ms = .ok shape) :
    Views c depth name ms shape := by
  unfold viewTyped at h
  split at h
  · obtain ⟨t, ht, -⟩ := Attempt.map_eq_ok.1 h
    unfold untyped at ht
    split at ht
    · cases ht
    · split at ht
      · cases ht
      · cases ht
  · next htype =>
    have ht := eq_some_of_getD_null htype
    obtain ⟨-, rfl⟩ | ⟨below, ps, -, hps, hn, rfl⟩ := viewObject_eq_ok.1 h
    · exact .emptyObject hr ht
    · cases hp : Members.find? (.text "properties") ms with
      | none =>
          rw [hp] at hps
          cases hps
      | some properties =>
          rw [hp] at hps
          exact .object hr ht hp hps hn
  · next htype =>
    have ht := eq_some_of_getD_null htype
    obtain ⟨below, hnull, hn, rfl⟩ := viewArray_eq_ok.1 h
    cases hi : Members.find? (.text "items") ms with
    | none =>
        rw [hi] at hnull
        cases hnull
    | some items => exact .array hr ht hi hn
  · obtain ⟨t, ht, rfl⟩ := Attempt.map_eq_ok.1 h
    unfold primitive at ht
    split at ht
    · next htype =>
      cases ht
      obtain ⟨typeName, hname, hprimitive⟩ := Option.bind_eq_some_iff.1 htype
      exact .primitive hr (eq_some_of_getD_null (Value.eq_text_of_text? hname)) hprimitive
    · cases ht

/-- A node that does not fault is no deeper than the limit, and a mapping of one
of these forms. -/
theorem view_inv {shape : Shape} (h : c.view depth name node = .ok shape) :
    depth.above? c.limit = some false ∧
      ∃ ms, node.members? = some ms ∧ Views c depth name ms shape := by
  unfold view at h
  split at h
  · cases h
  · cases h
  · next hlimit =>
    refine ⟨hlimit, ?_⟩
    split at h
    · cases h
    · next ms hms =>
      refine ⟨ms, hms, ?_⟩
      split at h
      · next ref hr =>
        obtain ⟨t, ht, rfl⟩ := Attempt.map_eq_ok.1 h
        exact .ref hr ht
      · next hr => exact views_of_viewTyped hr h

/-- Properties are smaller than the node. -/
theorem sizeOf_lt_of_record {below : Value} {ps : Members Value} {m : Scalar × Value}
    (h : c.view depth name node = .ok (.record below ps)) (hm : m ∈ ps) :
    sizeOf m.2 < sizeOf node := by
  obtain ⟨-, ms, hms, hv⟩ := view_inv h
  cases hv with
  | object _ _ hp hps _ =>
      have hmember := List.sizeOf_lt_of_mem hm
      have hps := Value.sizeOf_lt_of_members? hps
      have hp := Value.sizeOf_lt_of_find? hp
      have hms := Value.sizeOf_lt_of_members? hms
      obtain ⟨k, v⟩ := m
      simp only [Prod.mk.sizeOf_spec] at hmember
      show sizeOf v < sizeOf node
      omega

/-- So are items. -/
theorem sizeOf_lt_of_set {below element : Value}
    (h : c.view depth name node = .ok (.set below element)) : sizeOf element < sizeOf node := by
  obtain ⟨-, ms, hms, hv⟩ := view_inv h
  cases hv with
  | array _ _ hi _ =>
      have hi := Value.sizeOf_lt_of_find? hi
      have hms := Value.sizeOf_lt_of_members? hms
      omega

/-- Induction over nodes, from the properties and the items that a node is viewed with. -/
@[elab_as_elim]
theorem view_induction (c : Converter) {motive : Value → Value → Value → Prop}
    (step : ∀ depth name node,
      (∀ {below ps}, c.view depth name node = .ok (.record below ps) →
        ∀ m ∈ ps, motive below (.scalar m.1) m.2) →
      (∀ {below element}, c.view depth name node = .ok (.set below element) →
        motive below name element) →
      motive depth name node)
    (depth name node : Value) : motive depth name node := by
  induction hsize : sizeOf node using Nat.strongRecOn generalizing depth name node with
  | ind size ih =>
      subst hsize
      refine step depth name node (fun hview m hm => ?_) (fun hview => ?_)
      · exact ih _ (sizeOf_lt_of_record hview hm) _ _ m.2 rfl
      · exact ih _ (sizeOf_lt_of_set hview) _ _ _ rfl

end Converter

end ApiAuthz
