/-
The grammar of schema nodes. `Denotes` says, form by form, what a node that stands at a
depth stands for in a schema: a reference for the type of its component, an object for a
record, an array for a set, a primitive type for its counterpart. It does not say how nodes
are converted, and the name of a node, which is for reports only, does not occur in it.

Conversion accepts just the nodes of the grammar and gives what they denote: whatever it
gives is denoted (`denotes_of_convertAt`, by induction from what is below a node to the
node), and whatever is denoted it gives (`convertAt_of_denotes`, by induction on the form).

# The forms exclude each other

A reference comes before everything else in a node (`view_ref`), so all other forms ask that
there is none; then the type decides (`view_ofType`), and the words for types are different. An
object is empty if its properties count as false, as they do where they are missing, and
otherwise they have to be members. What a node holds beside its form is not looked at, whatever
keys it stands under.

# Depths

Every form asks that its depth is within the limit (`Within`), and what stands below it stands
one level deeper. The depth is a value of the language like any other, compared and counted on
as such; that this is integer arithmetic for integers is the last part of
`convertAt_eq_ok_iff`.
-/
import ApiAuthz.Proofs.Schema.NodeView

namespace ApiAuthz

namespace Value

theorem field?_of_members? {v : Value} {ms : Members Value} (h : v.members? = some ms)
    (name : String) : v.field? name = Members.find? (.text name) ms := by
  rw [field?, h, Option.bind_some]

theorem members?_of_field? {v w : Value} {name : String} (h : v.field? name = some w) :
    ∃ ms, v.members? = some ms ∧ Members.find? (.text name) ms = some w :=
  Option.bind_eq_some_iff.1 h

theorem field_of_field? {v w : Value} {name : String} (h : v.field? name = some w) :
    v.field name = w := by
  rw [field, h, Option.getD_some]

/-- A mapping that is no reference and has a type. -/
structure OfType (node : Value) (typeName : String) : Prop where
  noRef : node.field? "$ref" = none
  type : node.field? "type" = some (.text typeName)

end Value

namespace Converter

open Value (OfType)

variable {c : Converter} {depth name node : Value}

-- ==================================================== references

/-- A text names a component if it is what all references start with and the name behind
it, which is neither empty nor has a slash. -/
theorem component?_eq_some {ref t : String} : component? ref = some t ↔
    ref = "#/components/schemas/" ++ t ∧ t ≠ "" ∧ '/' ∉ t.toList := by
  have hstart : "#/components/schemas/".toList = componentStart := rfl
  unfold component?
  constructor
  · intro h
    dsimp only at h
    split at h
    · next hname =>
      cases h
      simp only [Bool.and_eq_true, Bool.not_eq_true', List.isPrefixOf_iff_prefix] at hname
      obtain ⟨⟨⟨rest, hrest⟩, hne⟩, hslash⟩ := hname
      rw [← hrest, List.drop_left] at hne hslash ⊢
      refine ⟨?_, ?_, ?_⟩
      · rw [← String.toList_inj, String.toList_append, hstart, String.toList_ofList, hrest]
      · intro hempty
        rw [String.ofList_eq_empty_iff] at hempty
        rw [hempty] at hne
        cases hne
      · simpa using hslash
    · cases h
  · rintro ⟨rfl, hne, hslash⟩
    dsimp only
    rw [String.toList_append, hstart, List.drop_left, if_pos, String.ofList_toList]
    simp [hslash, hne]

/-- The name of a component may be used in references. -/
def Known (c : Converter) (target : String) : Prop :=
  ∀ names, c.names = some names → .text target ∈ names

/-- A reference to a component of this name. -/
structure Refers (c : Converter) (ref : Value) (target : String) : Prop where
  text : ref = .text ("#/components/schemas/" ++ target)
  named : target ≠ ""
  unslashed : '/' ∉ target.toList
  known : c.Known target

/-- A reference leads where the grammar says. -/
theorem target_eq_ok {ref : Value} {t : String} : c.target name ref = .ok t ↔ c.Refers ref t := by
  unfold target
  constructor
  · intro h
    split at h
    · cases h
    · next text htext =>
      split at h
      · cases h
      · next u hu =>
        obtain ⟨rfl, hne, hslash⟩ := component?_eq_some.1 hu
        have href := Value.eq_text_of_text? htext
        split at h
        · next hnames =>
          cases h
          refine ⟨href, hne, hslash, fun names hsome => ?_⟩
          rw [hnames] at hsome
          cases hsome
        · next names hnames =>
          split at h
          · next hmem =>
            cases h
            refine ⟨href, hne, hslash, fun names' hsome => ?_⟩
            rw [hnames] at hsome
            cases hsome
            exact List.contains_iff_mem.1 hmem
          · cases h
  · rintro ⟨rfl, hne, hslash, hknown⟩
    have hcomponent : component? ("#/components/schemas/" ++ t) = some t :=
      component?_eq_some.2 ⟨rfl, hne, hslash⟩
    simp only [Value.text?, hcomponent]
    cases hnames : c.names with
    | none => rfl
    | some names =>
        dsimp only
        rw [if_pos (List.contains_iff_mem.2 (hknown names hnames))]

-- ==================================================== primitive types

/-- The primitive types of nodes and their counterparts. -/
def primitiveNames : List (String × String) :=
  [("string", "String"), ("number", "Long"), ("integer", "Long"), ("boolean", "Boolean")]

/-- A primitive type is one of the table, with its name in Cedar. -/
theorem mem_primitiveNames_of_primitive? {typeName : String} {t : CedarType}
    (h : primitive? typeName = some t) : ∃ cedarName,
      (typeName, cedarName) ∈ primitiveNames ∧ t.toValue = .object [("type", .text cedarName)] := by
  unfold primitive? at h
  split at h
  · cases h
    exact ⟨"String", by decide, rfl⟩
  · cases h
    exact ⟨"Long", by decide, rfl⟩
  · cases h
    exact ⟨"Long", by decide, rfl⟩
  · cases h
    exact ⟨"Boolean", by decide, rfl⟩
  · cases h

/-- The types of the table are leaves. -/
theorem viewTyped_primitive {typeName cedarName : String} {ms : Members Value}
    (ht : Members.find? (.text "type") ms = some (.text typeName))
    (h : (typeName, cedarName) ∈ primitiveNames) : ∃ t,
      viewTyped depth name ms = .ok (.leaf t) ∧ t.toValue = .object [("type", .text cedarName)] := by
  unfold viewTyped
  rw [ht]
  simp only [primitiveNames, List.mem_cons, Prod.mk.injEq, List.not_mem_nil, or_false] at h
  rcases h with ⟨rfl, rfl⟩ | ⟨rfl, rfl⟩ | ⟨rfl, rfl⟩ | ⟨rfl, rfl⟩
  · exact ⟨.text, rfl, rfl⟩
  · exact ⟨.long, rfl, rfl⟩
  · exact ⟨.long, rfl, rfl⟩
  · exact ⟨.boolean, rfl, rfl⟩

-- ==================================================== the grammar

/-- A depth that nodes may stand at. -/
def Within (c : Converter) (depth : Value) : Prop := depth.above? c.limit = some false

/-- The form of a type that goes by its name alone. -/
def namedForm (name : String) : Value := .object [("type", .text name)]

/-- The form of a record. -/
def recordForm (attributes : Members Value) : Value :=
  .object [("type", .text "Record"), ("attributes", .map attributes)]

/-- The form of a set. -/
def setForm (element : Value) : Value := .object [("type", .text "Set"), ("element", element)]

/-- What a node at a depth denotes. -/
inductive Denotes (c : Converter) : Value → Value → Value → Prop
  | ref {depth node ref : Value} {target : String} (within : c.Within depth)
      (hr : node.field? "$ref" = some ref) (refers : c.Refers ref target) :
      Denotes c depth node (namedForm target)
  | emptyObject {depth node : Value} (within : c.Within depth) (ofType : node.OfType "object")
      (none : (node.field "properties").truthy = false) : Denotes c depth node (recordForm [])
  | object {depth node below : Value} {ps types : Members Value} (within : c.Within depth)
      (ofType : node.OfType "object") (hps : (node.field "properties").members? = some ps)
      (hn : depth.successor? = some below) (names : Members.keys types = Members.keys ps)
      (each : ∀ m ∈ ps.zip types, Denotes c below m.1.2 m.2.2) :
      Denotes c depth node (recordForm types)
  | array {depth node below type : Value} (within : c.Within depth)
      (ofType : node.OfType "array") (notNull : (node.field "items").isNull = false)
      (hn : depth.successor? = some below) (element : Denotes c below (node.field "items") type) :
      Denotes c depth node (setForm type)
  | primitive {depth node : Value} {typeName cedarName : String} (within : c.Within depth)
      (ofType : node.OfType typeName) (known : (typeName, cedarName) ∈ primitiveNames) :
      Denotes c depth node (namedForm cedarName)

/-- A reference comes before everything else in a node. -/
theorem view_ref {ref : Value} (hwithin : c.Within depth) (hr : node.field? "$ref" = some ref) :
    c.view depth name node = (c.target name ref).map fun t => .leaf (.named t) := by
  obtain ⟨ms, hms, hfind⟩ := Value.members?_of_field? hr
  unfold Within at hwithin
  unfold view
  simp only [hwithin, hms, hfind]

/-- A mapping that is no reference is looked at by its type. -/
theorem view_noRef {ms : Members Value} (name : Value) (hwithin : c.Within depth)
    (hms : node.members? = some ms) (hr : node.field? "$ref" = none) :
    c.view depth name node = viewTyped depth name ms := by
  rw [Value.field?_of_members? hms] at hr
  unfold Within at hwithin
  unfold view
  simp only [hwithin, hms, hr]

/-- Without one the type decides. -/
theorem view_ofType {typeName : String} (name : Value) (hwithin : c.Within depth)
    (h : node.OfType typeName) :
    ∃ ms, node.members? = some ms ∧
      Members.find? (.text "type") ms = some (.text typeName) ∧
      c.view depth name node = viewTyped depth name ms := by
  obtain ⟨ms, hms, ht⟩ := Value.members?_of_field? h.type
  exact ⟨ms, hms, ht, view_noRef name hwithin hms h.noRef⟩

/-- An object is seen by its properties. -/
theorem view_object (hwithin : c.Within depth) (h : node.OfType "object") :
    c.view depth name node = viewObject depth (node.field "properties") := by
  obtain ⟨ms, hms, ht, hview⟩ := view_ofType name hwithin h
  rw [hview, viewTyped, ht, Value.field, Value.field?_of_members? hms]
  rfl

/-- A list is seen by its items. -/
theorem view_array (hwithin : c.Within depth) (h : node.OfType "array") :
    c.view depth name node = viewArray depth name (node.field "items") := by
  obtain ⟨ms, hms, ht, hview⟩ := view_ofType name hwithin h
  rw [hview, viewTyped, ht, Value.field, Value.field?_of_members? hms]
  rfl

-- ==================================================== what conversion gives is denoted

theorem keys_attributeValues (attributes : Members CedarType) :
    Members.keys (CedarType.attributeValues attributes) = Members.keys attributes := by
  rw [CedarType.attributeValues_eq_map]
  unfold Members.keys
  rw [List.map_map]
  rfl

/-- Properties that convert have their types as attributes, by their names and in order. -/
theorem zip_of_mapM {below : Value} {ps : Members Value} {attributes : Members CedarType}
    (h : (ps.mapM fun m => do return (m.1, ← c.convertAt below (.scalar m.1) m.2)) =
      .ok attributes) :
    Members.keys attributes = Members.keys ps ∧
      ∀ m ∈ ps.zip (CedarType.attributeValues attributes), ∃ t,
        c.convertAt below (.scalar m.1.1) m.1.2 = .ok t ∧ t.toValue = m.2.2 := by
  have hall := Attempt.mapM_eq_ok.1 h
  clear h
  induction hall with
  | nil => exact ⟨rfl, fun _ hm => nomatch hm⟩
  | cons hm _ ih =>
      obtain ⟨t, ht, hm⟩ := Attempt.bind_eq_ok.1 hm
      obtain rfl := Attempt.pure_eq_ok.1 hm
      refine ⟨congrArg _ ih.1, ?_⟩
      rw [CedarType.attributeValues, List.zip_cons_cons, List.forall_mem_cons]
      exact ⟨⟨t, ht, rfl⟩, ih.2⟩

/-- Whatever conversion gives is what the node denotes. -/
theorem denotes_of_convertAt {t : CedarType} (h : c.convertAt depth name node = .ok t) :
    c.Denotes depth node t.toValue := by
  induction depth, name, node using view_induction c generalizing t with
  | step depth name node properties items =>
      rw [convertAt_eq] at h
      obtain ⟨shape, hview, h⟩ := Attempt.bind_eq_ok.1 h
      obtain ⟨hwithin, ms, hms, hv⟩ := view_inv hview
      have hfield := Value.field?_of_members? hms
      cases hv with
      | ref hr ht =>
          cases h
          exact .ref hwithin ((hfield _).trans hr) (target_eq_ok.1 ht)
      | emptyObject hr ht =>
          cases h
          have hnode : node.OfType "object" := ⟨(hfield _).trans hr, (hfield _).trans ht⟩
          refine .emptyObject hwithin hnode ?_
          rw [view_object hwithin hnode] at hview
          obtain ⟨hnone, -⟩ | ⟨_, _, -, -, -, hrecord⟩ := viewObject_eq_ok.1 hview
          · exact hnone
          · cases hrecord
      | object hr ht hp hps hn =>
          obtain ⟨attributes, hall, h⟩ := Attempt.bind_eq_ok.1 h
          obtain rfl := Attempt.pure_eq_ok.1 h
          obtain ⟨hkeys, hzip⟩ := zip_of_mapM hall
          have hproperties := Value.field_of_field? ((hfield "properties").trans hp)
          refine .object hwithin ⟨(hfield _).trans hr, (hfield _).trans ht⟩
            (hproperties ▸ hps) hn ((keys_attributeValues _).trans hkeys) fun m hm => ?_
          obtain ⟨u, hu, hvalue⟩ := hzip m hm
          rw [← hvalue]
          exact properties hview m.1 (List.of_mem_zip hm).1 hu
      | array hr ht hi hn =>
          obtain ⟨u, hu, h⟩ := Attempt.bind_eq_ok.1 h
          obtain rfl := Attempt.pure_eq_ok.1 h
          have hnode : node.OfType "array" := ⟨(hfield _).trans hr, (hfield _).trans ht⟩
          have hitems := Value.field_of_field? ((hfield "items").trans hi)
          have hdenotes := hitems ▸ items hview hu
          rw [view_array hwithin hnode] at hview
          obtain ⟨_, hnull, -⟩ := viewArray_eq_ok.1 hview
          exact .array hwithin hnode hnull hn hdenotes
      | primitive hr ht hp =>
          cases h
          obtain ⟨cedarName, hknown, hvalue⟩ := mem_primitiveNames_of_primitive? hp
          rw [hvalue]
          exact .primitive hwithin ⟨(hfield _).trans hr, (hfield _).trans ht⟩ hknown

-- ==================================================== what is denoted conversion gives

/-- Properties that all convert to these types make a record of them. -/
theorem mapM_of_zip {below : Value} {ps types : Members Value}
    (hkeys : Members.keys types = Members.keys ps)
    (h : ∀ m ∈ ps.zip types, ∀ name, ∃ t,
      c.convertAt below name m.1.2 = .ok t ∧ t.toValue = m.2.2) :
    ∃ attributes, (ps.mapM fun m => do return (m.1, ← c.convertAt below (.scalar m.1) m.2)) =
      .ok attributes ∧ CedarType.attributeValues attributes = types := by
  induction ps generalizing types with
  | nil =>
      refine ⟨[], rfl, ?_⟩
      rw [CedarType.attributeValues, eq_comm]
      exact List.map_eq_nil_iff.1 hkeys
  | cons p ps ih =>
      cases types with
      | nil => cases hkeys
      | cons m types =>
          obtain ⟨hkey, hkeys⟩ := List.cons.inj hkeys
          rw [List.zip_cons_cons, List.forall_mem_cons] at h
          obtain ⟨t, ht, hvalue⟩ := h.1 (.scalar p.1)
          obtain ⟨attributes, hall, hvalues⟩ := ih hkeys h.2
          refine ⟨(p.1, t) :: attributes, ?_, ?_⟩
          · rw [List.mapM_cons, ht, hall]
            rfl
          · rw [CedarType.attributeValues, hvalues]
            show (p.1, t.toValue) :: types = m :: types
            rw [hvalue, ← hkey]

/-- Whatever a node denotes is what conversion gives, under any name. -/
theorem convertAt_of_denotes {v : Value} (h : c.Denotes depth node v) (name : Value) :
    ∃ t, c.convertAt depth name node = .ok t ∧ t.toValue = v := by
  induction h generalizing name with
  | @ref depth node ref target hwithin hr hrefers =>
      refine ⟨.named target, ?_, rfl⟩
      rw [convertAt_eq, view_ref hwithin hr, target_eq_ok.2 hrefers]
      rfl
  | emptyObject hwithin hnode hnone =>
      refine ⟨.emptyRecord, ?_, rfl⟩
      rw [convertAt_eq, view_object hwithin hnode, viewObject, hnone]
      rfl
  | @object depth node below ps types hwithin hnode hps hn hkeys _ ih =>
      obtain ⟨attributes, hall, hvalues⟩ := mapM_of_zip hkeys ih
      refine ⟨.record attributes, ?_, by rw [← hvalues]; rfl⟩
      rw [convertAt_eq, view_object hwithin hnode, bind_viewObject,
        Value.truthy_of_members? hps, hps]
      cases ps with
      | nil =>
          obtain rfl : [] = attributes := Except.ok.inj hall
          rfl
      | cons p ps =>
          rw [← convertBelow_eq hn] at hall
          simp only [List.isEmpty_cons, Bool.not_false, Bool.not_true, Bool.false_eq_true, if_false,
            hall]
          rfl
  | @array depth node below type hwithin hnode hnull hn _ ih =>
      obtain ⟨t, ht, hvalue⟩ := ih name
      refine ⟨.set t, ?_, by rw [← hvalue]; rfl⟩
      rw [convertAt_eq, view_array hwithin hnode, viewArray, hnull, hn]
      show c.convertShape name (.set below (node.field "items")) = _
      rw [convertShape, ht]
      rfl
  | primitive hwithin hnode hknown =>
      obtain ⟨ms, -, ht, hview⟩ := view_ofType name hwithin hnode
      obtain ⟨t, htyped, hvalue⟩ := viewTyped_primitive ht hknown
      refine ⟨t, ?_, hvalue⟩
      rw [convertAt_eq, hview, htyped]
      rfl

/-- Conversion accepts just the nodes of the grammar, and gives what they denote. Where depth
and limit are integers, a depth is within the limit if it is at most that, and what is below
a node stands one deeper. -/
theorem convertAt_eq_ok_iff (c : Converter) (depth name node v : Value) :
    ((c.convertAt depth name node).map CedarType.toValue = .ok v ↔ c.Denotes depth node v) ∧
      ∀ (d limit : Int) (names : Option (List Scalar)),
        (Within ⟨names, .int limit⟩ (.int d) ↔ d ≤ limit) ∧
          (Value.int d).successor? = some (.int (d + 1)) := by
  refine ⟨⟨fun h => ?_, fun h => ?_⟩, fun d limit names => ⟨?_, rfl⟩⟩
  · obtain ⟨t, ht, rfl⟩ := Attempt.map_eq_ok.1 h
    exact denotes_of_convertAt ht
  · exact Attempt.map_eq_ok.2 (convertAt_of_denotes h name)
  · simp [Within, Value.above?, Value.key?, Scalar.below?, Scalar.rank?, Scalar.ratio?,
      Scalar.Rank.below?]

end Converter

end ApiAuthz
