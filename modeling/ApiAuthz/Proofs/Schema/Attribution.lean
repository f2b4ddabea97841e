/-
What conversion blames for a fault. Each node of a schema is asked for the first thing that is
wrong with it (`Converter.flaw`). Conversion fails exactly if a node is flawed, with the kind of
the first flaw, and says so of the property nearest above, or of the schema itself if there is
none above (`convertAt_firstFlaw`).

Neither the list of nodes nor the flaws depend on how nodes are converted. That the nodes are
visited in this order up to the first fault is `findSome?_positions`, by induction from a node
to those below it, where `children_eq` is the step; that a node faults by its flaw is
`reports_nodeFault`, and that it does not fault without one is `nodeFault_of_flawless`.

# Flaws

A flaw is a kind of report, found by asking in a fixed order: the depth, whether the node is a
mapping, the reference, the type. `Reports` says that the fault of a node is a report of the
kind, that its details name the schema, and that it has a message. The last is not a matter of
course, for a message shows what it is about, and a number with too many digits cannot be shown;
for the depth it is the limit that has to be shown.

# Ways and names

A visit is the way from the schema to a node, step by step, with the node at its end. The depth
of the node is the length of the way above the depth of the schema, and its name is that of the
last property on it (`positionAt`), so an item is reported under the name of its list. One step
is one level and perhaps one name more (`positionAt_cons`).

# The one thing that is no flaw

Properties that are neither empty nor a mapping are not reported at all. They make a fault that
escapes, and as long as no flaw was found before it is the fault of the conversion. So the
theorem asks of the nodes up to the first flaw, and of no other, that their properties can be
gone through (`nodeFault_of_prefix`).
-/
import ApiAuthz.Proofs.Schema.Positions
import ApiAuthz.Proofs.Schema.Visits

namespace ApiAuthz

-- ==================================================== flaws

/-- The cause is of this kind, and its details say which schema it is about. -/
structure MappingError.Blames (cause : MappingError) (kind : ErrorKind) (schema : Value) :
    Prop where
  kind_eq : cause.report.kind = kind
  schema_eq : Members.find? (.text "schema") cause.report.details = some schema.lift

namespace Converter

open Value (OfType)
open Step (nameAt)

variable {c : Converter} {limit depth : Int} {name node : Value} {kind : ErrorKind} {shown : Prop}

instance (c : Converter) (ref : Value) : Decidable (∃ target, c.Refers ref target) :=
  decidable_of_iff ((c.target .null ref).isOk = true) <| by
    constructor
    · intro h
      obtain ⟨t, ht⟩ := Attempt.exists_eq_ok h
      exact ⟨t, target_eq_ok.1 ht⟩
    · rintro ⟨t, ht⟩
      rw [target_eq_ok.2 ht]
      rfl

/-- What is wrong with the type of a mapping that is no reference. -/
def typeFlaw (node : Value) : Option ErrorKind :=
  match node.field "type" with
  | .null => some .unsupportedSchemaShape
  | .text "object" => none
  | .text "array" => if (node.field "items").isNull then some .missingArrayItems else none
  | type =>
    if type.text?.any fun s => (primitiveNames.map Prod.fst).contains s then none
    else some .unsupportedSchemaShape

/-- The first thing that is wrong with a node at a depth, by the kind of its report. -/
def flaw (c : Converter) (limit depth : Int) (node : Value) : Option ErrorKind :=
  if limit < depth then some .depthExceeded
  else if node.isMap = false then some .unsupportedSchemaShape
  else
    match node.field? "$ref" with
    | some ref => if ∃ target, c.Refers ref target then none else some .unsupportedRef
    | none => typeFlaw node

/-- What is wrong with a node below one that stands at a depth. -/
def flawAt (c : Converter) (limit depth : Int) (v : List Step × Value) : Option ErrorKind :=
  c.flaw limit (depth + v.1.length) v.2

/-- The way to the first flawed node, and what is wrong with it. -/
def firstFlaw (c : Converter) (limit depth : Int) (node : Value) :
    Option (List Step × ErrorKind) :=
  node.visits.findSome? fun v => (c.flawAt limit depth v).map fun kind => (v.1, kind)

/-- The first flaw is that of a node, and the nodes in front of it have none. -/
theorem firstFlaw_eq_some {way : List Step} (h : c.firstFlaw limit depth node = some (way, kind)) :
    ∃ before below after, node.visits = before ++ (way, below) :: after ∧
      c.flawAt limit depth (way, below) = some kind ∧
      ∀ v ∈ before, c.flawAt limit depth v = none := by
  obtain ⟨before, ⟨way', below⟩, after, hvisits, hv, hbefore⟩ := List.findSome?_eq_some_iff.1 h
  obtain ⟨kind', hflaw, heq⟩ := Option.map_eq_some_iff.1 hv
  cases heq
  exact ⟨before, below, after, hvisits, hflaw, fun v hv => Option.map_eq_none_iff.1 (hbefore v hv)⟩

/-- A depth is within a limit of integers unless it is greater. -/
theorem within_iff (hlimit : c.limit = .int limit) : c.Within (.int depth) ↔ ¬limit < depth := by
  unfold Within
  rw [hlimit, Value.above?_int, Option.some_inj, decide_eq_false_iff_not]

/-- A type that is not among the primitive ones is reported as such. -/
theorem primitive_of_unknown {type : Value}
    (h : ¬(type.text?.any fun s => (primitiveNames.map Prod.fst).contains s) = true) :
    primitive name type = Fault.report (.unsupportedType name type) := by
  unfold primitive
  split
  · next htype =>
    obtain ⟨typeName, htext, hprimitive⟩ := Option.bind_eq_some_iff.1 htype
    obtain ⟨cedarName, hmem, -⟩ := mem_primitiveNames_of_primitive? hprimitive
    rw [htext, Option.any_some] at h
    exact absurd (List.contains_iff_mem.2 (List.mem_map_of_mem hmem)) h
  · rfl

/-- A node with a type that has no flaw faults only by properties that are no mapping. -/
theorem exists_view_of_typeFlaw (hwithin : c.Within (.int depth))
    (href : node.field? "$ref" = none) (h : typeFlaw node = none)
    (hproperties : node.MapsProperties) :
    ∃ shape, c.view (.int depth) name node = .ok shape := by
  have hnode : ∀ {typeName}, node.field "type" = .text typeName → node.OfType typeName :=
    fun htype => ⟨href, eq_some_of_getD_null htype⟩
  unfold typeFlaw at h
  split at h
  · cases h
  · next htype =>
    have hobject := hnode htype
    rw [view_object hwithin hobject, viewObject]
    cases htruthy : (node.field "properties").truthy with
    | false => exact ⟨_, rfl⟩
    | true =>
        obtain ⟨ps, hps⟩ := Option.isSome_iff_exists.1 (hproperties hobject htruthy)
        rw [hps]
        exact ⟨_, rfl⟩
  · next htype =>
    split at h
    · cases h
    · next hitems =>
      rw [view_array hwithin (hnode htype), viewArray, if_neg hitems]
      exact ⟨_, rfl⟩
  · split at h
    · next hknown =>
      rw [Option.any_eq_true] at hknown
      obtain ⟨typeName, htext, hknown⟩ := hknown
      obtain ⟨⟨_, cedarName⟩, hmem, rfl⟩ := List.mem_map.1 (List.contains_iff_mem.1 hknown)
      obtain ⟨ms, -, htype, hview⟩ :=
        view_ofType name hwithin (hnode (Value.eq_text_of_text? htext))
      obtain ⟨t, ht, -⟩ := viewTyped_primitive htype hmem
      exact ⟨_, hview.trans ht⟩
    · cases h

/-- A node without flaw faults only by properties that are no mapping. -/
theorem nodeFault_of_flawless (hlimit : c.limit = .int limit) (h : c.flaw limit depth node = none)
    (hproperties : node.MapsProperties) : c.nodeFault ⟨.int depth, name, node⟩ = none := by
  rw [nodeFault, ← Fault.exists_ok_iff]
  unfold flaw at h
  split at h
  · cases h
  · next hdepth =>
    have hwithin := (within_iff hlimit).2 hdepth
    split at h
    · cases h
    · split at h
      · next href =>
        split at h
        · next hrefers =>
          obtain ⟨target, hrefers⟩ := hrefers
          rw [view_ref hwithin href, target_eq_ok.2 hrefers]
          exact ⟨_, rfl⟩
        · cases h
      · next href => exact exists_view_of_typeFlaw hwithin href h hproperties

/-- The fault of a node is a report of this kind, under the name of the node, and has a message
if so much is shown. -/
def Reports (shown : Prop) (kind : ErrorKind) (name : Value) (fault? : Option Fault) : Prop :=
  ∃ cause : MappingError, fault? = Fault.of? (Fault.report cause : Attempt CedarType) ∧
    cause.Blames kind name ∧ (shown → cause.hasMessage = true)

/-- A reference that names no component is reported as such. -/
theorem reports_target {ref : Value} (hname : name.isShown = true)
    (h : ¬∃ target, c.Refers ref target) :
    Reports shown .unsupportedRef name (Fault.of? (c.target name ref)) := by
  have hall : [name].all Value.isShown = true := by simp [hname]
  obtain ⟨t, ht⟩ | hforeign | ⟨text, hdangling⟩ := c.target_cases name ref
  · exact absurd ⟨t, target_eq_ok.1 ht⟩ h
  · exact ⟨.foreignRef name ref, congrArg Fault.of? hforeign, ⟨rfl, rfl⟩, fun _ => hall⟩
  · exact ⟨.danglingRef name text, congrArg Fault.of? hdangling, ⟨rfl, rfl⟩, fun _ => hall⟩

/-- A type that says neither object nor array has to be a primitive one. -/
theorem viewTyped_of_other {ms : Members Value} {type : Value}
    (htype : (Members.find? (.text "type") ms).getD .null = type) (hnull : type ≠ .null)
    (hobject : type ≠ .text "object") (harray : type ≠ .text "array") :
    viewTyped (.int depth) name ms = (primitive name type).map .leaf := by
  subst htype
  unfold viewTyped
  split
  · next h => exact absurd h hnull
  · next h => exact absurd h hobject
  · next h => exact absurd h harray
  · rfl

/-- A flaw of a type is reported as such. -/
theorem reports_viewTyped {ms : Members Value} (hname : name.isShown = true) (hnode : node.Plain)
    (hms : node.members? = some ms) (h : typeFlaw node = some kind) :
    Reports shown kind name (Fault.of? (viewTyped (.int depth) name ms)) := by
  have hall : [name].all Value.isShown = true := by simp [hname]
  have hfield : ∀ key, (Members.find? (.text key) ms).getD .null = node.field key := fun key => by
    rw [Value.field, Value.field?_of_members? hms]
  unfold typeFlaw at h
  split at h
  · next htype =>
    cases h
    have htexts : ∀ k ∈ Members.keys ms, ∃ s, k = .text s := by
      unfold Members.keys
      rw [List.forall_mem_map]
      exact (hnode.members hms).1
    obtain ⟨sorted, hsorted⟩ := Scalar.exists_sorted? htexts
    refine ⟨.untypedSchema name sorted, ?_, ⟨rfl, rfl⟩, fun _ => hall⟩
    rw [viewTyped, hfield "type", htype]
    simp only [untyped, hname, hsorted]
    rfl
  · cases h
  · next htype =>
    split at h
    · next hitems =>
      cases h
      refine ⟨.missingItems name, ?_, ⟨rfl, rfl⟩, fun _ => hall⟩
      rw [viewTyped, hfield "type", htype, hfield "items"]
      simp only [viewArray, hitems]
      rfl
    · cases h
  · next hnull hobject harray =>
    split at h
    · cases h
    · next hunknown =>
      cases h
      refine ⟨.unsupportedType name (node.field "type"), ?_, ⟨rfl, rfl⟩, fun _ => ?_⟩
      · rw [viewTyped_of_other (hfield "type") hnull hobject harray, Fault.of?_map,
          primitive_of_unknown hunknown]
      · show [name, node.field "type"].all Value.isShown = true
        simp [hname, (hnode.field "type").isShown]

/-- A flawed node faults with a report of the kind of its flaw, under its own name. Only where the
flaw is the depth does the message name anything else that might not be shown. -/
theorem reports_nodeFault (hlimit : c.limit = .int limit) (hname : name.isShown = true)
    (hnode : node.Plain) (h : c.flaw limit depth node = some kind) :
    Reports (kind = .depthExceeded → DigitLimit.isShown limit = true) kind name
      (c.nodeFault ⟨.int depth, name, node⟩) := by
  unfold nodeFault
  unfold flaw at h
  split at h
  · next hdepth =>
    cases h
    refine ⟨.depthExceeded name c.limit, ?_, ⟨rfl, rfl⟩, fun hshown => ?_⟩
    · rw [view_deeper hlimit hdepth]
      rfl
    · have hlimit' : (.int limit : Value).isShown = true := hshown rfl
      show [name, c.limit].all Value.isShown = true
      simp [hname, hlimit, hlimit']
  · next hdepth =>
    have hwithin := (within_iff hlimit).2 hdepth
    split at h
    · next hmap =>
      cases h
      have hall : [name].all Value.isShown = true := by simp [hname]
      rw [Value.isMap, Option.isSome_eq_false_iff, Option.isNone_iff_eq_none] at hmap
      refine ⟨.notSchemaObject name, ?_, ⟨rfl, rfl⟩, fun _ => hall⟩
      unfold Within at hwithin
      unfold view
      simp only [hwithin, hmap]
      rfl
    · next hmap =>
      rw [Bool.not_eq_false, Value.isMap, Option.isSome_iff_exists] at hmap
      obtain ⟨ms, hms⟩ := hmap
      split at h
      · next href =>
        split at h
        · cases h
        · next hrefers =>
          cases h
          rw [view_ref hwithin href, Fault.of?_map]
          exact reports_target hname hrefers
      · next href =>
        rw [view_noRef name hwithin hms href]
        exact reports_viewTyped hname hnode hms h

-- ==================================================== the first flaw

/-- Where conversion comes upon a node that a way leads to. -/
def positionAt (depth : Int) (name : Value) (v : List Step × Value) : Position :=
  ⟨.int (depth + v.1.length), nameAt name v.1, v.2⟩

theorem positionAt_nil : positionAt depth name ([], node) = ⟨.int depth, name, node⟩ := by
  simp [positionAt, nameAt]

/-- One step on the way to a node is one level of depth and a longer name. -/
theorem positionAt_cons (step : Step) (v : List Step × Value) :
    positionAt depth name (step :: v.1, v.2) =
      positionAt (depth + 1) (nameAt name [step]) v := by
  have hdepth : depth + (step :: v.1).length = depth + 1 + v.1.length := by
    rw [List.length_cons]
    omega
  unfold positionAt
  rw [hdepth, Step.nameAt_cons]

/-- If a node does not fault, conversion goes on with the nodes right below it. -/
theorem children_eq (h : c.nodeFault ⟨.int depth, name, node⟩ = none) :
    c.children ⟨.int depth, name, node⟩ =
      node.childSteps.map fun s => ⟨.int (depth + 1), nameAt name [s.1], s.2⟩ := by
  obtain ⟨shape, hview⟩ := Fault.exists_ok_iff.2 h
  change c.view (.int depth) name node = .ok shape at hview
  obtain ⟨hwithin, ms, hms, hv⟩ := view_inv hview
  have hfield := Value.field?_of_members? hms
  unfold children Value.childSteps
  by_cases hobject : node.OfType "object"
  · rw [if_pos hobject, hview]
    rw [view_object hwithin hobject] at hview
    obtain ⟨hnone, rfl⟩ | ⟨below, ps, -, hps, hbelow, rfl⟩ := viewObject_eq_ok.1 hview
    · cases hps : (node.field "properties").members? with
      | none => rfl
      | some ps =>
          rw [Value.truthy_of_members? hps] at hnone
          cases ps with
          | nil => rfl
          | cons p ps => cases hnone
    · obtain rfl : Value.int (depth + 1) = below := Option.some.inj hbelow
      rw [hps]
      show (ps.map fun m => _) = (ps.map fun m => _).map _
      rw [List.map_map]
      rfl
  · rw [if_neg hobject]
    by_cases hitems : node.OfType "array" ∧ (node.field "items").isNull = false
    · rw [if_pos hitems, view_array hwithin hitems.1, viewArray, hitems.2]
      rfl
    · rw [if_neg hitems, hview]
      cases hv with
      | object hr ht => exact absurd ⟨(hfield _).trans hr, (hfield _).trans ht⟩ hobject
      | array hr ht =>
          have harray : node.OfType "array" := ⟨(hfield _).trans hr, (hfield _).trans ht⟩
          rw [view_array hwithin harray] at hview
          obtain ⟨_, hnull, -⟩ := viewArray_eq_ok.1 hview
          exact absurd ⟨harray, hnull⟩ hitems
      | _ => rfl

/-- Up to the first that faults, conversion visits the nodes in the order of their list. -/
theorem findSome?_positions (depth : Int) (name node : Value) :
    (c.positions ⟨.int depth, name, node⟩).findSome? c.nodeFault =
      node.visits.findSome? fun v => c.nodeFault (positionAt depth name v) := by
  induction node using Value.childSteps_induction generalizing depth name with
  | step node ih =>
      rw [positions_eq, Value.visits_eq, Fault.findSome?_cons_or, Fault.findSome?_cons_or,
        positionAt_nil]
      cases hfault : c.nodeFault ⟨.int depth, name, node⟩ with
      | some f => rfl
      | none =>
          rw [Option.none_or, Option.none_or, children_eq hfault, Fault.findSome?_flatMap,
            List.findSome?_map, Fault.findSome?_flatMap]
          refine Fault.findSome?_congr fun s hs => ?_
          rw [List.findSome?_map]
          refine (ih s hs (depth + 1) (nameAt name [s.1])).trans ?_
          exact Fault.findSome?_congr fun v _ => congrArg c.nodeFault (positionAt_cons s.1 v).symm

/-- The fault of a conversion is the first one along its visits. -/
theorem of?_convertAt_visits (depth : Int) (name node : Value) :
    Fault.of? (c.convertAt (.int depth) name node) =
      node.visits.findSome? fun v => c.nodeFault (positionAt depth name v) := by
  rw [of?_convertAt, findSome?_positions]

/-- The nodes in front of the first flaw do not fault. -/
theorem nodeFault_of_prefix (hlimit : c.limit = .int limit) {before after : List (List Step × Value)}
    (hflawless : ∀ v ∈ before, c.flawAt limit depth v = none)
    (hproperties : ∀ v ∈ (before ++ after).takeWhile fun v => (c.flawAt limit depth v).isNone,
      v.2.MapsProperties)
    {v : List Step × Value} (hv : v ∈ before) : c.nodeFault (positionAt depth name v) = none := by
  refine nodeFault_of_flawless hlimit (hflawless v hv) (hproperties v ?_)
  rw [List.takeWhile_append_of_pos fun w hw => by rw [hflawless w hw]; rfl]
  exact List.mem_append_left _ hv

/-- What a conversion comes to is told by the first flaw among the nodes of a schema, in their
order. If there is one, conversion fails and blames it, under the name of the property nearest
above. If there is none, there is a type. Properties that count for something have to be
mappings, up to the first flaw.

A depth beyond the limit is reported with the limit, which has a text unless it has too many
digits. -/
theorem convertAt_firstFlaw (hlimit : c.limit = .int limit) (hname : name.isShown = true)
    (hnode : node.Plain)
    (hproperties : ∀ v ∈ node.visits.takeWhile fun v => (c.flawAt limit depth v).isNone,
      v.2.MapsProperties) :
    (∀ way kind, c.firstFlaw limit depth node = some (way, kind) →
      ∃ cause : MappingError, cause.Blames kind (nameAt name way) ∧
        c.convertAt (.int depth) name node = Fault.report cause ∧
        ((kind = .depthExceeded → DigitLimit.isShown limit = true) →
          c.convertAt (.int depth) name node = .error (.reported cause))) ∧
    (c.firstFlaw limit depth node = none → ∃ t, c.convertAt (.int depth) name node = .ok t) := by
  constructor
  · intro way kind hfirst
    obtain ⟨before, below, after, hvisits, hflaw, hbefore⟩ := firstFlaw_eq_some hfirst
    obtain ⟨hplain, htexts⟩ := hnode.visits (way, below) (by simp [hvisits])
    obtain ⟨cause, hfault, hblames, hmessage⟩ :=
      reports_nodeFault hlimit (Value.isShown_nameAt hname htexts) hplain hflaw
    rw [hvisits] at hproperties
    have hfirst : Fault.of? (c.convertAt (.int depth) name node) =
        Fault.of? (Fault.report cause : Attempt CedarType) := by
      rw [of?_convertAt_visits]
      exact List.findSome?_eq_some_iff.2 ⟨before, _, after, hvisits, hfault, fun v hv =>
        nodeFault_of_prefix hlimit hbefore hproperties hv⟩
    have hreport := Fault.of?_eq_some.1 hfirst
    refine ⟨cause, hblames, hreport, fun hshown => ?_⟩
    rw [hreport, hmessage hshown]
    rfl
  · intro hnone
    rw [Fault.exists_ok_iff, of?_convertAt_visits, List.findSome?_eq_none_iff]
    have hflawless : ∀ v ∈ node.visits, c.flawAt limit depth v = none := fun v hv =>
      Option.map_eq_none_iff.1 (List.findSome?_eq_none_iff.1 hnone v hv)
    rw [← List.append_nil node.visits] at hproperties
    exact fun v hv => nodeFault_of_prefix hlimit hflawless hproperties hv

/-- Tags are lists of lists of what is not said, and what stands behind them is no mapping. The
reference in front of them has no type that counts. -/
def listedSchema : Value := .object
  [("type", .text "object"),
   ("properties", .object
     [("id", .object [("$ref", .text "#/components/schemas/Id"), ("type", .int 7)]),
      ("tags", .object [("type", .text "array"), ("items", .object [("type", .text "array")])]),
      ("late", .null)])]

theorem plain_listedSchema : listedSchema.Plain := by
  have htext : ∀ s, (Value.text s).Plain := fun s => .scalar rfl
  have hnumber : (Value.int 7).Plain := .scalar (by decide +kernel)
  have hnull : Value.null.Plain := .scalar rfl
  have hitems : (Value.object [("type", .text "array")]).Plain :=
    Value.plain_object (by simp [htext])
  refine Value.plain_object ?_
  simp [htext, hnumber, hnull, hitems, Value.plain_object]

/-- Of two flaws the one that is visited first is reported. -/
theorem convertAt_firstFlaw_listedSchema :
    ∃ cause : MappingError, cause.Blames .missingArrayItems (.text "tags") ∧
      (forSchemas ["Id"]).convertAt (.int 0) (.text "Book") listedSchema =
        .error (.reported cause) := by
  obtain ⟨hflaw, -⟩ := @convertAt_firstFlaw (forSchemas ["Id"]) 32 0 (.text "Book") listedSchema
    rfl rfl plain_listedSchema (by decide +kernel)
  obtain ⟨cause, hblames, -, hreported⟩ :=
    hflaw [.property (.text "tags"), .items] .missingArrayItems (by decide +kernel)
  exact ⟨cause, hblames, hreported fun h => nomatch h⟩

end Converter

end ApiAuthz
