/-
Which faults of a build are not reported. A build reports what is wrong with a
document as an error with a kind and a message; a fault that is not reported
escapes. `Site.Unguarded` lists what no site guards against, and a fault escapes
a build exactly if something of that list stands at the first site that has a
fault (`build_escapes_iff`).

There are three reasons for it. Something is used without a look at its kind: a
namespace, a base path, properties, parameters, a location, a name, the keys of a
node without a type. Or a server's URL cannot be taken apart. Or the message names
an integer with more digits than are shown.

# Site by site

The sites of a build are all the places where it may fail, in the order in which
it comes to them (`Proofs/Schema/Sites`). For each kind of site there is one lemma
that says when its fault escapes, and `escapes_fault` puts them together. None of
them speaks of what stands before the site: that the sites before it have no fault
is all that has to be added for a whole build.

# Messages

A report that is put together from values has to show them. The name of a node
appears in every report about it, so under a name that cannot be shown every fault
escapes (`escapes_of_hidden_name`), and under one that can be shown only what is
shown beside it matters (`unguarded_of_escapes`). The names of nodes are keys of
mappings, and those may be integers of any length.

# Regular sites

Depths are counted from an integer by one, and the limit is an integer, so at a site
of a document comparing them never fails. `Site.Regular` says this of a site, and
that the body of an operation is a mapping; all sites of a document are regular
(`regular_of_mem_sites`).
-/
import ApiAuthz.Proofs.BasePath
import ApiAuthz.Proofs.Schema.Sites

namespace ApiAuthz

-- ==================================================== reported and escaping faults

namespace Fault

/-- The fault is an error that is reported to the user. -/
def isReported : Fault → Bool
  | .reported _ => true
  | _ => false

/-- There is a fault, and it is not reported. -/
def Escapes (fault? : Option Fault) : Prop := ∃ f, fault? = some f ∧ f.isReported = false

/-- Where there is no fault none escapes. -/
@[simp] theorem not_escapes_none : ¬Escapes none := fun ⟨_, h, _⟩ => nomatch h

/-- A fault escapes if it is not reported. -/
@[simp] theorem escapes_some {f : Fault} : Escapes (some f) ↔ f.isReported = false := by
  constructor
  · rintro ⟨g, hg, h⟩
    cases hg
    exact h
  · exact fun h => ⟨f, rfl, h⟩

/-- A reported cause escapes exactly if its message would name what cannot be shown. -/
@[simp] theorem escapes_report {α : Type} {cause : MappingError} :
    Escapes (of? (report cause : Attempt α)) ↔ ∃ v ∈ cause.shownValues, v.isShown = false := by
  unfold report
  rw [of?_error, escapes_some]
  cases hm : cause.hasMessage with
  | true =>
      have hall := List.all_eq_true.1 hm
      simpa [isReported] using hall
  | false =>
      have hsome := List.all_eq_false.1 hm
      simpa [isReported, unshown] using hsome

/-- What a reported cause names can be shown. -/
theorem isShown_of_report {α : Type} {cause cause' : MappingError} {v : Value}
    (h : (report cause : Attempt α) = .error (.reported cause')) (hv : v ∈ cause.shownValues) :
    v.isShown = true := by
  cases hm : cause.hasMessage with
  | true => exact List.all_eq_true.1 hm v hv
  | false =>
      unfold report at h
      rw [hm] at h
      cases h

@[simp] theorem of?_report_ne_none {α : Type} {cause : MappingError} :
    of? (report cause : Attempt α) ≠ none := by
  unfold report
  simp

@[simp] theorem escapes_wrongKind {α : Type} : Escapes (of? (wrongKind : Attempt α)) :=
  ⟨_, rfl, rfl⟩

@[simp] theorem escapes_noSuchPart {α : Type} : Escapes (of? (noSuchPart : Attempt α)) :=
  ⟨_, rfl, rfl⟩

end Fault

open Fault (Escapes)

-- ==================================================== the preconditions

namespace Url

/-- Whatever is wrong with a URL is not reported. -/
theorem not_isReported_of_path {url : String} {f : Fault} (h : path url = .error f) :
    f.isReported = false := by
  obtain ⟨diagnosis, rfl⟩ := malformed_of_path h
  rfl

end Url

namespace BasePath

/-- A choice among the paths of servers is refused by a report. -/
theorem not_escapes_choose (servers paths : List String) (base? : Option String) :
    ¬Escapes (Fault.of? (choose servers paths base?)) := by
  rw [choose_eq_among]
  unfold among
  split
  · split
    · simp
    · simp [MappingError.shownValues]
  · split
    · simp
    · simp [MappingError.shownValues]

/-- The choice of a base path has a fault that escapes if it is neither null nor a text. -/
theorem escapes_choiceOf {base : Value} :
    Escapes (Fault.of? (choiceOf base)) ↔ base.isNull = false ∧ base.text? = none := by
  cases base with
  | scalar s => cases s <;> simp [choiceOf, Value.isNull, Value.text?]
  | _ => simp [choiceOf, Value.isNull, Value.text?]

/-- Finding a base path fails without a report exactly if a server's URL cannot be
taken apart, or a base path is given that is no text. -/
theorem escapes_resolve {servers : List String} {base : Value} :
    Escapes (Fault.of? (resolve servers base)) ↔
      (∃ url ∈ servers, ∃ f, Url.path url = .error f) ∨
        servers ≠ [] ∧ base.isNull = false ∧ base.text? = none := by
  cases servers with
  | nil => simp [resolve]
  | cons server servers =>
      unfold resolve
      rw [List.isEmpty_cons, if_neg Bool.false_ne_true]
      have hmapM : Fault.of? ((server :: servers).mapM ofServer) =
          (server :: servers).findSome? fun url => Fault.of? (Url.path url) := by
        rw [Fault.of?_mapM]
        simp only [of?_ofServer]
      cases hpaths : (server :: servers).mapM ofServer with
      | error f =>
          rw [hpaths] at hmapM
          obtain ⟨url, hurl, hf⟩ := List.exists_of_findSome?_eq_some hmapM.symm
          rw [Fault.of?_eq_some] at hf
          constructor
          · exact fun _ => Or.inl ⟨url, hurl, f, hf⟩
          · exact fun _ => ⟨f, rfl, Url.not_isReported_of_path hf⟩
      | ok paths =>
          rw [hpaths] at hmapM
          have hurls : ¬∃ url ∈ server :: servers, ∃ f, Url.path url = .error f := by
            rintro ⟨url, hurl, f, hf⟩
            have hnone := List.findSome?_eq_none_iff.1 hmapM.symm url hurl
            rw [hf] at hnone
            cases hnone
          show Escapes (Fault.of? (choiceOf base >>= choose (server :: servers) paths)) ↔ _
          rw [or_iff_right hurls, and_iff_right (List.cons_ne_nil server servers),
            ← escapes_choiceOf]
          cases choiceOf base with
          | error f => rfl
          | ok base? =>
              rw [Fault.of?_ok, iff_false_right Fault.not_escapes_none]
              exact not_escapes_choose (server :: servers) paths base?

end BasePath

/-- A namespace that counts as true and is no text escapes its check. -/
theorem Namespace.escapes_ofValue {v : Value} :
    Escapes (Fault.of? (ofValue v)) ↔ v.truthy = true ∧ v.text? = none := by
  unfold ofValue
  cases htruthy : v.truthy with
  | false => simp [MappingError.shownValues]
  | true =>
      cases htext : v.text? with
      | none => simp
      | some s =>
          by_cases hvalid : isValid s = true
          · simp [hvalid]
          · simp [hvalid, MappingError.shownValues]

-- ==================================================== parameters and resource types

namespace Context

/-- So does a list of parameters that cannot be walked. -/
theorem escapes_listed {list : Value} :
    Escapes (Fault.of? (listed list)) ↔ list.truthy = true ∧ list.elements? = none := by
  unfold listed
  cases htruthy : list.truthy with
  | false => simp
  | true => cases list.elements? <;> simp

end Context

namespace Action

/-- Resource types that are refused escape with the name of their action. -/
theorem escapes_resourceTypesOf {body name : Value} (h : body.isMap = true) :
    Escapes (Fault.of? (resourceTypesOf body name)) ↔
      Fault.of? (resourceTypesOf body name) ≠ none ∧ name.isShown = false := by
  unfold resourceTypesOf
  rw [h, Bool.not_true, if_neg Bool.false_ne_true]
  simp only
  split
  · simp
  · split
    · simp [MappingError.shownValues]
    · split
      · simp
      · split
        · simp
        · simp [MappingError.shownValues]

end Action

namespace Value

/-- What has a field is a mapping. -/
theorem isMap_of_field? {v w : Value} {name : String} (h : v.field? name = some w) :
    v.isMap = true := by
  obtain ⟨ms, hms, -⟩ := Option.bind_eq_some_iff.1 h
  unfold isMap
  rw [hms]
  rfl

theorem isShown_of_text? {v : Value} {s : String} (h : v.text? = some s) : v.isShown = true := by
  unfold text? at h
  split at h
  · rfl
  · cases h

/-- So is what has a field that is not blank. -/
theorem isMap_of_not_blank {v : Value} {name : String} (h : (v.field name).isBlank = false) :
    v.isMap = true := by
  cases hf : v.field? name with
  | none =>
      unfold field at h
      rw [hf] at h
      cases h
  | some w => exact isMap_of_field? hf

end Value

-- ==================================================== what is not guarded against

/-- A node that is looked at by its type: a mapping no deeper than the limit, and
no reference. -/
structure Converter.IsTyped (c : Converter) (p : Position) (ms : Members Value) : Prop where
  depth : p.depth.above? c.limit = some false
  members : p.node.members? = some ms
  noRef : Members.find? (.text "$ref") ms = none

namespace Site

/-- What may stand at a site and makes a fault that is not reported. -/
inductive Unguarded (c : Converter) : Site → Prop where
  /-- A namespace that is no text. -/
  | namespaceKind {name : Value} (h : name.truthy = true) (ht : name.text? = none) :
      Unguarded c (.namespaceName name)
  /-- A server with a URL that cannot be taken apart. -/
  | serverUrl {servers : List String} {base : Value} {url : String} {f : Fault}
      (hu : url ∈ servers) (h : Url.path url = .error f) : Unguarded c (.basePath servers base)
  /-- A base path that is no text. -/
  | baseKind {servers : List String} {base : Value} (hs : servers ≠ []) (h : base.isNull = false)
      (ht : base.text? = none) : Unguarded c (.basePath servers base)
  /-- Parameters that are no collection. -/
  | parametersKind {list : Value} (h : list.truthy = true) (he : list.elements? = none) :
      Unguarded c (.parameterList list)
  /-- A parameter whose location is a collection. -/
  | locationKind {value : Value} (hr : value.field? "$ref" = none)
      (hf : ∀ f ∈ Context.requiredFields, (value.field f).isBlank = false)
      (h : (value.field "in").key? = none) : Unguarded c (.parameter value)
  /-- A parameter or an action whose name is a collection. -/
  | nameKind {name : Value} (h : name.key? = none) : Unguarded c (.key name)
  /-- An object whose properties are no mapping. -/
  | propertiesKind {p : Position} {ms : Members Value} {properties : Value}
      (hp : c.IsTyped p ms) (ht : Members.find? (.text "type") ms = some (.text "object"))
      (hf : Members.find? (.text "properties") ms = some properties)
      (h : properties.truthy = true) (hk : properties.isMap = false) : Unguarded c (.node p)
  /-- A node without a type whose keys are not all comparable. -/
  | keysKind {p : Position} {ms : Members Value} (hp : c.IsTyped p ms)
      (ht : (Members.find? (.text "type") ms).getD .null = .null)
      (h : Scalar.sorted? (Members.keys ms) = none) : Unguarded c (.node p)
  /-- A faulty node under a name that cannot be shown. -/
  | nodeName {p : Position} (hf : c.nodeFault p ≠ none) (h : p.name.isShown = false) :
      Unguarded c (.node p)
  /-- A node with a type that cannot be shown. -/
  | nodeType {p : Position} {ms : Members Value} {type : Value} (hp : c.IsTyped p ms)
      (ht : Members.find? (.text "type") ms = some type) (h : type.isShown = false) :
      Unguarded c (.node p)
  /-- Something in place of a parameter that cannot be shown. -/
  | parameterText {value : Value} (hm : value.isMap = false) (h : value.isShown = false) :
      Unguarded c (.parameter value)
  /-- A parameter with a reference that cannot be shown. -/
  | parameterRef {value ref : Value} (hr : value.field? "$ref" = some ref)
      (h : ref.isShown = false) : Unguarded c (.parameter value)
  /-- A parameter that lacks a field and has a name that cannot be shown. -/
  | parameterName {value name : Value} (hr : value.field? "$ref" = none) {f : String}
      (hf : f ∈ Context.requiredFields) (hb : (value.field f).isBlank = true)
      (hn : value.field? "name" = some name) (h : name.isShown = false) :
      Unguarded c (.parameter value)
  /-- Refused resource types of an action with a name that cannot be shown. -/
  | actionName {body action : Value} (hf : Fault.of? (Action.resourceTypesOf body action) ≠ none)
      (h : action.isShown = false) : Unguarded c (.resourceTypes body action)

variable {c : Converter}

/-- A parameter has a fault that escapes where nothing guards its site. -/
theorem escapes_parameter {value : Value} :
    Escapes (fault c (.parameter value)) ↔ Unguarded c (.parameter value) := by
  show Escapes (Fault.of? (Context.locationOf value)) ↔ _
  constructor
  · intro h
    unfold Context.locationOf at h
    split at h
    · next hm =>
      rw [Bool.not_eq_true'] at hm
      refine .parameterText hm ?_
      simpa [MappingError.shownValues] using h
    · split at h
      · next ref hr =>
        refine .parameterRef hr ?_
        simpa [MappingError.shownValues] using h
      · next hr =>
        simp only at h
        split at h
        · next hmissing =>
          rw [Bool.not_eq_true', List.isEmpty_eq_false_iff_exists_mem] at hmissing
          obtain ⟨f, hf⟩ := hmissing
          obtain ⟨hf, hb⟩ := List.mem_filter.1 hf
          cases hn : value.field? "name" with
          | none =>
              rw [hn] at h
              simp [MappingError.shownValues] at h
          | some name =>
              rw [hn] at h
              refine .parameterName hr hf hb hn ?_
              simpa [MappingError.shownValues] using h
        · next hmissing =>
          rw [Bool.not_eq_true, Bool.not_eq_false', List.isEmpty_iff, List.filter_eq_nil_iff]
            at hmissing
          refine .locationKind hr (fun f hf => Bool.eq_false_iff.2 (hmissing f hf)) ?_
          cases hk : (value.field "in").key? with
          | none => rfl
          | some place =>
              rw [hk] at h
              exact absurd h Fault.not_escapes_none
  · intro h
    unfold Context.locationOf
    cases h with
    | parameterText hm h => simp [hm, h, MappingError.shownValues]
    | parameterRef hr h =>
        simp [Value.isMap_of_field? hr, hr, h, MappingError.shownValues]
    | parameterName hr hf hb hn h =>
        have hmissing : (Context.requiredFields.filter fun f => (value.field f).isBlank) ≠ [] :=
          List.ne_nil_of_mem (List.mem_filter.2 ⟨hf, hb⟩)
        simp [Value.isMap_of_field? hn, hr, hn, h, hmissing, MappingError.shownValues]
    | locationKind hr hf h =>
        have hmissing : (Context.requiredFields.filter fun f => (value.field f).isBlank) = [] :=
          List.filter_eq_nil_iff.2 fun f hmem => Bool.eq_false_iff.1 (hf f hmem)
        have hmap := Value.isMap_of_not_blank (hf "name" (by decide))
        simp [hmap, hr, hmissing, h]

end Site

namespace Converter

variable {c : Converter} {p : Position} {name : Value}

theorem isShown_defaultLimit : defaultLimit.isShown = true := by decide +kernel

/-- A node with a type is seen by its type. -/
theorem view_of_isTyped {ms : Members Value} (hp : c.IsTyped p ms) :
    c.view p.depth p.name p.node = viewTyped p.depth p.name ms := by
  unfold view
  rw [hp.depth, hp.members]
  simp only [hp.noRef]

/-- The fault of a reference escapes only where the name in the report cannot be shown. -/
theorem escapes_target {ref : Value} :
    Escapes (Fault.of? (c.target name ref)) ↔
      Fault.of? (c.target name ref) ≠ none ∧ name.isShown = false := by
  obtain ⟨t, h⟩ | h | ⟨text, h⟩ := c.target_cases name ref <;> rw [h]
  · simp
  · simp [MappingError.shownValues]
  · simp [MappingError.shownValues]

/-- So does that of a node without a type, or where its keys cannot be sorted for the report. -/
theorem escapes_untyped {keys : List Scalar} :
    Escapes (Fault.of? (untyped name keys)) ↔
      name.isShown = false ∨ Scalar.sorted? keys = none := by
  unfold untyped
  cases hname : name.isShown with
  | false => simp [Fault.isReported, Fault.unshown]
  | true => cases Scalar.sorted? keys <;> simp [hname, MappingError.shownValues]

/-- A type that cannot be shown is no text, so it is not one of the primitive ones. -/
theorem escapes_primitive {type : Value} :
    Escapes (Fault.of? (primitive name type)) ↔
      Fault.of? (primitive name type) ≠ none ∧ name.isShown = false ∨ type.isShown = false := by
  unfold primitive
  split
  · next htype =>
    obtain ⟨typeName, htext, -⟩ := Option.bind_eq_some_iff.1 htype
    simp [Value.isShown_of_text? htext]
  · simp [MappingError.shownValues]

/-- Properties that count as true and are no mapping escape. -/
theorem escapes_viewObject {n : Int} {properties : Value} :
    Escapes (Fault.of? (viewObject (.int n) properties)) ↔
      properties.truthy = true ∧ properties.isMap = false := by
  unfold viewObject Value.isMap
  cases properties.truthy with
  | false => simp
  | true =>
      cases properties.members? with
      | none => simp
      | some ps => exact iff_of_false Fault.not_escapes_none (by simp)

/-- Missing items escape only where the name in the report cannot be shown. -/
theorem escapes_viewArray {n : Int} {items : Value} :
    Escapes (Fault.of? (viewArray (.int n) name items)) ↔
      items.isNull = true ∧ name.isShown = false := by
  unfold viewArray
  cases items.isNull with
  | true => simp [MappingError.shownValues]
  | false => exact iff_of_false Fault.not_escapes_none (by simp)

/-- What escapes from a typed node under a name that can be shown. -/
theorem viewTyped_cases {n : Int} {ms : Members Value} (hname : name.isShown = true)
    (h : Escapes (Fault.of? (viewTyped (.int n) name ms))) :
    ((Members.find? (.text "type") ms).getD .null = .null ∧
        Scalar.sorted? (Members.keys ms) = none) ∨
      (Members.find? (.text "type") ms = some (.text "object") ∧
        ∃ properties, Members.find? (.text "properties") ms = some properties ∧
          properties.truthy = true ∧ properties.isMap = false) ∨
      ∃ type, Members.find? (.text "type") ms = some type ∧ type.isShown = false := by
  unfold viewTyped at h
  split at h
  · next htype =>
    rw [Fault.of?_map, escapes_untyped, hname] at h
    exact Or.inl ⟨htype, h.resolve_left Bool.noConfusion⟩
  · next htype =>
    rw [escapes_viewObject] at h
    refine Or.inr (Or.inl ⟨eq_some_of_getD_null htype, ?_⟩)
    cases hp : Members.find? (.text "properties") ms with
    | none =>
        rw [hp] at h
        cases h.1
    | some properties =>
        rw [hp] at h
        exact ⟨properties, rfl, h⟩
  · rw [escapes_viewArray, hname] at h
    cases h.2
  · next hnull _ _ =>
    rw [Fault.of?_map, escapes_primitive, hname] at h
    cases ht : Members.find? (.text "type") ms with
    | none =>
        rw [ht] at hnull
        exact absurd rfl hnull
    | some type =>
        rw [ht] at h
        exact Or.inr (Or.inr ⟨type, rfl, h.resolve_left fun h => Bool.noConfusion h.2⟩)

/-- A fault of a reference that is reported has shown the name. -/
theorem isShown_of_target {ref : Value} {cause : MappingError}
    (h : c.target name ref = .error (.reported cause)) : name.isShown = true := by
  obtain ⟨t, htarget⟩ | htarget | ⟨text, htarget⟩ := c.target_cases name ref <;>
    rw [htarget] at h
  · cases h
  · exact Fault.isShown_of_report h (by simp [MappingError.shownValues])
  · exact Fault.isShown_of_report h (by simp [MappingError.shownValues])

/-- So has one of a type. -/
theorem isShown_of_viewTyped {depth : Value} {ms : Members Value} {cause : MappingError}
    (h : viewTyped depth name ms = .error (.reported cause)) : name.isShown = true := by
  unfold viewTyped at h
  split at h
  · have huntyped := Attempt.map_eq_error.1 h
    unfold untyped at huntyped
    cases hname : name.isShown with
    | true => rfl
    | false =>
        rw [hname] at huntyped
        cases huntyped
  · unfold viewObject at h
    split at h
    · cases h
    · split at h
      · cases h
      · split at h
        · cases h
        · cases h
  · unfold viewArray at h
    split at h
    · exact Fault.isShown_of_report h (by simp [MappingError.shownValues])
    · split at h
      · cases h
      · cases h
  · have hprimitive := Attempt.map_eq_error.1 h
    unfold primitive at hprimitive
    split at hprimitive
    · cases hprimitive
    · exact Fault.isShown_of_report hprimitive (by simp [MappingError.shownValues])

/-- Whatever is reported of a node is reported under its name. -/
theorem isShown_of_view {depth node : Value} {cause : MappingError}
    (h : c.view depth name node = .error (.reported cause)) : name.isShown = true := by
  unfold view at h
  split at h
  · cases h
  · exact Fault.isShown_of_report h (by simp [MappingError.shownValues])
  · split at h
    · exact Fault.isShown_of_report h (by simp [MappingError.shownValues])
    · split at h
      · exact isShown_of_target (Attempt.map_eq_error.1 h)
      · exact isShown_of_viewTyped h

/-- What escapes from a node under a name that can be shown comes from its type. -/
theorem unguarded_of_escapes {n : Int} (hd : p.depth = .int n) (hl : c.limit = defaultLimit)
    (hname : p.name.isShown = true) (h : Escapes (c.nodeFault p)) :
    Site.Unguarded c (.node p) := by
  unfold nodeFault view at h
  rw [hl, hd] at h
  split at h
  · next hdepth =>
    rw [defaultLimit, Value.above?_int] at hdepth
    cases hdepth
  · simp [hname, isShown_defaultLimit, MappingError.shownValues] at h
  · next hdepth =>
    rw [← hl, ← hd] at hdepth
    split at h
    · simp [hname, MappingError.shownValues] at h
    · next ms hms =>
      split at h
      · rw [Fault.of?_map, escapes_target, hname] at h
        cases h.2
      · next hr =>
        have hp : c.IsTyped p ms := ⟨hdepth, hms, hr⟩
        rcases viewTyped_cases hname h with ⟨ht, hs⟩ | ⟨ht, properties, hf, h, hk⟩ |
          ⟨type, ht, hs⟩
        · exact .keysKind hp ht hs
        · exact .propertiesKind hp ht hf h hk
        · exact .nodeType hp ht hs

/-- Nothing is reported of a node under a name that cannot be shown. -/
theorem escapes_of_hidden_name (hname : p.name.isShown = false) (h : c.nodeFault p ≠ none) :
    Escapes (c.nodeFault p) := by
  obtain ⟨f, hf⟩ := Option.ne_none_iff_exists'.1 h
  refine ⟨f, hf, ?_⟩
  cases f with
  | reported cause =>
      rw [isShown_of_view (Fault.of?_eq_some.1 hf)] at hname
      cases hname
  | _ => rfl

/-- What escapes from a node at a depth within an integer limit. -/
theorem escapes_node {n : Int} (hd : p.depth = .int n) (hl : c.limit = defaultLimit) :
    Escapes (c.nodeFault p) ↔ Site.Unguarded c (.node p) := by
  constructor
  · intro h
    cases hname : p.name.isShown with
    | true => exact unguarded_of_escapes hd hl hname h
    | false =>
        obtain ⟨f, hf, -⟩ := h
        exact .nodeName (by simp [hf]) hname
  · intro h
    cases h with
    | nodeName hf h => exact escapes_of_hidden_name h hf
    | propertiesKind hp ht hf h hk =>
        unfold nodeFault
        rw [view_of_isTyped hp, hd]
        unfold viewTyped
        rw [ht, hf]
        exact escapes_viewObject.2 ⟨h, hk⟩
    | keysKind hp ht h =>
        unfold nodeFault
        rw [view_of_isTyped hp]
        unfold viewTyped
        rw [ht]
        simp only
        rw [Fault.of?_map]
        exact escapes_untyped.2 (Or.inr h)
    | nodeType hp ht h =>
        unfold nodeFault
        rw [view_of_isTyped hp]
        unfold viewTyped
        rw [ht, Option.getD_some]
        split
        · cases h
        · cases h
        · cases h
        · rw [Fault.of?_map]
          exact escapes_primitive.2 (Or.inr h)

/-- Nodes below an integer depth stand at integer depths. -/
theorem depth_of_mem_positions {q : Position} (hq : q ∈ c.positions p) {n : Int}
    (hd : p.depth = .int n) : ∃ m, q.depth = .int m := by
  induction hsize : sizeOf p.node using Nat.strongRecOn generalizing p n with
  | ind size ih =>
      subst hsize
      rcases mem_positions.1 hq with rfl | ⟨child, hchild, hq⟩
      · exact ⟨n, hd⟩
      · have hbelow : child.depth = .int (n + 1) := by
          unfold children at hchild
          split at hchild
          · next hview =>
            obtain ⟨m, -, rfl⟩ := List.mem_map.1 hchild
            obtain ⟨-, ms, -, hv⟩ := view_inv hview
            cases hv with
            | object _ _ _ _ hn =>
                rw [hd] at hn
                exact (Option.some.inj hn).symm
          · next hview =>
            obtain rfl := List.mem_singleton.1 hchild
            obtain ⟨-, ms, -, hv⟩ := view_inv hview
            cases hv with
            | array _ _ _ hn =>
                rw [hd] at hn
                exact (Option.some.inj hn).symm
          · cases hchild
        exact ih _ (sizeOf_lt_of_mem_children hchild) hq hbelow rfl

end Converter

-- ==================================================== whole builds

namespace Site

variable {c : Converter}

/-- The site stands where a build comes to: at an integer depth, or in a mapping. -/
def Regular : Site → Prop
  | .node p => ∃ n, p.depth = .int n
  | .resourceTypes body _ => body.isMap = true
  | _ => True

/-- The sites of a schema are regular: their depths are integers. -/
theorem regular_of_mem_ofSchema {name schema : Value} {site : Site}
    (h : site ∈ ofSchema c name schema) : site.Regular := by
  obtain ⟨p, hp, rfl⟩ := List.mem_map.1 h
  exact Converter.depth_of_mem_positions hp rfl

theorem regular_of_mem_ofParameter {value : Value} {site : Site}
    (h : site ∈ ofParameter c value) : site.Regular := by
  rcases List.mem_cons.1 h with rfl | h
  · trivial
  · split at h
    · rcases List.mem_append.1 h with h | h
      · exact regular_of_mem_ofSchema h
      · obtain rfl := List.mem_singleton.1 h
        trivial
    · cases h

theorem regular_of_mem_ofOperation {o : CedarSchema.Operation} {site : Site}
    (h : site ∈ ofOperation c o) : site.Regular := by
  rcases List.mem_cons.1 h with rfl | h
  · trivial
  · split at h
    · next hmap =>
      rcases List.mem_append.1 h with h | h
      · rcases List.mem_cons.1 h with rfl | h
        · trivial
        rcases List.mem_cons.1 h with rfl | h
        · trivial
        obtain ⟨value, -, h⟩ := List.mem_flatMap.1 h
        exact regular_of_mem_ofParameter h
      · rcases List.mem_cons.1 h with rfl | h
        · exact hmap
        · obtain rfl := List.mem_singleton.1 h
          trivial
    · cases h

/-- So are all sites of a document. -/
theorem regular_of_mem_sites {doc : ApiDocument} {namespaceName base : Value} {site : Site}
    (h : site ∈ CedarSchema.sites doc namespaceName base) : site.Regular := by
  rcases List.mem_append.1 h with h | h
  · rcases List.mem_append.1 h with h | h
    · simp only [List.mem_cons, List.not_mem_nil, or_false] at h
      rcases h with rfl | rfl | rfl
      · trivial
      · trivial
      · trivial
    · obtain ⟨o, -, h⟩ := List.mem_flatMap.1 h
      exact regular_of_mem_ofOperation h
  · obtain ⟨s, -, h⟩ := List.mem_flatMap.1 h
    exact regular_of_mem_ofSchema h

/-- What escapes from a site. -/
theorem escapes_fault {site : Site} (hsite : site.Regular)
    (hl : c.limit = Converter.defaultLimit) : Escapes (site.fault c) ↔ Unguarded c site := by
  cases site with
  | paths paths =>
      refine iff_of_false ?_ fun h => by cases h
      cases paths with
      | none => simp [fault, MappingError.shownValues]
      | some ps => exact Fault.not_escapes_none
  | namespaceName name =>
      refine Namespace.escapes_ofValue.trans ⟨fun h => .namespaceKind h.1 h.2, fun h => ?_⟩
      cases h with
      | namespaceKind h ht => exact ⟨h, ht⟩
  | basePath servers base =>
      refine BasePath.escapes_resolve.trans ⟨fun h => ?_, fun h => ?_⟩
      · rcases h with ⟨url, hu, f, h⟩ | ⟨hs, h, ht⟩
        · exact .serverUrl hu h
        · exact .baseKind hs h ht
      · cases h with
        | serverUrl hu h => exact Or.inl ⟨_, hu, _, h⟩
        | baseKind hs h ht => exact Or.inr ⟨hs, h, ht⟩
  | operation verb path body =>
      refine iff_of_false ?_ fun h => by cases h
      cases hm : body.isMap with
      | true => simp [fault, hm]
      | false =>
          simp [fault, hm, MappingError.shownValues,
            Value.isShown_of_text? (v := .text path) rfl]
  | parameterList list =>
      refine Context.escapes_listed.trans ⟨fun h => .parametersKind h.1 h.2, fun h => ?_⟩
      cases h with
      | parametersKind h he => exact ⟨h, he⟩
  | parameter value => exact escapes_parameter
  | node p =>
      obtain ⟨n, hd⟩ := hsite
      exact Converter.escapes_node hd hl
  | resourceTypes body action =>
      refine (Action.escapes_resourceTypesOf hsite).trans
        ⟨fun h => .actionName h.1 h.2, fun h => ?_⟩
      cases h with
      | actionName hf h => exact ⟨hf, h⟩
  | key name =>
      show Escapes (keyFault name) ↔ _
      unfold keyFault
      constructor
      · intro h
        split at h
        · exact absurd h Fault.not_escapes_none
        · next hk => exact .nameKind (Option.not_isSome_iff_eq_none.1 hk)
      · intro h
        cases h with
        | nameKind h =>
            rw [h]
            exact ⟨_, rfl, rfl⟩

end Site

namespace CedarSchema

/-- A fault that is not reported leaves a build exactly if something unguarded
stands at the first site that has a fault. -/
theorem build_escapes_iff {doc : ApiDocument} {namespaceName base : Value} :
    (∃ f, (build doc namespaceName base).outcome = .error f ∧ f.isReported = false) ↔
      ∃ before site after, sites doc namespaceName base = before ++ site :: after ∧
        (∀ s ∈ before, s.fault (converterFor doc) = none) ∧
        Site.Unguarded (converterFor doc) site := by
  have hsite : ∀ {site}, site ∈ sites doc namespaceName base →
      (Escapes (site.fault (converterFor doc)) ↔ Site.Unguarded (converterFor doc) site) :=
    fun hmem => Site.escapes_fault (Site.regular_of_mem_sites hmem) rfl
  constructor
  · rintro ⟨f, hf, hescapes⟩
    rw [← Fault.of?_eq_some, of?_outcome_build] at hf
    obtain ⟨before, site, after, heq, hfault, hbefore⟩ := List.findSome?_eq_some_iff.1 hf
    refine ⟨before, site, after, heq, hbefore, (hsite ?_).1 ⟨f, hfault, hescapes⟩⟩
    rw [heq]
    exact List.mem_append_right _ (List.mem_cons_self ..)
  · rintro ⟨before, site, after, heq, hbefore, hunguarded⟩
    have hmem : site ∈ sites doc namespaceName base := by
      rw [heq]
      exact List.mem_append_right _ (List.mem_cons_self ..)
    obtain ⟨f, hfault, hescapes⟩ := (hsite hmem).2 hunguarded
    refine ⟨f, ?_, hescapes⟩
    rw [← Fault.of?_eq_some, of?_outcome_build]
    exact List.findSome?_eq_some_iff.2 ⟨before, site, after, heq, hfault, hbefore⟩

/-- A document whose only component schema is an object with a list of properties. -/
def listedProperties : ApiDocument where
  paths := some []
  servers := []
  schemas := [("A", .object [("type", .text "object"), ("properties", .texts ["x"])])]

/-- The list is asked for its members, and that is not reported. -/
theorem build_listedProperties_escapes :
    ∃ f, (build listedProperties (.text "NS") .null).outcome = .error f ∧
      f.isReported = false := by
  have hescapes : ((Fault.of? (build listedProperties (.text "NS") .null).outcome).any
      fun f => !f.isReported) = true := by decide +kernel
  obtain ⟨f, hf, hunreported⟩ := (Option.any_eq_true ..).1 hescapes
  rw [Bool.not_eq_true'] at hunreported
  exact ⟨f, Fault.of?_eq_some.1 hf, hunreported⟩

end CedarSchema

end ApiAuthz
