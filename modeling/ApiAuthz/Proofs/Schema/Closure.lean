/-
No reference in a schema dangles. A type is closed under names if every reference
in it is to one of them (`CedarType.Closed`); conversion makes only closed types,
and so contexts, common types and the shapes of entity types are closed under the
names of the component schemas.

`Draft.Closed` says it of the schema as a document: whatever is reached from a
context, a common type or a shape through attributes and elements is a type node
(`Value.TypeNode`). `Value.TypeTree` is the invariant along the way.

# From types to documents

Being closed is proved three times, at each place where types are made: by
induction along conversion (`closed_of_convertAt`), for a context parameter by
parameter (`closed_of_addParameter`), and for the table of entity types, whose
shapes are references to schemas that are there, or empty (`closed_shapeOf`). The
document is only looked at in the end. There a type is a mapping with a fixed
form, and an attribute that is required has one more member, so the forms are
taken with and without it (`Value.HasForm`).

# Any number of steps

`Value.TypesClosed` is about whatever is reached from a root in any number of
steps. To prove it by induction on the steps one needs to know that a step from a
type node leads to a type node again, which the node alone does not tell.
`Value.TypeTree` holds it of everything below, so a step stays within
(`TypeTree.step`), and each node of the tree is a type node (`TypeTree.node`).

# What actions apply to

Principals and containers are entity types of the schema by their own names.
Resource types may be written with a path in front, so they are looked up by
their base name (`Draft.NamesEntities`).
-/
import ApiAuthz.Proofs.Schema.ActionTable
import ApiAuthz.Proofs.Schema.EntityNames
import ApiAuthz.Proofs.Schema.NodeView
import Mathlib.Logic.Relation

namespace ApiAuthz

-- ==================================================== closed types

/-- Every reference in the type is to one of the names. -/
inductive CedarType.Closed (names : List String) : CedarType → Prop where
  | text : Closed names .text
  | long : Closed names .long
  | boolean : Closed names .boolean
  | named {target : String} (h : target ∈ names) : Closed names (.named target)
  | set {element : CedarType} (h : Closed names element) : Closed names (.set element)
  | record {attributes : Members CedarType} (h : ∀ m ∈ attributes, Closed names m.2) :
      Closed names (.record attributes)

namespace Converter

variable {c : Converter} {names : List String}

/-- A reference leads to a component schema. -/
theorem mem_of_target {name ref : Value} {t : String} (hc : c.names = some (names.map .text))
    (h : c.target name ref = .ok t) : t ∈ names := by
  unfold target at h
  split at h
  · cases h
  · split at h
    · cases h
    · rw [hc] at h
      simp only at h
      split at h
      · next hmem =>
        cases h
        obtain ⟨u, hu, heq⟩ := List.mem_map.1 (List.contains_iff_mem.1 hmem)
        cases heq
        exact hu
      · cases h

/-- A primitive type refers to nothing. -/
theorem closed_of_primitive? {typeName : String} {t : CedarType}
    (h : primitive? typeName = some t) : t.Closed names := by
  unfold primitive? at h
  split at h
  · cases h
    exact .text
  · cases h
    exact .long
  · cases h
    exact .long
  · cases h
    exact .boolean
  · cases h

/-- Conversion makes closed types. -/
theorem closed_of_convertAt (hc : c.names = some (names.map .text)) {depth name node : Value}
    {t : CedarType} (h : c.convertAt depth name node = .ok t) : t.Closed names := by
  induction depth, name, node using view_induction c generalizing t with
  | step depth name node properties items =>
      rw [convertAt_eq] at h
      obtain ⟨shape, hview, h⟩ := Attempt.bind_eq_ok.1 h
      cases shape with
      | leaf type =>
          cases h
          obtain ⟨-, ms, -, hv⟩ := view_inv hview
          cases hv with
          | ref _ ht => exact .named (mem_of_target hc ht)
          | emptyObject _ _ => exact .record (List.forall_mem_nil _)
          | primitive _ _ hp => exact closed_of_primitive? hp
      | record below ps =>
          obtain ⟨attributes, hall, h⟩ := Attempt.bind_eq_ok.1 h
          obtain rfl := Attempt.pure_eq_ok.1 h
          refine .record fun m hm => ?_
          obtain ⟨p, hp, hconvert⟩ := Attempt.exists_of_mem_right (Attempt.mapM_eq_ok.1 hall) hm
          obtain ⟨u, hu, hconvert⟩ := Attempt.bind_eq_ok.1 hconvert
          obtain rfl := Attempt.pure_eq_ok.1 hconvert
          exact properties hview p hp hu
      | set below element =>
          obtain ⟨u, hu, h⟩ := Attempt.bind_eq_ok.1 h
          obtain rfl := Attempt.pure_eq_ok.1 h
          exact .set (items hview hu)

/-- Whole schemas are converted to closed types. -/
theorem closed_of_convertTop (hc : c.names = some (names.map .text)) {name node : Value}
    {t : CedarType} (h : c.convertTop name node = .ok t) : t.Closed names := by
  unfold convertTop at h
  exact closed_of_convertAt hc h

/-- Common types stand under the names of their schemas, in order, and are closed. -/
theorem closed_of_commonTypes (hc : c.names = some (names.map .text)) {schemas : Members Value}
    {types : Members CedarType} (h : c.commonTypes schemas = .ok types) :
    Members.keys types = Members.keys schemas ∧ ∀ m ∈ types, m.2.Closed names := by
  have hall := Attempt.mapM_eq_ok.1 h
  refine ⟨?_, fun m hm => ?_⟩
  · clear h
    induction hall with
    | nil => rfl
    | cons hm _ ih =>
        obtain ⟨u, -, hm⟩ := Attempt.bind_eq_ok.1 hm
        obtain rfl := Attempt.pure_eq_ok.1 hm
        exact congrArg _ ih
  · obtain ⟨s, -, hm⟩ := Attempt.exists_of_mem_right hall hm
    obtain ⟨u, hu, hm⟩ := Attempt.bind_eq_ok.1 hm
    obtain rfl := Attempt.pure_eq_ok.1 hm
    exact closed_of_convertTop hc hu

end Converter

-- ==================================================== closed contexts

namespace Context

variable {c : Converter} {names : List String}

/-- Every attribute of the context is closed. -/
def Closed (names : List String) (context : Context) : Prop :=
  ∀ location, ∀ a ∈ context.at? location, a.2.type.Closed names

theorem closed_empty : Closed names empty := fun location => by
  cases location with
  | path => exact List.forall_mem_nil _
  | query => exact List.forall_mem_nil _

/-- An attribute of a closed type keeps a context closed. -/
theorem Closed.put {context : Context} (h : Closed names context) {a : Attribute}
    (ha : a.type.Closed names) (location : Location) (name : Scalar) :
    Closed names (context.put location name a) := by
  have hput : ∀ {ms : Members Attribute}, (∀ m ∈ ms, m.2.type.Closed names) →
      ∀ m ∈ Members.put name a ms, m.2.type.Closed names := by
    intro ms hms m hm
    rcases Members.mem_put hm with heq | hm
    · rw [heq]
      exact ha
    · exact hms m hm
  intro place
  cases location with
  | path =>
      cases place with
      | path => exact hput (h .path)
      | query => exact h .query
  | query =>
      cases place with
      | path => exact h .path
      | query => exact hput (h .query)

/-- A parameter leaves a closed context closed. -/
theorem closed_of_addParameter (hc : c.names = some (names.map .text)) {context context' : Context}
    {parameter : Value} (hclosed : Closed names context)
    (h : addParameter c context parameter = .ok context') : Closed names context' := by
  unfold addParameter at h
  split at h
  · cases h
  · split at h
    · cases h
    · simp only at h
      split at h
      · cases h
      · split at h
        · cases h
        · split at h
          · cases h
            exact hclosed
          · obtain ⟨t, ht, h⟩ := Attempt.bind_eq_ok.1 h
            split at h
            · cases h
            · obtain rfl := Attempt.pure_eq_ok.1 h
              exact hclosed.put (Converter.closed_of_convertTop hc ht) _ _

/-- So does a whole list of parameters. -/
theorem closed_of_ofParameters (hc : c.names = some (names.map .text)) {parameters : List Value}
    {context : Context} (h : ofParameters c parameters = .ok context) : Closed names context :=
  Attempt.foldlM_invariant (fun hb ha => closed_of_addParameter hc hb ha) closed_empty h

end Context

-- ==================================================== entity types

namespace EntityType

variable {names : List String} {actions : List Action}

/-- The shape of an entity type is closed: that of users refers to a schema only if it is there. -/
theorem closed_shapeOf (name : String) : (shapeOf names name).Closed names := by
  unfold shapeOf
  split
  · next h => exact .named (List.contains_iff_mem.1 h)
  · exact .record (List.forall_mem_nil _)

/-- Shapes are closed, and only entity types of the schema contain others. -/
theorem closed_of_mem_table {e : String × EntityType} (h : e ∈ table names actions) :
    e.2.shape.Closed names ∧
      ∀ containers, e.2.memberOf = some containers → ∀ t ∈ containers, t ∈ namesFor actions := by
  rw [table_eq] at h
  rcases List.mem_append.1 h with h | h
  · unfold seeded at h
    simp only [List.mem_cons, List.not_mem_nil, or_false] at h
    rcases h with rfl | rfl | rfl
    · refine ⟨closed_shapeOf _, fun containers hc t ht => ?_⟩
      cases hc
      rw [List.mem_singleton.1 ht]
      exact mem_namesFor_of_seeded (by decide)
    · exact ⟨.record (List.forall_mem_nil _), fun containers hc => nomatch hc⟩
    · exact ⟨.record (List.forall_mem_nil _), fun containers hc => nomatch hc⟩
  · obtain ⟨name, -, rfl⟩ := List.mem_map.1 h
    refine ⟨closed_shapeOf _, fun containers hc => ?_⟩
    cases hc
    exact List.forall_mem_nil _

end EntityType

-- ==================================================== types in a document

namespace Value

/-- The value has these members, and may have the mark of a required attribute. -/
def HasForm (v : Value) (ms : List (String × Value)) : Prop :=
  v = .object ms ∨ v = .object (ms ++ [("required", .bool true)])

/-- The mark hides no other member. -/
theorem HasForm.field?_eq {v : Value} {ms : List (String × Value)} {name : String}
    (h : v.HasForm ms) (hname : name ≠ "required") : v.field? name = (object ms).field? name := by
  rcases h with rfl | rfl
  · rfl
  · unfold object
    rw [field?_map, field?_map]
    induction ms with
    | nil =>
        show Members.find? _ [(Scalar.text "required", _)] = none
        rw [Members.find?_cons, Scalar.same_text, decide_eq_false (Ne.symm hname)]
        rfl
    | cons m ms ih =>
        rw [List.cons_append, List.map_cons, List.map_cons, Members.find?_cons,
          Members.find?_cons, ih]

/-- A type that is built in, made of others, or one of the names. -/
inductive TypeNode (names : List String) (v : Value) : Prop where
  | builtIn {t : String} (ht : t ∈ ["String", "Long", "Boolean"])
      (h : v.HasForm [("type", .text t)])
  | set {element : Value} (h : v.HasForm [("type", .text "Set"), ("element", element)])
  | record {attributes : Members Value}
      (h : v.HasForm [("type", .text "Record"), ("attributes", .map attributes)])
  | named {t : String} (ht : t ∈ names) (h : v.HasForm [("type", .text t)])

/-- From a type to one of its attributes, or to its element. -/
inductive TypeStep (v : Value) : Value → Prop where
  | ofElement {w : Value} (h : v.field? "element" = some w) : TypeStep v w
  | ofAttribute {attributes : Members Value} {m : Scalar × Value}
      (h : v.field? "attributes" = some (.map attributes)) (hm : m ∈ attributes) :
      TypeStep v m.2

/-- Whatever is reached from the value is a type node. -/
def TypesClosed (names : List String) (root : Value) : Prop :=
  ∀ v, Relation.ReflTransGen TypeStep root v → v.TypeNode names

/-- A type node, and so on below it. -/
inductive TypeTree (names : List String) : Value → Prop where
  | builtIn {v : Value} {t : String} (ht : t ∈ ["String", "Long", "Boolean"])
      (h : v.HasForm [("type", .text t)]) : TypeTree names v
  | set {v element : Value} (h : v.HasForm [("type", .text "Set"), ("element", element)])
      (he : TypeTree names element) : TypeTree names v
  | record {v : Value} {attributes : Members Value}
      (h : v.HasForm [("type", .text "Record"), ("attributes", .map attributes)])
      (ha : ∀ m ∈ attributes, TypeTree names m.2) : TypeTree names v
  | named {v : Value} {t : String} (ht : t ∈ names) (h : v.HasForm [("type", .text t)]) :
      TypeTree names v

namespace TypeTree

variable {names : List String} {v w : Value}

theorem node (h : TypeTree names v) : v.TypeNode names := by
  cases h with
  | builtIn ht h => exact .builtIn ht h
  | set h _ => exact .set h
  | record h _ => exact .record h
  | named ht h => exact .named ht h

/-- A step stays in the tree. -/
theorem step (h : TypeTree names v) (hs : TypeStep v w) : TypeTree names w := by
  have helement {ms : List (String × Value)} (hform : v.HasForm ms) :=
    hform.field?_eq (by decide : "element" ≠ "required")
  have hattributes {ms : List (String × Value)} (hform : v.HasForm ms) :=
    hform.field?_eq (by decide : "attributes" ≠ "required")
  cases h with
  | builtIn _ hform =>
      cases hs with
      | ofElement h => cases (helement hform).symm.trans h
      | ofAttribute h _ => cases (hattributes hform).symm.trans h
  | named _ hform =>
      cases hs with
      | ofElement h => cases (helement hform).symm.trans h
      | ofAttribute h _ => cases (hattributes hform).symm.trans h
  | set hform he =>
      cases hs with
      | ofElement h =>
          cases (helement hform).symm.trans h
          exact he
      | ofAttribute h _ => cases (hattributes hform).symm.trans h
  | record hform ha =>
      cases hs with
      | ofElement h => cases (helement hform).symm.trans h
      | ofAttribute h hm =>
          cases (hattributes hform).symm.trans h
          exact ha _ hm

/-- And so do any number of steps. -/
theorem typesClosed (h : TypeTree names v) : v.TypesClosed names := by
  intro w hw
  have htree : TypeTree names w := by
    induction hw with
    | refl => exact h
    | tail _ hs ih => exact ih.step hs
  exact htree.node

end TypeTree

end Value

-- ==================================================== types written out

open Value (TypeTree HasForm)

namespace CedarType

/-- A closed type is a tree of type nodes, marked or not. -/
theorem Closed.typeTree {names : List String} {t : CedarType} (h : t.Closed names) :
    ∀ {v : Value}, v.HasForm t.toMembers → TypeTree names v := by
  induction h with
  | text =>
      intro v hv
      rw [toMembers] at hv
      exact .builtIn (by decide) hv
  | long =>
      intro v hv
      rw [toMembers] at hv
      exact .builtIn (by decide) hv
  | boolean =>
      intro v hv
      rw [toMembers] at hv
      exact .builtIn (by decide) hv
  | named ht =>
      intro v hv
      rw [toMembers] at hv
      exact .named ht hv
  | set _ ih =>
      intro v hv
      rw [toMembers] at hv
      exact .set hv (ih (Or.inl rfl))
  | record _ ih =>
      intro v hv
      rw [toMembers, attributeValues_eq_map] at hv
      refine .record hv fun m hm => ?_
      obtain ⟨a, ha, rfl⟩ := List.mem_map.1 hm
      exact ih a ha (Or.inl rfl)

/-- A closed type names only what is there, however deep it is looked into. -/
theorem Closed.typesClosed {names : List String} {t : CedarType} (h : t.Closed names) :
    t.toValue.TypesClosed names :=
  (h.typeTree (Or.inl rfl)).typesClosed

end CedarType

/-- So does an attribute. -/
theorem Attribute.typeTree_toValue {names : List String} {a : Attribute}
    (h : a.type.Closed names) : TypeTree names a.toValue := by
  refine h.typeTree ?_
  unfold toValue
  split
  · exact Or.inr rfl
  · exact Or.inl (by rw [List.append_nil])

/-- A closed context is a tree of type nodes: a record of two records. -/
theorem Context.Closed.typesClosed {names : List String} {context : Context}
    (h : context.Closed names) : context.toValue.TypesClosed names := by
  have hgroup : ∀ {attributes : Members Attribute}, (∀ a ∈ attributes, a.2.type.Closed names) →
      TypeTree names (groupValue attributes) := by
    intro attributes ha
    refine .record (Or.inl rfl) fun m hm => ?_
    obtain ⟨a, hmem, rfl⟩ := List.mem_map.1 hm
    exact Attribute.typeTree_toValue (ha a hmem)
  have htree : TypeTree names context.toValue := by
    refine .record (Or.inl rfl) fun m hm => ?_
    obtain ⟨n, hn, rfl⟩ := List.mem_map.1 hm
    rcases List.mem_cons.1 hn with rfl | hn
    · exact hgroup (h .path)
    · obtain rfl := List.mem_singleton.1 hn
      exact hgroup (h .query)
  exact htree.typesClosed

-- ==================================================== closed schemas

namespace Draft

/-- What an action's definition says that it applies to. -/
def appliesTo (part : String) (definition : Value) : Option Value :=
  (definition.field "appliesTo").field? part

/-- The value is a list of names of entity types, each changed before it is looked up. -/
def NamesEntities (entities : List (String × Value)) (change : String → String) (v : Value) :
    Prop :=
  ∃ ts, v = .texts ts ∧ ∀ t ∈ ts, change t ∈ entities.map Prod.fst

/-- No reference in a schema with these tables dangles. Common types are those of
the component schemas in their order; every type made use of is built in or a
common type; and the types that actions apply to and that contain others have
entity types. -/
structure Closed (schemaNames : List String) (d : Draft) (entities : List (String × Value))
    (actions types : Members Value) : Prop where
  entityTypes_eq : d.entityTypes = .object entities
  actions_eq : d.actions = .map actions
  commonTypes_eq : d.commonTypes = .map types
  keys_types : Members.keys types = schemaNames.map .text
  principals : ∀ a ∈ actions, ∃ v, appliesTo "principalTypes" a.2 = some v ∧
    NamesEntities entities id v
  resources : ∀ a ∈ actions, ∃ v, appliesTo "resourceTypes" a.2 = some v ∧
    NamesEntities entities EntityType.baseName v
  containers : ∀ e ∈ entities, ∀ v, e.2.field? "memberOfTypes" = some v →
    NamesEntities entities id v
  contexts : ∀ a ∈ actions, ∃ v, appliesTo "context" a.2 = some v ∧ v.TypesClosed schemaNames
  types : ∀ t ∈ types, t.2.TypesClosed schemaNames
  shapes : ∀ e ∈ entities, ∃ v, e.2.field? "shape" = some v ∧ v.TypesClosed schemaNames

end Draft

namespace EntityType

theorem field?_shape (e : EntityType) : e.toValue.field? "shape" = some e.shape.toValue := by
  obtain ⟨shape, memberOf⟩ := e
  cases memberOf with
  | none => rfl
  | some names => rfl

theorem field?_memberOfTypes (e : EntityType) :
    e.toValue.field? "memberOfTypes" = e.memberOf.map .texts := by
  obtain ⟨shape, memberOf⟩ := e
  cases memberOf with
  | none => rfl
  | some names => rfl

end EntityType

namespace CedarSchema

/-- No reference in a built schema dangles. -/
theorem closed_of_build {doc : ApiDocument} {namespaceName base : Value} {s : CedarSchema}
    (h : (build doc namespaceName base).outcome = .ok s) :
    ∃ entities actions types,
      s.draft.Closed (doc.schemas.map Prod.fst) entities actions types := by
  obtain ⟨paths, basePath, hb⟩ := build_eq_ok.1 h
  have hnames : (converterFor doc).names = some ((doc.schemas.map Prod.fst).map .text) := rfl
  have hentities : (s.entityTypes.map fun e => (e.1, e.2.toValue)).map Prod.fst =
      EntityType.namesFor (yielded doc basePath paths) := by
    have htable := congrArg (List.map Prod.fst) hb.entityTypes_eq
    rw [EntityType.map_fst_table] at htable
    rw [← htable, List.map_map]
    rfl
  have hcommon := Converter.closed_of_commonTypes hnames hb.commonTypes_eq
  refine ⟨_, _, _, rfl, rfl, rfl, ?_, ?_, ?_, ?_, ?_, ?_, ?_⟩
  · rw [Members.keys_map, hcommon.1]
    unfold schemaMembers Members.keys
    rw [List.map_map, List.map_map]
    rfl
  · intro m hm
    obtain ⟨a, -, rfl⟩ := List.mem_map.1 hm
    refine ⟨_, rfl, Action.principalTypes, rfl, fun t ht => ?_⟩
    rw [hentities, List.mem_singleton.1 ht]
    exact EntityType.mem_namesFor_of_seeded (by decide)
  · intro m hm
    obtain ⟨a, ha, rfl⟩ := List.mem_map.1 hm
    refine ⟨_, rfl, a.2.resourceTypes, rfl, fun t ht => ?_⟩
    rw [hentities]
    exact EntityType.baseName_mem_namesFor (hb.mem_yielded ha) ht
  · intro m hm v hv
    obtain ⟨e, he, rfl⟩ := List.mem_map.1 hm
    rw [EntityType.field?_memberOfTypes] at hv
    obtain ⟨containers, hc, rfl⟩ := Option.map_eq_some_iff.1 hv
    rw [hb.entityTypes_eq] at he
    refine ⟨containers, rfl, fun t ht => ?_⟩
    rw [hentities]
    exact (EntityType.closed_of_mem_table he).2 containers hc t ht
  · intro m hm
    obtain ⟨a, ha, rfl⟩ := List.mem_map.1 hm
    obtain ⟨o, -, ho⟩ := hb.yields_of_mem ha
    obtain ⟨inherited, own, -, -, hcontext⟩ := ho.context
    exact ⟨_, rfl, (Context.closed_of_ofParameters hnames hcontext).typesClosed⟩
  · intro m hm
    obtain ⟨t, ht, rfl⟩ := List.mem_map.1 hm
    exact (hcommon.2 t ht).typesClosed
  · intro m hm
    obtain ⟨e, he, rfl⟩ := List.mem_map.1 hm
    rw [hb.entityTypes_eq] at he
    exact ⟨_, e.2.field?_shape, (EntityType.closed_of_mem_table he).1.typesClosed⟩

/-- A document that refers to a component schema from another one, from a parameter
of a path item and from one of an operation, and whose resource type has a shape. -/
def referringApi : ApiDocument where
  paths := some [("/owners/{id}", .object
    [("parameters", .list [.object
       [("name", .text "id"), ("in", .text "path"),
        ("schema", .object [("$ref", .text "#/components/schemas/Name")])]]),
     ("get", .object
       [("parameters", .list [.object
          [("name", .text "pets"), ("in", .text "query"),
           ("schema", .object
             [("type", .text "array"),
              ("items", .object [("$ref", .text "#/components/schemas/Pet")])])]]),
        ("x-cedar", .object [("appliesToResourceTypes", .texts ["NS::Pet"])])])])]
  servers := []
  schemas :=
    [("Name", .object [("type", .text "string")]),
     ("Pet", .object
       [("type", .text "object"),
        ("properties", .object [("name", .object [("$ref", .text "#/components/schemas/Name")])])])]

/-- A schema with references, all of which lead somewhere. -/
theorem closed_of_build_referringApi :
    ∃ s entities actions types, (build referringApi (.text "NS") .null).outcome = .ok s ∧
      s.draft.Closed ["Name", "Pet"] entities actions types := by
  obtain ⟨s, hs⟩ := Attempt.exists_eq_ok
    (by decide +kernel : (build referringApi (.text "NS") .null).outcome.isOk = true)
  obtain ⟨entities, actions, types, hclosed⟩ := closed_of_build hs
  exact ⟨s, entities, actions, types, hs, hclosed⟩

end CedarSchema

end ApiAuthz
