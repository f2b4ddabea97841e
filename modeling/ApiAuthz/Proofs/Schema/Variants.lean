/-
The two variants of a generated schema, as they are read. Both are documents of
the namespace alone; the plain variant has no annotations, and the annotated one
is the plain one again once its annotations are taken off: those of the
namespace and those of each action, not what users have named `annotations`
further in. The order of keys is the same at every level.

Names of actions may be any key, so two actions may be one when they are read,
and of parameters the same holds. What keeps the variants alike is that both
have their keys from the same table (`Members.ofEntries_map`): a member that is
lost in one is lost in the other.

# What may be read back

Only documents without numbers are known to be read as they were written
(`Proofs/Json/RoundTrip`). A schema has none, whatever was mapped, since all its
leaves are texts and truth values; this goes up from types through attributes,
contexts and definitions to both documents (`numberFree_plainDocument`,
`numberFree_annotatedDocument`). The one value of the document that gets into a
schema unchanged is the verb, and verbs are texts.

# Taking annotations off

`withoutAnnotations` is an operation on what was read, at two fixed levels: the own
member of the body, and that of each action. It is not told which members the writer
added. That it gives the plain body back (`withoutAnnotations_readBody`) rests on the
form of an action with annotations, which has just one such member beside what it
applies to (`without_annotatedDefinition`).
-/
import ApiAuthz.Generated
import ApiAuthz.Proofs.Json.RoundTrip
import ApiAuthz.Proofs.Schema.Projection

namespace ApiAuthz

-- ==================================================== schemas have no numbers

namespace Value

/-- An object has no numbers if none of its values has. -/
theorem NumberFree.object {ms : List (String × Value)} (h : ∀ m ∈ ms, m.2.NumberFree) :
    (Value.object ms).NumberFree := by
  refine .map fun m hm => ?_
  obtain ⟨n, hn, rfl⟩ := List.mem_map.1 hm
  exact h n hn

/-- Nor has a list of texts. -/
theorem NumberFree.texts (ss : List String) : (Value.texts ss).NumberFree := by
  refine .list fun v hv => ?_
  obtain ⟨s, -, rfl⟩ := List.mem_map.1 hv
  exact .text s

/-- Members given by what they are made of. -/
theorem NumberFree.members {α : Type} {ms : Members α} {form : α → Value}
    (h : ∀ m ∈ ms, (form m.2).NumberFree) :
    (Value.map (ms.map fun m => (m.1, form m.2))).NumberFree := by
  refine .map fun m hm => ?_
  obtain ⟨n, hn, rfl⟩ := List.mem_map.1 hm
  exact h n hn

end Value

namespace CedarType

mutual

/-- No type has numbers in it. -/
theorem numberFree_toMembers : ∀ t : CedarType, ∀ m ∈ t.toMembers, m.2.NumberFree
  | .text => by simpa [toMembers] using .text _
  | .long => by simpa [toMembers] using .text _
  | .boolean => by simpa [toMembers] using .text _
  | .named target => by simpa [toMembers] using .text _
  | .set element => by
      rw [toMembers, List.forall_mem_cons, List.forall_mem_singleton]
      exact ⟨.text _, .object (numberFree_toMembers element)⟩
  | .record attributes => by
      rw [toMembers, List.forall_mem_cons, List.forall_mem_singleton]
      exact ⟨.text _, .map (numberFree_attributeValues attributes)⟩

theorem numberFree_attributeValues :
    ∀ attributes : List (Scalar × CedarType), ∀ m ∈ attributeValues attributes, m.2.NumberFree
  | [] => by
      rw [attributeValues]
      exact List.forall_mem_nil _
  | (name, type) :: rest => by
      rw [attributeValues, List.forall_mem_cons]
      exact ⟨.object (numberFree_toMembers type), numberFree_attributeValues rest⟩

end

/-- So it is with a whole type. -/
theorem numberFree_toValue (t : CedarType) : t.toValue.NumberFree :=
  .object (numberFree_toMembers t)

end CedarType

/-- An attribute has a truth value, and no number. -/
theorem Attribute.numberFree_toValue (a : Attribute) : a.toValue.NumberFree := by
  refine .object fun m hm => ?_
  rcases List.mem_append.1 hm with hm | hm
  · exact a.type.numberFree_toMembers m hm
  · split at hm
    · obtain rfl := List.mem_singleton.1 hm
      exact .bool true
    · cases hm

namespace Context

theorem numberFree_groupValue (attributes : Members Attribute) :
    (groupValue attributes).NumberFree := by
  refine .object (List.forall_mem_cons.2 ⟨.text _, List.forall_mem_singleton.2 ?_⟩)
  exact .members fun m _ => m.2.numberFree_toValue

/-- No context has numbers in it. -/
theorem numberFree_toValue (c : Context) : c.toValue.NumberFree := by
  refine .object (List.forall_mem_cons.2 ⟨.text _, List.forall_mem_singleton.2 ?_⟩)
  refine .object (List.forall_mem_cons.2 ⟨?_, List.forall_mem_singleton.2 ?_⟩)
  · exact numberFree_groupValue c.path
  · exact numberFree_groupValue c.query

end Context

namespace Action

theorem numberFree_appliesTo (a : Action) : (Value.object
    [("context", a.context.toValue), ("principalTypes", .texts principalTypes),
     ("resourceTypes", .texts a.resourceTypes)]).NumberFree := by
  refine .object (List.forall_mem_cons.2 ⟨a.context.numberFree_toValue, ?_⟩)
  exact List.forall_mem_cons.2 ⟨.texts _, List.forall_mem_singleton.2 (.texts _)⟩

/-- No definition of an action has. -/
theorem numberFree_definition (a : Action) : a.definition.NumberFree :=
  .object (List.forall_mem_singleton.2 a.numberFree_appliesTo)

/-- The verb of an action is a text, so its annotations are texts. -/
theorem numberFree_annotatedDefinition {a : Action} {verb : String} (h : a.verb = .text verb) :
    a.annotatedDefinition.NumberFree := by
  refine .object (List.forall_mem_cons.2 ⟨a.numberFree_appliesTo, List.forall_mem_singleton.2 ?_⟩)
  refine .object (List.forall_mem_cons.2 ⟨?_, List.forall_mem_singleton.2 (.text _)⟩)
  rw [h]
  exact .text verb

end Action

/-- Nor has an entity type. -/
theorem EntityType.numberFree_toValue (e : EntityType) : e.toValue.NumberFree := by
  refine .object fun m hm => ?_
  rcases List.mem_append.1 hm with hm | hm
  · obtain rfl := List.mem_singleton.1 hm
    exact e.shape.numberFree_toValue
  · split at hm
    · obtain rfl := List.mem_singleton.1 hm
      exact .texts _
    · cases hm

namespace CedarSchema

theorem numberFree_bodyWith {s : CedarSchema} {form : Action → Value}
    (h : ∀ a ∈ s.actions, (form a.2).NumberFree) : ∀ m ∈ s.bodyWith form, m.2.NumberFree := by
  refine List.forall_mem_cons.2 ⟨.object fun m hm => ?_, ?_⟩
  · obtain ⟨e, -, rfl⟩ := List.mem_map.1 hm
    exact e.2.numberFree_toValue
  · refine List.forall_mem_cons.2 ⟨.members h, List.forall_mem_singleton.2 ?_⟩
    exact .members fun t _ => t.2.numberFree_toValue

/-- So the plain form of a schema has none. -/
theorem numberFree_plainDocument (s : CedarSchema) : s.plainDocument.NumberFree :=
  .object (List.forall_mem_singleton.2
    (.object (numberFree_bodyWith fun a _ => a.2.numberFree_definition)))

/-- Nor has the annotated one, if the annotations have none. -/
theorem numberFree_annotatedDocument {s : CedarSchema} {annotations : Members Value}
    (hverbs : ∀ a ∈ s.actions, ∃ verb, a.2.verb = .text verb)
    (h : ∀ m ∈ annotations, m.2.NumberFree) : (s.annotatedDocument annotations).NumberFree := by
  refine .object (List.forall_mem_singleton.2 (.object (List.forall_mem_append.2 ⟨?_, ?_⟩)))
  · refine numberFree_bodyWith fun a ha => ?_
    obtain ⟨verb, hverb⟩ := hverbs a ha
    exact Action.numberFree_annotatedDefinition hverb
  · exact List.forall_mem_singleton.2 (.map h)

end CedarSchema

-- ==================================================== annotations taken off

namespace Value

/-- The value without its own member of a name. -/
def without (name : String) : Value Broken → Value Broken
  | .map ms => .map (ms.filter fun m => m.1 != .text name)
  | v => v

/-- The value with each of its members changed. -/
def mapMembers (change : Value Broken → Value Broken) : Value Broken → Value Broken
  | .map ms => .map (ms.map fun m => (m.1, change m.2))
  | v => v

/-- The value with its own member of a name changed. -/
def mapMember (name : String) (change : Value Broken → Value Broken) :
    Value Broken → Value Broken
  | .map ms => .map (ms.map fun m => (m.1, if m.1 = .text name then change m.2 else m.2))
  | v => v

/-- The body of a namespace without its annotations and those of its actions. -/
def withoutAnnotations (body : Value Broken) : Value Broken :=
  (body.without "annotations").mapMember "actions" (mapMembers (without "annotations"))

/-- A mapping with text names comes back with the names it had. -/
theorem readBack_object {ms : List (String × Value)} (h : (ms.map Prod.fst).Nodup) :
    (object ms).readBack = object (ms.map fun m => (m.1, m.2.readBack)) := by
  unfold object
  rw [readBack, readBackMembers_eq_map, List.map_map, List.map_map]
  exact congrArg map (Members.ofEntries_eq_self ((Members.distinct_text_iff _).2 h))

/-- An object of one member is read back as such. -/
theorem readBack_object_singleton (name : String) (v : Value) :
    (object [(name, v)]).readBack = object [(name, v.readBack)] :=
  readBack_object (List.pairwise_singleton ..)

end Value

namespace Action

/-- What the definition of an action is read back as. -/
theorem readBack_definition (a : Action) : a.definition.readBack =
    .object [("appliesTo", (Value.object
      [("context", a.context.toValue), ("principalTypes", .texts principalTypes),
       ("resourceTypes", .texts a.resourceTypes)]).readBack)] :=
  Value.readBack_object (by simp)

/-- The same with annotations, which come last. -/
theorem readBack_annotatedDefinition (a : Action) : a.annotatedDefinition.readBack =
    .object [("appliesTo", (Value.object
      [("context", a.context.toValue), ("principalTypes", .texts principalTypes),
       ("resourceTypes", .texts a.resourceTypes)]).readBack),
      ("annotations", a.annotations.readBack)] :=
  Value.readBack_object (by simp)

/-- The annotations of an action are read back as texts. -/
theorem readBack_annotations {a : Action} {verb : String} (h : a.verb = .text verb) :
    a.annotations.readBack =
      .object [("httpVerb", .text verb), ("httpPathTemplate", .text a.pathTemplate)] := by
  unfold annotations
  rw [Value.readBack_object (by simp), h]
  rfl

/-- Without its annotations, an annotated action reads as it is defined. -/
theorem without_annotatedDefinition (a : Action) :
    a.annotatedDefinition.readBack.without "annotations" = a.definition.readBack := by
  rw [readBack_annotatedDefinition, readBack_definition]
  rfl

end Action

namespace CedarSchema

-- ==================================================== the variants as they are read

/-- The actions under their names as they are read. -/
def readActions (s : CedarSchema) : Members Action Broken :=
  Members.ofEntries (s.actions.map fun a => (.text (Json.keyName a.1), a.2))

/-- No action comes in by reading. -/
theorem mem_actions_of_mem_readActions {s : CedarSchema} {m : Scalar Broken × Action}
    (h : m ∈ s.readActions) : ∃ a ∈ s.actions, a.2 = m.2 := by
  obtain ⟨e, he, heq⟩ := Members.mem_ofEntries h
  obtain ⟨a, ha, rfl⟩ := List.mem_map.1 he
  exact ⟨a, ha, heq⟩

/-- The names of actions are read alike, whatever form the actions have. -/
theorem readBack_actions (s : CedarSchema) (form : Action → Value) :
    (Value.map (s.actions.map fun a => (a.1, form a.2))).readBack =
      .map (s.readActions.map fun a => (a.1, (form a.2).readBack)) := by
  have htable := Members.ofEntries_map (fun a => (form a).readBack)
    (s.actions.map fun a => ((.text (Json.keyName a.1) : Scalar Broken), a.2))
  rw [List.map_map] at htable
  rw [Value.readBack, Value.readBackMembers_eq_map, List.map_map]
  exact congrArg Value.map htable

/-- The body of a schema as it is read, its actions in the given form. -/
def readBody (s : CedarSchema) (form : Action → Value) : List (String × Value Broken) :=
  [("entityTypes", (Value.object (s.entityTypes.map fun e => (e.1, e.2.toValue))).readBack),
   ("actions", .map (s.readActions.map fun a => (a.1, (form a.2).readBack))),
   ("commonTypes", (Value.map (s.commonTypes.map fun t => (t.1, t.2.toValue))).readBack)]

/-- The plain form of a schema is read back with the names of its actions as texts. -/
theorem readBack_plainDocument (s : CedarSchema) : s.plainDocument.readBack =
    .object [(s.namespaceName, .object (s.readBody Action.definition))] := by
  have hbody : (Value.object (s.bodyWith Action.definition)).readBack =
      .object (s.readBody Action.definition) := by
    unfold bodyWith readBody
    rw [← readBack_actions]
    exact Value.readBack_object (by simp)
  unfold plainDocument
  rw [Value.readBack_object_singleton, hbody]

/-- So is the annotated form. -/
theorem readBack_annotatedDocument (s : CedarSchema) (annotations : Members Value) :
    (s.annotatedDocument annotations).readBack =
      .object [(s.namespaceName, .object (s.readBody Action.annotatedDefinition ++
        [("annotations", (Value.map annotations).readBack)]))] := by
  have hbody : (Value.object (s.bodyWith Action.annotatedDefinition ++
      [("annotations", .map annotations)])).readBack =
        .object (s.readBody Action.annotatedDefinition ++
          [("annotations", (Value.map annotations).readBack)]) := by
    unfold bodyWith readBody
    rw [← readBack_actions]
    exact Value.readBack_object (by simp)
  unfold annotatedDocument
  rw [Value.readBack_object_singleton, hbody]

/-- Annotations taken off, the annotated body reads as the plain one. -/
theorem withoutAnnotations_readBody (s : CedarSchema) (annotations : Value Broken) :
    (Value.object (s.readBody Action.annotatedDefinition ++
      [("annotations", annotations)])).withoutAnnotations =
        .object (s.readBody Action.definition) := by
  have hactions : (Value.map (s.readActions.map fun a => (a.1, a.2.annotatedDefinition.readBack))
      ).mapMembers (Value.without "annotations") =
        .map (s.readActions.map fun a => (a.1, a.2.definition.readBack)) := by
    refine congrArg Value.map ((List.map_map ..).trans (List.map_congr_left fun a _ => ?_))
    exact congrArg (Prod.mk a.1) a.2.without_annotatedDefinition
  unfold readBody
  rw [← hactions]
  rfl

end CedarSchema

theorem Namespace.eq_text_of_ofValue {v : Value} {name : String} (h : ofValue v = .ok name) :
    v = .text name := by
  unfold ofValue at h
  split at h
  · cases h
  · split at h
    · cases h
    · next s hs =>
      split at h
      · cases h
        unfold Value.text? at hs
        split at hs
        · cases hs
          rfl
        · cases hs
      · cases h

namespace Generated

open CedarSchema

/-- A form of a schema is written from its projection. -/
theorem textOf_eq_ok {d : Draft} {annotations : Value} {text : String} :
    textOf d annotations = .ok text ↔
      ∃ v, d.project annotations = .ok v ∧ Json.indented 2 v = .ok text :=
  Attempt.bind_eq_ok

/-- Both forms are written, of the only kind of mapping there is. -/
theorem ofSchema_eq_ok {s : CedarSchema} {mappingType : Value} {g : Generated} :
    ofSchema s mappingType = .ok g ↔
      textOf s.draft .null = .ok g.plain ∧
        textOf s.draft (namespaceAnnotations mappingType) = .ok g.annotated ∧
        mappingType = .text simpleRest ∧ g.mappingType = simpleRest := by
  unfold ofSchema
  rw [Attempt.bind_eq_ok]
  constructor
  · rintro ⟨plain, hplain, h⟩
    obtain ⟨annotated, hannotated, h⟩ := Attempt.bind_eq_ok.1 h
    split at h
    · next t =>
      split at h
      · next ht =>
        obtain rfl := Attempt.pure_eq_ok.1 h
        rw [ht]
        exact ⟨hplain, ht ▸ hannotated, rfl, rfl⟩
      · cases h
    · cases h
  · rintro ⟨hplain, hannotated, rfl, htype⟩
    refine ⟨g.plain, hplain, Attempt.bind_eq_ok.2 ⟨g.annotated, hannotated, ?_⟩⟩
    show (if simpleRest = simpleRest then _ else _) = _
    rw [if_pos rfl, Attempt.pure_eq_ok, ← htype]

/-- What is generated is written from the schema that is built. -/
theorem outcome_ofDocument_eq_ok {doc : ApiDocument} {namespaceName mappingType base : Value}
    {g : Generated} :
    (ofDocument doc namespaceName mappingType base).outcome = .ok g ↔
      ∃ s, (build doc namespaceName base).outcome = .ok s ∧ ofSchema s mappingType = .ok g := by
  unfold ofDocument Logged.andThen
  cases (build doc namespaceName base).outcome with
  | error f => simp
  | ok s => simp [Logged.silent]

/-- What is generated are the two documents of a schema that is built, for the one mapping
type there is. -/
theorem outcome_ofDocument_eq_ok_written {doc : ApiDocument}
    {namespaceName mappingType base : Value} {g : Generated} :
    (ofDocument doc namespaceName mappingType base).outcome = .ok g ↔
      ∃ s, (build doc namespaceName base).outcome = .ok s ∧
        mappingType = .text simpleRest ∧ g.mappingType = simpleRest ∧
        Json.indented 2 s.plainDocument = .ok g.plain ∧
        Json.indented 2 (s.annotatedDocument [(.text "mappingType", .text simpleRest)]) =
          .ok g.annotated := by
  rw [outcome_ofDocument_eq_ok]
  refine exists_congr fun s => and_congr_right fun hs => ?_
  obtain ⟨paths, basePath, hb⟩ := build_eq_ok.1 hs
  have hannotated : s.draft.project (namespaceAnnotations (.text simpleRest)) =
      .ok (s.annotatedDocument [(.text "mappingType", .text simpleRest)]) :=
    project_draft (distinct_of_tableOf hb.actions_eq) rfl
  rw [ofSchema_eq_ok, textOf_eq_ok, textOf_eq_ok, project_null]
  constructor
  · rintro ⟨⟨v, hv, hplain⟩, ⟨w, hw, htext⟩, rfl, htype⟩
    rw [hannotated] at hw
    cases hv
    cases hw
    exact ⟨rfl, htype, hplain, htext⟩
  · rintro ⟨rfl, htype, hplain, htext⟩
    exact ⟨⟨_, rfl, hplain⟩, ⟨_, hannotated, htext⟩, rfl, htype⟩

/-- Both variants are read as the schema they were written from. -/
theorem reads_of_ofDocument {doc : ApiDocument} {namespaceName mappingType base : Value}
    {g : Generated} (h : (ofDocument doc namespaceName mappingType base).outcome = .ok g) :
    ∃ s, (build doc namespaceName base).outcome = .ok s ∧
      Json.read g.plain.toList =
        .ok (.object [(s.namespaceName, .object (s.readBody Action.definition))]) ∧
      Json.read g.annotated.toList =
        .ok (.object [(s.namespaceName, .object (s.readBody Action.annotatedDefinition ++
          [("annotations", (namespaceAnnotations (.text simpleRest)).readBack)]))]) := by
  obtain ⟨s, hs, -, -, hplain, hannotated⟩ := outcome_ofDocument_eq_ok_written.1 h
  obtain ⟨paths, basePath, hb⟩ := build_eq_ok.1 hs
  have hverbs : ∀ a ∈ s.actions, ∃ verb, a.2.verb = .text verb := fun a ha => by
    obtain ⟨o, -, ho⟩ := hb.yields_of_mem ha
    exact ⟨o.verb, ho.verb⟩
  refine ⟨s, hs, ?_, ?_⟩
  · rw [← readBack_plainDocument]
    exact Json.read_indented s.numberFree_plainDocument hplain
  · refine Eq.trans ?_ (congrArg Except.ok (s.readBack_annotatedDocument _))
    exact Json.read_indented (numberFree_annotatedDocument hverbs
      (List.forall_mem_singleton.2 (.text simpleRest))) hannotated

/-- The two variants of what is generated, as they are read: documents of the
namespace alone, with the same body apart from annotations. The plain body has
none; the annotated one has the mapping type on the namespace, and the verb and
the path template on every action. -/
theorem variants_of_ofDocument {doc : ApiDocument} {namespaceName mappingType base : Value}
    {g : Generated} (h : (ofDocument doc namespaceName mappingType base).outcome = .ok g) :
    ∃ name type plain annotated actions annotatedActions,
      namespaceName = .text name ∧ mappingType = .text type ∧ g.mappingType = type ∧
      Json.read g.plain.toList = .ok (.object [(name, plain)]) ∧
      Json.read g.annotated.toList = .ok (.object [(name, annotated)]) ∧
      annotated.withoutAnnotations = plain ∧
      plain.field? "annotations" = none ∧
      plain.field? "actions" = some (.map actions) ∧
      (∀ a ∈ actions, a.2.field? "annotations" = none) ∧
      annotated.field? "annotations" = some (.object [("mappingType", .text type)]) ∧
      annotated.field? "actions" = some (.map annotatedActions) ∧
      ∀ a ∈ annotatedActions, ∃ verb template, a.2.field? "annotations" =
        some (.object [("httpVerb", .text verb), ("httpPathTemplate", .text template)]) := by
  obtain ⟨s, hs, hg⟩ := outcome_ofDocument_eq_ok.1 h
  obtain ⟨hplain, hannotated, rfl, htype⟩ := ofSchema_eq_ok.1 hg
  obtain ⟨paths, basePath, hb⟩ := build_eq_ok.1 hs
  have hverbs : ∀ a ∈ s.actions, ∃ verb, a.2.verb = .text verb := fun a ha => by
    obtain ⟨o, -, ho⟩ := hb.yields_of_mem ha
    exact ⟨o.verb, ho.verb⟩
  obtain ⟨v, hv, hplain⟩ := textOf_eq_ok.1 hplain
  obtain ⟨w, hw, hannotated⟩ := textOf_eq_ok.1 hannotated
  rw [project_null] at hv
  rw [project_draft (distinct_of_tableOf hb.actions_eq) rfl] at hw
  cases hv
  cases hw
  have hreadPlain := Json.read_indented s.numberFree_plainDocument hplain
  have hreadAnnotated := Json.read_indented (numberFree_annotatedDocument hverbs
    (List.forall_mem_singleton.2 (.text simpleRest))) hannotated
  rw [readBack_plainDocument] at hreadPlain
  rw [readBack_annotatedDocument] at hreadAnnotated
  refine ⟨s.namespaceName, simpleRest, _, _, _, _, Namespace.eq_text_of_ofValue hb.namespace_eq,
    rfl, htype, hreadPlain, hreadAnnotated, s.withoutAnnotations_readBody _, rfl, rfl, ?_, ?_,
    rfl, ?_⟩
  · intro m hm
    obtain ⟨a, -, rfl⟩ := List.mem_map.1 hm
    show (a.2.definition.readBack).field? "annotations" = none
    rw [Action.readBack_definition]
    rfl
  · show some (Value.readBack (.object [("mappingType", .text simpleRest)])) = _
    rw [Value.readBack_object_singleton]
    rfl
  · intro m hm
    obtain ⟨a, ha, rfl⟩ := List.mem_map.1 hm
    obtain ⟨b, hb, heq⟩ := mem_actions_of_mem_readActions ha
    obtain ⟨verb, hverb⟩ := hverbs b hb
    refine ⟨verb, a.2.pathTemplate, ?_⟩
    show (a.2.annotatedDefinition.readBack).field? "annotations" = _
    rw [Action.readBack_annotatedDefinition, Action.readBack_annotations (heq ▸ hverb)]
    rfl

/-- A document that calls an operation, a parameter, a component schema and one
of its properties `annotations`. -/
def annotationsEverywhere : ApiDocument where
  paths := some [("/notes", .object [("get", .object
    [("operationId", .text "annotations"),
     ("parameters", .list [.object
       [("name", .text "annotations"), ("in", .text "query"),
        ("schema", .object [("type", .text "string")])]])])])]
  servers := []
  schemas := [("annotations", .object
    [("type", .text "object"),
     ("properties", .object [("annotations", .object [("type", .text "string")])])])]

theorem variants_of_annotationsEverywhere :
    ∃ g plain annotated,
      (ofDocument annotationsEverywhere (.text "NS") (.text "SimpleRest") .null).outcome = .ok g ∧
      Json.read g.plain.toList = .ok (.object [("NS", plain)]) ∧
      Json.read g.annotated.toList = .ok (.object [("NS", annotated)]) ∧
      annotated.withoutAnnotations = plain := by
  obtain ⟨g, hg⟩ := Attempt.exists_eq_ok
    (by decide +kernel : (ofDocument annotationsEverywhere (.text "NS") (.text "SimpleRest")
      .null).outcome.isOk = true)
  obtain ⟨name, -, plain, annotated, -, -, hname, -, -, hplain, hannotated, hsame, -⟩ :=
    variants_of_ofDocument hg
  cases hname
  exact ⟨g, plain, annotated, hg, hplain, hannotated, hsame⟩

end Generated

end ApiAuthz
