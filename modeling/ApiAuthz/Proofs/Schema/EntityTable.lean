/-
Which entity types a schema has. Three types are always there. The others come from the resource
types of the operations, of every one of them, whether or not another operation takes its action
over: each resource type adds the name behind its last double colon, if that is new.

What an entity type is made of depends on its name and on the names of the component schemas, and
on nothing else (`toValue_table`): no operation changes an entity type that is there without it.
The table is read off its closed form (`table_eq`), and `EntityTypesFor` is stated without it: the
keys are the fixed names followed by the last parts of the resource types, where a last part is
what the relation `Namespace.Splits` gives, not what the function computes.
-/
import ApiAuthz.Proofs.Namespace
import ApiAuthz.Proofs.Schema.Closure
import ApiAuthz.Proofs.Schema.Grammar

namespace ApiAuthz

open Converter (namedForm recordForm)

namespace EntityType

-- ==================================================== names

/-- The name is the last of the parts that the resource type splits into. -/
def LastPart (resourceType name : String) : Prop :=
  ∃ qualifiers, Namespace.Splits resourceType.toList (qualifiers ++ [name.toList])

/-- The base name of a type is its last part. -/
theorem baseName_eq_iff {resourceType name : String} :
    baseName resourceType = name ↔ LastPart resourceType name := by
  have hlast := List.getLast?_eq_some_getLast (Namespace.components_ne_nil resourceType.toList)
  unfold baseName LastPart
  simp only [Namespace.splits_iff, ← List.getLast?_eq_some_iff]
  rw [hlast, Option.getD_some, Option.some_inj, ← String.toList_inj, String.toList_ofList]

/-- The names that resource types add, in order. -/
theorem forall₂_lastPart (actions : List Action) :
    List.Forall₂ LastPart (actions.flatMap Action.resourceTypes)
      (actions.flatMap fun a => a.resourceTypes.map baseName) := by
  rw [← List.map_flatMap, List.forall₂_map_right_iff]
  exact List.forall₂_same.2 fun r _ => baseName_eq_iff.1 rfl

-- ==================================================== entries

/-- A component schema of the same name is the shape of an entity type, otherwise the shape is
the record without attributes. -/
def shapeForm (schemaNames : List String) (name : String) : Value :=
  if name ∈ schemaNames then namedForm name else recordForm []

/-- The entity type of a name. -/
def form (schemaNames : List String) (name : String) : Value :=
  if name = "User" then
    .object [("shape", shapeForm schemaNames name), ("memberOfTypes", .texts ["UserGroup"])]
  else if name = "UserGroup" ∨ name = "Application" then
    .object [("shape", recordForm [])]
  else
    .object [("shape", shapeForm schemaNames name), ("memberOfTypes", .texts [])]

/-- The shape of an entity type has the form that the schema asks for. -/
theorem toValue_shapeOf (schemaNames : List String) (name : String) :
    (shapeOf schemaNames name).toValue = shapeForm schemaNames name := by
  unfold shapeOf shapeForm
  rw [apply_ite CedarType.toValue]
  simp only [List.contains_iff_mem]
  rfl

/-- So has an entity type that actions bring along. -/
theorem toValue_eq_form {schemaNames : List String} {name : String} (h : name ∉ seededNames) :
    toValue ⟨shapeOf schemaNames name, some []⟩ = form schemaNames name := by
  simp only [seededNames, List.mem_cons, List.not_mem_nil, or_false, not_or] at h
  rw [form, if_neg h.1, if_neg (not_or.2 h.2), ← toValue_shapeOf]
  rfl

/-- Every entity type of a table has the form of its name. -/
theorem toValue_table (schemaNames : List String) (actions : List Action) :
    ((table schemaNames actions).map fun e => (e.1, e.2.toValue)) =
      (namesFor actions).map fun n => (n, form schemaNames n) := by
  unfold namesFor
  rw [table_eq, List.map_append, List.map_append, List.map_map]
  congr 1
  · have huser : form schemaNames "User" =
        toValue ⟨shapeOf schemaNames "User", some ["UserGroup"]⟩ := by
      rw [form, if_pos rfl, ← toValue_shapeOf]
      rfl
    rw [seededNames, List.map_cons, huser]
    rfl
  · refine List.map_congr_left fun n hn => ?_
    rw [← toValue_eq_form (mem_appliedNames.1 hn).2]
    rfl

end EntityType

namespace CedarSchema

-- ==================================================== tables of entity types

/-- The entity types for resource types: the three fixed ones and then, by first occurrence, the
last parts of the resource types that are none of these, each in the form of its name. -/
structure EntityTypesFor (schemaNames resourceTypes : List String)
    (entries : List (String × Value)) : Prop where
  names : ∃ lastParts, List.Forall₂ EntityType.LastPart resourceTypes lastParts ∧
    entries.map Prod.fst = ["User", "UserGroup", "Application"] ++
      (lastParts.filter (· ∉ ["User", "UserGroup", "Application"])).eraseDups
  distinct : (entries.map Prod.fst).Nodup
  forms : ∀ e ∈ entries, e.2 = EntityType.form schemaNames e.1

/-- The table holds the entity types of the actions and nothing else. -/
theorem entityTypesFor_table (schemaNames : List String) (actions : List Action) :
    EntityTypesFor schemaNames (actions.flatMap Action.resourceTypes)
      ((EntityType.table schemaNames actions).map fun e => (e.1, e.2.toValue)) := by
  rw [EntityType.toValue_table]
  have hnames : (((EntityType.namesFor actions).map fun n =>
      (n, EntityType.form schemaNames n)).map Prod.fst) = EntityType.namesFor actions := by
    rw [List.map_map]
    exact List.map_id _
  refine ⟨⟨_, EntityType.forall₂_lastPart actions, ?_⟩, ?_, ?_⟩
  · rw [hnames, EntityType.namesFor, EntityType.appliedNames]
    congr 2
    refine List.filter_congr fun n _ => ?_
    rw [List.contains_eq_mem, decide_not]
    rfl
  · rw [hnames]
    exact EntityType.nodup_namesFor actions
  · intro e he
    obtain ⟨n, -, rfl⟩ := List.mem_map.1 he
    rfl

variable {doc : ApiDocument} {namespaceName base : Value} {s : CedarSchema}

/-- The entity types of a schema are those for the resource types of all operations of its
document, in the order in which they are mapped. -/
theorem entityTypes_of_build (h : (build doc namespaceName base).outcome = .ok s) :
    ∃ paths basePath actions entries, doc.paths = some paths ∧
      BasePath.resolve doc.servers base = .ok basePath ∧
      List.Forall₂ (Operation.Yields doc basePath) (Operation.ofPaths paths) actions ∧
      s.draft.entityTypes = .object entries ∧
      EntityTypesFor (doc.schemas.map Prod.fst) (actions.flatMap Action.resourceTypes) entries := by
  obtain ⟨paths, basePath, hb⟩ := build_eq_ok.1 h
  refine ⟨paths, basePath, yielded doc basePath paths, _, hb.paths_eq, hb.base_eq,
    forall₂_yielded hb.complete, rfl, ?_⟩
  rw [hb.entityTypes_eq]
  exact entityTypesFor_table _ _

/-- The second operation takes over the action of the first one, whose resource types stay. One
of them has three colons, and one is a fixed type. -/
def takenOverApi : ApiDocument where
  paths := some
    [("/pets", .object
      [("get", .object
        [("operationId", .text "pets"),
         ("x-cedar", .object [("appliesToResourceTypes", .texts ["NS::Pet", ":::odd"])])]),
       ("post", .object
        [("operationId", .text "pets"),
         ("x-cedar", .object
           [("appliesToResourceTypes", .texts ["UserGroup", "Pet", "NS::Shelter"])])])])]
  servers := []
  schemas := ["User", "UserGroup", "Pet"].map fun name => (name, .object [("type", .text "object")])

/-- A document that has a schema for each of the types that are there from the start. -/
theorem entityTypes_of_build_takenOverApi :
    ∃ (s : CedarSchema) (actions : List Action) (entries : List (String × Value)),
      (build takenOverApi (.text "NS") .null).outcome = .ok s ∧
      s.draft.entityTypes = .object entries ∧
      EntityTypesFor ["User", "UserGroup", "Pet"] (actions.flatMap Action.resourceTypes)
        entries := by
  obtain ⟨s, hs⟩ := Attempt.exists_eq_ok
    (by decide +kernel : (build takenOverApi (.text "NS") .null).outcome.isOk = true)
  obtain ⟨_, _, actions, entries, -, -, -, hentries, htable⟩ := entityTypes_of_build hs
  exact ⟨s, actions, entries, hs, hentries, htable⟩

example : ((build takenOverApi (.text "NS") .null).outcome.map fun s =>
      (s.actions.length, s.entityTypes.map Prod.fst)).toOption =
    some (1, ["User", "UserGroup", "Application", "Pet", ":odd", "Shelter"]) := by
  decide +kernel

end CedarSchema

end ApiAuthz
