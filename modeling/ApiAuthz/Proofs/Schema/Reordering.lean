/-
The schema of a document, and of the same document in another order: its paths, the members
of its path items, its component schemas and whatever is a mapping within them. Either both
are built or neither is, for every operation and every component schema comes to the same on
its own (`alike_entries`, `alike_schemas`). Where the names of operations are different keys no
action is put in the place of another, so the two schemas are the same but for order as well
(`reordered_build`).

The entity types of a schema are listed as actions mention them, each once; so they are the
same ones in another order (`matched_table`).

# Two steps

Whether there is a schema is settled by its parts, which are attempts that are alike, one behind
the other (`alike_build`). What it leaves of two schemas is `MadeAlike`: they are made of entries
and common types that agree in some order. Whether the schemas themselves agree is another
matter, for entries that share a key replace one another, and which is the last depends on the
order. `MadeAlike.reordered` therefore asks for names apart.

# Names

`NamesApart` speaks of the keys of the operations of the document, before anything is mapped:
the key of an operation is the one its entry has (`Operation.key?_of_entry`), and an operation
whose name can be no key makes the build fail in any order. Entries with keys apart are a table
as they stand (`keys_of_entries`), so a table in another order has its members in another order.
-/
import ApiAuthz.Proofs.Schema.EntityNames
import ApiAuthz.Proofs.Schema.ReorderedParts

namespace ApiAuthz

open Attempt (Alike)

-- ==================================================== documents and schemas

/-- The same document but for the order of members. -/
structure ApiDocument.Reordered (doc doc' : ApiDocument) : Prop where
  paths : Option.Rel (Matched (SameKey Value.Reordered)) doc.paths doc'.paths
  servers : doc.servers = doc'.servers
  schemas : Matched (SameKey Value.Reordered) doc.schemas doc'.schemas

/-- The same schema, part by part, but for the order of members. -/
structure Draft.Reordered (d d' : Draft) : Prop where
  namespaceName : d.namespaceName = d'.namespaceName
  entityTypes : d.entityTypes.Reordered d'.entityTypes
  actions : d.actions.Reordered d'.actions
  commonTypes : d.commonTypes.Reordered d'.commonTypes
  actionAnnotations : d.actionAnnotations.Reordered d'.actionAnnotations

-- ==================================================== entity types

namespace EntityType

theorem shapeOf_congr {names names' : List String} (h : ∀ n, n ∈ names ↔ n ∈ names')
    (name : String) : shapeOf names name = shapeOf names' name := by
  have hcontains : names.contains name = names'.contains name := by
    rw [Bool.eq_iff_iff, List.contains_iff_mem, List.contains_iff_mem]
    exact h name
  unfold shapeOf
  rw [hcontains]

/-- Actions in any order mention the same entity types. -/
theorem matched_appliedNames {actions actions' : List Action}
    (h : Matched Action.Reordered actions actions') :
    Matched Eq (appliedNames actions) (appliedNames actions') := by
  refine .of_nodup (nodup_appliedNames _) (nodup_appliedNames _) fun name => ?_
  rw [mem_appliedNames, mem_appliedNames]
  refine and_congr_left fun _ => ⟨?_, ?_⟩
  · rintro ⟨a, ha, r, hr, hname⟩
    obtain ⟨a', ha', haa'⟩ := h.exists_of_mem ha
    exact ⟨a', ha', r, haa'.resourceTypes ▸ hr, hname⟩
  · rintro ⟨a', ha', r, hr, hname⟩
    obtain ⟨a, ha, haa'⟩ := h.exists_of_mem_right ha'
    exact ⟨a, ha, r, haa'.resourceTypes ▸ hr, hname⟩

/-- Only the sets of names matter to the table of entity types, not their order. -/
theorem matched_table {names names' : List String} {actions actions' : List Action}
    (hnames : ∀ n, n ∈ names ↔ n ∈ names') (h : Matched Action.Reordered actions actions') :
    Matched (SameKey Eq) (table names actions) (table names' actions') := by
  have hseeded : seeded names = seeded names' := by
    unfold seeded
    rw [shapeOf_congr hnames]
  rw [table_eq, table_eq, hseeded]
  refine Matched.append (.of_forall₂ (List.forall₂_same.2 fun _ _ => .intro rfl)) ?_
  refine (matched_appliedNames h).map fun name name' hname => ?_
  rw [hname, shapeOf_congr hnames]
  exact .intro rfl

end EntityType

-- ==================================================== documents

namespace ApiDocument.Reordered

variable {doc doc' : ApiDocument}

/-- The same names, in another order. -/
theorem mem_schemaNames (h : doc.Reordered doc') (name : String) :
    name ∈ doc.schemas.map Prod.fst ↔ name ∈ doc'.schemas.map Prod.fst := by
  constructor
  · intro hname
    obtain ⟨s, hs, rfl⟩ := List.mem_map.1 hname
    obtain ⟨s', hs', hss'⟩ := h.schemas.exists_of_mem hs
    rw [hss'.fst_eq]
    exact List.mem_map_of_mem hs'
  · intro hname
    obtain ⟨s', hs', rfl⟩ := List.mem_map.1 hname
    obtain ⟨s, hs, hss'⟩ := h.schemas.exists_of_mem_right hs'
    rw [← hss'.fst_eq]
    exact List.mem_map_of_mem hs

end ApiDocument.Reordered

namespace CedarSchema

variable {doc doc' : ApiDocument}

/-- The paths of reordered documents have partners. -/
theorem alike_pathsOf (h : doc.Reordered doc') :
    Alike (fun paths paths' => doc.paths = some paths ∧
      Matched (SameKey Value.Reordered) paths paths') (pathsOf doc) (pathsOf doc') := by
  have hpaths := h.paths
  unfold pathsOf
  generalize doc.paths = paths? at hpaths ⊢
  generalize doc'.paths = paths'? at hpaths ⊢
  cases hpaths with
  | none => exact trivial
  | some hpaths => exact ⟨rfl, hpaths⟩

/-- So have the entries of their operations. -/
theorem alike_entries (hdoc : doc.WellFormed) (h : doc.Reordered doc') (basePath : String)
    {paths paths' : List (String × Value)} (hpaths : doc.paths = some paths)
    (hmatched : Matched (SameKey Value.Reordered) paths paths') :
    Alike (Matched (SameKey Action.Reordered))
      ((Operation.ofPaths paths).mapM (Operation.entry (converterFor doc) basePath))
      ((Operation.ofPaths paths').mapM (Operation.entry (converterFor doc') basePath)) := by
  have hagree := agree_converterFor h.mem_schemaNames
  refine Attempt.alike_mapM_matched (fun o o' ho => ?_)
    (Operation.matched_ofPaths (hdoc.paths paths hpaths).2 hmatched)
  rw [← o'.entry_congr hagree]
  exact Operation.alike_entry basePath ho.1 ho.2

/-- So have their common types. -/
theorem alike_schemas (hdoc : doc.WellFormed) (h : doc.Reordered doc') :
    Alike (Matched (SameKey CedarType.Reordered))
      ((converterFor doc).commonTypes (schemaMembers doc))
      ((converterFor doc').commonTypes (schemaMembers doc')) := by
  rw [← (agree_converterFor h.mem_schemaNames).commonTypes]
  refine Converter.alike_commonTypes (fun m hm => ?_) (h.schemas.map fun s s' hss' => ?_)
  · obtain ⟨s, hs, rfl⟩ := List.mem_map.1 hm
    exact hdoc.schemas.2 s hs
  · cases hss' with
    | intro hvw => exact .intro hvw

/-- Schemas made of entries of operations, and of common types, that agree in some order. -/
inductive MadeAlike (doc doc' : ApiDocument) : CedarSchema → CedarSchema → Prop
  | intro (name : String) {basePath : String} {paths : List (String × Value)}
      {entries entries' : List (Scalar × Action)} {types types' : Members CedarType}
      (paths_eq : doc.paths = some paths)
      (entries_eq : (Operation.ofPaths paths).mapM (Operation.entry (converterFor doc) basePath) =
        .ok entries)
      (actions : Matched (SameKey Action.Reordered) entries entries')
      (commonTypes : Matched (SameKey CedarType.Reordered) types types') :
      MadeAlike doc doc' (ofEntries doc name entries types) (ofEntries doc' name entries' types')

/-- Reordered documents both fail, or are built to schemas that are made alike. -/
theorem alike_build (hdoc : doc.WellFormed) (h : doc.Reordered doc') (namespaceName base : Value) :
    Alike (MadeAlike doc doc') (build doc namespaceName base).outcome
      (build doc' namespaceName base).outcome := by
  rw [outcome_build, outcome_build, ← h.servers]
  refine (alike_pathsOf h).bind fun paths paths' hpaths => ?_
  refine (Attempt.alike_refl (Namespace.ofValue namespaceName)).bind fun name name' hname => ?_
  refine (Attempt.alike_refl (BasePath.resolve doc.servers base)).bind fun path path' hpath => ?_
  subst hname hpath
  refine (alike_entries hdoc h path hpaths.1 hpaths.2).of_results.bind fun es es' hes => ?_
  refine (alike_schemas hdoc h).bind fun types types' htypes => ?_
  exact .intro name hpaths.1 hes.1 hes.2.2 htypes

-- ==================================================== names of operations

/-- The key that an operation is entered under, if its name is one. -/
def Operation.key? (o : Operation) : Option Scalar :=
  (Action.nameOf (.text o.verb) (.text o.path) o.body).key?

/-- The key of an operation is that of its entry. -/
theorem Operation.key?_of_entry {c : Converter} {basePath : String} {o : Operation}
    {e : Scalar × Action} (h : o.entry c basePath = .ok e) : o.key? = some e.1 := by
  unfold entry at h
  split at h
  · cases h
  · obtain ⟨a, ha, h⟩ := Attempt.bind_eq_ok.1 h
    have hname := (Action.ofOperation_eq_ok.1 ha).name
    unfold named at h
    split at h
    · next key hkey =>
      cases h
      rw [hname] at hkey
      exact hkey
    · cases h

/-- The keys of entries in order. -/
theorem keys_of_entries {c : Converter} {basePath : String} {os : List Operation}
    {entries : List (Scalar × Action)} (h : os.mapM (Operation.entry c basePath) = .ok entries) :
    entries.map Prod.fst = os.filterMap Operation.key? := by
  replace h := Attempt.mapM_eq_ok.1 h
  induction h with
  | nil => rfl
  | cons he _ ih => rw [List.map_cons, ih, List.filterMap_cons, Operation.key?_of_entry he]

/-- The names of the operations of a document that are keys are no two the same. -/
def NamesApart (doc : ApiDocument) : Prop :=
  Scalar.Apart ((Operation.ofPaths (doc.paths.getD [])).filterMap Operation.key?)

-- ==================================================== the same schema in another order

/-- Where all names are different, schemas made alike are the same but for order. -/
theorem MadeAlike.reordered {s s' : CedarSchema} (h : doc.Reordered doc')
    (hnames : NamesApart doc) (hs : MadeAlike doc doc' s s') : s.draft.Reordered s'.draft := by
  cases hs with
  | @intro name basePath paths entries entries' types types' hpaths hentries hactions htypes =>
      have hdistinct : Members.Distinct entries := by
        unfold NamesApart at hnames
        rw [hpaths, Option.getD_some, ← keys_of_entries hentries] at hnames
        exact Members.distinct_iff_apart.2 hnames
      have hdistinct' := Members.distinct_of_matched hactions hdistinct
      have htable := EntityType.matched_table h.mem_schemaNames
        (hactions.map (S := Action.Reordered) (f := Prod.snd) (g := Prod.snd) fun e e' hee' => by
          cases hee' with
          | intro ha => exact ha)
      unfold ofEntries
      rw [Members.ofEntries_eq_self hdistinct, Members.ofEntries_eq_self hdistinct']
      refine ⟨rfl, Value.reordered_object ?_, Value.reordered_map.2 ?_, Value.reordered_map.2 ?_,
        Value.reordered_map.2 ?_⟩
      · refine htable.map fun e e' hee' => hee'.map fun t t' ht => ?_
        rw [ht]
        exact .refl _
      · exact hactions.map fun e e' hee' => hee'.map fun a a' ha => ha.definition
      · exact htypes.map fun t t' htt' => htt'.map fun _ _ ht => ht
      · refine hactions.map fun e e' hee' => hee'.map fun a a' ha => ?_
        rw [ha.annotations]
        exact .refl _

/-- The order in which a document has its paths, the members of its path items, its
component schemas and the members of any other mapping within is no matter of the schema.
Both are built or neither is, whatever the names of the operations are; and where these are
different keys, the two schemas are the same but for the order of members. -/
theorem reordered_build (hdoc : doc.WellFormed) (h : doc.Reordered doc')
    (namespaceName base : Value) :
    ((∃ s, (build doc namespaceName base).outcome = .ok s) ↔
      ∃ s', (build doc' namespaceName base).outcome = .ok s') ∧
    (NamesApart doc → ∀ s s', (build doc namespaceName base).outcome = .ok s →
      (build doc' namespaceName base).outcome = .ok s' → s.draft.Reordered s'.draft) := by
  have halike := alike_build hdoc h namespaceName base
  refine ⟨halike.exists_iff, fun hnames s s' hs hs' => ?_⟩
  exact (halike.of_ok hs hs').reordered h hnames

/-- Two operations on one path. -/
def noteMethods : List (String × Value) :=
  [("get", .object [("operationId", .text "listNotes")]),
   ("post", .object [("operationId", .text "addNote")])]

/-- Two properties of one schema. -/
def noteProperties : List (String × Value) :=
  [("title", .object [("type", .text "string")]), ("done", .object [("type", .text "boolean")])]

/-- An API of notes and tags, whose mappings are in a given order at all levels. -/
def arrangedApi (order : List (String × Value) → List (String × Value)) : ApiDocument where
  paths := some (order
    [("/notes", .object (order noteMethods)),
     ("/tags", .object [("get", .object [("summary", .text "List")])])])
  servers := []
  schemas := order
    [("Note", .object [("type", .text "object"), ("properties", .object (order noteProperties))]),
     ("Tag", .object [("type", .text "string")])]

theorem wellFormed_arrangedApi : (arrangedApi id).WellFormed := by
  have htext (name s : String) : (Value.object [(name, .text s)]).Keyed :=
    Problem.keyedNames_iff.1 ⟨by simp, by simpa using .scalar _⟩
  have hmethods : (Value.object noteMethods).Keyed :=
    Problem.keyedNames_iff.1 ⟨by decide, by simp [noteMethods, htext]⟩
  have hproperties : (Value.object noteProperties).Keyed :=
    Problem.keyedNames_iff.1 ⟨by decide, by simp [noteProperties, htext]⟩
  have htags : (Value.object [("get", .object [("summary", .text "List")])]).Keyed :=
    Problem.keyedNames_iff.1 ⟨by decide, by simp [htext]⟩
  have hnote : (Value.object
      [("type", .text "object"), ("properties", .object noteProperties)]).Keyed := by
    refine Problem.keyedNames_iff.1 ⟨by decide, List.forall_mem_cons.2 ⟨.scalar _, ?_⟩⟩
    exact List.forall_mem_singleton.2 hproperties
  refine ⟨fun paths hpaths => ?_, by decide, ?_⟩
  · cases hpaths
    exact ⟨by decide, List.forall_mem_cons.2 ⟨hmethods, List.forall_mem_singleton.2 htags⟩⟩
  · exact List.forall_mem_cons.2 ⟨hnote, List.forall_mem_singleton.2 (htext _ _)⟩

theorem reordered_arrangedApi : (arrangedApi id).Reordered (arrangedApi List.reverse) := by
  have hmethods : (Value.object noteMethods).Reordered (.object noteMethods.reverse) :=
    .of_perm ((List.reverse_perm noteMethods).symm.map _)
  have hproperties : (Value.object noteProperties).Reordered (.object noteProperties.reverse) :=
    .of_perm ((List.reverse_perm noteProperties).symm.map _)
  have hnote : (Value.object
      [("type", .text "object"), ("properties", .object noteProperties)]).Reordered
        (.object [("type", .text "object"), ("properties", .object noteProperties.reverse)]) :=
    Value.reordered_fields (.cons (.intro (.refl _)) (.cons (.intro hproperties) .nil))
  refine ⟨.some ⟨_, .cons (.intro hmethods) (.cons (.intro (.refl _)) .nil), ?_⟩, rfl,
    ⟨_, .cons (.intro hnote) (.cons (.intro (.refl _)) .nil), ?_⟩⟩
  · exact (List.reverse_perm _).symm
  · exact (List.reverse_perm _).symm

/-- In reverse at all levels, the API has the same schema but for order. -/
theorem reordered_build_arrangedApi : ∃ s s',
    (build (arrangedApi id) (.text "NS") .null).outcome = .ok s ∧
    (build (arrangedApi List.reverse) (.text "NS") .null).outcome = .ok s' ∧
    s.draft.Reordered s'.draft := by
  obtain ⟨hiff, hsame⟩ :=
    reordered_build wellFormed_arrangedApi reordered_arrangedApi (.text "NS") .null
  obtain ⟨s, hs⟩ := Attempt.exists_eq_ok
    (by decide +kernel : (build (arrangedApi id) (.text "NS") .null).outcome.isOk = true)
  obtain ⟨s', hs'⟩ := hiff.1 ⟨s, hs⟩
  exact ⟨s, s', hs, hs', hsame (by unfold NamesApart Scalar.Apart; decide +kernel) s s' hs hs'⟩

end CedarSchema

end ApiAuthz
