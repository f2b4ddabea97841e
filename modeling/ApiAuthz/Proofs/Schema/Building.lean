/-
What a built schema is made of. A document has operations, each with its path,
path item and verb, in the order in which they are mapped; `OfOperation` says
what the action of one is made of, and `BuiltFrom` what the schema of a document
is made of: its actions are those of the operations, put into a table one after
the other, and its common types those of the component schemas.

A build succeeds exactly if there is such a schema (`build_eq_ok`), and then the
actions stand beside the operations in order (`forall₂_yielded`). What is proved
of schemas starts from these two and does not look into `build`.

# Bottom up

  * `ofOperation_eq_ok`: an operation with all its parts makes an action, field by
    field.
  * `mappedVerbs`: the verbs of a path item that have an operation which is not
    empty, in the order in which they are taken. `forall₂_ofPathItem` puts the
    actions beside them.
  * `Operation.ofPaths`: the operations of all paths, and `yielded` their actions.
  * `preconditions_eq_ok`, `assemble_eq_ok`: what comes before the mapping and what
    comes behind it.

Mapping makes progress item by item and may stop on the way, with what was done
until then (`Progress`). Here it is a whole: a path item that does not stop has
done everything (`stop_mappedActions`, `done_mappedActions`). What becomes of work
that stops is told in `Proofs/Schema/Composition`.
-/
import ApiAuthz.CedarSchema
import ApiAuthz.Proofs.Attempt
import ApiAuthz.Proofs.Members

namespace ApiAuthz

-- ==================================================== one operation

namespace Action

variable {c : Converter} {verb path operation base pathParameters : Value} {a : Action}

/-- What the action of an operation is made of. -/
structure OfOperation (c : Converter) (verb path operation base pathParameters : Value)
    (a : Action) : Prop where
  isMap : operation.isMap = true
  name : a.name = nameOf verb path operation
  verb : a.verb = verb
  context : ∃ inherited own, Context.listed pathParameters = .ok inherited ∧
    Context.listed (operation.field "parameters") = .ok own ∧
    Context.ofParameters c (inherited ++ own) = .ok a.context
  resourceTypes : resourceTypesOf operation a.name = .ok a.resourceTypes
  pathTemplate : UrlPath.joinValues base path = .ok a.pathTemplate

/-- What an action is made of, part by part. -/
theorem ofOperation_eq_ok :
    ofOperation c verb path operation base pathParameters = .ok a ↔
      OfOperation c verb path operation base pathParameters a := by
  unfold ofOperation
  cases hmap : operation.isMap with
  | false =>
      constructor
      · intro h
        cases h
      · intro h
        exact absurd h.isMap (by simp [hmap])
  | true =>
      constructor
      · intro h
        obtain ⟨inherited, hi, h⟩ := Attempt.bind_eq_ok.1 h
        obtain ⟨own, ho, h⟩ := Attempt.bind_eq_ok.1 h
        obtain ⟨context, hc, h⟩ := Attempt.bind_eq_ok.1 h
        obtain ⟨resourceTypes, hr, h⟩ := Attempt.bind_eq_ok.1 h
        obtain ⟨pathTemplate, hp, h⟩ := Attempt.bind_eq_ok.1 h
        obtain rfl := Attempt.pure_eq_ok.1 h
        exact ⟨hmap, rfl, rfl, ⟨inherited, own, hi, ho, hc⟩, hr, hp⟩
      · rintro ⟨-, hn, hv, ⟨inherited, own, hi, ho, hc⟩, hr, hp⟩
        refine Attempt.bind_eq_ok.2 ⟨inherited, hi, Attempt.bind_eq_ok.2 ⟨own, ho, ?_⟩⟩
        refine Attempt.bind_eq_ok.2 ⟨a.context, hc, ?_⟩
        refine Attempt.bind_eq_ok.2 ⟨a.resourceTypes, hn ▸ hr, ?_⟩
        refine Attempt.bind_eq_ok.2 ⟨a.pathTemplate, hp, ?_⟩
        rw [Attempt.pure_eq_ok, ← hn, ← hv]

/-- The verbs of a path item with an operation that is not empty, in the order
in which they are mapped. -/
def mappedVerbs (item : Value) : List String :=
  match item.members? with
  | some ms => (verbsOf ms).filter fun verb => (item.field verb).truthy
  | none => []

/-- The verbs of a path item: those among its keys, or all if it is marked. -/
theorem mem_verbsOf {item : Members Value} {verb : String} :
    verb ∈ verbsOf item ↔ verb ∈ verbs ∧
      (Members.contains (.text anyMethodKey) item = true ∨ .text verb ∈ Members.keys item) := by
  unfold verbsOf
  split
  · next hany => simp [hany]
  · next hany =>
    rw [List.mem_filterMap]
    constructor
    · rintro ⟨k, hk, hverb⟩
      split at hverb
      · split at hverb
        · next s hs =>
          cases hverb
          exact ⟨List.contains_iff_mem.1 hs, Or.inr hk⟩
        · cases hverb
      · cases hverb
    · rintro ⟨hverb, hkey | hkey⟩
      · exact absurd hkey hany
      · refine ⟨_, hkey, ?_⟩
        simp only
        rw [if_pos (List.contains_iff_mem.2 hverb)]

/-- An operation that is not empty stands under a key. -/
theorem mem_keys_of_truthy_field {item : Value} {ms : Members Value} {name : String}
    (hm : item.members? = some ms) (h : (item.field name).truthy = true) :
    .text name ∈ Members.keys ms := by
  unfold Value.field Value.field? at h
  rw [hm, Option.bind_some] at h
  cases hf : Members.find? (.text name) ms with
  | none =>
      rw [hf] at h
      cases h
  | some v =>
      obtain ⟨m, hfound, -⟩ := Option.map_eq_some_iff.1 hf
      have hkey := List.find?_some hfound
      rw [← Scalar.eq_text_of_same hkey]
      exact List.mem_map_of_mem (List.mem_of_find?_eq_some hfound)

/-- The verbs mapped are the five with an operation that is not empty. -/
theorem mem_mappedVerbs {item : Value} {verb : String} :
    verb ∈ mappedVerbs item ↔ verb ∈ verbs ∧ (item.field verb).truthy = true := by
  unfold mappedVerbs
  cases hm : item.members? with
  | none =>
      have hfield : item.field verb = .null := by
        unfold Value.field Value.field?
        rw [hm]
        rfl
      simp [hfield, Value.truthy]
  | some ms =>
      rw [List.mem_filter, mem_verbsOf]
      constructor
      · rintro ⟨⟨hverb, -⟩, htruthy⟩
        exact ⟨hverb, htruthy⟩
      · rintro ⟨hverb, htruthy⟩
        exact ⟨⟨hverb, Or.inr (mem_keys_of_truthy_field hm htruthy)⟩, htruthy⟩

/-- A verb that does not stop its path item has no operation, or an action. -/
theorem done_ofVerb {item : Value} {verb : String}
    (h : (ofVerb c path base item verb).stop = none) :
    ((item.field verb).truthy = false ∧ (ofVerb c path base item verb).done = []) ∨
      (item.field verb).truthy = true ∧ ∃ a, (ofVerb c path base item verb).done = [a] ∧
        OfOperation c (.text verb) path (item.field verb) base (item.field "parameters") a := by
  unfold ofVerb at h ⊢
  cases htruthy : (item.field verb).truthy with
  | false =>
      refine Or.inl ⟨rfl, ?_⟩
      simp only [htruthy, Bool.not_false, if_true]
      rfl
  | true =>
      refine Or.inr ⟨rfl, ?_⟩
      cases hmap : (item.field verb).isMap with
      | false => simp [htruthy, hmap, Fault.report, Progress.ofAttempt] at h
      | true =>
          simp only [htruthy, hmap, Bool.not_true, Bool.false_eq_true, if_false] at h ⊢
          cases ha : ofOperation c (.text verb) path (item.field verb) base
              (item.field "parameters") with
          | error f => simp [ha, Progress.ofAttempt] at h
          | ok a => exact ⟨a, rfl, ofOperation_eq_ok.1 ha⟩

/-- The actions of a path item stand beside its verbs. -/
theorem forall₂_ofPathItem {item : Value} (h : (ofPathItem c path base item).stop = none) :
    List.Forall₂ (fun verb a =>
        OfOperation c (.text verb) path (item.field verb) base (item.field "parameters") a)
      (mappedVerbs item) (ofPathItem c path base item).done := by
  unfold ofPathItem mappedVerbs at *
  cases hm : item.members? with
  | none => exact List.Forall₂.nil
  | some ms =>
      rw [hm] at h
      simp only at h ⊢
      rw [Progress.done_through h]
      replace h := Progress.stop_through.1 h
      revert h
      induction verbsOf ms with
      | nil => exact fun _ => List.Forall₂.nil
      | cons verb rest ih =>
          intro hstop
          have hrest := ih fun v hv => hstop v (List.mem_cons_of_mem _ hv)
          rw [List.filter_cons, List.flatMap_cons]
          rcases done_ofVerb (hstop verb (List.mem_cons_self ..)) with
            ⟨htruthy, hdone⟩ | ⟨htruthy, a, hdone, ha⟩
          · rw [htruthy, hdone]
            exact hrest
          · rw [htruthy, hdone]
            exact List.Forall₂.cons ha hrest

end Action

-- ==================================================== whole documents

namespace CedarSchema

/-- An operation of a document: a verb of a path item at a path. -/
structure Operation where
  path : String
  item : Value
  verb : String

namespace Operation

/-- What the path item holds under the verb. -/
def body (o : Operation) : Value := o.item.field o.verb

/-- The operations of paths, in the order in which they are mapped. -/
def ofPaths (paths : List (String × Value)) : List Operation :=
  paths.flatMap fun p => (Action.mappedVerbs p.2).map fun verb => ⟨p.1, p.2, verb⟩

/-- What the action of an operation of a document is made of. -/
def Yields (doc : ApiDocument) (base : String) (o : Operation) (a : Action) : Prop :=
  Action.OfOperation (converterFor doc) (.text o.verb) (.text o.path) o.body (.text base)
    (o.item.field "parameters") a

end Operation

/-- The actions that the paths of a document yield, in order. -/
def yielded (doc : ApiDocument) (base : String) (paths : List (String × Value)) : List Action :=
  paths.flatMap fun p =>
    (Action.ofPathItem (converterFor doc) (.text p.1) (.text base) p.2).done

/-- What a schema of a document is made of. -/
structure BuiltFrom (doc : ApiDocument) (namespaceName base : Value)
    (paths : List (String × Value)) (basePath : String) (s : CedarSchema) : Prop where
  paths_eq : doc.paths = some paths
  namespace_eq : Namespace.ofValue namespaceName = .ok s.namespaceName
  base_eq : BasePath.resolve doc.servers base = .ok basePath
  complete : ∀ p ∈ paths,
    (Action.ofPathItem (converterFor doc) (.text p.1) (.text basePath) p.2).stop = none
  actions_eq : tableOf (yielded doc basePath paths) = .ok s.actions
  commonTypes_eq : (converterFor doc).commonTypes (schemaMembers doc) = .ok s.commonTypes
  entityTypes_eq : s.entityTypes =
    EntityType.table (doc.schemas.map Prod.fst) (yielded doc basePath paths)

variable {doc : ApiDocument} {namespaceName base : Value} {s : CedarSchema}

/-- What has to hold before anything is mapped. -/
theorem preconditions_eq_ok {paths : List (String × Value)} {name basePath : String} :
    preconditions doc namespaceName base = .ok (paths, name, basePath) ↔
      doc.paths = some paths ∧ Namespace.ofValue namespaceName = .ok name ∧
        BasePath.resolve doc.servers base = .ok basePath := by
  unfold preconditions
  cases doc.paths with
  | none => simp [Fault.report]
  | some ps =>
      constructor
      · intro h
        obtain ⟨n, hn, h⟩ := Attempt.bind_eq_ok.1 h
        obtain ⟨b, hb, h⟩ := Attempt.bind_eq_ok.1 h
        cases Attempt.pure_eq_ok.1 h
        exact ⟨rfl, hn, hb⟩
      · rintro ⟨h, hn, hb⟩
        cases h
        exact Attempt.bind_eq_ok.2 ⟨name, hn, Attempt.bind_eq_ok.2 ⟨basePath, hb, rfl⟩⟩

/-- All actions are mapped where every path item is. -/
theorem stop_mappedActions {c : Converter} {b : String} {paths : List (String × Value)} :
    (mappedActions c b paths).stop = none ↔
      ∀ p ∈ paths, (Action.ofPathItem c (.text p.1) (.text b) p.2).stop = none :=
  Progress.stop_through

/-- Then the mapped actions are what the path items yield. -/
theorem done_mappedActions {b : String} {paths : List (String × Value)}
    (h : (mappedActions (converterFor doc) b paths).stop = none) :
    (mappedActions (converterFor doc) b paths).done.map Prod.snd = yielded doc b paths := by
  unfold mappedActions at h ⊢
  rw [Progress.done_through h, List.map_flatMap]
  unfold yielded
  congr 1
  funext p
  exact (List.map_map ..).trans (List.map_id _)

/-- What a schema is put together from. -/
theorem assemble_eq_ok {name : String} {mapped : Progress Action} :
    assemble doc name mapped = .ok s ↔
      mapped.stop = none ∧ s.namespaceName = name ∧ tableOf mapped.done = .ok s.actions ∧
        (converterFor doc).commonTypes (schemaMembers doc) = .ok s.commonTypes ∧
        s.entityTypes = EntityType.table (doc.schemas.map Prod.fst) mapped.done := by
  unfold assemble
  constructor
  · intro h
    obtain ⟨actions, ha, h⟩ := Attempt.bind_eq_ok.1 h
    obtain ⟨all, hall, h⟩ := Attempt.bind_eq_ok.1 h
    obtain ⟨commonTypes, hc, h⟩ := Attempt.bind_eq_ok.1 h
    obtain ⟨hstop, rfl⟩ := Progress.all_eq_ok.1 hall
    obtain rfl := Attempt.pure_eq_ok.1 h
    exact ⟨hstop, rfl, ha, hc, rfl⟩
  · rintro ⟨hstop, rfl, ha, hc, he⟩
    refine Attempt.bind_eq_ok.2 ⟨s.actions, ha, ?_⟩
    refine Attempt.bind_eq_ok.2 ⟨mapped.done, Progress.all_eq_ok.2 ⟨hstop, rfl⟩, ?_⟩
    refine Attempt.bind_eq_ok.2 ⟨s.commonTypes, hc, ?_⟩
    rw [Attempt.pure_eq_ok, ← he]

/-- A fault in the preconditions is the outcome. -/
theorem outcome_build_of_error {f : Fault} (h : preconditions doc namespaceName base = .error f) :
    (build doc namespaceName base).outcome = .error f := by
  unfold build
  rw [h]

/-- Otherwise the outcome is what is put together from the mapped actions. -/
theorem outcome_build_of_ok {paths : List (String × Value)} {name b : String}
    (h : preconditions doc namespaceName base = .ok (paths, name, b)) :
    (build doc namespaceName base).outcome =
      assemble doc name ((mappedActions (converterFor doc) b paths).map Prod.snd) := by
  unfold build
  rw [h]
  dsimp only
  cases assemble doc name ((mappedActions (converterFor doc) b paths).map Prod.snd) with
  | error f => rfl
  | ok schema => rfl

/-- A build succeeds with a schema exactly if the schema is made of the
document's parts. -/
theorem build_eq_ok :
    (build doc namespaceName base).outcome = .ok s ↔
      ∃ paths basePath, BuiltFrom doc namespaceName base paths basePath s := by
  constructor
  · intro h
    cases hpre : preconditions doc namespaceName base with
    | error f =>
        rw [outcome_build_of_error hpre] at h
        cases h
    | ok pre =>
        obtain ⟨paths, name, b⟩ := pre
        rw [outcome_build_of_ok hpre, assemble_eq_ok] at h
        obtain ⟨hpaths, hname, hbase⟩ := preconditions_eq_ok.1 hpre
        obtain ⟨hstop, rfl, ha, hc, he⟩ := h
        have hdone := done_mappedActions hstop
        refine ⟨paths, b, hpaths, hname, hbase, stop_mappedActions.1 hstop, ?_, hc, ?_⟩
        · rw [← hdone]
          exact ha
        · rw [← hdone]
          exact he
  · rintro ⟨paths, b, hb⟩
    have hpre := preconditions_eq_ok.2 ⟨hb.paths_eq, hb.namespace_eq, hb.base_eq⟩
    have hstop := stop_mappedActions.2 hb.complete
    have hdone := done_mappedActions hstop
    have ha := hb.actions_eq
    have he := hb.entityTypes_eq
    rw [← hdone] at ha he
    rw [outcome_build_of_ok hpre, assemble_eq_ok]
    exact ⟨hstop, rfl, ha, hb.commonTypes_eq, he⟩

/-- The actions of a document stand beside its operations. -/
theorem forall₂_yielded {b : String} {paths : List (String × Value)}
    (h : ∀ p ∈ paths,
      (Action.ofPathItem (converterFor doc) (.text p.1) (.text b) p.2).stop = none) :
    List.Forall₂ (Operation.Yields doc b) (Operation.ofPaths paths) (yielded doc b paths) := by
  unfold Operation.ofPaths yielded
  induction paths with
  | nil => exact List.Forall₂.nil
  | cons p paths ih =>
      rw [List.flatMap_cons, List.flatMap_cons]
      refine List.rel_append ?_ (ih fun q hq => h q (List.mem_cons_of_mem _ hq))
      rw [List.forall₂_map_left_iff]
      exact Action.forall₂_ofPathItem (h p (List.mem_cons_self ..))

/-- Every action that is yielded has an operation it comes from. -/
theorem yields_of_mem_yielded {b : String} {paths : List (String × Value)} {a : Action}
    (h : ∀ p ∈ paths, (Action.ofPathItem (converterFor doc) (.text p.1) (.text b) p.2).stop = none)
    (ha : a ∈ yielded doc b paths) :
    ∃ o ∈ Operation.ofPaths paths, Operation.Yields doc b o a :=
  Attempt.exists_of_mem_right (forall₂_yielded h) ha

end CedarSchema

end ApiAuthz
