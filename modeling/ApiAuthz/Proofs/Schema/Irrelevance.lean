/-
What is irrelevant in an API description never influences its schema. At every stage
the whole and its relevant part have the same results; their faults may differ, for
reports show keys that are left out. So nodes convert alike (`toOption_convertAt`),
parameters make the same context (`toOption_addParameter`), and operations the same
action (`toOption_ofOperation`).

Path items are compared with each other, for an operation of which everything is left
out is empty and so not mapped, while the whole may be: two items with one relevant part
have the same actions if no operation is empty in one of them alone
(`toOption_ofPathItem`). From this one document can be put in the place of another
(`BuiltFrom.of_relevant`).

# Results and not faults

Results are compared as options: `x.toOption = y.toOption` says that both fail, or that both
have the same result. It goes through steps that are done one behind the other and through walks
over lists, so each stage is proved from the one below. The relevant part of a node is a
recursion on the node, and looking at it gives the relevant part of what is below
(`toOption_view`); the induction for `toOption_convertAt` is the one along conversion.

# Two documents, not one and its part

The statement for documents is symmetric in the two (`ofDocument_congr_relevant`): they have the
same relevant part, and the same operations are filled. It cannot be stated of a document and
its relevant part, because there an operation that holds nothing but notes has become empty. So
from the path items on, everything is about two that are alike (`AlikeItems`).
-/
import ApiAuthz.Proofs.Schema.NodeView
import ApiAuthz.Proofs.Schema.Relevant
import ApiAuthz.Proofs.Schema.Variants

namespace ApiAuthz

-- ==================================================== nodes

/-- The relevant part of what stands below a node. -/
def Shape.relevant : Shape → Shape
  | .leaf type => .leaf type
  | .record depth properties => .record depth (Relevant.eachNode properties)
  | .set depth element => .set depth (Relevant.node element)

namespace Converter

variable {c : Converter} {depth name : Value}

/-- A node without a type has no result, whatever keys are reported. -/
theorem toOption_untyped (name : Value) (keys : List Scalar) :
    ((untyped name keys).map Shape.leaf).toOption = none := by
  unfold untyped
  split
  · rfl
  · split
    · rfl
    · rfl

/-- What is irrelevant in properties is not seen. -/
theorem toOption_viewObject (properties : Value) :
    (viewObject depth (Relevant.properties properties)).toOption =
      (viewObject depth properties).toOption.map Shape.relevant := by
  unfold viewObject
  rw [Relevant.truthy_properties, Relevant.properties_eq, Value.members?_onMembers]
  split
  · rfl
  · cases properties.members? with
    | none => rfl
    | some ps => cases depth.successor? <;> rfl

/-- Nor in items. -/
theorem toOption_viewArray (items : Value) :
    (viewArray depth name (Relevant.node items)).toOption =
      (viewArray depth name items).toOption.map Shape.relevant := by
  unfold viewArray
  rw [Relevant.isNull_node]
  split
  · rfl
  · cases depth.successor? <;> rfl

theorem toOption_map_leaf (x : Attempt CedarType) :
    (x.map Shape.leaf).toOption = (x.map Shape.leaf).toOption.map Shape.relevant := by
  cases x <;> rfl

/-- Nor in a node with a type. -/
theorem toOption_viewTyped (ms : Members Value) :
    (viewTyped depth name (Members.restrict Relevant.keptOfNode ms)).toOption =
      (viewTyped depth name ms).toOption.map Shape.relevant := by
  have htype := Members.getD_find?_restrict (rfl : Relevant.keptOfNode "type" = some id) rfl ms
  have hproperties := Members.getD_find?_restrict
    (rfl : Relevant.keptOfNode "properties" = some Relevant.properties) rfl ms
  have hitems := Members.getD_find?_restrict
    (rfl : Relevant.keptOfNode "items" = some Relevant.node) rfl ms
  unfold viewTyped
  rw [htype, hproperties, hitems]
  dsimp only [id]
  generalize (Members.find? (.text "type") ms).getD .null = type
  split
  · rw [toOption_untyped, toOption_untyped]
    rfl
  · exact toOption_viewObject _
  · exact toOption_viewArray _
  · exact toOption_map_leaf _

/-- What is asked of a node is asked of its relevant part. -/
theorem toOption_view (node : Value) :
    (c.view depth name (Relevant.node node)).toOption =
      (c.view depth name node).toOption.map Shape.relevant := by
  unfold view
  rw [Relevant.node_eq, Value.members?_onMembers]
  split
  · rfl
  · rfl
  · cases node.members? with
    | none => rfl
    | some ms =>
        dsimp only [Option.map_some]
        rw [Members.find?_restrict_of_kept (rfl : Relevant.keptOfNode "$ref" = some id),
          Option.map_id]
        dsimp only [id]
        cases Members.find? (.text "$ref") ms with
        | none => exact toOption_viewTyped ms
        | some ref =>
            dsimp only
            cases c.target name ref <;> rfl

/-- A node converts to what its relevant part converts to. -/
theorem toOption_convertAt (node : Value) :
    (c.convertAt depth name (Relevant.node node)).toOption =
      (c.convertAt depth name node).toOption := by
  induction depth, name, node using view_induction c with
  | step depth name node properties items =>
      have hview : (c.view depth name (Relevant.node node)).toOption = _ := toOption_view node
      rw [convertAt_eq, convertAt_eq]
      cases hshape : c.view depth name node with
      | error f =>
          rw [hshape] at hview
          obtain ⟨f', hfault⟩ := Attempt.toOption_eq_none.1 hview
          rw [hfault]
          rfl
      | ok shape =>
          rw [hshape] at hview
          rw [Attempt.toOption_eq_some.1 hview]
          show (c.convertShape name shape.relevant).toOption = (c.convertShape name shape).toOption
          cases shape with
          | leaf type => rfl
          | record below ps =>
              refine Attempt.toOption_bind_congr ?_ fun _ => rfl
              rw [Relevant.eachNode_eq, List.mapM_map]
              refine Attempt.toOption_mapM_congr fun m hm => ?_
              exact Attempt.toOption_bind_congr (properties hshape m hm)
                fun _ => rfl
          | set below element =>
              exact Attempt.toOption_bind_congr (items hshape)
                fun _ => rfl

/-- So a node is converted alike without it. -/
theorem toOption_convertTop (node : Value) :
    (c.convertTop name (Relevant.node node)).toOption = (c.convertTop name node).toOption :=
  toOption_convertAt node

end Converter

-- ==================================================== parameters

namespace Context

variable {c : Converter}

/-- A parameter is entered alike. -/
theorem toOption_addParameter (context : Context) (parameter : Value) :
    (addParameter c context (Relevant.parameter parameter)).toOption =
      (addParameter c context parameter).toOption := by
  have hfields : ∀ name, Relevant.keptOfParameter name = some id →
      (Relevant.parameter parameter).field name = parameter.field name :=
    fun name h => Value.field_onMembers h rfl parameter
  have href : (Relevant.parameter parameter).field? "$ref" = parameter.field? "$ref" := by
    unfold Relevant.parameter
    rw [Value.field?_onMembers (rfl : Relevant.keptOfParameter "$ref" = some id), Option.map_id]
    rfl
  have hschema : (Relevant.parameter parameter).field "schema" =
      Relevant.node (parameter.field "schema") :=
    Value.field_onMembers (rfl : Relevant.keptOfParameter "schema" = some Relevant.node) rfl _
  have hmissing : (requiredFields.filter fun f =>
      ((Relevant.parameter parameter).field f).isBlank) =
        requiredFields.filter fun f => (parameter.field f).isBlank := by
    refine List.filter_congr fun name hname => ?_
    simp only [requiredFields, List.mem_cons, List.not_mem_nil, or_false] at hname
    rcases hname with rfl | rfl | rfl
    · rw [hfields _ rfl]
    · rw [hfields _ rfl]
    · rw [hschema, Relevant.isBlank_node]
  have hmap : (Relevant.parameter parameter).isMap = parameter.isMap :=
    Value.isMap_onMembers parameter
  unfold addParameter
  rw [hmap, href, hmissing, hfields "in" rfl, hfields "name" rfl, hfields "required" rfl, hschema]
  split
  · rfl
  · split
    · rfl
    · dsimp only
      split
      · rfl
      · split
        · rfl
        · split
          · rfl
          · exact Attempt.toOption_bind_congr (Converter.toOption_convertTop _) fun _ => rfl

theorem toOption_ofParameters (parameters : List Value) :
    (ofParameters c (parameters.map Relevant.parameter)).toOption =
      (ofParameters c parameters).toOption := by
  unfold ofParameters
  rw [List.foldlM_map]
  exact Attempt.toOption_foldlM_congr toOption_addParameter parameters empty

/-- Parameters are listed alike. -/
theorem listed_parameters (v : Value) :
    listed (Relevant.parameters v) = (listed v).map (List.map Relevant.parameter) := by
  unfold listed
  rw [Relevant.truthy_parameters, Relevant.elements?_parameters]
  split
  · rfl
  · cases v.elements? <;> rfl

end Context

-- ==================================================== operations

namespace Action

variable {c : Converter} {verb path base : Value}

theorem isMap_operation (operation : Value) :
    (Relevant.operation operation).isMap = operation.isMap :=
  Value.isMap_onMembers operation

/-- An operation is named alike. -/
theorem nameOf_operation (operation : Value) :
    nameOf verb path (Relevant.operation operation) = nameOf verb path operation := by
  have hid : (Relevant.operation operation).field "operationId" = operation.field "operationId" :=
    Value.field_onMembers (rfl : Relevant.keptOfOperation "operationId" = some id) rfl operation
  unfold nameOf
  rw [hid]

/-- It applies to the same types. -/
theorem resourceTypesOf_operation (operation name : Value) :
    resourceTypesOf (Relevant.operation operation) name = resourceTypesOf operation name := by
  have hextension : (Relevant.operation operation).field "x-cedar" =
      Relevant.extension (operation.field "x-cedar") :=
    Value.field_onMembers (rfl : Relevant.keptOfOperation "x-cedar" = some Relevant.extension)
      rfl operation
  have htypes (v : Value) : (Relevant.extension v).field? "appliesToResourceTypes" =
      v.field? "appliesToResourceTypes" := by
    unfold Relevant.extension
    rw [Value.field?_onMembers
      (rfl : Relevant.keptOfExtension "appliesToResourceTypes" = some id), Option.map_id]
    rfl
  unfold resourceTypesOf
  rw [isMap_operation, hextension]
  dsimp only
  rw [htypes]
  generalize operation.field "x-cedar" = v
  rcases v.onMembers_cases (Members.restrict Relevant.keptOfExtension) with
    ⟨ms, hms, -⟩ | ⟨-, heq⟩
  · have hisMap : v.isMap = true := by
      unfold Value.isMap
      rw [hms]
      rfl
    have hisMap' : (Relevant.extension v).isMap = true :=
      (Value.isMap_onMembers v).trans hisMap
    have hisNull : (Relevant.extension v).isNull = v.isNull := Value.isNull_onMembers v
    rw [hisNull, hisMap, hisMap']
    rfl
  · have hsame : Relevant.extension v = v := heq
    rw [hsame]

/-- So it is mapped to the same action. -/
theorem toOption_ofOperation (operation pathParameters : Value) :
    (ofOperation c verb path (Relevant.operation operation) base
        (Relevant.parameters pathParameters)).toOption =
      (ofOperation c verb path operation base pathParameters).toOption := by
  have hown : (Relevant.operation operation).field "parameters" =
      Relevant.parameters (operation.field "parameters") :=
    Value.field_onMembers (rfl : Relevant.keptOfOperation "parameters" = some Relevant.parameters)
      rfl operation
  unfold ofOperation
  rw [isMap_operation, nameOf_operation, hown, Context.listed_parameters,
    Context.listed_parameters]
  split
  · rfl
  · cases Context.listed pathParameters with
    | error f => rfl
    | ok inherited =>
        cases Context.listed (operation.field "parameters") with
        | error f => rfl
        | ok own =>
            show (Context.ofParameters c (inherited.map Relevant.parameter ++
                own.map Relevant.parameter) >>= _).toOption =
              (Context.ofParameters c (inherited ++ own) >>= _).toOption
            rw [← List.map_append]
            refine Attempt.toOption_bind_congr (Context.toOption_ofParameters _) fun context => ?_
            rw [resourceTypesOf_operation]

-- ==================================================== path items

variable {item item' : Value}

/-- Operations with one relevant part have one action, if both count for something. -/
theorem toOption_ofVerb (hitem : Relevant.item item = Relevant.item item') {verb : String}
    (hverb : verb ∈ verbs) (htruthy : (item.field verb).truthy = (item'.field verb).truthy) :
    (ofVerb c path base item verb).all.toOption = (ofVerb c path base item' verb).all.toOption := by
  have hoperation : Relevant.operation (item.field verb) =
      Relevant.operation (item'.field verb) := by
    rw [← Relevant.field_item_verb hverb, hitem, Relevant.field_item_verb hverb]
  have hparameters : Relevant.parameters (item.field "parameters") =
      Relevant.parameters (item'.field "parameters") := by
    rw [← Relevant.field_item_parameters, hitem, Relevant.field_item_parameters]
  have hisMap : (item.field verb).isMap = (item'.field verb).isMap := by
    rw [← isMap_operation, hoperation, isMap_operation]
  unfold ofVerb
  dsimp only
  rw [htruthy, hisMap]
  split
  · rfl
  · split
    · rfl
    · rw [Progress.toOption_all_ofAttempt, Progress.toOption_all_ofAttempt,
        ← toOption_ofOperation (item.field verb), hoperation, hparameters, toOption_ofOperation]

/-- Path items with one relevant part have the same actions, if under every verb the
operations of both count for something or neither does. -/
theorem toOption_ofPathItem (hitem : Relevant.item item = Relevant.item item')
    (htruthy : ∀ verb ∈ verbs, (item.field verb).truthy = (item'.field verb).truthy) :
    (ofPathItem c path base item).all.toOption = (ofPathItem c path base item').all.toOption := by
  have hmembers : item.members?.map (Members.restrict Relevant.keptOfItem) =
      item'.members?.map (Members.restrict Relevant.keptOfItem) := by
    rw [← Value.members?_onMembers, ← Value.members?_onMembers]
    exact congrArg Value.members? hitem
  unfold ofPathItem
  cases hms : item.members? with
  | none =>
      rw [hms] at hmembers
      rw [Option.map_eq_none_iff.1 hmembers.symm]
  | some ms =>
      rw [hms] at hmembers
      obtain ⟨ms', hms', hrestrict⟩ := Option.map_eq_some_iff.1 hmembers.symm
      rw [hms']
      dsimp only
      rw [← Relevant.verbsOf_restrict ms', hrestrict, Relevant.verbsOf_restrict ms]
      refine Progress.toOption_all_through fun verb hverb => ?_
      have hverb := (mem_verbsOf.1 hverb).1
      exact toOption_ofVerb hitem hverb (htruthy verb hverb)

end Action

-- ==================================================== whole documents

namespace CedarSchema

variable {doc doc' : ApiDocument} {namespaceName base : Value} {paths : List (String × Value)}
  {basePath : String} {s : CedarSchema}

theorem forall₂_of_map_eq {α β γ : Type} {f : α → β} {g : α → γ} {xs ys : List α}
    (hf : xs.map f = ys.map f) (hg : xs.map g = ys.map g) :
    List.Forall₂ (fun x y => f x = f y ∧ g x = g y) xs ys := by
  induction xs generalizing ys with
  | nil =>
      cases ys with
      | nil => exact .nil
      | cons y ys => cases hf
  | cons x xs ih =>
      cases ys with
      | nil => cases hf
      | cons y ys =>
          rw [List.map_cons, List.map_cons] at hf hg
          obtain ⟨hfx, hfxs⟩ := List.cons.inj hf
          obtain ⟨hgx, hgxs⟩ := List.cons.inj hg
          exact .cons ⟨hfx, hgx⟩ (ih hfxs hgxs)

/-- Path items at one path that have one relevant part, and under each verb both an
operation that is not empty or neither. -/
structure AlikeItems (p p' : String × Value) : Prop where
  path : p.1 = p'.1
  item : Relevant.item p.2 = Relevant.item p'.2
  filled : ∀ verb ∈ Action.verbs, (p.2.field verb).truthy = (p'.2.field verb).truthy

/-- Documents with one relevant part have path items that are alike, in the same order, if
the same operations of both are not empty. -/
theorem exists_alike_paths (hdoc : doc.relevant = doc'.relevant)
    (hfilled : doc.filledOperations = doc'.filledOperations) (h : doc.paths = some paths) :
    ∃ paths', doc'.paths = some paths' ∧ List.Forall₂ AlikeItems paths paths' := by
  have hitems := congrArg ApiDocument.paths hdoc
  unfold ApiDocument.relevant at hitems
  unfold ApiDocument.filledOperations at hfilled
  rw [h] at hitems hfilled
  obtain ⟨paths', h', hpaths⟩ := Option.map_eq_some_iff.1 hitems.symm
  rw [h'] at hfilled
  refine ⟨paths', h', ?_⟩
  refine (forall₂_of_map_eq hpaths.symm (Option.some.inj hfilled)).imp ?_
  rintro p p' ⟨hitem, hverbs⟩
  obtain ⟨hpath, hitem⟩ := Prod.mk.inj hitem
  exact ⟨hpath, hitem, List.map_inj_left.1 hverbs⟩

/-- Path items that are alike yield the same actions. -/
theorem AlikeItems.done_eq {c : Converter} {p p' : String × Value} (h : AlikeItems p p')
    (hstop : (Action.ofPathItem c (.text p.1) (.text basePath) p.2).stop = none) :
    (Action.ofPathItem c (.text p'.1) (.text basePath) p'.2).stop = none ∧
      (Action.ofPathItem c (.text p'.1) (.text basePath) p'.2).done =
        (Action.ofPathItem c (.text p.1) (.text basePath) p.2).done := by
  rw [h.path] at hstop ⊢
  have hall := Progress.all_eq_ok.2 ⟨hstop, rfl⟩
  rw [← Attempt.toOption_eq_some, Action.toOption_ofPathItem h.item h.filled,
    Attempt.toOption_eq_some] at hall
  exact Progress.all_eq_ok.1 hall

/-- Paths whose items are alike yield the same actions. -/
theorem yielded_of_alike {c : Converter} {paths' : List (String × Value)}
    (h : List.Forall₂ AlikeItems paths paths')
    (hstop : ∀ p ∈ paths, (Action.ofPathItem c (.text p.1) (.text basePath) p.2).stop = none) :
    (∀ p ∈ paths', (Action.ofPathItem c (.text p.1) (.text basePath) p.2).stop = none) ∧
      (paths'.flatMap fun p => (Action.ofPathItem c (.text p.1) (.text basePath) p.2).done) =
        paths.flatMap fun p => (Action.ofPathItem c (.text p.1) (.text basePath) p.2).done := by
  induction h with
  | nil => exact ⟨hstop, rfl⟩
  | cons hp _ ih =>
      rw [List.forall_mem_cons] at hstop
      obtain ⟨hstop', hdone⟩ := hp.done_eq hstop.1
      obtain ⟨hrest, hyielded⟩ := ih hstop.2
      rw [List.flatMap_cons, List.flatMap_cons, hdone, hyielded]
      exact ⟨List.forall_mem_cons.2 ⟨hstop', hrest⟩, rfl⟩

/-- Documents that are relevantly the same have schemas of the same names. -/
theorem schemaNames_eq (hdoc : doc.relevant = doc'.relevant) :
    doc.schemas.map Prod.fst = doc'.schemas.map Prod.fst := by
  have hschemas := congrArg (List.map Prod.fst) (congrArg ApiDocument.schemas hdoc)
  simpa [ApiDocument.relevant, Function.comp_def] using hschemas

/-- Component schemas convert to what their relevant parts convert to. -/
theorem toOption_commonTypes (c : Converter) (doc : ApiDocument) :
    (c.commonTypes (schemaMembers doc.relevant)).toOption =
      (c.commonTypes (schemaMembers doc)).toOption := by
  unfold Converter.commonTypes schemaMembers ApiDocument.relevant
  rw [List.map_map, List.mapM_map, List.mapM_map]
  refine Attempt.toOption_mapM_congr fun m _ => ?_
  exact Attempt.toOption_bind_congr (Converter.toOption_convertTop m.2) fun _ => rfl

/-- What a schema is made of in one document, it is made of in the other. -/
theorem BuiltFrom.of_relevant (hdoc : doc.relevant = doc'.relevant)
    (hfilled : doc.filledOperations = doc'.filledOperations)
    (hb : BuiltFrom doc namespaceName base paths basePath s) :
    ∃ paths', BuiltFrom doc' namespaceName base paths' basePath s := by
  obtain ⟨paths', hpaths', halike⟩ := exists_alike_paths hdoc hfilled hb.paths_eq
  have hnames := schemaNames_eq hdoc
  have hconverter : converterFor doc' = converterFor doc := by
    unfold converterFor
    rw [hnames]
  have hbase : BasePath.resolve doc'.servers base = .ok basePath := by
    have hservers : doc.relevant.servers = doc'.relevant.servers := by rw [hdoc]
    exact (congrArg (BasePath.resolve · base) hservers).symm.trans hb.base_eq
  have hyielded := yielded_of_alike halike hb.complete
  have htypes : ((converterFor doc).commonTypes (schemaMembers doc')).toOption =
      ((converterFor doc).commonTypes (schemaMembers doc)).toOption := by
    rw [← toOption_commonTypes, ← hdoc, toOption_commonTypes]
  refine ⟨paths', hpaths', hb.namespace_eq, hbase, ?_, ?_, ?_, ?_⟩
  · rw [hconverter]
    exact hyielded.1
  · unfold yielded
    rw [hconverter, hyielded.2]
    exact hb.actions_eq
  · rw [hconverter, ← Attempt.toOption_eq_some, htypes, Attempt.toOption_eq_some]
    exact hb.commonTypes_eq
  · unfold yielded
    rw [hconverter, hyielded.2, ← hnames]
    exact hb.entityTypes_eq

/-- What one document is built to another one is that is relevantly the same. -/
theorem build_congr_relevant (hdoc : doc.relevant = doc'.relevant)
    (hfilled : doc.filledOperations = doc'.filledOperations) :
    (build doc namespaceName base).outcome = .ok s →
      (build doc' namespaceName base).outcome = .ok s := by
  intro h
  obtain ⟨paths, basePath, hb⟩ := build_eq_ok.1 h
  obtain ⟨paths', hb'⟩ := hb.of_relevant hdoc hfilled
  exact build_eq_ok.2 ⟨paths', basePath, hb'⟩

end CedarSchema

namespace Generated

open CedarSchema (build_congr_relevant)
open Relevant

/-- Documents that are the same once everything irrelevant is left out of them are generated
alike, if no operation is empty in one of them alone: if anything is generated for one, exactly
that is generated for the other. -/
theorem ofDocument_congr_relevant {doc doc' : ApiDocument} (hdoc : doc.relevant = doc'.relevant)
    (hfilled : doc.filledOperations = doc'.filledOperations)
    (namespaceName mappingType base : Value) (x : Generated) :
    (ofDocument doc namespaceName mappingType base).outcome = .ok x ↔
      (ofDocument doc' namespaceName mappingType base).outcome = .ok x := by
  rw [outcome_ofDocument_eq_ok, outcome_ofDocument_eq_ok]
  constructor
  · rintro ⟨s, hs, hx⟩
    exact ⟨s, build_congr_relevant hdoc hfilled hs, hx⟩
  · rintro ⟨s, hs, hx⟩
    exact ⟨s, build_congr_relevant hdoc.symm hfilled.symm hs, hx⟩

/-- A document with notes in every place where nothing is asked of them. -/
def commentedApi (note : String) : ApiDocument where
  paths := some [("/pets", .object
    [("summary", .text note),
     ("get", .object
      [("summary", .text note), ("operationId", .text "list"),
       ("parameters", .list [.object
        [("name", .text "kind"), ("in", .text "query"), ("description", .text note),
         ("schema", .object [("type", .text "string"), ("format", .text note)])]]),
       ("x-cedar", .object
        [("appliesToResourceTypes", .texts ["Pet"]), ("reason", .text note)])]),
     (Action.anyMethodKey, .text note)])]
  servers := ["https://host/api"]
  schemas := [("Pet", .object
    [("type", .text "object"), ("title", .text note),
     ("properties", .object [("title", .object
       [("type", .text "string"), ("example", .text note)])])])]

/-- The notes are no part of what is relevant. -/
theorem relevant_commentedApi (note other : String) :
    (commentedApi note).relevant = (commentedApi other).relevant := by
  simp [commentedApi, ApiDocument.relevant, Members.restrict, Value.object, Value.onMembers,
    Value.onItems, item, operation, extension, parameters, parameter, node, nodeMembers,
    properties, eachNode, keptOfItem, keptOfOperation, keptOfExtension, keptOfParameter,
    Action.verbs, Action.anyMethodKey]

/-- Whatever the notes say, the same is generated. -/
theorem ofDocument_commentedApi :
    ∃ x,
      (ofDocument (commentedApi "one") (.text "NS") (.text simpleRest) .null).outcome = .ok x ∧
      (ofDocument (commentedApi "other") (.text "NS") (.text simpleRest) .null).outcome =
        .ok x := by
  obtain ⟨x, hx⟩ := Attempt.exists_eq_ok (by decide +kernel :
    (ofDocument (commentedApi "one") (.text "NS") (.text simpleRest) .null).outcome.isOk = true)
  have hfilled : (commentedApi "one").filledOperations =
      (commentedApi "other").filledOperations := rfl
  exact ⟨x, hx, (ofDocument_congr_relevant (relevant_commentedApi ..) hfilled ..).1 hx⟩

end Generated

end ApiAuthz
