/-
How the actions of a document are named, and so which actions its schema has. An
operation without a name of its own is named by its verb and its path, with a
blank between them. No verb has a blank, so such a name tells the verb and the
path (`fallbackName_inj`), and as each verb of each path is mapped once, no two of
these names are the same (`apart_fallbackNames`).

Together with the tables of a schema this says which actions there are. What is
said of distinctness rests on the document being well formed: in a document with
a path given twice, the operations of that path have the same names.

# Counting

`operationCount` counts the operations of a document without mapping it: the five
verbs of each path item that have an operation which is not empty. A path item is
walked in the order of its keys or in that of the verbs, and either walk takes
each verb once (`mappedVerbs_perm`), so there are as many operations as that
(`length_ofPaths`). `actions_of_build` then compares this with the definitions of
the schema: none is lost exactly if no two names are the same, and without names
of their own none ever is.
-/
import ApiAuthz.Proofs.Keyed
import ApiAuthz.Proofs.Schema.Projection
import Mathlib.Data.List.Perm.Basic

namespace ApiAuthz

namespace Action

-- ==================================================== verbs of a path item

theorem nodup_verbs : verbs.Nodup := by decide

theorem blank_notMem_of_mem_verbs : ∀ {verb : String}, verb ∈ verbs → ' ' ∉ verb.toList := by
  decide

/-- No verb of a path item stands twice. -/
theorem nodup_verbsOf {item : Members Value} (h : Members.Distinct item) :
    (verbsOf item).Nodup := by
  unfold verbsOf
  split
  · exact nodup_verbs
  · rw [Members.distinct_iff_apart] at h
    refine List.Pairwise.filterMap _ (fun j k hjk verb hverb verb' hverb' => ?_) h
    rintro rfl
    split at hverb
    · split at hverb'
      · cases (Option.ite_none_right_eq_some.1 hverb).2
        cases (Option.ite_none_right_eq_some.1 hverb').2
        simp at hjk
      · cases hverb'
    · cases hverb

/-- Each of the five verbs with an operation that is not empty is mapped once. -/
theorem mappedVerbs_perm {item : Value}
    (h : ∀ ms, item.members? = some ms → Members.Distinct ms) :
    (mappedVerbs item).Perm (verbs.filter fun verb => (item.field verb).truthy) := by
  refine (List.perm_ext_iff_of_nodup ?_ (nodup_verbs.filter _)).2 fun verb => ?_
  · unfold mappedVerbs
    cases hm : item.members? with
    | none => exact List.nodup_nil
    | some ms => exact (nodup_verbsOf (h ms hm)).filter _
  · rw [mem_mappedVerbs, List.mem_filter]

/-- The verbs with operations are the same in whatever order the item is walked. -/
theorem mappedVerbs_perm_of_keyed {item : Value} (h : item.Keyed) :
    (mappedVerbs item).Perm (verbs.filter fun verb => (item.field verb).truthy) :=
  mappedVerbs_perm fun _ hm => (h.members hm).1

/-- None of them is mapped twice. -/
theorem nodup_mappedVerbs {item : Value} (h : item.Keyed) : (mappedVerbs item).Nodup :=
  (mappedVerbs_perm_of_keyed h).nodup_iff.2 (nodup_verbs.filter _)

-- ==================================================== names made of verb and path

/-- The name of an operation without a name of its own. -/
def fallbackName (verb path : String) : String := verb ++ " " ++ path

/-- A verb is what stands before the first blank. -/
theorem takeWhile_verb {verb : String} (h : verb ∈ verbs) (rest : List Char) :
    (verb.toList ++ ' ' :: rest).takeWhile (· != ' ') = verb.toList := by
  have hverb : ∀ c ∈ verb.toList, (c != ' ') = true := by
    intro c hc
    rw [bne_iff_ne]
    rintro rfl
    exact blank_notMem_of_mem_verbs h hc
  rw [List.takeWhile_append_of_pos hverb, List.takeWhile_cons_of_neg (by decide),
    List.append_nil]

/-- Such a name tells the verb and the path. -/
theorem fallbackName_inj {verb verb' path path' : String} (hv : verb ∈ verbs)
    (hv' : verb' ∈ verbs) (h : fallbackName verb path = fallbackName verb' path') :
    verb = verb' ∧ path = path' := by
  have hchars : verb.toList ++ ' ' :: path.toList = verb'.toList ++ ' ' :: path'.toList := by
    have := congrArg String.toList h
    simpa [fallbackName] using this
  have hverb : verb.toList = verb'.toList := by
    rw [← takeWhile_verb hv path.toList, hchars, takeWhile_verb hv']
  rw [hverb] at hchars
  have hpath := (List.cons.inj (List.append_cancel_left hchars)).2
  exact ⟨String.toList_injective hverb, String.toList_injective hpath⟩

/-- An operation without a name of its own is named for verb and path. -/
theorem nameOf_of_not_truthy {verb path : String} {operation : Value}
    (h : (operation.field "operationId").truthy = false) :
    nameOf (.text verb) (.text path) operation = .text (fallbackName verb path) := by
  unfold nameOf
  simp only [h, Bool.false_eq_true, if_false]
  rfl

end Action

namespace CedarSchema

-- ==================================================== the operations of a document

/-- How many operations that are not empty stand under the five verbs. A path item
that is no mapping has none. -/
def operationCount (paths : List (String × Value)) : Nat :=
  (paths.flatMap fun p => Action.verbs.filter fun verb => (p.2.field verb).truthy).length

/-- There is one operation for each verb and path that has one. -/
theorem length_ofPaths {paths : List (String × Value)} (h : Problem.KeyedNames paths) :
    (Operation.ofPaths paths).length = operationCount paths := by
  unfold Operation.ofPaths operationCount
  rw [List.length_flatMap, List.length_flatMap]
  congr 1
  refine List.map_congr_left fun p hp => ?_
  rw [List.length_map]
  exact (Action.mappedVerbs_perm_of_keyed (h.2 p hp)).length_eq

/-- An operation comes from a path item and one of the verbs. -/
theorem mem_ofPaths {paths : List (String × Value)} {o : Operation}
    (h : o ∈ Operation.ofPaths paths) : (o.path, o.item) ∈ paths ∧
      o.verb ∈ Action.verbs ∧ o.body.truthy = true := by
  obtain ⟨p, hp, ho⟩ := List.mem_flatMap.1 h
  obtain ⟨verb, hverb, rfl⟩ := List.mem_map.1 ho
  exact ⟨hp, Action.mem_mappedVerbs.1 hverb⟩

/-- No verb of a path is mapped twice. -/
theorem pairwise_ofPaths {paths : List (String × Value)} (h : Problem.KeyedNames paths) :
    (Operation.ofPaths paths).Pairwise fun o o' => ¬(o.verb = o'.verb ∧ o.path = o'.path) := by
  unfold Operation.ofPaths
  refine List.pairwise_flatMap.2 ⟨fun p hp => ?_, ?_⟩
  · rw [List.pairwise_map]
    refine (Action.nodup_mappedVerbs (h.2 p hp)).imp fun hne hsame => ?_
    exact hne hsame.1
  · refine (List.pairwise_map.1 h.1).imp fun hne o ho o' ho' hsame => ?_
    obtain ⟨verb, -, rfl⟩ := List.mem_map.1 ho
    obtain ⟨verb', -, rfl⟩ := List.mem_map.1 ho'
    exact hne hsame.2

/-- No two names made of verb and path are the same. -/
theorem apart_fallbackNames {paths : List (String × Value)} (h : Problem.KeyedNames paths) :
    Scalar.Apart ((Operation.ofPaths paths).map fun o =>
      (.text (Action.fallbackName o.verb o.path) : Scalar)) := by
  unfold Scalar.Apart
  rw [List.pairwise_map]
  refine (pairwise_ofPaths h).imp_of_mem fun ho ho' hne => ?_
  rw [Scalar.same_text, decide_eq_false_iff_not]
  exact fun hname =>
    hne (Action.fallbackName_inj (mem_ofPaths ho).2.1 (mem_ofPaths ho').2.1 hname)

/-- Actions of operations without names of their own are named by verb and path. -/
theorem names_of_fallback {doc : ApiDocument} {base : String} {os : List Operation}
    {actions : List Action} (h : List.Forall₂ (Operation.Yields doc base) os actions)
    (hid : ∀ o ∈ os, (o.body.field "operationId").truthy = false) :
    actions.map Action.name =
      (os.map fun o => (.text (Action.fallbackName o.verb o.path) : Scalar)).map .scalar := by
  induction h with
  | nil => rfl
  | cons ho _ ih =>
      rw [List.forall_mem_cons] at hid
      rw [List.map_cons, List.map_cons, List.map_cons, ih hid.2, ho.name,
        Action.nameOf_of_not_truthy hid.1]

-- ==================================================== the actions of a schema

/-- Which actions a schema has: those of the path items in order, each under its
name, with a later one of the same name in the place of an earlier one, defined
and annotated alike. So every projection finds the annotations it looks for. In
a well formed document, operations without names of their own have different
names, and there are as many actions as operations exactly if all names differ. -/
theorem actions_of_build {doc : ApiDocument} {namespaceName base : Value} {s : CedarSchema}
    (h : (build doc namespaceName base).outcome = .ok s) :
    ∃ paths basePath names definitions annotations,
      doc.paths = some paths ∧ BasePath.resolve doc.servers base = .ok basePath ∧
      (∀ p ∈ paths,
        (Action.ofPathItem (converterFor doc) (.text p.1) (.text basePath) p.2).stop = none) ∧
      s.draft.actions = .map definitions ∧ s.draft.actionAnnotations = .map annotations ∧
      TablesOf (yielded doc basePath paths) names definitions annotations ∧
      (∀ given, s.draft.project given ≠ .error (.misused .missingKey)) ∧
      (doc.WellFormed →
        ((∀ p ∈ paths, ∀ verb ∈ Action.verbs,
            ((p.2.field verb).field "operationId").truthy = false) → Scalar.Apart names) ∧
        (definitions.length = operationCount paths ↔ Scalar.Apart names)) := by
  obtain ⟨paths, basePath, hb⟩ := build_eq_ok.1 h
  obtain ⟨names, hnames, hactions⟩ := tableOf_eq_ok.1 hb.actions_eq
  have htables := tablesOf_ofEntries hnames
  rw [← hactions] at htables
  refine ⟨paths, basePath, names, _, _, hb.paths_eq, hb.base_eq, hb.complete, rfl, rfl, htables,
    project_ne_missingKey (distinct_of_tableOf hb.actions_eq), fun hdoc => ?_⟩
  have hkeyed := hdoc.paths paths hb.paths_eq
  have hyielded := forall₂_yielded hb.complete
  refine ⟨fun hid => ?_, ?_⟩
  · have hfallback := names_of_fallback hyielded fun o ho => by
      obtain ⟨hp, hverb, -⟩ := mem_ofPaths ho
      exact hid _ hp o.verb hverb
    have hnames' := List.map_injective_iff.2 (fun _ _ => Value.scalar.inj)
      (hnames.symm.trans hfallback)
    rw [hnames']
    exact apart_fallbackNames hkeyed
  · rw [← length_ofPaths hkeyed, hyielded.length_eq]
    exact htables.length_definitions

/-- A document with two operations, neither with a name of its own. -/
def twoOperations : ApiDocument where
  paths := some [("/pets", .object
    [("get", .object [("summary", .text "List")]), ("post", .object [("summary", .text "Add")])])]
  servers := []
  schemas := []

theorem wellFormed_twoOperations : twoOperations.WellFormed := by
  have hsummary : ∀ s : String, (Value.object [("summary", .text s)]).Keyed := fun s =>
    Problem.keyedNames_iff.1 ⟨by simp, by simpa using .scalar _⟩
  have hitem : Problem.KeyedNames
      [("get", .object [("summary", .text "List")]),
       ("post", .object [("summary", .text "Add")])] :=
    ⟨by decide, by simp [hsummary]⟩
  refine ⟨fun paths hpaths => ?_, List.nodup_nil, List.forall_mem_nil _⟩
  cases hpaths
  exact ⟨by decide, by simpa using Problem.keyedNames_iff.1 hitem⟩

/-- Both operations of the document have actions. -/
theorem actions_of_build_twoOperations :
    ∃ s definitions, (build twoOperations (.text "NS") .null).outcome = .ok s ∧
      s.draft.actions = .map definitions ∧ definitions.length = 2 := by
  obtain ⟨s, hs⟩ := Attempt.exists_eq_ok
    (by decide +kernel : (build twoOperations (.text "NS") .null).outcome.isOk = true)
  obtain ⟨paths, -, names, definitions, -, hpaths, -, -, hdefinitions, -, -, -, hnames⟩ :=
    actions_of_build hs
  cases hpaths
  obtain ⟨hapart, hcount⟩ := hnames wellFormed_twoOperations
  refine ⟨s, definitions, hs, hdefinitions, ?_⟩
  rw [hcount.2 (hapart (by decide +kernel))]
  decide +kernel

end CedarSchema

end ApiAuthz
