/-
The documents that a schema is projected to. `project_draft` says what they are:
without annotations, entity types, definitions and common types under the
namespace; with annotations, the same, every definition annotated by its own
action, and the given annotations last. The parts of a schema always fit
together: only annotations that are no mapping make a projection fail, and never
because an action has none (`project_ne_missingKey`).

A draft has definitions and annotations in two mappings, and projecting looks each
action up in the second. Both were made from one table (`Proofs/Schema/ActionTable`),
whose keys are distinct (`distinct_of_tableOf`), so what is found under the key of
an action are the annotations of that action and no other (`annotate_definition`,
`mapM_annotate`). From here on an action has one form with annotations and one
without, and a document is its body in either (`bodyWith`).
-/
import ApiAuthz.Proofs.Schema.ActionTable

namespace ApiAuthz

-- ==================================================== mappings of annotations

namespace Draft

theorem entriesOf_ne_missingKey (vs : List Value) :
    ∀ (index : Nat) (acc : Members Value),
      entriesOf index acc vs ≠ .error (.misused .missingKey) := by
  induction vs with
  | nil =>
      intro index acc h
      cases h
  | cons v vs ih =>
      intro index acc h
      unfold entriesOf at h
      split at h
      · split at h
        · exact ih _ _ h
        · cases h
      · cases h
      · cases h

/-- Making a mapping of a value does not miss a key. -/
theorem mappingOf_ne_missingKey (v : Value) : mappingOf v ≠ .error (.misused .missingKey) := by
  intro h
  unfold mappingOf at h
  split at h
  · cases h
  · split at h
    · exact entriesOf_ne_missingKey _ _ _ h
    · cases h

end Draft

-- ==================================================== annotated actions

namespace Action

/-- The form of an action in a schema with annotations. -/
def annotatedDefinition (a : Action) : Value :=
  .object [("appliesTo", .object
      [("context", a.context.toValue),
       ("principalTypes", .texts principalTypes),
       ("resourceTypes", .texts a.resourceTypes)]),
    ("annotations", a.annotations)]

/-- The annotations that are recorded under its key are put behind a definition. -/
theorem annotate_definition {recorded : Members Value} {key : Scalar} {a : Action}
    (h : Members.find? key recorded = some a.annotations) :
    Draft.annotate (.map recorded) (key, a.definition) = .ok (key, a.annotatedDefinition) := by
  unfold Draft.annotate
  simp only [h]
  rfl

end Action

namespace CedarSchema

variable {s : CedarSchema}

/-- The names of a table are distinct. -/
theorem distinct_of_tableOf {actions : List Action} {table : Members Action}
    (h : tableOf actions = .ok table) : Members.Distinct table := by
  obtain ⟨names, -, rfl⟩ := tableOf_eq_ok.1 h
  exact Members.distinct_ofEntries _

/-- Every action is annotated as its own request. -/
theorem mapM_annotate (hd : Members.Distinct s.actions) :
    (s.actions.map fun a => (a.1, a.2.definition)).mapM
        (Draft.annotate (.map (s.actions.map fun a => (a.1, a.2.annotations)))) =
      .ok (s.actions.map fun a => (a.1, a.2.annotatedDefinition)) := by
  rw [Attempt.mapM_eq_ok, List.forall₂_map_left_iff, List.forall₂_map_right_iff,
    List.forall₂_same]
  intro a ha
  apply Action.annotate_definition
  rw [Members.find?_map, Members.find?_of_mem hd ha]
  rfl

-- ==================================================== projections

/-- The body of a schema without annotations, its actions in the given form. -/
def bodyWith (s : CedarSchema) (form : Action → Value) : List (String × Value) :=
  [("entityTypes", .object (s.entityTypes.map fun e => (e.1, e.2.toValue))),
   ("actions", .map (s.actions.map fun a => (a.1, form a.2))),
   ("commonTypes", .map (s.commonTypes.map fun t => (t.1, t.2.toValue)))]

/-- The document of a schema without annotations. -/
def plainDocument (s : CedarSchema) : Value :=
  .object [(s.namespaceName, .object (s.bodyWith Action.definition))]

/-- The document of a schema with annotations. -/
def annotatedDocument (s : CedarSchema) (annotations : Members Value) : Value :=
  .object [(s.namespaceName,
    .object (s.bodyWith Action.annotatedDefinition ++ [("annotations", .map annotations)]))]

/-- Without annotations the projection is the plain document. -/
theorem project_null : s.draft.project .null = .ok s.plainDocument := rfl

/-- What a schema is projected to. -/
theorem project_draft (hd : Members.Distinct s.actions) {annotations : Value}
    (h : annotations.isNull = false) :
    s.draft.project annotations = (Draft.mappingOf annotations).map s.annotatedDocument := by
  have hactions : s.draft.projectedActions true =
      .ok (.map (s.actions.map fun a => (a.1, a.2.annotatedDefinition))) := by
    unfold Draft.projectedActions
    rw [if_pos rfl]
    exact Attempt.bind_eq_ok.2 ⟨_, mapM_annotate hd, rfl⟩
  unfold Draft.project Draft.ownAnnotations
  rw [h, Bool.not_false, hactions, if_neg Bool.false_ne_true]
  cases Draft.mappingOf annotations with
  | error f => rfl
  | ok own => rfl

/-- No projection fails for want of an action's annotations. -/
theorem project_ne_missingKey (hd : Members.Distinct s.actions) (annotations : Value) :
    s.draft.project annotations ≠ .error (.misused .missingKey) := by
  cases hnull : annotations.isNull with
  | true =>
      unfold Value.isNull at hnull
      split at hnull
      · rw [project_null]
        exact fun h => nomatch h
      · cases hnull
  | false =>
      rw [project_draft hd hnull]
      have hmapping := Draft.mappingOf_ne_missingKey annotations
      cases hm : Draft.mappingOf annotations with
      | error f =>
          intro h
          rw [hm] at hmapping
          exact hmapping (congrArg Except.error (Except.error.inj h))
      | ok own => exact fun h => nomatch h

end CedarSchema

end ApiAuthz
