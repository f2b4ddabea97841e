/-
A build is its parts, one after the other. `Action.attempt` maps one verb of a path item on
its own, with the parameters of the path item, and `Operation.entry` also has the action named
by a key; `outcome_build` says that a build asks for paths, a namespace and a base path, makes
the entries of all operations in order, converts the component schemas in order, and that
nothing else is asked.

Mapping stops at the first operation that fails, and only then are the operations
before it entered. `Progress.finished` takes both together: what was done is finished
item by item, and work that stopped fails with the fault it stopped with.

What an entry or a component schema comes to is a matter of that part and of the names of
the component schemas alone (`Operation.entry_congr`, `Converter.Agree.convertTop`).

# Which fault comes first

An operation that cannot be mapped stops the mapping, and one whose action has no key for a name
is only noticed when the actions are entered, which is after. But the actions that were mapped
before the stop are entered first, so of two operations the fault of the first one counts,
whichever of the two it is. This is why `finished` is the right notion: it is compatible with
doing work part by part (`finished_andThen`, `finished_through`), and finishing the actions of
the document is one walk over the operations (`finished_mappedActions`). A single induction is
all there is to it; the rest is rewriting.

# Independence

Two things enter an operation from outside. One is the base path, which is put in front of a
path template that was made without it and cannot make a fault (`ofOperation_below`,
`Operation.of?_entry_base`). The other is the converter, and of that only which names it finds
(`Converter.Agree`); the order and the number of times a component is named play no part
(`agree_forSchemas`). `faults_of_build` puts all this together: the fault of a build is the first
one among those of its parts, each of which is known without the others.
-/
import ApiAuthz.Proofs.Schema.ActionTable
import ApiAuthz.Proofs.Schema.Sites

namespace ApiAuthz

-- ==================================================== finished work

namespace Attempt

variable {α β γ : Type}

/-- Steps over parts are steps part by part. -/
theorem mapM_flatMap {f : α → Attempt β} {parts : γ → List α} (cs : List γ) :
    (cs.flatMap parts).mapM f = (cs.mapM fun c => (parts c).mapM f) >>= fun bss =>
      pure bss.flatten := by
  induction cs with
  | nil => rfl
  | cons c cs ih =>
      rw [List.flatMap_cons, List.mapM_append, ih, List.mapM_cons]
      simp only [bind_assoc, pure_bind, List.flatten_cons]

theorem mapM_congr {f g : α → Attempt β} {xs : List α} (h : ∀ x ∈ xs, f x = g x) :
    xs.mapM f = xs.mapM g := by
  induction xs with
  | nil => rfl
  | cons x xs ih =>
      rw [List.forall_mem_cons] at h
      rw [List.mapM_cons, List.mapM_cons, h.1, ih h.2]

end Attempt

namespace Progress

variable {α β γ : Type}

/-- Everything done, each item finished, if none fails and the work did not stop. -/
def finished (finish : α → Attempt β) (p : Progress α) : Attempt (List β) := do
  let done ← p.done.mapM finish
  match p.stop with
  | some f => .error f
  | none => return done

variable {finish : α → Attempt β}

/-- One attempt is finished by itself. -/
theorem finished_ofAttempt (x : Attempt α) :
    (ofAttempt x).finished finish = x >>= fun a => finish a >>= fun b => pure [b] := by
  cases x with
  | error f => rfl
  | ok a =>
      show [a].mapM finish >>= pure = finish a >>= fun b => pure [b]
      rw [bind_pure, List.mapM_cons]
      rfl

/-- A change of what is given comes before it is finished. -/
theorem finished_map (change : γ → α) (p : Progress γ) :
    (p.map change).finished finish = p.finished fun c => finish (change c) := by
  unfold finished map
  rw [List.mapM_map]
  rfl

/-- What is done after work that did not stop is finished after it. -/
theorem finished_andThen (p q : Progress α) :
    (p.andThen q).finished finish = p.finished finish >>= fun done =>
      q.finished finish >>= fun rest => pure (done ++ rest) := by
  unfold andThen finished
  cases hstop : p.stop with
  | some f =>
      simp only [hstop, bind_assoc]
      rfl
  | none =>
      simp only [List.mapM_append, bind_assoc, pure_bind]
      cases q.stop with
      | some f => rfl
      | none => simp only [pure_bind]

/-- Work that goes through steps is finished step by step. -/
theorem finished_through (step : γ → Progress α) (cs : List γ) :
    (through step cs).finished finish =
      (cs.mapM fun c => (step c).finished finish) >>= fun bss => pure bss.flatten := by
  induction cs with
  | nil => rfl
  | cons c cs ih =>
      rw [through, finished_andThen, ih, List.mapM_cons]
      simp only [bind_assoc, pure_bind, List.flatten_cons]

/-- Work that needs no finishing is finished if it did not stop. -/
theorem finished_pure (p : Progress α) : p.finished pure = p.all := by
  have hdone : p.done.mapM (pure : α → Attempt α) = .ok p.done :=
    Attempt.mapM_eq_ok.2 (List.forall₂_same.2 fun _ _ => rfl)
  unfold finished all
  rw [hdone]
  rfl

end Progress

-- ==================================================== operations on their own

namespace Action

variable {β : Type} {finish : Action → Attempt β}
variable {c : Converter} {path base item : Value} {verb : String}

/-- What a verb of a path item comes to on its own: its operation has to be an object, and
an action is made of it. -/
def attempt (c : Converter) (path base item : Value) (verb : String) : Attempt Action :=
  if !(item.field verb).isMap then Fault.report (.notOperation verb path)
  else ofOperation c (.text verb) path (item.field verb) base (item.field "parameters")

/-- A verb with an operation yields its action. -/
theorem finished_ofVerb (h : (item.field verb).truthy = true) :
    (ofVerb c path base item verb).finished finish =
      attempt c path base item verb >>= fun a => finish a >>= fun b => pure [b] := by
  unfold ofVerb attempt
  show Progress.finished finish (if !(item.field verb).truthy then _ else
    if !(item.field verb).isMap then _ else _) = _
  rw [h, Bool.not_true, if_neg Bool.false_ne_true]
  split
  · rfl
  · exact Progress.finished_ofAttempt _

/-- One without yields nothing. -/
theorem finished_ofVerb_of_not_truthy (h : (item.field verb).truthy = false) :
    (ofVerb c path base item verb).finished finish = .ok [] := by
  unfold ofVerb
  show Progress.finished finish (if !(item.field verb).truthy then _ else _) = _
  rw [h, Bool.not_false, if_pos rfl]
  rfl

/-- The actions of a path item are made and finished one after the other. -/
theorem finished_ofPathItem (c : Converter) (path base item : Value)
    (finish : Action → Attempt β) :
    (ofPathItem c path base item).finished finish =
      (mappedVerbs item).mapM fun verb => attempt c path base item verb >>= finish := by
  unfold ofPathItem mappedVerbs
  cases item.members? with
  | none => rfl
  | some ms =>
      simp only
      rw [Progress.finished_through]
      induction verbsOf ms with
      | nil => rfl
      | cons verb verbs ih =>
          rw [List.mapM_cons, List.filter_cons]
          cases htruthy : (item.field verb).truthy with
          | false =>
              rw [finished_ofVerb_of_not_truthy htruthy, if_neg Bool.false_ne_true, ← ih]
              show (List.mapM _ verbs >>= fun bss => pure ([] :: bss)) >>= _ = _
              simp only [bind_assoc, pure_bind, List.flatten_cons, List.nil_append]
          | true =>
              rw [if_pos rfl, List.mapM_cons, ← ih, finished_ofVerb htruthy]
              simp only [bind_assoc, pure_bind, List.flatten_cons, List.singleton_append]

end Action

namespace CedarSchema

/-- An action under its name, which has to be a key. -/
def named (a : Action) : Attempt (Scalar × Action) :=
  match a.name.key? with
  | some key => .ok (key, a)
  | none => Fault.wrongKind

/-- What an operation of a path item comes to on its own: it has to be an object, an
action is made of it, and the name of that has to be a key. -/
def Operation.entry (c : Converter) (basePath : String) (o : Operation) :
    Attempt (Scalar × Action) :=
  if !o.body.isMap then Fault.report (.notOperation o.verb (.text o.path))
  else
    Action.ofOperation c (.text o.verb) (.text o.path) o.body (.text basePath)
      (o.item.field "parameters") >>= named

variable {c : Converter} {basePath : String}

/-- The entry of an operation is its action under its name. -/
theorem Operation.entry_eq (o : Operation) :
    o.entry c basePath =
      Action.attempt c (.text o.path) (.text basePath) o.item o.verb >>= named := by
  unfold Operation.entry Operation.body Action.attempt
  split <;> rfl

/-- The operations of a path item are entered one after the other. -/
theorem finished_ofPathItem (path : String) (item : Value) :
    (Action.ofPathItem c (.text path) (.text basePath) item).finished named =
      ((Action.mappedVerbs item).map fun verb => (⟨path, item, verb⟩ : Operation)).mapM
        (Operation.entry c basePath) := by
  rw [Action.finished_ofPathItem, List.mapM_map]
  refine Attempt.mapM_congr fun verb _ => ?_
  exact (Operation.entry_eq ⟨path, item, verb⟩).symm

/-- And so are the operations of all paths. -/
theorem finished_mappedActions (paths : List (String × Value)) :
    ((mappedActions c basePath paths).map Prod.snd).finished named =
      (Operation.ofPaths paths).mapM (Operation.entry c basePath) := by
  unfold mappedActions Operation.ofPaths
  rw [Progress.finished_map, Progress.finished_through, Attempt.mapM_flatMap]
  congr 2
  funext p
  rw [Progress.finished_map]
  exact finished_ofPathItem p.1 p.2

-- ==================================================== whole builds

/-- Naming actions leaves them as they are. -/
theorem map_snd_of_named {actions : List Action} {entries : List (Scalar × Action)}
    (h : actions.mapM named = .ok entries) : entries.map Prod.snd = actions := by
  replace h := Attempt.mapM_eq_ok.1 h
  induction h with
  | nil => rfl
  | @cons a e _ _ he _ ih =>
      have hsnd : e.2 = a := by
        unfold named at he
        split at he
        · cases he
          rfl
        · cases he
      rw [List.map_cons, ih, hsnd]

/-- Actions are entered as they are named. -/
theorem tableOf_eq (actions : List Action) :
    tableOf actions = actions.mapM named >>= fun entries => pure (Members.ofEntries entries) := by
  calc tableOf actions
    _ = actions.foldlM (fun table a =>
          (named a).map fun entry => Members.put entry.1 entry.2 table) [] := by
        unfold tableOf
        congr 1
        funext table a
        unfold named
        cases a.name.key? <;> rfl
    _ = (actions.mapM named).map Members.ofEntries := Attempt.foldlM_map actions []
    _ = actions.mapM named >>= fun entries => pure (Members.ofEntries entries) := by
        cases actions.mapM named <;> rfl

/-- The schema of a document whose operations have these entries. -/
def ofEntries (doc : ApiDocument) (namespaceName : String) (entries : List (Scalar × Action))
    (commonTypes : Members CedarType) : CedarSchema where
  namespaceName := namespaceName
  entityTypes := EntityType.table (doc.schemas.map Prod.fst) (entries.map Prod.snd)
  actions := Members.ofEntries entries
  commonTypes := commonTypes

/-- A schema is put together from entries and common types, in this order. -/
theorem assemble_eq (doc : ApiDocument) (name : String) (mapped : Progress Action) :
    assemble doc name mapped = do
      let entries ← mapped.finished named
      let commonTypes ← (converterFor doc).commonTypes (schemaMembers doc)
      return ofEntries doc name entries commonTypes := by
  unfold assemble Progress.finished Progress.all
  rw [tableOf_eq]
  cases hentries : mapped.done.mapM named with
  | error f => rfl
  | ok entries =>
      cases mapped.stop with
      | some f => rfl
      | none =>
          rw [← map_snd_of_named hentries]
          rfl

/-- The paths of a document, which it has to have. -/
def pathsOf (doc : ApiDocument) : Attempt (List (String × Value)) :=
  match doc.paths with
  | some paths => .ok paths
  | none => .error (.reported .missingPaths)

/-- The preconditions one behind the other. -/
theorem preconditions_eq (doc : ApiDocument) (namespaceName base : Value) :
    preconditions doc namespaceName base = do
      let paths ← pathsOf doc
      let name ← Namespace.ofValue namespaceName
      let basePath ← BasePath.resolve doc.servers base
      return (paths, name, basePath) := by
  unfold preconditions pathsOf
  cases doc.paths with
  | none => rfl
  | some paths => rfl

/-- The whole of a build as steps one behind the other, without its log. -/
theorem outcome_build_eq_bind (doc : ApiDocument) (namespaceName base : Value) :
    (build doc namespaceName base).outcome =
      preconditions doc namespaceName base >>= fun pre =>
        assemble doc pre.2.1 ((mappedActions (converterFor doc) pre.2.2 pre.1).map Prod.snd) := by
  cases hpre : preconditions doc namespaceName base with
  | error f =>
      rw [outcome_build_of_error hpre]
      rfl
  | ok pre =>
      rw [outcome_build_of_ok hpre]
      rfl

/-- A build asks for one thing after the other. -/
theorem outcome_build (doc : ApiDocument) (namespaceName base : Value) :
    (build doc namespaceName base).outcome = do
      let paths ← pathsOf doc
      let name ← Namespace.ofValue namespaceName
      let basePath ← BasePath.resolve doc.servers base
      let entries ← (Operation.ofPaths paths).mapM (Operation.entry (converterFor doc) basePath)
      let commonTypes ← (converterFor doc).commonTypes (schemaMembers doc)
      return ofEntries doc name entries commonTypes := by
  rw [outcome_build_eq_bind, preconditions_eq]
  simp only [bind_assoc, pure_bind, assemble_eq, finished_mappedActions]

end CedarSchema

-- ==================================================== base paths

namespace Action

/-- The action with its path template below a base path. -/
def below (basePath : String) (a : Action) : Action :=
  { a with
    pathTemplate := String.ofList
      (Text.stripRight (· == '/') basePath.toList ++ a.pathTemplate.toList) }

/-- A base path is put in front of the path template, and nothing else is made of it. -/
theorem ofOperation_below (c : Converter) (verb path operation pathParameters : Value)
    (basePath : String) :
    ofOperation c verb path operation (.text basePath) pathParameters =
      (ofOperation c verb path operation (.text "") pathParameters).map (below basePath) := by
  have hjoin : UrlPath.joinValues (.text basePath) path =
      (UrlPath.joinValues (.text "") path).map fun template => String.ofList
        (Text.stripRight (· == '/') basePath.toList ++ template.toList) := by
    unfold UrlPath.joinValues
    cases path.text? with
    | none => rfl
    | some template =>
        show Except.ok (String.ofList (_ ++ UrlPath.rooted template.toList)) =
          Except.ok (String.ofList (_ ++ (String.ofList (UrlPath.rooted _)).toList))
        rw [String.toList_ofList]
  unfold ofOperation
  rw [hjoin]
  cases operation.isMap with
  | false => rfl
  | true =>
      cases Context.listed pathParameters with
      | error f => rfl
      | ok inherited =>
          cases Context.listed (operation.field "parameters") with
          | error f => rfl
          | ok own =>
              cases hcontext : Context.ofParameters c (inherited ++ own) with
              | error f => simp [hcontext, bind, Except.bind, Except.map]
              | ok context =>
                  simp only [hcontext, Bool.not_true, Bool.false_eq_true, if_false, bind,
                    Except.bind]
                  cases resourceTypesOf operation (nameOf verb path operation) with
                  | error f => rfl
                  | ok resourceTypes =>
                      cases UrlPath.joinValues (.text "") path with
                      | error f => rfl
                      | ok template => rfl

end Action

namespace CedarSchema

variable {c c' : Converter}

theorem named_below (basePath : String) (a : Action) :
    named (a.below basePath) = (named a).map fun e => (e.1, e.2.below basePath) := by
  unfold named
  show (match a.name.key? with | some key => _ | none => _) = _
  cases a.name.key? with
  | none => rfl
  | some key => rfl

/-- The base path is put in front of a path that is mapped without it. -/
theorem Operation.entry_below (basePath : String) (o : Operation) :
    o.entry c basePath = (o.entry c "").map fun e => (e.1, e.2.below basePath) := by
  unfold entry
  rw [Action.ofOperation_below]
  split
  · rfl
  · cases Action.ofOperation c (.text o.verb) (.text o.path) o.body (.text "")
        (o.item.field "parameters") with
    | error f => rfl
    | ok a => exact named_below basePath a

/-- Whether an operation can be mapped is no matter of the base path. -/
theorem Operation.of?_entry_base (basePath basePath' : String) (o : Operation) :
    Fault.of? (o.entry c basePath) = Fault.of? (o.entry c basePath') := by
  rw [entry_below basePath, entry_below basePath', Fault.of?_map, Fault.of?_map]

end CedarSchema

-- ==================================================== names of component schemas

/-- Converters that find the same targets of references, and go as deep. -/
structure Converter.Agree (c c' : Converter) : Prop where
  target : ∀ name ref, c.target name ref = c'.target name ref
  limit : c.limit = c'.limit

namespace Converter

variable {c c' : Converter}

/-- It does not matter in which order the components are named, or how often. -/
theorem agree_forSchemas {names names' : List String} (h : ∀ n, n ∈ names ↔ n ∈ names') :
    Agree (forSchemas names) (forSchemas names') where
  target name ref := by
    have hcontains (t : String) : (names.map .text : List Scalar).contains (.text t) =
        (names'.map .text : List Scalar).contains (.text t) := by
      rw [Bool.eq_iff_iff, List.contains_iff_mem, List.contains_iff_mem]
      simpa using h t
    unfold target forSchemas
    simp only [hcontains]
  limit := rfl

theorem Agree.view (h : Agree c c') (depth name node : Value) :
    c.view depth name node = c'.view depth name node := by
  unfold Converter.view
  simp only [h.limit, h.target]

/-- Converters that agree on their schemas convert alike. -/
theorem Agree.convertAt (h : Agree c c') (depth name node : Value) :
    c.convertAt depth name node = c'.convertAt depth name node := by
  induction depth, name, node using view_induction c with
  | step depth name node properties items =>
      rw [convertAt_eq, convertAt_eq, ← h.view]
      cases hview : c.view depth name node with
      | error f => rfl
      | ok shape =>
          show c.convertShape name shape = c'.convertShape name shape
          cases shape with
          | leaf type => rfl
          | record below ps =>
              show List.mapM _ ps >>= _ = List.mapM _ ps >>= _
              congr 1
              refine Attempt.mapM_congr fun m hm => ?_
              rw [properties hview m hm]
          | set below element =>
              show c.convertAt below name element >>= _ = c'.convertAt below name element >>= _
              rw [items hview]

theorem Agree.convertTop (h : Agree c c') (name node : Value) :
    c.convertTop name node = c'.convertTop name node :=
  h.convertAt (.int 0) name node

/-- So do they for all common types. -/
theorem Agree.commonTypes (h : Agree c c') (schemas : Members Value) :
    c.commonTypes schemas = c'.commonTypes schemas := by
  unfold Converter.commonTypes
  simp only [h.convertTop]

theorem Agree.ofParameters (h : Agree c c') (parameters : List Value) :
    Context.ofParameters c parameters = Context.ofParameters c' parameters := by
  have hadd : Context.addParameter c = Context.addParameter c' := by
    funext context parameter
    rw [Context.addParameter_eq, Context.addParameter_eq]
    simp only [h.convertTop]
  unfold Context.ofParameters
  rw [hadd]

end Converter

namespace CedarSchema

variable {c c' : Converter}

/-- And so do operations that are mapped with them. -/
theorem Operation.entry_congr (h : c.Agree c') (basePath : String) (o : Operation) :
    o.entry c basePath = o.entry c' basePath := by
  unfold entry Action.ofOperation
  simp only [h.ofParameters]

/-- Only the set of the names of schemas matters to a converter. -/
theorem agree_converterFor {doc doc' : ApiDocument}
    (h : ∀ n, n ∈ doc.schemas.map Prod.fst ↔ n ∈ doc'.schemas.map Prod.fst) :
    (converterFor doc).Agree (converterFor doc') :=
  Converter.agree_forSchemas h

-- ==================================================== the faults of a build

theorem of?_commonTypes_schemaMembers (doc : ApiDocument) :
    Fault.of? (c.commonTypes (schemaMembers doc)) =
      doc.schemas.findSome? fun s => Fault.of? (c.convertTop (.text s.1) s.2) := by
  unfold Converter.commonTypes schemaMembers
  rw [Fault.of?_mapM, List.findSome?_map]
  exact Fault.findSome?_congr fun s _ => Fault.of?_bind_pure fun t => (Scalar.text s.1, t)

variable {doc : ApiDocument} {namespaceName base : Value}

/-- A build has the fault of the first part that has one. The parts are mapped on their
own, below any base path. -/
theorem of?_outcome_build_parts (basePath : String) :
    Fault.of? (build doc namespaceName base).outcome =
      (Fault.of? (pathsOf doc)).or
        ((Fault.of? (Namespace.ofValue namespaceName)).or
          ((Fault.of? (BasePath.resolve doc.servers base)).or
            (((Operation.ofPaths (doc.paths.getD [])).findSome? fun o =>
                Fault.of? (o.entry (converterFor doc) basePath)).or
              (doc.schemas.findSome? fun s =>
                Fault.of? ((converterFor doc).convertTop (.text s.1) s.2))))) := by
  rw [outcome_build]
  refine Fault.of?_bind fun paths hpaths => ?_
  have hpaths : doc.paths.getD [] = paths := by
    unfold pathsOf at hpaths
    split at hpaths
    · next heq =>
      cases hpaths
      rw [heq, Option.getD_some]
    · cases hpaths
  refine Fault.of?_bind fun name _ => Fault.of?_bind fun resolved _ => ?_
  have hentries : Fault.of? ((Operation.ofPaths paths).mapM
      (Operation.entry (converterFor doc) resolved)) =
        (Operation.ofPaths paths).findSome? fun o =>
          Fault.of? (o.entry (converterFor doc) basePath) := by
    rw [Fault.of?_mapM]
    exact Fault.findSome?_congr fun o _ => o.of?_entry_base resolved basePath
  rw [hpaths, ← hentries, ← of?_commonTypes_schemaMembers]
  exact Fault.of?_bind fun entries _ => Fault.of?_bind_pure (ofEntries doc name entries)

/-- Which fault a build has, and when it has none. It is the first of these: that there
are no paths; that of the namespace; that of the base path; that of the first operation
that cannot be entered on its own, path by path and verb by verb; and that of the first
component schema that cannot be converted on its own. So a build succeeds exactly if each
of these does. What an operation or a component schema comes to depends on no other one,
but only on which names component schemas have. -/
theorem faults_of_build (doc : ApiDocument) (namespaceName base : Value) :
    (∀ basePath, Fault.of? (build doc namespaceName base).outcome =
      (Fault.of? (pathsOf doc)).or
        ((Fault.of? (Namespace.ofValue namespaceName)).or
          ((Fault.of? (BasePath.resolve doc.servers base)).or
            (((Operation.ofPaths (doc.paths.getD [])).findSome? fun o =>
                Fault.of? (o.entry (converterFor doc) basePath)).or
              (doc.schemas.findSome? fun s =>
                Fault.of? ((converterFor doc).convertTop (.text s.1) s.2)))))) ∧
    (∀ basePath, (∃ s, (build doc namespaceName base).outcome = .ok s) ↔
      (∃ paths, doc.paths = some paths ∧
        ∀ o ∈ Operation.ofPaths paths, ∃ e, o.entry (converterFor doc) basePath = .ok e) ∧
      (∃ name, Namespace.ofValue namespaceName = .ok name) ∧
      (∃ resolved, BasePath.resolve doc.servers base = .ok resolved) ∧
      ∀ s ∈ doc.schemas, ∃ t, (converterFor doc).convertTop (.text s.1) s.2 = .ok t) ∧
    ∀ doc' : ApiDocument, (∀ n, n ∈ doc.schemas.map Prod.fst ↔ n ∈ doc'.schemas.map Prod.fst) →
      (∀ o basePath, Operation.entry (converterFor doc) basePath o =
        o.entry (converterFor doc') basePath) ∧
      ∀ name schema, (converterFor doc).convertTop name schema =
        (converterFor doc').convertTop name schema := by
  refine ⟨fun basePath => of?_outcome_build_parts basePath, fun basePath => ?_,
    fun doc' hnames => ⟨fun o basePath => ?_, fun name schema => ?_⟩⟩
  · rw [Fault.exists_ok_iff, of?_outcome_build_parts basePath]
    simp only [Fault.exists_ok_iff, Option.or_eq_none_iff, List.findSome?_eq_none_iff]
    unfold pathsOf
    cases doc.paths with
    | none => simp
    | some paths => simp [and_left_comm]
  · exact o.entry_congr (agree_converterFor hnames) basePath
  · exact (agree_converterFor hnames).convertTop name schema

end CedarSchema

end ApiAuthz
