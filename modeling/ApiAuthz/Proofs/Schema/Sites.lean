/-
Where a build looks at a document. A `Site` is a place together with what stands
there: the namespace, the servers, an operation, a list of parameters, a
parameter, a schema node, and so on. `CedarSchema.sites` lists the sites of a
document in the order in which they are looked at, and a build fails exactly if
something is wrong at one of them, with the fault of the first
(`of?_outcome_build`).

What stands at a site is judged on its own: nothing that was built before has a
say in it, apart from the names of the component schemas.

# The order

Within an operation both lists of parameters come first, as lists, then the
parameters one by one, those of the path item in front; then the extension and the
name. A parameter is asked whether it has a location of the context before its
schema is looked at, and only then for its name (`Site.ofParameter`,
`addParameter_eq`). A schema has the sites of its nodes, as conversion visits them
(`Site.ofSchema`, `Proofs/Schema/Positions`).

# The chain

Each function of the build has a lemma that gives its fault as a search along the
sites of what it reads (`of?_convertTop`, `of?_addParameter`, `of?_ofParameters`,
`of?_ofOperation`, `firstFault_ofPathItem`, `of?_assemble`). Steps one behind the
other search one list after the other (`Proofs/FirstFault`). An action whose name
is no key is found when it is entered, and as actions are entered while they are
mapped this is the last site of its operation (`firstFault_ofVerb`).
-/
import ApiAuthz.Proofs.Schema.Building
import ApiAuthz.Proofs.Schema.Positions

namespace ApiAuthz

-- ==================================================== parameters

namespace Context

variable {c : Converter}

/-- What is asked of a parameter before its schema is converted: whether it has a
location that is part of the context. -/
def locationOf (parameter : Value) : Attempt (Option Location) :=
  if !parameter.isMap then Fault.report (.notParameter parameter)
  else
    match parameter.field? "$ref" with
    | some ref => Fault.report (.parameterRef ref)
    | none =>
      let missing := requiredFields.filter fun f => (parameter.field f).isBlank
      if !missing.isEmpty then
        Fault.report (.incompleteParameter (parameter.field? "name") missing)
      else
        match (parameter.field "in").key? with
        | none => Fault.wrongKind
        | some place => .ok (Location.ofKey? place)

/-- A parameter of the context has its schema converted, then its name has to be
a key. -/
theorem addParameter_eq (context : Context) (parameter : Value) :
    addParameter c context parameter = locationOf parameter >>= fun location? =>
      match location? with
      | none => .ok context
      | some location => do
        let type ← c.convertTop (parameter.field "name") (parameter.field "schema")
        match (parameter.field "name").key? with
        | none => Fault.wrongKind
        | some key =>
          return context.put location key ⟨type, (parameter.field "required").truthy⟩ := by
  unfold addParameter locationOf
  cases parameter.isMap with
  | false => rfl
  | true =>
      cases parameter.field? "$ref" with
      | some ref => rfl
      | none =>
          simp only
          cases (requiredFields.filter fun f => (parameter.field f).isBlank).isEmpty with
          | false => rfl
          | true =>
              cases (parameter.field "in").key? with
              | none => rfl
              | some place =>
                  cases Location.ofKey? place with
                  | none => rfl
                  | some location => rfl

end Context

-- ==================================================== sites

/-- A place that is looked at, and what stands there. -/
inductive Site where
  | paths (paths : Option (List (String × Value)))
  | namespaceName (name : Value)
  | basePath (servers : List String) (base : Value)
  | operation (verb path : String) (body : Value)
  | parameterList (list : Value)
  | parameter (parameter : Value)
  | node (position : Position)
  /-- The extension of an operation whose action has this name. -/
  | resourceTypes (body action : Value)
  /-- A name that has to be a key. -/
  | key (name : Value)

namespace Site

/-- What is wrong with a name that has to be a key. -/
def keyFault (name : Value) : Option Fault :=
  if name.key?.isSome then none else some (.misused .wrongKind)

/-- What is wrong at a site on its own. -/
def fault (c : Converter) : Site → Option Fault
  | .paths none => Fault.of? (Fault.report .missingPaths : Attempt Unit)
  | .paths (some _) => none
  | .namespaceName name => Fault.of? (Namespace.ofValue name)
  | .basePath servers base => Fault.of? (BasePath.resolve servers base)
  | .operation verb path body =>
    if body.isMap then none
    else Fault.of? (Fault.report (.notOperation verb (.text path)) : Attempt Unit)
  | .parameterList list => Fault.of? (Context.listed list)
  | .parameter value => Fault.of? (Context.locationOf value)
  | .node position => c.nodeFault position
  | .resourceTypes body action => Fault.of? (Action.resourceTypesOf body action)
  | .key name => keyFault name

/-- The sites of a schema at the top. -/
def ofSchema (c : Converter) (name schema : Value) : List Site :=
  (c.positions ⟨.int 0, name, schema⟩).map .node

/-- The sites of a parameter: only one of the context has its schema looked at. -/
def ofParameter (c : Converter) (value : Value) : List Site :=
  .parameter value ::
    match Context.locationOf value with
    | .ok (some _) =>
      ofSchema c (value.field "name") (value.field "schema") ++ [.key (value.field "name")]
    | _ => []

/-- The parameters in a list that may be absent. -/
def parametersIn (list : Value) : List Value :=
  match Context.listed list with
  | .ok parameters => parameters
  | .error _ => []

/-- The sites of an operation that is not empty, with the parameters of its path
item. What is no mapping is not looked into. -/
def ofOperation (c : Converter) (o : CedarSchema.Operation) : List Site :=
  let inherited := o.item.field "parameters"
  let own := o.body.field "parameters"
  let name := Action.nameOf (.text o.verb) (.text o.path) o.body
  .operation o.verb o.path o.body ::
    if o.body.isMap then
      .parameterList inherited :: .parameterList own ::
        (parametersIn inherited ++ parametersIn own).flatMap (ofParameter c) ++
          [.resourceTypes o.body name, .key name]
    else []

end Site

/-- The sites of a document, in the order in which a build looks at them. -/
def CedarSchema.sites (doc : ApiDocument) (namespaceName base : Value) : List Site :=
  let c := CedarSchema.converterFor doc
  [.paths doc.paths, .namespaceName namespaceName, .basePath doc.servers base] ++
    (CedarSchema.Operation.ofPaths (doc.paths.getD [])).flatMap (Site.ofOperation c) ++
    doc.schemas.flatMap fun s => Site.ofSchema c (.text s.1) s.2

-- ==================================================== faults of the parts

namespace Site

variable {c : Converter}

/-- The fault of a schema is the first one along its sites. -/
theorem of?_convertTop (name schema : Value) :
    Fault.of? (c.convertTop name schema) = (ofSchema c name schema).findSome? (fault c) := by
  unfold Converter.convertTop ofSchema
  rw [Converter.of?_convertAt, List.findSome?_map]
  rfl

/-- A parameter has the fault of its first site, whatever came before it. -/
theorem of?_addParameter (context : Context) (value : Value) :
    Fault.of? (Context.addParameter c context value) =
      (ofParameter c value).findSome? (fault c) := by
  unfold ofParameter
  rw [Context.addParameter_eq, Fault.findSome?_cons_or]
  refine Fault.of?_bind fun location? hlocation => ?_
  rw [hlocation]
  cases location? with
  | none => rfl
  | some location =>
      simp only
      rw [List.findSome?_append, ← of?_convertTop, List.findSome?_singleton]
      refine Fault.of?_bind fun t _ => ?_
      show _ = keyFault (value.field "name")
      unfold keyFault
      cases (value.field "name").key? with
      | none => rfl
      | some key => rfl

/-- The fault of parameters is the first one along theirs. -/
theorem of?_ofParameters (values : List Value) :
    Fault.of? (Context.ofParameters c values) =
      (values.flatMap (ofParameter c)).findSome? (fault c) := by
  rw [Fault.findSome?_flatMap]
  exact Fault.of?_foldlM of?_addParameter values Context.empty

theorem parametersIn_of_ok {list : Value} {values : List Value}
    (h : Context.listed list = .ok values) : parametersIn list = values := by
  unfold parametersIn
  rw [h]

/-- An operation is looked at list by list, then parameter by parameter, and last
at its resource types. -/
theorem of?_ofOperation {verb path base : String} {body inherited : Value}
    (h : body.isMap = true) :
    Fault.of? (Action.ofOperation c (.text verb) (.text path) body (.text base) inherited) =
      (Fault.of? (Context.listed inherited)).or
        ((Fault.of? (Context.listed (body.field "parameters"))).or
          ((((parametersIn inherited ++ parametersIn (body.field "parameters")).flatMap
            (ofParameter c)).findSome? (fault c)).or
              (Fault.of? (Action.resourceTypesOf body
                (Action.nameOf (.text verb) (.text path) body))))) := by
  unfold Action.ofOperation
  rw [h, Bool.not_true, if_neg Bool.false_ne_true]
  refine Fault.of?_bind fun parameters hparameters => Fault.of?_bind fun own hown => ?_
  rw [parametersIn_of_ok hparameters, parametersIn_of_ok hown, ← of?_ofParameters]
  refine Fault.of?_bind fun context _ => ?_
  exact Fault.of?_bind_pure fun resourceTypes =>
    (⟨_, context, resourceTypes, .text verb, UrlPath.join base path⟩ : Action)

/-- What is wrong with the name of an action. -/
def nameFault (a : Action) : Option Fault := keyFault a.name

theorem firstFault_ofAttempt {x : Attempt Action} {rest : Option Fault}
    (h : ∀ a, x = .ok a → nameFault a = rest) :
    (Progress.ofAttempt x).firstFault nameFault = (Fault.of? x).or rest := by
  cases x with
  | ok a =>
      unfold Progress.firstFault Progress.ofAttempt
      rw [List.findSome?_singleton, Option.or_none]
      exact h a rfl
  | error f => rfl

/-- A verb with an operation has the fault of its first site. -/
theorem firstFault_ofVerb {o : CedarSchema.Operation} {base : String}
    (h : o.body.truthy = true) :
    (Action.ofVerb c (.text o.path) (.text base) o.item o.verb).firstFault nameFault =
      (ofOperation c o).findSome? (fault c) := by
  unfold Action.ofVerb ofOperation
  show Progress.firstFault nameFault (if !o.body.truthy then _ else
    if !o.body.isMap then _ else _) = _
  rw [h, Bool.not_true, if_neg Bool.false_ne_true, Fault.findSome?_cons_or]
  cases hmap : o.body.isMap with
  | false =>
      show Progress.firstFault nameFault _ = (if o.body.isMap then none else _).or none
      rw [hmap, Option.or_none]
      rfl
  | true =>
      have hname : ∀ a, Action.ofOperation c (.text o.verb) (.text o.path) o.body (.text base)
          (o.item.field "parameters") = .ok a →
            nameFault a = keyFault (Action.nameOf (.text o.verb) (.text o.path) o.body) :=
        fun a ha => congrArg keyFault (Action.ofOperation_eq_ok.1 ha).name
      show Progress.firstFault nameFault _ = (if o.body.isMap then none else _).or _
      rw [hmap, if_pos rfl, if_pos rfl, Option.none_or]
      refine (firstFault_ofAttempt hname).trans ?_
      rw [of?_ofOperation hmap, List.findSome?_append, Fault.findSome?_cons_or,
        Fault.findSome?_cons_or, Fault.findSome?_cons_or, List.findSome?_singleton]
      simp only [Option.or_assoc]
      rfl

theorem firstFault_ofVerb_of_not_truthy {path base : String} {item : Value} {verb : String}
    (h : (item.field verb).truthy = false) :
    (Action.ofVerb c (.text path) (.text base) item verb).firstFault nameFault = none := by
  unfold Action.ofVerb
  show Progress.firstFault nameFault (if !(item.field verb).truthy then _ else _) = _
  rw [h, Bool.not_false, if_pos rfl]
  rfl

/-- A path item has the fault of the first of its operations that has one. -/
theorem firstFault_ofPathItem {path base : String} {item : Value} :
    (Action.ofPathItem c (.text path) (.text base) item).firstFault nameFault =
      ((Action.mappedVerbs item).map fun verb => ⟨path, item, verb⟩).findSome? fun o =>
        (ofOperation c o).findSome? (fault c) := by
  unfold Action.ofPathItem Action.mappedVerbs
  cases item.members? with
  | none => rfl
  | some ms =>
      simp only
      rw [Progress.firstFault_through, List.findSome?_map]
      induction Action.verbsOf ms with
      | nil => rfl
      | cons verb verbs ih =>
          rw [Fault.findSome?_cons_or, ih, List.filter_cons]
          cases htruthy : (item.field verb).truthy with
          | false =>
              rw [firstFault_ofVerb_of_not_truthy htruthy, Option.none_or,
                if_neg Bool.false_ne_true]
          | true =>
              rw [if_pos rfl, Fault.findSome?_cons_or]
              exact congrArg (Option.or · _) (firstFault_ofVerb (o := ⟨path, item, verb⟩) htruthy)

end Site

namespace CedarSchema

variable {doc : ApiDocument} {namespaceName base : Value}

/-- A table of actions has a fault where a name cannot be a key. -/
theorem of?_tableOf (actions : List Action) :
    Fault.of? (tableOf actions) = actions.findSome? Site.nameFault := by
  refine Fault.of?_foldlM (fun table a => ?_) actions []
  unfold Site.nameFault Site.keyFault
  cases a.name.key? with
  | none => rfl
  | some key => rfl

/-- All operations are entered and mapped before the component schemas are
converted, so a bad name comes before whatever is wrong further down. -/
theorem of?_assemble (name : String) (mapped : Progress Action) :
    Fault.of? (assemble doc name mapped) =
      (mapped.firstFault Site.nameFault).or
        (Fault.of? ((converterFor doc).commonTypes (schemaMembers doc))) := by
  unfold assemble Progress.firstFault
  rw [Option.or_assoc, ← of?_tableOf]
  refine Fault.of?_bind fun actions _ => ?_
  have hall : Fault.of? mapped.all = mapped.stop := by
    unfold Progress.all
    cases mapped.stop with
    | none => rfl
    | some f => rfl
  rw [← hall]
  refine Fault.of?_bind fun all _ => ?_
  exact Fault.of?_bind_pure fun commonTypes =>
    (⟨name, EntityType.table (doc.schemas.map Prod.fst) all, actions, commonTypes⟩ : CedarSchema)

/-- The first fault of all operations, each with its name behind it. -/
theorem firstFault_mappedActions {c : Converter} {b : String} (paths : List (String × Value)) :
    ((mappedActions c b paths).map Prod.snd).firstFault Site.nameFault =
      ((Operation.ofPaths paths).flatMap (Site.ofOperation c)).findSome? (Site.fault c) := by
  unfold mappedActions Operation.ofPaths
  rw [Progress.firstFault_map, Progress.firstFault_through, Fault.findSome?_flatMap,
    Fault.findSome?_flatMap]
  refine Fault.findSome?_congr fun p _ => ?_
  rw [Progress.firstFault_map]
  exact Site.firstFault_ofPathItem

/-- The first fault of all common types. -/
theorem of?_commonTypes :
    Fault.of? ((converterFor doc).commonTypes (schemaMembers doc)) =
      (doc.schemas.flatMap fun s => Site.ofSchema (converterFor doc) (.text s.1) s.2).findSome?
        (Site.fault (converterFor doc)) := by
  unfold Converter.commonTypes schemaMembers
  rw [Fault.of?_mapM, List.findSome?_map, Fault.findSome?_flatMap]
  refine Fault.findSome?_congr fun s _ => ?_
  rw [← Site.of?_convertTop]
  exact Fault.of?_bind_pure fun t => (Scalar.text s.1, t)

/-- The first fault of what is looked at before anything is mapped. -/
theorem of?_preconditions :
    Fault.of? (preconditions doc namespaceName base) =
      [Site.paths doc.paths, .namespaceName namespaceName, .basePath doc.servers base].findSome?
        (Site.fault (converterFor doc)) := by
  rw [Fault.findSome?_cons_or, Fault.findSome?_cons_or, List.findSome?_singleton]
  unfold preconditions
  cases doc.paths with
  | none => rfl
  | some paths =>
      simp only [Site.fault, Option.none_or]
      exact Fault.of?_bind fun name _ => Fault.of?_bind_pure fun b => (paths, name, b)

/-- A build has the fault of the first site that has one. -/
theorem of?_outcome_build :
    Fault.of? (build doc namespaceName base).outcome =
      (sites doc namespaceName base).findSome? (Site.fault (converterFor doc)) := by
  unfold sites
  rw [List.findSome?_append, List.findSome?_append, ← of?_commonTypes, ← of?_preconditions]
  cases h : preconditions doc namespaceName base with
  | error f =>
      rw [outcome_build_of_error h]
      rfl
  | ok pre =>
      obtain ⟨paths, name, b⟩ := pre
      rw [outcome_build_of_ok h, of?_assemble, firstFault_mappedActions,
        (preconditions_eq_ok.1 h).1]
      rfl

end CedarSchema

end ApiAuthz
