/-
What a generated schema owes to the paths and component schemas of a document, and what to
the namespace, the servers, the base path and the mapping type. The first make the core of
a schema (`core`); the others only name it and put a base path in front of its path
templates (`under`, `build_eq_ok_under`). So they have no say in what can be generated, as
long as each is accepted on its own.

`SharedBody` is what is left of both variants once these are taken off. It has the plain
body, and for a mapping type and a base path the annotated one.

# The core

The core is built with no base path at all. Entries made below a base path are those of the
core with the base path put in front (`mapM_entry_below`), and the table they are put into
has its names from the entries (`ofEntries_below`), so a build under a choice is the core under
what the choice comes to. The core is the same for all choices, and it is the only part that
can fail beside the choice itself (`Choice.Accepted`).

# Written and read

What is shared is taken once as it is written and once as it is read, for names of actions are
read as texts and two of them may then be one. Both bodies are made of the core by the same
forms (`writtenBody`, `sharedBody`), and of the choice only the namespace, the mapping type and
the leading base path occur beside them. Whether there is a text at all is no matter of the
choice either: texts can always be written (`writable_annotated`).
-/
import ApiAuthz.Proofs.Json.Writability
import ApiAuthz.Proofs.Schema.Composition
import ApiAuthz.Proofs.Schema.EntityNames
import ApiAuthz.Proofs.Schema.Variants
import ApiAuthz.Proofs.UrlPath

namespace ApiAuthz

open UrlPath (lead)

namespace CedarSchema

-- ==================================================== the core of a schema

/-- The schema of a document without a namespace, its path templates below no base path. -/
def core (doc : ApiDocument) : Attempt CedarSchema := do
  let paths ← pathsOf doc
  let entries ← (Operation.ofPaths paths).mapM (Operation.entry (converterFor doc) "")
  let commonTypes ← (converterFor doc).commonTypes (schemaMembers doc)
  return ofEntries doc "" entries commonTypes

/-- The schema under a namespace, its path templates below a base path. -/
def under (name basePath : String) (s : CedarSchema) : CedarSchema :=
  { s with
    namespaceName := name
    actions := s.actions.map fun a => (a.1, a.2.below basePath) }

variable {doc : ApiDocument} {namespaceName base : Value} {s : CedarSchema}
  {name basePath : String}

/-- Putting a base path in front of entries is putting it in front in the schema. -/
theorem ofEntries_below (doc : ApiDocument) (name basePath : String)
    (entries : List (Scalar × Action)) (commonTypes : Members CedarType) :
    ofEntries doc name (entries.map fun e => (e.1, e.2.below basePath)) commonTypes =
      (ofEntries doc "" entries commonTypes).under name basePath := by
  have hnames : EntityType.appliedNames
      ((entries.map fun e => (e.1, e.2.below basePath)).map Prod.snd) =
        EntityType.appliedNames (entries.map Prod.snd) := by
    unfold EntityType.appliedNames
    rw [List.map_map, List.flatMap_map, List.flatMap_map]
    rfl
  unfold ofEntries under
  rw [EntityType.table_eq, EntityType.table_eq, hnames, Members.ofEntries_map]

/-- Entries are mapped without a base path, which is put in front afterwards. -/
theorem mapM_entry_below (c : Converter) (basePath : String) (os : List Operation) :
    os.mapM (Operation.entry c basePath) =
      (os.mapM (Operation.entry c "")).map (List.map fun e => (e.1, e.2.below basePath)) := by
  induction os with
  | nil => rfl
  | cons o os ih =>
      rw [List.mapM_cons, List.mapM_cons, ih, o.entry_below basePath]
      cases o.entry c "" with
      | error f => rfl
      | ok e =>
          cases os.mapM (Operation.entry c "") with
          | error f => rfl
          | ok entries => rfl

/-- A build succeeds exactly if namespace and base path are accepted and the document has
a core, and then with that core under the namespace, below the base path. -/
theorem build_eq_ok_under : (build doc namespaceName base).outcome = .ok s ↔
    ∃ name basePath t, Namespace.ofValue namespaceName = .ok name ∧
      BasePath.resolve doc.servers base = .ok basePath ∧ core doc = .ok t ∧
      s = t.under name basePath := by
  rw [outcome_build]
  constructor
  · intro h
    obtain ⟨paths, hpaths, h⟩ := Attempt.bind_eq_ok.1 h
    obtain ⟨name, hname, h⟩ := Attempt.bind_eq_ok.1 h
    obtain ⟨basePath, hbase, h⟩ := Attempt.bind_eq_ok.1 h
    obtain ⟨entries, hentries, h⟩ := Attempt.bind_eq_ok.1 h
    obtain ⟨types, htypes, h⟩ := Attempt.bind_eq_ok.1 h
    rw [mapM_entry_below] at hentries
    obtain ⟨bare, hbare, rfl⟩ := Attempt.map_eq_ok.1 hentries
    have hcore : core doc = .ok (ofEntries doc "" bare types) :=
      Attempt.bind_eq_ok.2 ⟨paths, hpaths, Attempt.bind_eq_ok.2 ⟨bare, hbare,
        Attempt.bind_eq_ok.2 ⟨types, htypes, rfl⟩⟩⟩
    refine ⟨name, basePath, _, hname, hbase, hcore, ?_⟩
    rw [← ofEntries_below]
    exact (Attempt.pure_eq_ok.1 h).symm
  · rintro ⟨name, basePath, t, hname, hbase, hcore, rfl⟩
    obtain ⟨paths, hpaths, hcore⟩ := Attempt.bind_eq_ok.1 hcore
    obtain ⟨entries, hentries, hcore⟩ := Attempt.bind_eq_ok.1 hcore
    obtain ⟨types, htypes, hcore⟩ := Attempt.bind_eq_ok.1 hcore
    obtain rfl := Attempt.pure_eq_ok.1 hcore
    have hbelow := mapM_entry_below (converterFor doc) basePath (Operation.ofPaths paths)
    rw [hentries] at hbelow
    rw [← ofEntries_below]
    refine Attempt.bind_eq_ok.2 ⟨paths, hpaths, Attempt.bind_eq_ok.2 ⟨name, hname, ?_⟩⟩
    refine Attempt.bind_eq_ok.2 ⟨basePath, hbase, Attempt.bind_eq_ok.2 ⟨_, hbelow, ?_⟩⟩
    exact Attempt.bind_eq_ok.2 ⟨types, htypes, rfl⟩

end CedarSchema

-- ==================================================== what all variants share

/-- An action but for the base path: its name, what it applies to, and its request. -/
structure SharedAction (ε : Type := Empty) where
  key : Scalar ε
  appliesTo : Value ε
  verb : Value ε
  template : String

/-- What is under the namespace of a schema but for mapping type and base path: of texts alone
where it is written, and of whatever the reader may give where it is read. -/
structure SharedBody (ε : Type := Empty) where
  entityTypes : Value ε
  actions : List (SharedAction ε)
  commonTypes : Value ε

namespace SharedBody

variable {ε : Type}

/-- The body without annotations. -/
def plain (b : SharedBody ε) : Value ε :=
  .object [("entityTypes", b.entityTypes),
    ("actions", .map (b.actions.map fun a => (a.key, .object [("appliesTo", a.appliesTo)]))),
    ("commonTypes", b.commonTypes)]

/-- The body with annotations, for a mapping type and a base path. -/
def annotated (b : SharedBody ε) (mappingType basePath : String) : Value ε :=
  .object [("entityTypes", b.entityTypes),
    ("actions", .map (b.actions.map fun a => (a.key, .object
      [("appliesTo", a.appliesTo),
       ("annotations", .object [("httpVerb", a.verb),
         ("httpPathTemplate", .text (String.ofList (lead basePath ++ a.template.toList)))])]))),
    ("commonTypes", b.commonTypes),
    ("annotations", .object [("mappingType", .text mappingType)])]

/-- What can be annotated in one way can be in any. -/
theorem writable_annotated (b : SharedBody) (mappingType basePath mappingType' basePath' : String) :
    (b.annotated mappingType basePath).Writable ↔
      (b.annotated mappingType' basePath').Writable := by
  unfold annotated
  simp only [Value.writable_object, Value.writable_map, List.forall_mem_cons, List.forall_mem_map,
    Value.writable_text]

end SharedBody

namespace Action

/-- What an action applies to, as it is written in both variants. -/
def appliesTo (a : Action) : Value :=
  .object [("context", a.context.toValue), ("principalTypes", .texts principalTypes),
    ("resourceTypes", .texts a.resourceTypes)]

/-- The base path shows in the template alone. -/
theorem annotations_below {basePath : String} (h : UrlPath.Clean (lead basePath)) (a : Action) :
    (a.below basePath).annotations = .object [("httpVerb", a.verb),
      ("httpPathTemplate", .text (String.ofList (lead basePath ++ a.pathTemplate.toList)))] := by
  unfold annotations below
  rw [UrlPath.stripRight_eq_lead h]

end Action

namespace CedarSchema

variable {s : CedarSchema} {name basePath : String}

/-- What variants of a schema share as they are written. -/
def writtenBody (s : CedarSchema) : SharedBody where
  entityTypes := .object (s.entityTypes.map fun e => (e.1, e.2.toValue))
  actions := s.actions.map fun a => ⟨a.1, a.2.appliesTo, a.2.verb, a.2.pathTemplate⟩
  commonTypes := .map (s.commonTypes.map fun t => (t.1, t.2.toValue))

/-- What variants of a schema share as they are read. -/
def sharedBody (s : CedarSchema) : SharedBody Broken where
  entityTypes := s.writtenBody.entityTypes.readBack
  actions := s.readActions.map fun a =>
    ⟨a.1, a.2.appliesTo.readBack, a.2.verb.readBack, a.2.pathTemplate⟩
  commonTypes := s.writtenBody.commonTypes.readBack

/-- Without annotations nothing of a choice but its name is written. -/
theorem plainDocument_under (s : CedarSchema) (name basePath : String) :
    (s.under name basePath).plainDocument = .object [(name, s.writtenBody.plain)] := by
  unfold plainDocument bodyWith under writtenBody SharedBody.plain
  simp only [List.map_map]
  rfl

/-- With them what is written of a choice is the kind of mapping and the base path. -/
theorem annotatedDocument_under (h : UrlPath.Clean (lead basePath)) (s : CedarSchema)
    (name mappingType : String) :
    (s.under name basePath).annotatedDocument [(.text "mappingType", .text mappingType)] =
      .object [(name, s.writtenBody.annotated mappingType basePath)] := by
  unfold annotatedDocument bodyWith under writtenBody SharedBody.annotated
  simp only [List.map_map, Function.comp_def, Action.annotatedDefinition,
    Action.annotations_below h]
  rfl

/-- So it is with what is read back. -/
theorem readActions_under (s : CedarSchema) (name basePath : String) :
    (s.under name basePath).readActions =
      s.readActions.map fun a => (a.1, a.2.below basePath) := by
  unfold readActions under
  rw [← Members.ofEntries_map, List.map_map, List.map_map]
  rfl

/-- The plain form is read back as the shared body under its name. -/
theorem readBack_plainDocument_under (s : CedarSchema) (name basePath : String) :
    (s.under name basePath).plainDocument.readBack = .object [(name, s.sharedBody.plain)] := by
  rw [readBack_plainDocument]
  unfold readBody
  rw [readActions_under]
  unfold sharedBody SharedBody.plain
  simp only [List.map_map, Function.comp_def, Action.readBack_definition]
  rfl

/-- The annotated form is read back as the shared body with the choice in it. -/
theorem readBack_annotatedDocument_under (h : UrlPath.Clean (lead basePath)) (s : CedarSchema)
    (name mappingType : String) :
    ((s.under name basePath).annotatedDocument
        [(.text "mappingType", .text mappingType)]).readBack =
      .object [(name, s.sharedBody.annotated mappingType basePath)] := by
  have hannotations (a : Action) : (a.below basePath).annotations.readBack =
      .object [("httpVerb", a.verb.readBack),
        ("httpPathTemplate", .text (String.ofList (lead basePath ++ a.pathTemplate.toList)))] := by
    rw [Action.annotations_below h, Value.readBack_object (by simp)]
    rfl
  rw [readBack_annotatedDocument]
  unfold readBody
  rw [readActions_under]
  unfold sharedBody SharedBody.annotated
  simp only [List.map_map, Function.comp_def, Action.readBack_annotatedDefinition, hannotations]
  rfl

end CedarSchema

-- ==================================================== choices of the caller

namespace Generated

open CedarSchema

/-- What a caller chooses beside paths and component schemas. -/
structure Choice where
  servers : List String
  namespaceName : Value
  mappingType : Value
  base : Value

namespace Choice

/-- What is generated for paths and component schemas under a choice. -/
def generate (c : Choice) (paths : Option (List (String × Value)))
    (schemas : List (String × Value)) : Attempt Generated :=
  (ofDocument ⟨paths, c.servers, schemas⟩ c.namespaceName c.mappingType c.base).outcome

/-- A choice is accepted without a look at paths and component schemas, for the namespace
that it names and the base path that it comes to. -/
structure Accepted (c : Choice) (name basePath : String) : Prop where
  namespace_eq : Namespace.ofValue c.namespaceName = .ok name
  base_eq : BasePath.resolve c.servers c.base = .ok basePath
  mappingType_eq : c.mappingType = .text simpleRest

variable {c : Choice} {paths : Option (List (String × Value))} {schemas : List (String × Value)}
  {g : Generated} {name basePath : String}

/-- A choice is accepted with one name and one base path. -/
theorem Accepted.unique (h : c.Accepted name basePath) {name' basePath' : String}
    (h' : c.Accepted name' basePath') : name = name' ∧ basePath = basePath' :=
  ⟨Except.ok.inj (h.namespace_eq.symm.trans h'.namespace_eq),
    Except.ok.inj (h.base_eq.symm.trans h'.base_eq)⟩

/-- What is generated is the core of paths and component schemas, written for an accepted
choice. -/
theorem generate_eq_ok : c.generate paths schemas = .ok g ↔
    ∃ name basePath s, c.Accepted name basePath ∧ core ⟨paths, [], schemas⟩ = .ok s ∧
      g.mappingType = simpleRest ∧
      Json.indented 2 (.object [(name, s.writtenBody.plain)]) = .ok g.plain ∧
      Json.indented 2 (.object [(name, s.writtenBody.annotated simpleRest basePath)]) =
        .ok g.annotated := by
  unfold generate
  rw [outcome_ofDocument_eq_ok_written]
  simp only [build_eq_ok_under]
  constructor
  · rintro ⟨s, ⟨name, basePath, t, hname, hbase, ht, rfl⟩, htype, hg, hplain, hannotated⟩
    rw [plainDocument_under] at hplain
    rw [annotatedDocument_under (BasePath.clean_lead_of_resolve hbase)] at hannotated
    exact ⟨name, basePath, t, ⟨hname, hbase, htype⟩, ht, hg, hplain, hannotated⟩
  · rintro ⟨name, basePath, t, ⟨hname, hbase, htype⟩, ht, hg, hplain, hannotated⟩
    rw [← plainDocument_under t name basePath] at hplain
    rw [← annotatedDocument_under (BasePath.clean_lead_of_resolve hbase)] at hannotated
    exact ⟨_, ⟨name, basePath, t, hname, hbase, ht, rfl⟩, htype, hg, hplain, hannotated⟩

/-- Both variants are read as the shared body of a core, for the choice. -/
theorem reads_of_generate {s : CedarSchema} (hs : core ⟨paths, [], schemas⟩ = .ok s)
    (hc : c.Accepted name basePath) (h : c.generate paths schemas = .ok g) :
    Json.read g.plain.toList = .ok (.object [(name, s.sharedBody.plain)]) ∧
      Json.read g.annotated.toList =
        .ok (.object [(name, s.sharedBody.annotated simpleRest basePath)]) := by
  obtain ⟨t, ht, hplain, hannotated⟩ := reads_of_ofDocument h
  obtain ⟨name', basePath', u, hname, hbase, hu, rfl⟩ := build_eq_ok_under.1 ht
  obtain ⟨rfl, rfl⟩ := hc.unique ⟨hname, hbase, hc.mappingType_eq⟩
  obtain rfl : s = u := Except.ok.inj (hs.symm.trans hu)
  constructor
  · rw [hplain, ← readBack_plainDocument, readBack_plainDocument_under]
  · rw [hannotated]
    refine congrArg Except.ok (Eq.trans ?_
      (readBack_annotatedDocument_under (BasePath.clean_lead_of_resolve hbase) s name simpleRest))
    exact (readBack_annotatedDocument _ _).symm

/-- What caller and document contribute to what is generated is apart. Where paths and
component schemas can be generated under one choice, they can be under exactly the choices
that are accepted on their own. And then all that is generated has the same body: in the
plain variant as it is, under the namespace; in the annotated one with the mapping type, and
with the base path in front of every path template, where an empty base path and the root
are nothing. This holds of the texts and of what is read from them. -/
theorem separated_of_generate (h : c.generate paths schemas = .ok g) :
    ∃ (written : SharedBody) (read : SharedBody Broken), ∀ c' : Choice,
      ((∃ g', c'.generate paths schemas = .ok g') ↔ ∃ name basePath, c'.Accepted name basePath) ∧
      ∀ g', c'.generate paths schemas = .ok g' → ∃ name basePath, c'.Accepted name basePath ∧
        g'.mappingType = simpleRest ∧
        Json.indented 2 (.object [(name, written.plain)]) = .ok g'.plain ∧
        Json.indented 2 (.object [(name, written.annotated simpleRest basePath)]) =
          .ok g'.annotated ∧
        Json.read g'.plain.toList = .ok (.object [(name, read.plain)]) ∧
        Json.read g'.annotated.toList =
          .ok (.object [(name, read.annotated simpleRest basePath)]) := by
  obtain ⟨name, basePath, s, hc, hs, -, hplain, hannotated⟩ := generate_eq_ok.1 h
  refine ⟨s.writtenBody, s.sharedBody, fun c' => ⟨⟨?_, ?_⟩, ?_⟩⟩
  · rintro ⟨g', h'⟩
    obtain ⟨name', basePath', -, hc', -⟩ := generate_eq_ok.1 h'
    exact ⟨name', basePath', hc'⟩
  · rintro ⟨name', basePath', hc'⟩
    -- the bodies were written once, and what is chosen for them is text
    have hwritable : s.writtenBody.plain.Writable :=
      Value.writable_object_singleton.1 (Json.exists_indented_iff.1 ⟨_, hplain⟩)
    have hwritable' : (s.writtenBody.annotated simpleRest basePath').Writable :=
      (SharedBody.writable_annotated ..).1
        (Value.writable_object_singleton.1 (Json.exists_indented_iff.1 ⟨_, hannotated⟩))
    obtain ⟨plain, hplain'⟩ :=
      Json.exists_indented_iff.2 (Value.writable_object_singleton.2 hwritable)
    obtain ⟨annotated, hannotated'⟩ :=
      Json.exists_indented_iff.2 (Value.writable_object_singleton.2 hwritable')
    exact ⟨⟨simpleRest, plain, annotated⟩,
      generate_eq_ok.2 ⟨name', basePath', s, hc', hs, rfl, hplain', hannotated'⟩⟩
  · intro g' h'
    obtain ⟨name', basePath', t, hc', ht, htype, hplain', hannotated'⟩ := generate_eq_ok.1 h'
    obtain rfl : s = t := Except.ok.inj (hs.symm.trans ht)
    obtain ⟨hreadPlain, hreadAnnotated⟩ := reads_of_generate hs hc' h'
    exact ⟨name', basePath', hc', htype, hplain', hannotated', hreadPlain, hreadAnnotated⟩

/-- One server at the root, and a namespace of one component. -/
def rootServed : Choice where
  servers := ["https://api.example.com"]
  namespaceName := .text "NS"
  mappingType := .text "SimpleRest"
  base := .null

/-- Two servers, the second one chosen, and a namespace of two components. -/
def secondServed : Choice where
  servers := ["https://api.example.com/v1", "https://api.example.com/v2"]
  namespaceName := .text "Apps::Notes"
  mappingType := .text "SimpleRest"
  base := .text "v2"

/-- The paths of an API of notes, whose resource type is in a namespace of its own. -/
def notesPaths : List (String × Value) :=
  [("/notes", .object [("get", .object [("operationId", .text "listNotes"),
    ("x-cedar", .object [("appliesToResourceTypes", .list [.text "Apps::Notes::Note"])])])])]

/-- The component schemas of an API of notes. -/
def notesSchemas : List (String × Value) :=
  [("Note", .object [("type", .text "object"),
    ("properties", .object [("title", .object [("type", .text "string")])])])]

/-- Two choices for the same operations share what is read. -/
theorem separated_of_generate_notes :
    ∃ read : SharedBody Broken, ∃ g g',
      rootServed.generate (some notesPaths) notesSchemas = .ok g ∧
      secondServed.generate (some notesPaths) notesSchemas = .ok g' ∧
      Json.read g.plain.toList = .ok (.object [("NS", read.plain)]) ∧
      Json.read g'.plain.toList = .ok (.object [("Apps::Notes", read.plain)]) ∧
      Json.read g.annotated.toList =
        .ok (.object [("NS", read.annotated "SimpleRest" "/")]) ∧
      Json.read g'.annotated.toList =
        .ok (.object [("Apps::Notes", read.annotated "SimpleRest" "/v2")]) := by
  obtain ⟨g, hg⟩ := Attempt.exists_eq_ok
    (by decide +kernel : (rootServed.generate (some notesPaths) notesSchemas).isOk = true)
  have hroot : rootServed.Accepted "NS" "/" := ⟨rfl, rfl, rfl⟩
  have hsecond : secondServed.Accepted "Apps::Notes" "/v2" :=
    ⟨rfl, rfl, rfl⟩
  obtain ⟨_, read, hall⟩ := separated_of_generate hg
  obtain ⟨g', hg'⟩ := (hall secondServed).1.2 ⟨_, _, hsecond⟩
  obtain ⟨_, _, hc, -, -, -, hplain, hannotated⟩ := (hall rootServed).2 g hg
  obtain ⟨_, _, hc', -, -, -, hplain', hannotated'⟩ := (hall secondServed).2 g' hg'
  obtain ⟨rfl, rfl⟩ := hroot.unique hc
  obtain ⟨rfl, rfl⟩ := hsecond.unique hc'
  exact ⟨read, g, g', hg, hg', hplain, hplain', hannotated, hannotated'⟩

end Choice

end Generated

end ApiAuthz
