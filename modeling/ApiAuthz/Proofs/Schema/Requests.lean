/-
The requests that actions stand for. An action is annotated with the verb and the
path template of its operation, the template below the base path of the API
(`annotations_of_yields`). A verb and such a template tell the operation up to a slash
in front of its own template, because joining is injective up to that slash and no
verb of a path is mapped twice (`Operation.eq_or_slashed_of_request_eq`).

An action of a schema stands under a key that is the same as its name
(`BuiltFrom.same_name`), so the operation also tells the action.

# Below a base path

A base path has been sanitized before anything is joined to it, so it has no slash at
its end and no two in a row (`UrlPath.Clean`, `UrlPath.lead`). In front of a template it
adds none: `Below` says that the joined template starts with a slash, has two in a row
only where the template has them, and gives the template back when the base path is
dropped from it.

The template itself is written with a slash in front if it has none. Templates with and
without that slash are different paths of a document but the same request, and the only
ones that are (`Operation.request_inj`).
-/
import ApiAuthz.Proofs.Schema.Naming
import ApiAuthz.Proofs.UrlPath
import Mathlib.Data.List.Pairwise

namespace ApiAuthz.CedarSchema

open UrlPath (lead rooted Doubled IsUnslashed)

-- ==================================================== requests of operations

/-- A path template below a base path. -/
def templateBelow (basePath path : String) : List Char := lead basePath ++ rooted path.toList

/-- The verb and the path template of an operation, as annotations name them. -/
def Operation.request (basePath : String) (o : Operation) : Value :=
  .object [("httpVerb", .text o.verb),
    ("httpPathTemplate", .text (String.ofList (templateBelow basePath o.path)))]

/-- The annotations of an action are the request of its operation. -/
theorem annotations_of_yields {doc : ApiDocument} {basePath : String} {o : Operation} {a : Action}
    (hbase : UrlPath.Clean (lead basePath)) (h : Operation.Yields doc basePath o a) :
    a.annotations = o.request basePath := by
  have htemplate : UrlPath.join basePath o.path = a.pathTemplate :=
    Except.ok.inj h.pathTemplate
  unfold Action.annotations Operation.request templateBelow
  rw [h.verb, ← htemplate, UrlPath.join_eq hbase]

/-- What the template below a base path keeps of the template: it starts with a slash,
has no two slashes in a row that the template has not, and gives it back. -/
structure Below (basePath path : String) (template : List Char) : Prop where
  head : template.head? = some '/'
  doubled : Doubled template → Doubled (rooted path.toList)
  dropped : template.drop (lead basePath).length = rooted path.toList

/-- A template below a base path has it in front. -/
theorem below_templateBelow {basePath : String} (hbase : UrlPath.Clean (lead basePath))
    (path : String) : Below basePath path (templateBelow basePath path) where
  head := by
    unfold templateBelow
    rcases hbase.starts with hnil | hhead
    · rw [hnil]
      exact UrlPath.head?_rooted _
    · rw [List.head?_append, hhead, Option.some_or]
  doubled := UrlPath.doubled_of_append hbase
  dropped := List.drop_left

/-- Requests that are alike are of operations with one verb, whose path templates are
alike once rooted. -/
theorem Operation.request_inj {basePath : String} {o o' : Operation}
    (h : o.request basePath = o'.request basePath) :
    o.verb = o'.verb ∧ rooted o.path.toList = rooted o'.path.toList := by
  simp only [request, Value.object, List.map_cons, List.map_nil, Value.map.injEq,
    List.cons.injEq, Prod.mk.injEq, Value.scalar.injEq, Scalar.text.injEq, true_and, and_true,
    String.ofList_inj, templateBelow, List.append_cancel_left_eq] at h
  exact h

/-- Operations of one request are the same, or the path template of one is that of the
other behind a slash. -/
theorem Operation.eq_or_slashed_of_request_eq {paths : List (String × Value)}
    (hkeyed : Problem.KeyedNames paths) {basePath : String} {o o' : Operation}
    (ho : o ∈ ofPaths paths) (ho' : o' ∈ ofPaths paths)
    (h : o.request basePath = o'.request basePath) :
    o = o' ∨ IsUnslashed o.path.toList o'.path.toList ∨
      IsUnslashed o'.path.toList o.path.toList := by
  obtain ⟨hverb, hrooted⟩ := request_inj h
  rcases UrlPath.eq_or_slashed_of_rooted_eq hrooted with hpath | hslash
  · refine Or.inl ?_
    -- no verb of a path is mapped twice
    by_contra hne
    have hsymm : Std.Symm fun o o' : Operation => ¬(o.verb = o'.verb ∧ o.path = o'.path) :=
      ⟨fun a b hab hba => hab ⟨hba.1.symm, hba.2.symm⟩⟩
    exact (pairwise_ofPaths hkeyed).forall ho ho' hne ⟨hverb, String.toList_injective hpath⟩
  · exact Or.inr hslash

-- ==================================================== keys and names

variable {doc : ApiDocument} {namespaceName base : Value} {paths : List (String × Value)}
  {basePath : String} {s : CedarSchema}

/-- An action stands under a key that is the same as its name. -/
theorem BuiltFrom.same_name (hb : BuiltFrom doc namespaceName base paths basePath s)
    {m : Scalar × Action} (hm : m ∈ s.actions) :
    ∃ key, m.2.name = .scalar key ∧ key.same m.1 = true := by
  obtain ⟨names, hnames, hactions⟩ := tableOf_eq_ok.1 hb.actions_eq
  have hfound := Members.find?_of_mem (distinct_of_tableOf hb.actions_eq) hm
  rw [hactions, Members.find?_ofEntries, find?_zip_names _ hnames] at hfound
  have hsame := List.find?_some hfound
  obtain ⟨key, hkey, hsame⟩ := (Option.any_eq_true ..).1 hsame
  exact ⟨key, Value.eq_scalar_of_key? hkey, hsame⟩

/-- Actions of one operation are one member of the table. -/
theorem BuiltFrom.eq_of_yields (hb : BuiltFrom doc namespaceName base paths basePath s)
    {m m' : Scalar × Action} (hm : m ∈ s.actions) (hm' : m' ∈ s.actions) {o : Operation}
    (ho : Operation.Yields doc basePath o m.2) (ho' : Operation.Yields doc basePath o m'.2) :
    m = m' := by
  obtain ⟨key, hkey, hsame⟩ := hb.same_name hm
  obtain ⟨key', hkey', hsame'⟩ := hb.same_name hm'
  have hnames : m.2.name = m'.2.name := ho.name.trans ho'.name.symm
  rw [hkey, hkey'] at hnames
  cases hnames
  rw [Scalar.same_comm] at hsame
  exact Members.eq_of_same (distinct_of_tableOf hb.actions_eq) hm hm'
    (Scalar.same_trans hsame hsame')

/-- Actions of one request are one, or the path template of the operation of one is that
of the other's behind a slash. -/
theorem BuiltFrom.eq_or_slashed (hdoc : doc.WellFormed)
    (hb : BuiltFrom doc namespaceName base paths basePath s) {m m' : Scalar × Action}
    (hm : m ∈ s.actions) (hm' : m' ∈ s.actions) {o o' : Operation}
    (ho : o ∈ Operation.ofPaths paths) (ho' : o' ∈ Operation.ofPaths paths)
    (hy : Operation.Yields doc basePath o m.2) (hy' : Operation.Yields doc basePath o' m'.2)
    (h : m.2.annotations = m'.2.annotations) :
    m = m' ∨ IsUnslashed o.path.toList o'.path.toList ∨
      IsUnslashed o'.path.toList o.path.toList := by
  have hbase := BasePath.clean_lead_of_resolve hb.base_eq
  rw [annotations_of_yields hbase hy, annotations_of_yields hbase hy'] at h
  have hkeyed := hdoc.paths paths hb.paths_eq
  rcases Operation.eq_or_slashed_of_request_eq hkeyed ho ho' h with rfl | hslash
  · exact Or.inl (hb.eq_of_yields hm hm' hy hy')
  · exact Or.inr hslash

-- ==================================================== the requests of a schema

/-- Every action of a schema is annotated with the request of an operation whose action
it is: its verb, and its path template below the base path, from which the template is
got back. In a well formed document two different actions of one request are those of
templates that are the same but for a slash in front; so where all templates start with
a slash, the request tells the action. -/
theorem requests_of_build {doc : ApiDocument} {namespaceName base : Value} {s : CedarSchema}
    (h : (build doc namespaceName base).outcome = .ok s) :
    ∃ paths basePath, doc.paths = some paths ∧ BasePath.resolve doc.servers base = .ok basePath ∧
      (∀ m ∈ s.actions, ∃ o ∈ Operation.ofPaths paths, Operation.Yields doc basePath o m.2) ∧
      (∀ m ∈ s.actions, ∀ o, Operation.Yields doc basePath o m.2 →
        m.2.annotations = o.request basePath ∧
          Below basePath o.path (templateBelow basePath o.path)) ∧
      (doc.WellFormed → ∀ m ∈ s.actions, ∀ m' ∈ s.actions, m.1 ≠ m'.1 →
        m.2.annotations = m'.2.annotations →
        ∀ o ∈ Operation.ofPaths paths, ∀ o' ∈ Operation.ofPaths paths,
          Operation.Yields doc basePath o m.2 → Operation.Yields doc basePath o' m'.2 →
          IsUnslashed o.path.toList o'.path.toList ∨
            IsUnslashed o'.path.toList o.path.toList) ∧
      (doc.WellFormed → (∀ p ∈ paths, p.1.toList.head? = some '/') →
        ∀ m ∈ s.actions, ∀ m' ∈ s.actions, m.2.annotations = m'.2.annotations → m = m') := by
  obtain ⟨paths, basePath, hb⟩ := build_eq_ok.1 h
  have hbase := BasePath.clean_lead_of_resolve hb.base_eq
  refine ⟨paths, basePath, hb.paths_eq, hb.base_eq, fun m hm => hb.yields_of_mem hm,
    fun m _ o ho => ⟨annotations_of_yields hbase ho, below_templateBelow hbase o.path⟩, ?_, ?_⟩
  · intro hdoc m hm m' hm' hne hsame o ho o' ho' hy hy'
    rcases hb.eq_or_slashed hdoc hm hm' ho ho' hy hy' hsame with rfl | hslash
    · exact absurd rfl hne
    · exact hslash
  · intro hdoc hslashed m hm m' hm' hsame
    obtain ⟨o, ho, hy⟩ := hb.yields_of_mem hm
    obtain ⟨o', ho', hy'⟩ := hb.yields_of_mem hm'
    rcases hb.eq_or_slashed hdoc hm hm' ho ho' hy hy' hsame with heq | hslash | hslash
    · exact heq
    · exact absurd (hslashed _ (mem_ofPaths ho).1) hslash.1
    · exact absurd (hslashed _ (mem_ofPaths ho').1) hslash.1

/-- Two operations of one path below the path of a server. -/
def servedApi : ApiDocument where
  paths := some [("/pets", .object
    [("get", .object [("operationId", .text "list")]),
     ("post", .object [("operationId", .text "add")])])]
  servers := ["https://host/api//v1/"]
  schemas := []

theorem wellFormed_servedApi : servedApi.WellFormed := by
  have hnamed : ∀ s : String, (Value.object [("operationId", .text s)]).Keyed := fun s =>
    Problem.keyedNames_iff.1 ⟨by simp, by simpa using .scalar _⟩
  have hitem : Problem.KeyedNames
      [("get", .object [("operationId", .text "list")]),
       ("post", .object [("operationId", .text "add")])] :=
    ⟨by decide, by simp [hnamed]⟩
  refine ⟨fun paths hpaths => ?_, List.nodup_nil, List.forall_mem_nil _⟩
  cases hpaths
  exact ⟨by decide, by simpa using Problem.keyedNames_iff.1 hitem⟩

/-- Both actions are annotated with the path below that of the server, and each with a
verb of its own. -/
theorem requests_of_servedApi :
    ∃ s, (build servedApi (.text "NS") .null).outcome = .ok s ∧
      (∀ m ∈ s.actions, ∃ verb, m.2.annotations = .object
        [("httpVerb", .text verb), ("httpPathTemplate", .text "/api/v1/pets")]) ∧
      ∀ m ∈ s.actions, ∀ m' ∈ s.actions, m.2.annotations = m'.2.annotations → m = m' := by
  obtain ⟨s, hs⟩ := Attempt.exists_eq_ok
    (by decide +kernel : (build servedApi (.text "NS") .null).outcome.isOk = true)
  obtain ⟨paths, basePath, hpaths, hbase, hfrom, hrequest, -, hone⟩ := requests_of_build hs
  cases hpaths
  have hresolved : BasePath.resolve servedApi.servers .null = .ok "/api/v1" := rfl
  cases hbase.symm.trans hresolved
  refine ⟨s, hs, fun m hm => ?_, hone wellFormed_servedApi (by decide)⟩
  obtain ⟨o, ho, hy⟩ := hfrom m hm
  have hpath : o.path = "/pets" := congrArg Prod.fst (List.mem_singleton.1 (mem_ofPaths ho).1)
  refine ⟨o.verb, (hrequest m hm o hy).1.trans ?_⟩
  unfold Operation.request
  rw [hpath]
  rfl

end ApiAuthz.CedarSchema
