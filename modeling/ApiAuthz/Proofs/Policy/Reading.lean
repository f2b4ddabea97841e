/-
What the policy writer reads from a generated schema: its namespace and the names
of its actions, each once and by first occurrence, from either variant. The names
have gone through JSON text and back, and whatever else the document put into that
text does not get in the way: the namespace is the only key, and `actions` a field
of the schema itself.

Names are texts here (`Operation.TextNamed`). A name of another kind is written as
its text, and then two actions may be one when they are read.

# From the document to the names

The names of the operations are known from the document (`Operation.name`), and
the actions that are made of the operations have them
(`names_of_textNamed`). The table of actions keeps the first of each
(`keys_of_tableOf`). What is read back of the table has the same keys
(`keys_readActions`), in whatever form the actions were written
(`actionsOf_readBody`), which covers both variants at once: the annotated one only
has more members beside the actions. Last, the text is read as what it was written
from (`Proofs/Json/RoundTrip`), and a name of characters has no halves of pairs in
it, so the reader of policies finds nothing to refuse (`Proofs/Policy/Faults`).
-/
import ApiAuthz.Proofs.Policy.Faults
import ApiAuthz.Proofs.Schema.Naming
import ApiAuthz.Proofs.Schema.Variants

namespace ApiAuthz

open Text (points)

-- ==================================================== the names of operations

namespace CedarSchema

namespace Operation

/-- An operation with a name of its own has a text for it. -/
def TextNamed (o : Operation) : Prop :=
  (o.body.field "operationId").truthy = true → (o.body.field "operationId").text?.isSome = true

instance (o : Operation) : Decidable o.TextNamed :=
  inferInstanceAs (Decidable (_ = true → _ = true))

/-- The name of an operation: its own, or one made of its verb and path. -/
def name (o : Operation) : String :=
  match o.body.field "operationId" with
  | .text s => if s = "" then Action.fallbackName o.verb o.path else s
  | _ => Action.fallbackName o.verb o.path

theorem nameOf_eq {o : Operation} (h : o.TextNamed) :
    Action.nameOf (.text o.verb) (.text o.path) o.body = .text o.name := by
  unfold name
  cases htruthy : (o.body.field "operationId").truthy with
  | false =>
      rw [Action.nameOf_of_not_truthy htruthy]
      split
      · next s hs =>
        rw [hs] at htruthy
        rw [if_pos (by simpa [Value.truthy] using htruthy)]
      · rfl
  | true =>
      obtain ⟨s, hs⟩ := Option.isSome_iff_exists.1 (h htruthy)
      replace hs := Value.eq_text_of_text? hs
      have hne : s ≠ "" := by
        rintro rfl
        rw [hs] at htruthy
        cases htruthy
      unfold Action.nameOf
      rw [hs] at htruthy ⊢
      simp only [htruthy, if_true]
      rw [if_neg hne]

end Operation

/-- Actions have the names of their operations. -/
theorem names_of_textNamed {doc : ApiDocument} {basePath : String} {os : List Operation}
    {actions : List Action} (h : List.Forall₂ (Operation.Yields doc basePath) os actions)
    (hnames : ∀ o ∈ os, o.TextNamed) :
    actions.map Action.name = (os.map Operation.name).map .text := by
  induction h with
  | nil => rfl
  | cons ho _ ih =>
      rw [List.forall_mem_cons] at hnames
      rw [List.map_cons, List.map_cons, List.map_cons, ih hnames.2, ho.name,
        Operation.nameOf_eq hnames.1]

-- ==================================================== names read back

variable {s : CedarSchema} {names : List String}

/-- Names that are texts are read as they are. -/
theorem keys_readActions (hnodup : names.Nodup)
    (hkeys : Members.keys s.actions = names.map .text) :
    Members.keys s.readActions = names.map .text := by
  have hnames : s.actions.map (fun a => Json.keyName a.1) = names := by
    have hread := congrArg (List.map Json.keyName) hkeys
    unfold Members.keys at hread
    rw [List.map_map, List.map_map] at hread
    exact hread.trans (List.map_id _)
  have hread : Members.keys (s.actions.map fun a =>
      ((.text (Json.keyName a.1) : Scalar Broken), a.2)) = names.map .text := by
    rw [← hnames, List.map_map]
    unfold Members.keys
    rw [List.map_map]
    rfl
  have hdistinct : Members.Distinct (s.actions.map fun a =>
      ((.text (Json.keyName a.1) : Scalar Broken), a.2)) := by
    rw [Members.distinct_iff_apart, hread]
    refine List.pairwise_map.2 (hnodup.imp fun hne => ?_)
    rw [Scalar.same_text]
    exact decide_eq_false hne
  unfold readActions
  rw [Members.ofEntries_eq_self hdistinct, hread]

/-- The reader of policies finds the names of the actions, whatever form these have. -/
theorem actionsOf_readBody (hnodup : names.Nodup)
    (hkeys : Members.keys s.actions = names.map .text) (form : Action → Value)
    (more : List (String × Value Broken)) :
    Policy.actionsOf (.object [(s.namespaceName, .object (s.readBody form ++ more))]) =
      .ok (points s.namespaceName, names.map points) := by
  have hpoints : (Members.keys (s.readActions.map fun a => (a.1, (form a.2).readBack))).map
      Scalar.points = names.map points := by
    rw [Members.keys_map (fun a => (form a).readBack), keys_readActions hnodup hkeys, List.map_map]
    rfl
  change Except.ok (points s.namespaceName, _) = _
  rw [hpoints]

/-- The table of actions with these names has each of them once. -/
theorem keys_of_tableOf {actions : List Action} {table : Members Action}
    (hnames : actions.map Action.name = names.map .text) (h : tableOf actions = .ok table) :
    Members.keys table = names.eraseDups.map .text := by
  have hscalars : actions.map Action.name = (names.map Scalar.text).map .scalar := by
    rw [hnames, List.map_map]
    rfl
  rw [tableOf_named hscalars] at h
  cases h
  rw [Members.keys_ofEntries, List.map_fst_zip (Nat.le_of_eq (length_names hscalars)),
    Scalar.firsts_map_text]

end CedarSchema

namespace Generated

open CedarSchema

variable {text : String} {name : List CodePoint} {names : List (List CodePoint)}

theorem readActions_of_read {v : Value Broken} (hread : Json.read text.toList = .ok v)
    (h : Policy.actionsOf v = .ok (name, names)) : Policy.readActions text = .ok (name, names) := by
  unfold Policy.readActions Policy.readJson
  rw [hread]
  exact h

/-- The writer of policies reads from either variant of what is generated the
namespace and the names of the mapped actions, each once and in the order in which
they are first mapped; so it writes the same policies for both. -/
theorem readActions_of_ofDocument {doc : ApiDocument} {namespaceName mappingType base : Value}
    {g : Generated} (hnames : ∀ o ∈ Operation.ofPaths (doc.paths.getD []), o.TextNamed)
    (h : (ofDocument doc namespaceName mappingType base).outcome = .ok g) :
    ∃ name paths basePath names, namespaceName = .text name ∧ doc.paths = some paths ∧
      BasePath.resolve doc.servers base = .ok basePath ∧
      names = (Operation.ofPaths paths).map Operation.name ∧
      (yielded doc basePath paths).map Action.name = names.map .text ∧
      Policy.readActions g.plain = .ok (points name, names.eraseDups.map points) ∧
      Policy.readActions g.annotated = .ok (points name, names.eraseDups.map points) ∧
      ∃ admin group, Policy.forSchema g.plain = .ok [admin, group] ∧
        Policy.forSchema g.annotated = .ok [admin, group] := by
  obtain ⟨s, hs, hplain, hannotated⟩ := reads_of_ofDocument h
  obtain ⟨paths, basePath, hb⟩ := build_eq_ok.1 hs
  rw [hb.paths_eq] at hnames
  have hyielded := names_of_textNamed (forall₂_yielded hb.complete) hnames
  have hnodup := nodup_eraseDups ((Operation.ofPaths paths).map Operation.name)
  have hkeys := keys_of_tableOf hyielded hb.actions_eq
  have hplain' := actionsOf_readBody hnodup hkeys Action.definition []
  rw [List.append_nil] at hplain'
  have hreadPlain := readActions_of_read hplain hplain'
  have hreadAnnotated := readActions_of_read hannotated (actionsOf_readBody hnodup hkeys _ _)
  refine ⟨s.namespaceName, paths, basePath, _, Namespace.eq_text_of_ofValue hb.namespace_eq,
    hb.paths_eq, hb.base_eq, rfl, hyielded, hreadPlain, hreadAnnotated, _, _,
    Policy.forSchema_of_readActions hreadPlain, Policy.forSchema_of_readActions hreadAnnotated⟩

/-- A document with a name of quotes, a backslash, a line feed and a character beyond
the first 65536, given twice, and an operation without a name of its own. -/
def notedNames : ApiDocument where
  paths := some
    [("/notes", .object
      [("get", .object [("operationId", .text "say \"hi\" \\ \n😀")]),
       ("post", .object [("summary", .text "Add")])]),
     ("/drafts", .object
      [("get", .object [("operationId", .text "say \"hi\" \\ \n😀")])])]
  servers := []
  schemas := []

/-- Both variants are read with the two names of the document. -/
theorem readActions_of_notedNames :
    ∃ g, (ofDocument notedNames (.text "NS") (.text "SimpleRest") .null).outcome = .ok g ∧
      Policy.readActions g.plain =
        .ok (points "NS", ["say \"hi\" \\ \n😀", "post /notes"].map points) ∧
      Policy.readActions g.annotated =
        .ok (points "NS", ["say \"hi\" \\ \n😀", "post /notes"].map points) := by
  obtain ⟨g, hg⟩ := Attempt.exists_eq_ok
    (by decide +kernel : (ofDocument notedNames (.text "NS") (.text "SimpleRest")
      .null).outcome.isOk = true)
  obtain ⟨name, paths, -, names, hname, hpaths, -, hnames, -, hplain, hannotated, -⟩ :=
    readActions_of_ofDocument (by decide +kernel) hg
  cases hname
  cases hpaths
  have heq : names.eraseDups = ["say \"hi\" \\ \n😀", "post /notes"] := by
    rw [hnames]
    decide +kernel
  rw [heq] at hplain hannotated
  exact ⟨g, hg, hplain, hannotated⟩

end Generated

end ApiAuthz
