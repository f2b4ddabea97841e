/-
Which actions a schema has. Actions are entered into the table of a schema one
after the other, so the table has their names by first occurrence, and under
each name the last action of that name (`tableOf_eq_ok`, `TablesOf`). The
definitions and the annotations of a schema are two readings of that one table:
an action that is defined is annotated, by the same operation.

Only names that can be keys are entered; one that cannot stops the whole. So the
names are a list of scalars beside the actions, and what the theory of members
says of entries (`Proofs/Members`) is said of the names with the actions zipped to
them (`tableOf_named`, `find?_zip_names`). `Action.lastNamed` looks for an action
from the end of the list, without a table.

Two names count as one if they are the same key. There are as many definitions as
actions exactly if no two are (`TablesOf.length_definitions`), and in every case an
action of a schema is that of some operation (`BuiltFrom.yields_of_mem`).
-/
import ApiAuthz.Proofs.Members
import ApiAuthz.Proofs.Schema.Building

namespace ApiAuthz

-- ==================================================== tables of actions

namespace Action

/-- The last of the actions whose name is the same as the key. -/
def lastNamed (key : Scalar) (actions : List Action) : Option Action :=
  actions.reverse.find? fun a => a.name.key?.any fun k => k.same key

end Action

namespace CedarSchema

/-- The table of actions whose names are keys. -/
theorem tableOf_named {names : List Scalar} {actions : List Action}
    (h : actions.map Action.name = names.map .scalar) :
    tableOf actions = .ok (Members.ofEntries (names.zip actions)) := by
  unfold tableOf Members.ofEntries
  generalize ([] : Members Action) = table
  induction actions generalizing names table with
  | nil =>
      obtain rfl := List.map_eq_nil_iff.1 h.symm
      rfl
  | cons a actions ih =>
      cases names with
      | nil => cases h
      | cons k names =>
          obtain ⟨ha, h⟩ := List.cons.inj h
          rw [List.foldlM_cons, ha]
          exact ih h (Members.put k a table)

/-- Actions have a table exactly if their names are keys, and then it is made of
them one after the other. -/
theorem tableOf_eq_ok {actions : List Action} {table : Members Action} :
    tableOf actions = .ok table ↔
      ∃ names : List Scalar, actions.map Action.name = names.map .scalar ∧
        table = Members.ofEntries (names.zip actions) := by
  constructor
  · intro h
    have hnames : ∃ names : List Scalar, actions.map Action.name = names.map .scalar := by
      revert h
      unfold tableOf
      generalize ([] : Members Action) = start
      induction actions generalizing start with
      | nil => exact fun _ => ⟨[], rfl⟩
      | cons a actions ih =>
          intro h
          rw [List.foldlM_cons] at h
          obtain ⟨next, hk, h⟩ := Attempt.bind_eq_ok.1 h
          obtain ⟨names, hnames⟩ := ih next h
          cases hkey : a.name.key? with
          | none =>
              rw [hkey] at hk
              cases hk
          | some k =>
              refine ⟨k :: names, ?_⟩
              rw [List.map_cons, List.map_cons, Value.eq_scalar_of_key? hkey, hnames]
    obtain ⟨names, hnames⟩ := hnames
    refine ⟨names, hnames, ?_⟩
    rw [tableOf_named hnames] at h
    exact (Except.ok.inj h).symm
  · rintro ⟨names, hnames, rfl⟩
    exact tableOf_named hnames

/-- What is found under a name is the last action of this name. -/
theorem find?_zip_names {names : List Scalar} {actions : List Action} (key : Scalar)
    (h : actions.map Action.name = names.map .scalar) :
    ((names.zip actions).reverse.find? fun e => e.1.same key).map Prod.snd =
      Action.lastNamed key actions := by
  unfold Action.lastNamed
  induction actions generalizing names with
  | nil =>
      obtain rfl := List.map_eq_nil_iff.1 h.symm
      rfl
  | cons a actions ih =>
      cases names with
      | nil => cases h
      | cons k names =>
          obtain ⟨ha, h⟩ := List.cons.inj h
          rw [List.zip_cons_cons, List.reverse_cons, List.reverse_cons, List.find?_append,
            List.find?_append, ← ih h]
          cases (names.zip actions).reverse.find? fun e => e.1.same key with
          | some last => rfl
          | none =>
              have hfound : (a.name.key?.any fun j => j.same key) = k.same key := by
                rw [ha]
                rfl
              simp only [List.find?_cons, hfound]
              cases k.same key <;> rfl

theorem length_names {names : List Scalar} {actions : List Action}
    (h : actions.map Action.name = names.map .scalar) : names.length = actions.length := by
  have := congrArg List.length h
  simpa using this.symm

/-- The tables of a schema for actions of these names: what is defined and what
is annotated are the names by first occurrence, and under each stands, in both
tables, the last action of that name. -/
structure TablesOf (actions : List Action) (names : List Scalar)
    (definitions annotations : Members Value) : Prop where
  names_eq : actions.map Action.name = names.map .scalar
  keys_definitions : Members.keys definitions = Scalar.firsts names
  keys_annotations : Members.keys annotations = Scalar.firsts names
  find?_definitions : ∀ key,
    Members.find? key definitions = (Action.lastNamed key actions).map Action.definition
  find?_annotations : ∀ key,
    Members.find? key annotations = (Action.lastNamed key actions).map Action.annotations

/-- The table of named actions, with definitions and annotations beside it. -/
theorem tablesOf_ofEntries {names : List Scalar} {actions : List Action}
    (h : actions.map Action.name = names.map .scalar) :
    TablesOf actions names
      ((Members.ofEntries (names.zip actions)).map fun a => (a.1, a.2.definition))
      ((Members.ofEntries (names.zip actions)).map fun a => (a.1, a.2.annotations)) := by
  have hkeys : Members.keys (Members.ofEntries (names.zip actions)) = Scalar.firsts names := by
    rw [Members.keys_ofEntries, List.map_fst_zip (Nat.le_of_eq (length_names h))]
  refine ⟨h, ?_, ?_, fun key => ?_, fun key => ?_⟩
  · rw [Members.keys_map, hkeys]
  · rw [Members.keys_map, hkeys]
  · rw [Members.find?_map, Members.find?_ofEntries, find?_zip_names key h]
  · rw [Members.find?_map, Members.find?_ofEntries, find?_zip_names key h]

/-- There are as many definitions as actions exactly if no two names are the same. -/
theorem TablesOf.length_definitions {names : List Scalar} {actions : List Action}
    {definitions annotations : Members Value} (h : TablesOf actions names definitions annotations) :
    definitions.length = actions.length ↔ Scalar.Apart names := by
  have hlength : definitions.length = (Members.keys definitions).length :=
    (List.length_map ..).symm
  rw [hlength, h.keys_definitions, ← length_names h.names_eq]
  exact Scalar.length_firsts

variable {doc : ApiDocument} {namespaceName base : Value} {paths : List (String × Value)}
  {basePath : String} {s : CedarSchema}

/-- Every action of a schema was mapped. -/
theorem BuiltFrom.mem_yielded (hb : BuiltFrom doc namespaceName base paths basePath s)
    {m : Scalar × Action} (hm : m ∈ s.actions) : m.2 ∈ yielded doc basePath paths := by
  obtain ⟨names, -, hactions⟩ := tableOf_eq_ok.1 hb.actions_eq
  rw [hactions] at hm
  obtain ⟨e, he, heq⟩ := Members.mem_ofEntries hm
  rw [← heq]
  exact (List.of_mem_zip he).2

/-- Every action of a schema is that of an operation. -/
theorem BuiltFrom.yields_of_mem (hb : BuiltFrom doc namespaceName base paths basePath s)
    {m : Scalar × Action} (hm : m ∈ s.actions) :
    ∃ o ∈ Operation.ofPaths paths, Operation.Yields doc basePath o m.2 :=
  yields_of_mem_yielded hb.complete (hb.mem_yielded hm)

end CedarSchema

end ApiAuthz
