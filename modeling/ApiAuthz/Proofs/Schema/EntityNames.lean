/-
The table of entity types in closed form. It is built in steps: three types are there from the
start, a pass over the resource types of all actions collects the names that wait for an entry,
each of those is entered under its name, and at the end the type of users may take its shape from
a component schema.

What the steps come to says less and is easier to use. The names that wait are the last parts of
the resource types, the fixed names left out, each at its first occurrence (`pending_eq`): one step
of the pass adds what one more name adds to the list without doubles (`eraseDups_concat`). None of
them has an entry when its turn comes, for they are new and all different, so every one is entered,
in order (`foldl_enter`). And the last step reaches only the first of the fixed types, whose name
no other type has (`withUserShape_append`). So a table is the fixed types followed by one type for
each name, with the shape of that name and without containers (`table_eq`).
-/
import ApiAuthz.CedarSchema
import ApiAuthz.Proofs.Members

namespace ApiAuthz.EntityType

variable {schemaNames : List String} {actions : List Action} {name : String}

-- ==================================================== names

/-- The names of the types that every schema has. -/
def seededNames : List String := ["User", "UserGroup", "Application"]

theorem map_fst_seeds : seeds.map Prod.fst = seededNames :=
  rfl

/-- The names of the types that actions apply to beside the fixed ones, by first occurrence. -/
def appliedNames (actions : List Action) : List String :=
  ((actions.flatMap fun a => a.resourceTypes.map baseName).filter
    fun n => !seededNames.contains n).eraseDups

/-- The names of the entity types of actions. -/
def namesFor (actions : List Action) : List String :=
  seededNames ++ appliedNames actions

/-- The names that actions bring along, without those that are there from the start. -/
theorem mem_appliedNames : name ∈ appliedNames actions ↔
    (∃ a ∈ actions, ∃ r ∈ a.resourceTypes, baseName r = name) ∧ name ∉ seededNames := by
  unfold appliedNames
  rw [List.mem_eraseDups, List.mem_filter, List.mem_flatMap]
  simp only [List.mem_map, Bool.not_eq_true', List.contains_eq_mem, decide_eq_false_iff_not]

/-- Each of them stands once. -/
theorem nodup_appliedNames (actions : List Action) : (appliedNames actions).Nodup :=
  nodup_eraseDups _

/-- No name stands twice in the table. -/
theorem nodup_namesFor (actions : List Action) : (namesFor actions).Nodup := by
  refine List.nodup_append.2 ⟨by decide, nodup_appliedNames actions, ?_⟩
  rintro n hseeded _ happlied rfl
  exact (mem_appliedNames.1 happlied).2 hseeded

/-- The names that are there from the start are in the table. -/
theorem mem_namesFor_of_seeded (h : name ∈ seededNames) : name ∈ namesFor actions :=
  List.mem_append_left _ h

/-- Whatever an action applies to has an entity type. -/
theorem baseName_mem_namesFor {a : Action} (ha : a ∈ actions) {r : String}
    (hr : r ∈ a.resourceTypes) : baseName r ∈ namesFor actions := by
  by_cases hseeded : baseName r ∈ seededNames
  · exact mem_namesFor_of_seeded hseeded
  · exact List.mem_append_right _ (mem_appliedNames.2 ⟨⟨a, ha, r, hr, rfl⟩, hseeded⟩)

-- ==================================================== the names that wait

/-- One more name changes the list without doubles only if it is new. -/
theorem eraseDups_concat (ns : List String) (n : String) :
    (ns ++ [n]).eraseDups = if ns.contains n then ns.eraseDups else ns.eraseDups ++ [n] := by
  rw [List.eraseDups_append, List.removeAll, List.filter_singleton, ← List.elem_eq_contains]
  cases List.elem n ns with
  | true => exact List.append_nil _
  | false => rfl

/-- One step of the pass, on names that are listed without doubles so far. -/
theorem await_eraseDups (ns : List String) (r : String) :
    await (ns.filter fun n => !seededNames.contains n).eraseDups r =
      ((ns ++ [baseName r]).filter fun n => !seededNames.contains n).eraseDups := by
  have hseeds : (seeds.any fun e => e.1 == baseName r) = seededNames.contains (baseName r) := by
    rw [← map_fst_seeds, List.contains_eq_any_beq, List.any_map]
    simp only [Function.comp_def, Bool.beq_comm]
  have hlisted (ms : List String) :
      ms.eraseDups.contains (baseName r) = ms.contains (baseName r) := by
    rw [Bool.eq_iff_iff, List.contains_iff_mem, List.contains_iff_mem, List.mem_eraseDups]
  unfold await
  dsimp only
  rw [hseeds, hlisted, List.filter_append, List.filter_singleton]
  cases hfixed : seededNames.contains (baseName r) with
  | true =>
      rw [Bool.true_or, if_pos rfl]
      exact congrArg List.eraseDups (List.append_nil _).symm
  | false =>
      rw [Bool.false_or]
      exact (eraseDups_concat _ _).symm

theorem foldl_await (rs : List String) (ns : List String) :
    rs.foldl await (ns.filter fun n => !seededNames.contains n).eraseDups =
      ((ns ++ rs.map baseName).filter fun n => !seededNames.contains n).eraseDups := by
  induction rs generalizing ns with
  | nil => rw [List.map_nil, List.append_nil, List.foldl_nil]
  | cons r rs ih =>
      rw [List.foldl_cons, await_eraseDups, ih, List.append_assoc, List.map_cons,
        List.singleton_append]

/-- The names that are to be entered, one awaited after another, are those that actions bring along.
-/
theorem pending_eq (actions : List Action) : pending actions = appliedNames actions := by
  unfold pending appliedNames
  rw [← List.foldl_flatMap, ← List.map_flatMap]
  exact foldl_await _ []

-- ==================================================== the table

/-- The types that every schema has, with the shape of users. -/
def seeded (schemaNames : List String) : List (String × EntityType) :=
  [("User", ⟨shapeOf schemaNames "User", some ["UserGroup"]⟩),
   ("UserGroup", ⟨.emptyRecord, none⟩),
   ("Application", ⟨.emptyRecord, none⟩)]

/-- New names that are all different are entered one behind the other. -/
theorem foldl_enter (e : String → EntityType) (ns : List String)
    (entries : List (String × EntityType)) (hnodup : (entries.map Prod.fst ++ ns).Nodup) :
    ns.foldl (fun entries n => enter n (e n) entries) entries =
      entries ++ ns.map fun n => (n, e n) := by
  induction ns generalizing entries with
  | nil => rw [List.foldl_nil, List.map_nil, List.append_nil]
  | cons n ns ih =>
      have hnew : (entries.any fun m => m.1 == n) = false := by
        have hdisjoint := (List.nodup_append.1 hnodup).2.2
        rw [List.any_eq_false]
        intro m hm hsame
        exact hdisjoint _ (List.mem_map_of_mem hm) n List.mem_cons_self (eq_of_beq hsame)
      have henter : enter n (e n) entries = entries ++ [(n, e n)] := by
        unfold enter
        rw [hnew, if_neg Bool.false_ne_true]
      rw [List.foldl_cons, henter, ih, List.append_assoc, List.map_cons, List.singleton_append]
      rwa [List.map_append, List.append_assoc]

/-- Only the fixed type of users takes its shape from the schema of that name at the end. -/
theorem withUserShape_append {more : List (String × EntityType)}
    (h : ∀ m ∈ more, m.1 ∉ seededNames) :
    withUserShape schemaNames (seeds ++ more) = seeded schemaNames ++ more := by
  have hmore : (more.map fun m =>
      if m.1 = "User" then (m.1, { m.2 with shape := .named "User" }) else m) = more := by
    refine (List.map_congr_left fun m hm => ?_).trans (List.map_id _)
    have hother : m.1 ≠ "User" := fun huser => h m hm (by rw [huser]; decide)
    rw [if_neg hother]
    rfl
  unfold withUserShape seeded shapeOf
  cases schemaNames.contains "User" with
  | true =>
      rw [if_pos rfl, if_pos rfl, List.map_append, hmore]
      rfl
  | false =>
      rw [if_neg Bool.false_ne_true, if_neg Bool.false_ne_true]
      rfl

/-- The fixed types, and behind them a type for each name that actions apply to. -/
theorem table_eq (schemaNames : List String) (actions : List Action) :
    table schemaNames actions =
      seeded schemaNames ++
        (appliedNames actions).map fun n => (n, ⟨shapeOf schemaNames n, some []⟩) := by
  unfold table
  rw [pending_eq, foldl_enter _ _ _ (nodup_namesFor actions)]
  refine withUserShape_append fun m hm => ?_
  obtain ⟨n, hn, rfl⟩ := List.mem_map.1 hm
  exact (mem_appliedNames.1 hn).2

theorem map_fst_table : (table schemaNames actions).map Prod.fst = namesFor actions := by
  rw [table_eq, List.map_append, List.map_map]
  exact congrArg₂ (· ++ ·) rfl (List.map_id _)

end ApiAuthz.EntityType
