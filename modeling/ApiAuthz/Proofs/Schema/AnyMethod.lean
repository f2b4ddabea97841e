/-
The any-method key of a path item. A path item that has it is taken verb by verb in the
fixed order, and one without it in the order of its members; what is done with a verb is the
same. `ofPathItem_marked` says what follows for a path item and the same one with the key put
in somewhere: both stop or both come to an end, and then their actions are the same in some
order.

Two facts carry this. Only the members under the five verbs and the parameters are read, so
path items that agree on these agree verb by verb (`ofVerb_congr`). And an action comes
from its verb alone (`all_ofPathItem`), so that a walk over the same verbs in another order
has a result exactly if the first has (`Attempt.alike_mapM_perm`).

# What the key itself does

The any-method key is none of the keys that are read (`anyMethodKey_notMem_readKeys`), so it may
stand anywhere among the members and have any value: all that is asked is whether it is there
(`verbsOf_congr`, `ofPathItem_congr`). `Marked` is the relation of a path item and one with the
key in it; keys are distinct on the first, and stay so on the second.

# Which actions stand where

Without the key the actions stand beside the operations as they are declared
(`forall₂_of_unmarked`), with it beside the verbs in the fixed order (`forall₂_of_marked`), and
in both cases each is made of its operation and of nothing else of the path item but the
parameters. As no verb occurs twice there is at most one action for each, and there is one
exactly if the operation is not empty (`countP_verb`, `mappedVerbs_of_marked`).
-/
import ApiAuthz.Proofs.Matched
import ApiAuthz.Proofs.Schema.Composition
import ApiAuthz.Proofs.Schema.Naming

namespace ApiAuthz

namespace Action

variable {c : Converter} {path base item item' : Value} {ms ms' : Members Value}

-- ==================================================== what is read of a path item

/-- The keys of a path item whose values are read. -/
def readKeys : List Scalar := (verbs ++ ["parameters"]).map .text

/-- The members of a path item whose values are read. -/
def readMembers (ms : Members Value) : Members Value := ms.filter fun m => m.1 ∈ readKeys

theorem mem_readKeys_of_mem_verbs {verb : String} (h : verb ∈ verbs) :
    .text verb ∈ readKeys :=
  List.mem_map_of_mem (List.mem_append_left _ h)

theorem parameters_mem_readKeys : .text "parameters" ∈ readKeys := by decide

theorem anyMethodKey_notMem_readKeys : .text anyMethodKey ∉ readKeys := by decide

/-- What is read of a path item is found in the rest of it too. -/
theorem find?_readMembers {name : String} (h : .text name ∈ readKeys) (ms : Members Value) :
    Members.find? (.text name) (readMembers ms) = Members.find? (.text name) ms := by
  unfold Members.find? readMembers
  rw [List.find?_filter]
  congr 2
  funext m
  by_cases hsame : m.1.same (.text name) = true
  · rw [Scalar.eq_text_of_same hsame]
    simp [h]
  · simp [hsame]

/-- Path items with the same members read have the same fields under the keys read. -/
theorem field_congr (hm : item.members? = some ms) (hm' : item'.members? = some ms')
    (hread : readMembers ms = readMembers ms') {name : String} (hname : .text name ∈ readKeys) :
    item.field name = item'.field name := by
  unfold Value.field Value.field?
  rw [hm, hm', Option.bind_some, Option.bind_some, ← find?_readMembers hname ms, hread,
    find?_readMembers hname ms']

/-- With them they agree verb by verb. -/
theorem ofVerb_congr (hm : item.members? = some ms) (hm' : item'.members? = some ms')
    (hread : readMembers ms = readMembers ms') {verb : String} (hverb : verb ∈ verbs) :
    ofVerb c path base item verb = ofVerb c path base item' verb := by
  unfold ofVerb
  rw [field_congr hm hm' hread (mem_readKeys_of_mem_verbs hverb),
    field_congr hm hm' hread parameters_mem_readKeys]

/-- Path items with the same members among those that are read have the same actions. -/
theorem attempt_congr (hm : item.members? = some ms) (hm' : item'.members? = some ms')
    (hread : readMembers ms = readMembers ms') {verb : String} (hverb : verb ∈ verbs) :
    attempt c path base item verb = attempt c path base item' verb := by
  unfold attempt
  rw [field_congr hm hm' hread (mem_readKeys_of_mem_verbs hverb),
    field_congr hm hm' hread parameters_mem_readKeys]

-- ==================================================== the order of the verbs

/-- The verb that a key is, if it is one. -/
def verb? : Scalar → Option String
  | .text s => if verbs.contains s then some s else none
  | _ => none

/-- The verb of a key is the key. -/
theorem verb?_eq_some_iff {key : Scalar} {verb : String} :
    verb? key = some verb ↔ key = .text verb ∧ verb ∈ verbs := by
  unfold verb?
  split
  · next s =>
    rw [Option.ite_none_right_eq_some, Option.some.injEq, List.contains_iff_mem,
      Scalar.text.injEq]
    constructor
    · intro ⟨hs, heq⟩
      exact ⟨heq, heq ▸ hs⟩
    · intro ⟨heq, hverb⟩
      exact ⟨heq ▸ hverb, heq⟩
  · next hnot => simpa using fun h => absurd h (hnot verb)

/-- Without the any-method key the verbs come as they are declared. -/
theorem verbsOf_eq (ms : Members Value) :
    verbsOf ms = if Members.contains (.text anyMethodKey) ms then verbs
      else ms.filterMap fun m => verb? m.1 := by
  unfold verbsOf Members.keys
  rw [List.filterMap_map]
  rfl

theorem filterMap_verb?_readMembers (ms : Members Value) :
    ((readMembers ms).filterMap fun m => verb? m.1) = ms.filterMap fun m => verb? m.1 := by
  unfold readMembers
  rw [List.filterMap_filter]
  refine List.filterMap_congr fun m _ => ?_
  cases hverb : verb? m.1 with
  | none => simp
  | some verb =>
      obtain ⟨hkey, hmem⟩ := verb?_eq_some_iff.1 hverb
      rw [hkey]
      simp [mem_readKeys_of_mem_verbs hmem]

/-- Which verbs there are, and in which order, is a matter of the members read and of whether
the any-method key is there. -/
theorem verbsOf_congr (hread : readMembers ms = readMembers ms')
    (hany : Members.contains (.text anyMethodKey) ms =
      Members.contains (.text anyMethodKey) ms') : verbsOf ms = verbsOf ms' := by
  rw [verbsOf_eq, verbsOf_eq, hany, ← filterMap_verb?_readMembers ms, hread,
    filterMap_verb?_readMembers ms']

/-- And so is everything that a path item comes to. -/
theorem ofPathItem_congr (hm : item.members? = some ms) (hm' : item'.members? = some ms')
    (hread : readMembers ms = readMembers ms')
    (hany : Members.contains (.text anyMethodKey) ms =
      Members.contains (.text anyMethodKey) ms') :
    ofPathItem c path base item = ofPathItem c path base item' := by
  unfold ofPathItem
  rw [hm, hm']
  show Progress.through _ (verbsOf ms) = Progress.through _ (verbsOf ms')
  rw [verbsOf_congr hread hany]
  refine Progress.through_congr fun verb hverb => ?_
  exact ofVerb_congr hm hm' hread (mem_verbsOf.1 hverb).1

/-- The members that are operations: under a verb, and not empty. -/
def operations (ms : Members Value) : Members Value :=
  ms.filter fun m => (verb? m.1).isSome && m.2.truthy

/-- The operations of a path item in the order in which its keys stand. -/
theorem operations_eq_of_fields (h : ∀ m ∈ ms, ∀ verb, m.1 = .text verb →
      item.field verb = m.2) :
    operations ms =
      ((ms.filterMap fun m => verb? m.1).filter fun verb => (item.field verb).truthy).map
        fun verb => (.text verb, item.field verb) := by
  induction ms with
  | nil => rfl
  | cons m ms ih =>
      rw [List.forall_mem_cons] at h
      unfold operations at ih ⊢
      rw [List.filter_cons, ih h.2, List.filterMap_cons]
      cases hverb : verb? m.1 with
      | none => rfl
      | some verb =>
          obtain ⟨hkey, -⟩ := verb?_eq_some_iff.1 hverb
          have hfield := h.1 verb hkey
          simp only [Option.isSome_some, Bool.true_and, List.filter_cons, hfield]
          split
          · rw [List.map_cons, hfield, ← hkey]
          · rfl

/-- Without the any-method key the verbs are mapped as their operations are declared. -/
theorem operations_eq (hm : item.members? = some ms) (hd : Members.Distinct ms)
    (hany : Members.contains (.text anyMethodKey) ms = false) :
    operations ms = (mappedVerbs item).map fun verb => (.text verb, item.field verb) := by
  unfold mappedVerbs
  rw [hm]
  show _ = ((verbsOf ms).filter _).map _
  rw [verbsOf_eq, hany, if_neg Bool.false_ne_true]
  refine operations_eq_of_fields fun m hmem verb hkey => ?_
  unfold Value.field Value.field?
  rw [hm, Option.bind_some, ← hkey, Members.find?_of_mem hd hmem]
  rfl

/-- With it they are mapped in the fixed order. -/
theorem mappedVerbs_of_marked (hm : item.members? = some ms)
    (hany : Members.contains (.text anyMethodKey) ms = true) :
    mappedVerbs item = verbs.filter fun verb => (item.field verb).truthy := by
  unfold mappedVerbs
  rw [hm]
  show (verbsOf ms).filter _ = _
  rw [verbsOf_eq, if_pos hany]

/-- Which verbs have an operation that is not empty is a matter of the members read. -/
theorem filter_truthy_congr (hm : item.members? = some ms) (hm' : item'.members? = some ms')
    (hread : readMembers ms = readMembers ms') :
    (verbs.filter fun verb => (item.field verb).truthy) =
      verbs.filter fun verb => (item'.field verb).truthy := by
  refine List.filter_congr fun verb hverb => ?_
  rw [field_congr hm hm' hread (mem_readKeys_of_mem_verbs hverb)]

-- ==================================================== the actions of a path item

/-- Everything a path item comes to, verb by verb. -/
theorem all_ofPathItem (c : Converter) (path base item : Value) :
    (ofPathItem c path base item).all = (mappedVerbs item).mapM (attempt c path base item) := by
  rw [← Progress.finished_pure, finished_ofPathItem]
  simp only [bind_pure]

/-- Path items with the same members read come to the same actions in some order, or both
stop. -/
theorem alike_ofPathItem (hm : item.members? = some ms) (hm' : item'.members? = some ms')
    (hd : Members.Distinct ms) (hd' : Members.Distinct ms')
    (hread : readMembers ms = readMembers ms') :
    Attempt.Alike List.Perm (ofPathItem c path base item).all
      (ofPathItem c path base item').all := by
  have hperm : (mappedVerbs item).Perm (mappedVerbs item') := by
    refine (mappedVerbs_perm fun ns hns => ?_).trans ?_
    · cases hm.symm.trans hns
      exact hd
    · rw [filter_truthy_congr hm hm' hread]
      refine (mappedVerbs_perm fun ns hns => ?_).symm
      cases hm'.symm.trans hns
      exact hd'
  have hsame : (mappedVerbs item).mapM (attempt c path base item) =
      (mappedVerbs item).mapM (attempt c path base item') :=
    Attempt.mapM_congr fun verb hverb => attempt_congr hm hm' hread (mem_mappedVerbs.1 hverb).1
  rw [all_ofPathItem, all_ofPathItem, hsame]
  exact Attempt.alike_mapM_perm hperm

/-- Without the any-method key the actions stand beside the operations as they are declared. -/
theorem forall₂_of_unmarked (hm : item.members? = some ms) (hd : Members.Distinct ms)
    (hany : Members.contains (.text anyMethodKey) ms = false)
    (hstop : (ofPathItem c path base item).stop = none) :
    List.Forall₂ (fun m a =>
        OfOperation c (.scalar m.1) path m.2 base (item.field "parameters") a)
      (operations ms) (ofPathItem c path base item).done := by
  rw [operations_eq hm hd hany, List.forall₂_map_left_iff]
  exact forall₂_ofPathItem hstop

/-- With it they stand beside the verbs in the fixed order, and are made of what any path
item with the same members read has under them. -/
theorem forall₂_of_marked (hm : item.members? = some ms) (hm' : item'.members? = some ms')
    (hread : readMembers ms = readMembers ms')
    (hany : Members.contains (.text anyMethodKey) ms' = true)
    (hstop : (ofPathItem c path base item').stop = none) :
    List.Forall₂ (fun verb a =>
        OfOperation c (.text verb) path (item.field verb) base (item.field "parameters") a)
      (verbs.filter fun verb => (item.field verb).truthy) (ofPathItem c path base item').done := by
  rw [filter_truthy_congr hm hm' hread, ← mappedVerbs_of_marked hm' hany,
    field_congr hm hm' hread parameters_mem_readKeys]
  have hactions := (List.forall₂_and_left (mappedVerbs item') _).2
    ⟨fun verb hverb => (mem_mappedVerbs.1 hverb).1, forall₂_ofPathItem hstop⟩
  refine hactions.imp fun verb a ⟨hverb, ha⟩ => ?_
  rw [field_congr hm hm' hread (mem_readKeys_of_mem_verbs hverb)]
  exact ha

/-- The verbs of actions are those that the actions are made for. -/
theorem map_verb_of_forall₂ {α : Type} {request : α → Value} {xs : List α}
    {actions : List Action} (h : List.Forall₂ (fun x a => a.verb = request x) xs actions) :
    actions.map verb = xs.map request := by
  induction h with
  | nil => rfl
  | cons ha _ ih => rw [List.map_cons, List.map_cons, ih, ha]

/-- Of actions made for different verbs, each verb has one or none. -/
theorem countP_verb {vs : List String} (hvs : vs.Nodup) {actions : List Action}
    (h : actions.map verb = vs.map .text) (name : String) :
    (actions.countP fun a => a.verb.text? == some name) = if name ∈ vs then 1 else 0 := by
  calc (actions.countP fun a => a.verb.text? == some name)
      = (actions.map verb).countP fun v => v.text? == some name := by
        rw [List.countP_map]
        rfl
    _ = vs.count name := by
        rw [h, List.countP_map]
        refine List.countP_congr fun v _ => ?_
        simp [Value.text?]
    _ = if name ∈ vs then 1 else 0 := hvs.count

-- ==================================================== the any-method key put in

/-- A path item without the any-method key, its members, and the same path item with the
key put in somewhere. -/
structure Marked (item : Value) (ms : Members Value) (item' : Value) : Prop where
  members : item.members? = some ms
  distinct : Members.Distinct ms
  unmarked : Members.contains (.text anyMethodKey) ms = false
  marked : ∃ before after marker, ms = before ++ after ∧
    item'.members? = some (before ++ (.text anyMethodKey, marker) :: after)

/-- The key put in is the only one, and what is read is the same. -/
theorem Marked.exists_members (h : Marked item ms item') :
    ∃ ms', item'.members? = some ms' ∧ Members.Distinct ms' ∧
      Members.contains (.text anyMethodKey) ms' = true ∧ readMembers ms = readMembers ms' := by
  obtain ⟨before, after, marker, rfl, hm'⟩ := h.marked
  refine ⟨_, hm', ?_, ?_, ?_⟩
  · have hnew : Members.Distinct ((.text anyMethodKey, marker) :: (before ++ after)) := by
      refine List.pairwise_cons.2 ⟨fun m hm => ?_, h.distinct⟩
      rw [Scalar.same_comm]
      simpa using List.any_eq_false.1 h.unmarked m hm
    exact Members.distinct_of_perm List.perm_middle.symm hnew
  · unfold Members.contains
    simp
  · unfold readMembers
    rw [List.filter_append, List.filter_append, List.filter_cons,
      if_neg (by simpa using anyMethodKey_notMem_readKeys)]

/-- What the any-method key does to a path item. The item with it and the item without it
both stop or both come to an end. At the end their actions are the same in some order: with
the key in the fixed order of the verbs, and without it beside the operations as they are
declared. A verb has one action if its operation is not empty, and none otherwise. Of any
other path item with the same members read it matters only whether it has the key. -/
theorem ofPathItem_marked (h : Marked item ms item') (c : Converter) (path base : Value) :
    ((ofPathItem c path base item).stop = none ↔ (ofPathItem c path base item').stop = none) ∧
    (∀ done done', (ofPathItem c path base item).all = .ok done →
      (ofPathItem c path base item').all = .ok done' →
      done'.Perm done ∧
      List.Forall₂ (fun verb a =>
          OfOperation c (.text verb) path (item.field verb) base (item.field "parameters") a)
        (verbs.filter fun verb => (item.field verb).truthy) done' ∧
      List.Forall₂ (fun m a =>
          OfOperation c (.scalar m.1) path m.2 base (item.field "parameters") a)
        (operations ms) done ∧
      ∀ verb ∈ verbs, (done.countP fun a => a.verb.text? == some verb) =
        if (item.field verb).truthy then 1 else 0) ∧
    ∀ other ns, other.members? = some ns → readMembers ns = readMembers ms →
      ofPathItem c path base other =
        if Members.contains (.text anyMethodKey) ns then ofPathItem c path base item'
        else ofPathItem c path base item := by
  obtain ⟨ms', hm', hd', hany', hread⟩ := h.exists_members
  have halike : Attempt.Alike List.Perm (ofPathItem c path base item).all
      (ofPathItem c path base item').all :=
    alike_ofPathItem h.members hm' h.distinct hd' hread
  refine ⟨?_, ?_, ?_⟩
  · have hstop : ∀ p : Progress Action, p.stop = none ↔ ∃ done, p.all = .ok done := by
      intro p
      simp [Progress.all_eq_ok]
    rw [hstop, hstop]
    exact halike.exists_iff
  · intro done done' hdone hdone'
    have hperm : done'.Perm done := (halike.of_ok hdone hdone').symm
    obtain ⟨hstop, rfl⟩ := Progress.all_eq_ok.1 hdone
    obtain ⟨hstop', rfl⟩ := Progress.all_eq_ok.1 hdone'
    have hfixed := forall₂_of_marked h.members hm' hread hany' hstop'
    refine ⟨hperm, hfixed, forall₂_of_unmarked h.members h.distinct h.unmarked hstop, ?_⟩
    intro verb hverb
    have hrequests := map_verb_of_forall₂ (hfixed.imp fun _ _ ha => ha.verb)
    rw [← hperm.countP_eq, countP_verb (nodup_verbs.filter _) hrequests]
    simp [hverb]
  · intro other ns hns hsame
    split
    · next hany => exact ofPathItem_congr hns hm' (hsame.trans hread) (hany.trans hany'.symm)
    · next hany =>
      rw [Bool.not_eq_true] at hany
      exact ofPathItem_congr hns h.members hsame (hany.trans h.unmarked.symm)

/-- A path item that declares `delete` before `get`, with a verb that is not supported, a key
that is no text and an operation that is empty in between. -/
def deleteBeforeGet : Members Value :=
  [(.text "delete", .object [("summary", .text "Remove")]), (.text "options", .int 3),
   (.int 7, .null), (.text "put", .null), (.text "get", .object [("summary", .text "Show")])]

/-- The same members with a marker among them. -/
def markedDeleteBeforeGet : Members Value :=
  deleteBeforeGet.take 2 ++ (.text anyMethodKey, .int 0) :: deleteBeforeGet.drop 2

/-- With the any-method key `get` comes first, and the actions are the same; without what is
not read nothing changes. -/
theorem ofPathItem_marked_deleteBeforeGet :
    Marked (.map deleteBeforeGet) deleteBeforeGet (.map markedDeleteBeforeGet) ∧
    ∃ done done',
      (ofPathItem (.forSchemas []) (.text "/items") (.text "") (.map deleteBeforeGet)).all =
        .ok done ∧
      (ofPathItem (.forSchemas []) (.text "/items") (.text "") (.map markedDeleteBeforeGet)).all =
        .ok done' ∧
      done'.Perm done ∧ done.map verb = [.text "delete", .text "get"] ∧
      done'.map verb = [.text "get", .text "delete"] ∧
      ofPathItem (.forSchemas []) (.text "/items") (.text "") (.map (readMembers deleteBeforeGet)) =
        ofPathItem (.forSchemas []) (.text "/items") (.text "") (.map deleteBeforeGet) := by
  have hmarked : Marked (.map deleteBeforeGet) deleteBeforeGet (.map markedDeleteBeforeGet) :=
    ⟨rfl, by unfold Members.Distinct; decide, by decide,
      deleteBeforeGet.take 2, deleteBeforeGet.drop 2, .int 0, rfl, rfl⟩
  obtain ⟨hstop, hactions, hother⟩ :=
    ofPathItem_marked hmarked (.forSchemas []) (.text "/items") (.text "")
  obtain ⟨done, hdone⟩ := Attempt.exists_eq_ok (by decide +kernel :
    (ofPathItem (.forSchemas []) (.text "/items") (.text "") (.map deleteBeforeGet)).all.isOk =
      true)
  have hdone' := Progress.all_eq_ok.2 ⟨hstop.1 (Progress.all_eq_ok.1 hdone).1, rfl⟩
  obtain ⟨hperm, hfixed, hdeclared, -⟩ := hactions done _ hdone hdone'
  have hrequests := map_verb_of_forall₂ (hdeclared.imp fun _ _ ha => ha.verb)
  have hrequests' := map_verb_of_forall₂ (hfixed.imp fun _ _ ha => ha.verb)
  have hread := hother (.map (readMembers deleteBeforeGet)) _ rfl rfl
  exact ⟨hmarked, done, _, hdone, hdone', hperm, hrequests, hrequests', hread⟩

end Action

end ApiAuthz
