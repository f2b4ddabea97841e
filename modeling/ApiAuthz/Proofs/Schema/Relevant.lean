/-
The part of an API description that its schema depends on. Of a path item it has the
verbs that are mapped, the parameters, and whether the any-method key is there; of an
operation its name, parameters and extension; of a parameter and of a schema node what
is asked of them. What is kept stays in its place, and everything else is left out.

`Members.restrict` keeps the members under some keys, and `find?_restrict` says what is
found afterwards. Everything asked of a relevant part follows from it: a field that is
kept is the relevant part of the field (`Value.field_onMembers`), and a relevant part
is of the kind that the whole is of.

# Tables of what is kept

Each kind of place has a table of the keys that are kept and of what becomes of the values
under them (`keptOfItem`, `keptOfOperation`, `keptOfParameter`, `keptOfNode`,
`keptOfExtension`). Values are kept as they are or restricted in turn; under the any-method
key only that there is something. All properties of a node are kept, whatever their names,
for these are no keys of the description.

# Nodes in nodes

For schema nodes the restriction is a recursion on the node and its members
(`Relevant.node`), and it is proved to be what the table says (`node_eq`), also for nodes
that hold themselves. No property is left out, so properties count as true or false as they
did (`truthy_properties`); an operation may become empty by losing its notes, which is why
`ApiDocument.filledOperations` is compared beside the relevant parts.
-/
import ApiAuthz.Action
import ApiAuthz.ApiDocument
import ApiAuthz.Proofs.Members

namespace ApiAuthz

-- ==================================================== some of the members

namespace Members

/-- The members under some text keys, each with its value changed as its key asks. -/
def restrict (kept : String → Option (Value → Value)) (ms : Members Value) : Members Value :=
  ms.filterMap fun m =>
    match m.1 with
    | .text s => (kept s).map fun change => (m.1, change m.2)
    | _ => none

variable {kept : String → Option (Value → Value)}

/-- A member is kept and changed, or dropped, by its name. -/
theorem restrict_cons_text (s : String) (v : Value) (ms : Members Value) :
    restrict kept ((.text s, v) :: ms) =
      match kept s with
      | some change => (.text s, change v) :: restrict kept ms
      | none => restrict kept ms := by
  unfold restrict
  rw [List.filterMap_cons]
  dsimp only
  cases kept s <;> rfl

theorem restrict_cons_of_not_text {k : Scalar} (h : ∀ s, k ≠ .text s) (v : Value)
    (ms : Members Value) : restrict kept ((k, v) :: ms) = restrict kept ms := by
  unfold restrict
  rw [List.filterMap_cons]
  dsimp only
  split
  · rfl
  · next hsome =>
    split at hsome
    · next s => exact absurd rfl (h s)
    · cases hsome

/-- What is found under a key after all but some members are left out. -/
theorem find?_restrict (name : String) (ms : Members Value) :
    find? (.text name) (restrict kept ms) =
      (kept name).bind fun change => (find? (.text name) ms).map change := by
  induction ms with
  | nil => cases kept name <;> rfl
  | cons m ms ih =>
      obtain ⟨k, v⟩ := m
      by_cases htext : ∃ s, k = .text s
      · obtain ⟨s, rfl⟩ := htext
        rw [restrict_cons_text, find?_cons (.text name) (.text s, v)]
        by_cases hs : s = name
        · subst hs
          rw [if_pos (Scalar.same_refl _)]
          cases hkept : kept s with
          | none =>
              rw [hkept] at ih
              exact ih
          | some change =>
              dsimp only
              rw [find?_cons, if_pos (Scalar.same_refl _)]
              rfl
        · have hne : ¬(Scalar.text s : Scalar).same (.text name) = true := by
            rw [Scalar.same_text, decide_eq_true_eq]
            exact hs
          rw [if_neg hne, ← ih]
          cases kept s with
          | none => rfl
          | some change =>
              dsimp only
              rw [find?_cons, if_neg hne]
      · have hnot : ∀ s, k ≠ .text s := fun s hs => htext ⟨s, hs⟩
        have hne : ¬k.same (.text name) = true := fun hsame =>
          hnot name (Scalar.eq_text_of_same hsame)
        rw [restrict_cons_of_not_text hnot, find?_cons, if_neg hne, ih]

/-- A member that is kept is found as it was changed. -/
theorem find?_restrict_of_kept {name : String} {f : Value → Value} (h : kept name = some f)
    (ms : Members Value) :
    find? (.text name) (restrict kept ms) = (find? (.text name) ms).map f := by
  rw [find?_restrict, h, Option.bind_some]

/-- The same where null is found for what is absent. -/
theorem getD_find?_restrict {name : String} {f : Value → Value} (h : kept name = some f)
    (hnull : f .null = .null) (ms : Members Value) :
    (find? (.text name) (restrict kept ms)).getD .null =
      f ((find? (.text name) ms).getD .null) := by
  rw [find?_restrict_of_kept h]
  cases find? (.text name) ms with
  | none => exact hnull.symm
  | some v => rfl

end Members

-- ==================================================== mappings and lists

namespace Value

/-- A mapping with its members changed; anything else is left as it is. -/
def onMembers (change : Members Value → Members Value) (v : Value) : Value :=
  match v.members? with
  | some ms => .map (change ms)
  | none => v

/-- A list with its items changed; anything else is left as it is. -/
def onItems (change : Value → Value) : Value → Value
  | .list items => .list (items.map change)
  | .pair a b => .pair (change a) (change b)
  | .looped _ v => onItems change v
  | v => v

variable {change : Members Value → Members Value}

/-- The members of what holds itself are changed with it. -/
theorem members?_onMembers (v : Value) :
    (v.onMembers change).members? = v.members?.map change := by
  unfold onMembers
  cases h : v.members? with
  | none => exact h
  | some ms => rfl

theorem isMap_onMembers (v : Value) : (v.onMembers change).isMap = v.isMap := by
  unfold isMap
  rw [members?_onMembers, Option.isSome_map]

/-- What is no mapping is the same before and after. -/
theorem onMembers_cases (change : Members Value → Members Value) (v : Value) :
    (∃ ms, v.members? = some ms ∧ v.onMembers change = .map (change ms)) ∨
      (v.members? = none ∧ v.onMembers change = v) := by
  unfold onMembers
  cases h : v.members? with
  | none => exact Or.inr ⟨rfl, rfl⟩
  | some ms => exact Or.inl ⟨ms, rfl, rfl⟩

theorem onMembers_looped (n : Nat) (v : Value) :
    (if v.isMap then v.onMembers change else .looped n v) =
      (Value.looped n v).onMembers change := by
  unfold isMap onMembers
  rw [members?_looped]
  cases v.members? with
  | none => rfl
  | some ms => rfl

theorem isBlank_of_members? {v : Value} {ms : Members Value} (h : v.members? = some ms) :
    v.isBlank = false ∧ v.isNull = false := by
  cases v with
  | scalar s => cases h
  | list items => cases h
  | pair a b => cases h
  | set items => cases h
  | map members => exact ⟨rfl, rfl⟩
  | looped n v => exact ⟨rfl, rfl⟩

theorem isNull_onMembers (v : Value) : (v.onMembers change).isNull = v.isNull := by
  rcases v.onMembers_cases change with ⟨ms, hms, heq⟩ | ⟨-, heq⟩
  · rw [heq, (isBlank_of_members? hms).2]
    rfl
  · rw [heq]

theorem isBlank_onMembers (v : Value) : (v.onMembers change).isBlank = v.isBlank := by
  rcases v.onMembers_cases change with ⟨ms, hms, heq⟩ | ⟨-, heq⟩
  · rw [heq, (isBlank_of_members? hms).1]
    rfl
  · rw [heq]

/-- So is a field that is kept. -/
theorem field?_onMembers {kept : String → Option (Value → Value)} {name : String}
    {f : Value → Value} (h : kept name = some f) (v : Value) :
    (v.onMembers (Members.restrict kept)).field? name = (v.field? name).map f := by
  unfold field?
  rw [members?_onMembers]
  cases v.members? with
  | none => rfl
  | some ms => exact Members.find?_restrict_of_kept h ms

/-- A field that is kept is changed as its key asks. -/
theorem field_onMembers {kept : String → Option (Value → Value)} {name : String}
    {f : Value → Value} (h : kept name = some f) (hnull : f .null = .null) (v : Value) :
    (v.onMembers (Members.restrict kept)).field name = f (v.field name) := by
  unfold field
  rw [field?_onMembers h]
  cases v.field? name with
  | none => exact hnull.symm
  | some w => rfl

/-- Changing items does not make a list empty. -/
theorem truthy_onItems (f : Value → Value) : ∀ v : Value, (v.onItems f).truthy = v.truthy
  | .list items => by
      show (!(items.map f).isEmpty) = !items.isEmpty
      rw [List.isEmpty_map]
  | .pair _ _ => rfl
  | .looped _ v => truthy_onItems f v
  | .scalar _ => rfl
  | .set _ => rfl
  | .map _ => rfl

/-- A list iterates over its items, changed where they are no scalars. -/
theorem elements?_onItems {f : Value → Value} (h : ∀ s, f (.scalar s) = .scalar s) :
    ∀ v : Value, (v.onItems f).elements? = v.elements?.map (List.map f)
  | .list _ => rfl
  | .pair _ _ => rfl
  | .looped _ v => elements?_onItems h v
  | .scalar s => by
      cases s <;> simp [onItems, elements?, h, Function.comp_def]
  | .set items => by simp [onItems, elements?, h, Function.comp_def]
  | .map ms => by simp [onItems, elements?, h, Function.comp_def]

end Value

-- ==================================================== relevant parts

namespace Relevant

mutual

/-- Of a schema node: its reference, its type, its properties and its items. -/
def node : Value → Value
  | .map ms => .map (nodeMembers ms)
  | .looped n v => if v.isMap then node v else .looped n v
  | v => v

/-- The members of a node that matter. -/
def nodeMembers : List (Scalar × Value) → List (Scalar × Value)
  | [] => []
  | (.text "$ref", v) :: ms => (.text "$ref", v) :: nodeMembers ms
  | (.text "type", v) :: ms => (.text "type", v) :: nodeMembers ms
  | (.text "properties", v) :: ms => (.text "properties", properties v) :: nodeMembers ms
  | (.text "items", v) :: ms => (.text "items", node v) :: nodeMembers ms
  | _ :: ms => nodeMembers ms

/-- Of properties: all of them, each of which is a node. -/
def properties : Value → Value
  | .map ms => .map (eachNode ms)
  | .looped n v => if v.isMap then properties v else .looped n v
  | v => v

/-- The same for every property. -/
def eachNode : List (Scalar × Value) → List (Scalar × Value)
  | [] => []
  | (k, v) :: ms => (k, node v) :: eachNode ms

end

/-- What is kept of a schema node. -/
def keptOfNode : String → Option (Value → Value)
  | "$ref" => some id
  | "type" => some id
  | "properties" => some properties
  | "items" => some node
  | _ => none

/-- What is kept of a parameter. -/
def keptOfParameter : String → Option (Value → Value)
  | "$ref" => some id
  | "name" => some id
  | "in" => some id
  | "required" => some id
  | "schema" => some node
  | _ => none

/-- A parameter without what is not read of it. -/
def parameter (v : Value) : Value := v.onMembers (Members.restrict keptOfParameter)

/-- A list of them. -/
def parameters (v : Value) : Value := v.onItems parameter

/-- What is kept of the extension of an operation. -/
def keptOfExtension : String → Option (Value → Value)
  | "appliesToResourceTypes" => some id
  | _ => none

/-- An extension without what is not read of it. -/
def extension (v : Value) : Value := v.onMembers (Members.restrict keptOfExtension)

/-- What is kept of an operation. -/
def keptOfOperation : String → Option (Value → Value)
  | "operationId" => some id
  | "parameters" => some parameters
  | "x-cedar" => some extension
  | _ => none

/-- An operation without what is not read of it. -/
def operation (v : Value) : Value := v.onMembers (Members.restrict keptOfOperation)

/-- What is kept of a path item. Under the any-method key nothing is asked for. -/
def keptOfItem (name : String) : Option (Value → Value) :=
  if Action.verbs.contains name then some operation
  else if name = "parameters" then some parameters
  else if name = Action.anyMethodKey then some fun _ => .null
  else none

/-- A path item without what is not read of it. -/
def item (v : Value) : Value := v.onMembers (Members.restrict keptOfItem)

end Relevant

/-- The part of a document that its schema depends on. -/
def ApiDocument.relevant (doc : ApiDocument) : ApiDocument where
  paths := doc.paths.map fun paths => paths.map fun p => (p.1, Relevant.item p.2)
  servers := doc.servers
  schemas := doc.schemas.map fun s => (s.1, Relevant.node s.2)

/-- Which operations of a document are not empty: path item by path item, and verb by verb. -/
def ApiDocument.filledOperations (doc : ApiDocument) : Option (List (List Bool)) :=
  doc.paths.map fun paths => paths.map fun p =>
    Action.verbs.map fun verb => (p.2.field verb).truthy

-- ==================================================== laws of relevant parts

namespace Relevant

theorem eachNode_eq (ms : Members Value) : eachNode ms = ms.map fun m => (m.1, node m.2) := by
  induction ms with
  | nil => rfl
  | cons m ms ih =>
      obtain ⟨k, v⟩ := m
      rw [eachNode, ih]
      rfl

/-- The members of a node are restricted as those of everything else are. -/
theorem nodeMembers_eq (ms : Members Value) :
    nodeMembers ms = Members.restrict keptOfNode ms := by
  induction ms with
  | nil => rfl
  | cons m ms ih =>
      rw [nodeMembers.eq_def]
      split
      · next hnil => cases hnil
      · next hcons =>
        cases hcons
        rw [ih]
        rfl
      · next hcons =>
        cases hcons
        rw [ih]
        rfl
      · next hcons =>
        cases hcons
        rw [ih]
        rfl
      · next hcons =>
        cases hcons
        rw [ih]
        rfl
      · next rest href htype hproperties hitems hcons =>
        cases hcons
        obtain ⟨k, v⟩ := m
        by_cases htext : ∃ s, k = .text s
        · obtain ⟨s, rfl⟩ := htext
          have hnone : keptOfNode s = none := by
            unfold keptOfNode
            split
            · exact absurd rfl (href v)
            · exact absurd rfl (htype v)
            · exact absurd rfl (hproperties v)
            · exact absurd rfl (hitems v)
            · rfl
          rw [Members.restrict_cons_text, hnone, ih]
        · rw [Members.restrict_cons_of_not_text (fun s hs => htext ⟨s, hs⟩), ih]

/-- A node is its restricted members, also where it holds itself. -/
theorem node_eq : ∀ v : Value, node v = v.onMembers (Members.restrict keptOfNode)
  | .map ms => by
      show Value.map (nodeMembers ms) = .map (Members.restrict keptOfNode ms)
      rw [nodeMembers_eq]
  | .looped n v => by
      rw [node, node_eq v]
      exact Value.onMembers_looped n v
  | .scalar _ => rfl
  | .list _ => rfl
  | .pair _ _ => rfl
  | .set _ => rfl

theorem isNull_node (v : Value) : (node v).isNull = v.isNull := by
  rw [node_eq, Value.isNull_onMembers]

theorem isBlank_node (v : Value) : (node v).isBlank = v.isBlank := by
  rw [node_eq, Value.isBlank_onMembers]

/-- Properties are changed node by node. -/
theorem properties_eq : ∀ v : Value, properties v = v.onMembers eachNode
  | .map _ => rfl
  | .looped n v => by
      rw [properties, properties_eq v]
      exact Value.onMembers_looped n v
  | .scalar _ => rfl
  | .list _ => rfl
  | .pair _ _ => rfl
  | .set _ => rfl

/-- Properties count for something if they did, for none of them is left out. -/
theorem truthy_properties : ∀ v : Value, (properties v).truthy = v.truthy
  | .map ms => by
      show (!(eachNode ms).isEmpty) = !ms.isEmpty
      rw [eachNode_eq, List.isEmpty_map]
  | .looped n v => by
      rw [properties]
      split
      · exact truthy_properties v
      · rfl
  | .scalar _ => rfl
  | .list _ => rfl
  | .pair _ _ => rfl
  | .set _ => rfl

theorem elements?_parameters (v : Value) :
    (parameters v).elements? = v.elements?.map (List.map parameter) :=
  Value.elements?_onItems (fun _ => rfl) v

/-- Nor does restricting parameters. -/
theorem truthy_parameters (v : Value) : (parameters v).truthy = v.truthy :=
  Value.truthy_onItems parameter v

-- ==================================================== verbs of path items

theorem keptOfItem_of_verb {verb : String} (h : verb ∈ Action.verbs) :
    keptOfItem verb = some operation := by
  unfold keptOfItem
  rw [if_pos (List.contains_iff_mem.2 h)]

/-- The operation of a verb is restricted with the item. -/
theorem field_item_verb {verb : String} (h : verb ∈ Action.verbs) (v : Value) :
    (item v).field verb = operation (v.field verb) :=
  Value.field_onMembers (keptOfItem_of_verb h) rfl v

/-- So are its parameters. -/
theorem field_item_parameters (v : Value) :
    (item v).field "parameters" = parameters (v.field "parameters") :=
  Value.field_onMembers (rfl : keptOfItem "parameters" = some parameters) rfl v

/-- The marker of an item is kept. -/
theorem contains_anyMethodKey_restrict (ms : Members Value) :
    Members.contains (.text Action.anyMethodKey) (Members.restrict keptOfItem ms) =
      Members.contains (.text Action.anyMethodKey) ms := by
  have hkept : keptOfItem Action.anyMethodKey = some fun _ => .null := rfl
  rw [Members.contains_eq_isSome, Members.contains_eq_isSome, Members.find?_restrict, hkept,
    Option.bind_some, Option.isSome_map]

/-- The verbs of a path item are those of its relevant part, in the same order. -/
theorem verbsOf_restrict (ms : Members Value) :
    Action.verbsOf (Members.restrict keptOfItem ms) = Action.verbsOf ms := by
  unfold Action.verbsOf
  rw [contains_anyMethodKey_restrict]
  congr 1
  induction ms with
  | nil => rfl
  | cons m ms ih =>
      obtain ⟨k, v⟩ := m
      show _ = List.filterMap _ (k :: Members.keys ms)
      rw [List.filterMap_cons]
      by_cases htext : ∃ s, k = .text s
      · obtain ⟨s, rfl⟩ := htext
        rw [Members.restrict_cons_text]
        cases hkept : keptOfItem s with
        | none =>
            have hverb : Action.verbs.contains s = false := by
              by_contra hverb
              rw [Bool.not_eq_false] at hverb
              rw [keptOfItem_of_verb (List.contains_iff_mem.1 hverb)] at hkept
              cases hkept
            simp only [hverb, Bool.false_eq_true, if_false]
            exact ih
        | some change =>
            show List.filterMap _ (Scalar.text s :: Members.keys _) = _
            rw [List.filterMap_cons, ih]
      · rw [Members.restrict_cons_of_not_text (fun s hs => htext ⟨s, hs⟩), ih]
        split
        · rfl
        · next hsome =>
          split at hsome
          · next s => exact absurd ⟨s, rfl⟩ htext
          · cases hsome

end Relevant

end ApiAuthz
