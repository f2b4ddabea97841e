/-
How far conversion looks into a document. A node deeper than the limit is refused before
anything else is asked of it, so what stands there may be anything. `Value.AgreeDownTo` relates
nodes that are equal but for schemas that stand so many levels below them or deeper; looking at
two such nodes comes to the same, with schemas below that agree one level less (`agree_view`),
and so does converting them, by induction on the levels that are left (`convertAt_eq_of_agree`).

`convertNested` is conversion that may nest its calls only so deep. With one call more than
there are levels it does what conversion does, whatever the document (`convertNested_eq`).

# Nodes that agree

Only two keys of a node lead to schemas below it, and under these the schemas may differ; all
other members have to be equal, and the keys have to be the same in the same order, for they are
shown in reports (`AgreeUnder`, `AgreeMembers`). Items may differ, but not in whether they are
null. The relation for the schemas right below is a parameter (`AgreeBut`), so that the levels
are a plain recursion on a number (`AgreeDownTo`): with none left all nodes agree.

# Aliases

A document may hold itself, so its size says little: it stands here unfolded as deep as anybody
may look. Nothing here goes by it. Both inductions are on the levels between the depth of a node
and the limit, which is why the bounds on equality and on nesting are the same for every
document: how far it is unfolded below the limit plays no part.
-/
import ApiAuthz.Proofs.Matched
import ApiAuthz.Proofs.Schema.NodeView

namespace ApiAuthz

-- ==================================================== nodes that agree

namespace Value

/-- What nodes have under a key is equal, or it is the schemas right below them, and these are
related. Items are null on both sides or on none. -/
inductive AgreeUnder (R : Value → Value → Prop) : Scalar → Value → Value → Prop
  | same (key : Scalar) (v : Value) : AgreeUnder R key v v
  | properties {v w : Value} {ps qs : Members Value} (hv : v.members? = some ps)
      (hw : w.members? = some qs) (h : List.Forall₂ (SameKey R) ps qs) :
      AgreeUnder R (.text "properties") v w
  | items {v w : Value} (hv : v.isNull = false) (hw : w.isNull = false) (h : R v w) :
      AgreeUnder R (.text "items") v w

/-- Members under the same keys, key by key, that are equal or schemas right below. -/
def AgreeMembers (R : Value → Value → Prop) (ms ns : Members Value) : Prop :=
  List.Forall₂ (fun m n => m.1 = n.1 ∧ AgreeUnder R m.1 m.2 n.2) ms ns

/-- Nodes that are equal but for the schemas right below them, which are related. -/
inductive AgreeBut (R : Value → Value → Prop) : Value → Value → Prop
  | same (v : Value) : AgreeBut R v v
  | members {v w : Value} {ms ns : Members Value} (hv : v.members? = some ms)
      (hw : w.members? = some ns) (h : AgreeMembers R ms ns) : AgreeBut R v w

/-- Nodes that are equal but for schemas that stand so many levels below them, or deeper. -/
def AgreeDownTo : Nat → Value → Value → Prop
  | 0, _, _ => True
  | levels + 1, v, w => AgreeBut (AgreeDownTo levels) v w

variable {R : Value → Value → Prop} {ms ns : Members Value}

theorem keys_of_agree (h : AgreeMembers R ms ns) : Members.keys ms = Members.keys ns := by
  induction h with
  | nil => rfl
  | cons hm _ ih => exact congrArg₂ List.cons hm.1 ih

/-- What is found under a name agrees as far as its key asks. -/
theorem find?_agree (h : AgreeMembers R ms ns) (name : String) :
    Option.Rel (AgreeUnder R (.text name)) (Members.find? (.text name) ms)
      (Members.find? (.text name) ns) := by
  induction h with
  | nil => exact .none
  | @cons m n _ _ hm _ ih =>
      obtain ⟨hkey, hagree⟩ := hm
      rw [Members.find?_cons, Members.find?_cons, ← hkey]
      split
      · next hsame =>
        rw [Scalar.eq_text_of_same hsame] at hagree
        exact .some hagree
      · exact ih

/-- Only under two keys are there schemas. -/
theorem find?_eq_of_agree (h : AgreeMembers R ms ns) (name : String)
    (hp : name ≠ "properties") (hi : name ≠ "items") :
    Members.find? (.text name) ms = Members.find? (.text name) ns := by
  have hfound := find?_agree h name
  generalize Members.find? (.text name) ms = v? at hfound ⊢
  generalize Members.find? (.text name) ns = w? at hfound ⊢
  cases hfound with
  | none => rfl
  | some hagree =>
      generalize hkey : Scalar.text name = key at hagree
      cases hagree with
      | same => rfl
      | properties => exact absurd (Scalar.text.inj hkey) hp
      | items => exact absurd (Scalar.text.inj hkey) hi

theorem getD_agree {key : Scalar} {v? w? : Option Value} (h : Option.Rel (AgreeUnder R key) v? w?) :
    AgreeUnder R key (v?.getD .null) (w?.getD .null) := by
  cases h with
  | none => exact .same key .null
  | some h => exact h

end Value

-- ==================================================== looking at nodes that agree

namespace Converter

open Value (AgreeUnder AgreeMembers AgreeBut AgreeDownTo)

variable {c : Converter} {R : Value → Value → Prop} {depth name v w : Value}

/-- Looking at two nodes comes to the same, but for related schemas right below them. -/
inductive AgreeViews (R : Value → Value → Prop) (depth : Value) :
    Attempt Shape → Attempt Shape → Prop
  | same (x : Attempt Shape) : AgreeViews R depth x x
  | record {below : Value} {ps qs : Members Value} (hn : depth.successor? = some below)
      (h : List.Forall₂ (SameKey R) ps qs) :
      AgreeViews R depth (.ok (.record below ps)) (.ok (.record below qs))
  | set {below element element' : Value} (hn : depth.successor? = some below)
      (h : R element element') :
      AgreeViews R depth (.ok (.set below element)) (.ok (.set below element'))

/-- An object is seen alike where its properties agree. -/
theorem agree_viewObject (h : AgreeUnder R (.text "properties") v w) :
    AgreeViews R depth (viewObject depth v) (viewObject depth w) := by
  generalize hkey : Scalar.text "properties" = key at h
  cases h with
  | same => exact .same _
  | items => exact absurd (Scalar.text.inj hkey) (by decide)
  | @properties _ _ ps qs hv hw h =>
      unfold viewObject
      rw [Value.truthy_of_members? hv, Value.truthy_of_members? hw, hv, hw]
      cases h with
      | nil => exact .same _
      | cons hm hms =>
          simp only [List.isEmpty_cons, Bool.not_false, Bool.not_true, Bool.false_eq_true, if_false]
          cases hn : depth.successor? with
          | none => exact .same _
          | some below => exact .record hn (.cons hm hms)

/-- A list is seen alike where its items agree. -/
theorem agree_viewArray (h : AgreeUnder R (.text "items") v w) :
    AgreeViews R depth (viewArray depth name v) (viewArray depth name w) := by
  generalize hkey : Scalar.text "items" = key at h
  cases h with
  | same => exact .same _
  | properties => exact absurd (Scalar.text.inj hkey) (by decide)
  | items hv hw h =>
      unfold viewArray
      rw [hv, hw]
      cases hn : depth.successor? with
      | none => exact .same _
      | some below => exact .set hn h

theorem agree_viewTyped {ms ns : Members Value} (h : AgreeMembers R ms ns) :
    AgreeViews R depth (viewTyped depth name ms) (viewTyped depth name ns) := by
  unfold viewTyped
  rw [Value.keys_of_agree h, Value.find?_eq_of_agree h "type" (by decide) (by decide)]
  split
  · exact .same _
  · exact agree_viewObject (Value.getD_agree (Value.find?_agree h "properties"))
  · exact agree_viewArray (Value.getD_agree (Value.find?_agree h "items"))
  · exact .same _

/-- What is seen of a node agrees where the node does. -/
theorem agree_view (h : AgreeBut R v w) :
    AgreeViews R depth (c.view depth name v) (c.view depth name w) := by
  cases h with
  | same => exact .same _
  | members hv hw h =>
      unfold view
      rw [hv, hw]
      cases depth.above? c.limit with
      | none => exact .same _
      | some above =>
          cases above with
          | true => exact .same _
          | false =>
              simp only [Value.find?_eq_of_agree h "$ref" (by decide) (by decide)]
              split
              · exact .same _
              · exact agree_viewTyped h

-- ==================================================== converting nodes that agree

/-- Properties that agree make the same record if nodes that agree make the same type. -/
theorem mapM_properties_congr {ps qs : Members Value} {convert : Value → Value → Attempt CedarType}
    (h : List.Forall₂ (SameKey R) ps qs) (hR : ∀ name v w, R v w → convert name v = convert name w) :
    (ps.mapM fun m => do return (m.1, ← convert (.scalar m.1) m.2)) =
      qs.mapM fun m => do return (m.1, ← convert (.scalar m.1) m.2) := by
  induction h with
  | nil => rfl
  | cons hm _ ih =>
      cases hm with
      | intro hvw => rw [List.mapM_cons, List.mapM_cons, ih, hR _ _ _ hvw]

/-- Nodes convert alike if they agree down to the limit. -/
theorem convertAt_eq_of_agree {limit depth : Int} (hlimit : c.limit = .int limit) {levels : Nat}
    (hlevels : limit < depth + levels) (h : AgreeDownTo levels v w) (name : Value) :
    c.convertAt (.int depth) name v = c.convertAt (.int depth) name w := by
  induction levels generalizing depth name v w with
  | zero =>
      have hdeeper : limit < depth := by omega
      rw [convertAt_eq, convertAt_eq, view_deeper hlimit hdeeper, view_deeper hlimit hdeeper]
  | succ levels ih =>
      have hbelow : limit < depth + 1 + levels := by omega
      have hviews : AgreeViews (AgreeDownTo levels) (.int depth) (c.view (.int depth) name v)
          (c.view (.int depth) name w) := agree_view h
      rw [convertAt_eq, convertAt_eq]
      generalize c.view (.int depth) name v = x at hviews ⊢
      generalize c.view (.int depth) name w = y at hviews ⊢
      cases hviews with
      | same => rfl
      | record hn hps =>
          cases hn
          have hproperties := mapM_properties_congr hps fun name v w hvw => ih hbelow hvw name
          show c.convertShape name (.record _ _) = c.convertShape name (.record _ _)
          rw [convertShape, convertShape, hproperties]
      | set hn helement =>
          cases hn
          show c.convertShape name (.set _ _) = c.convertShape name (.set _ _)
          rw [convertShape, convertShape, ih hbelow helement name]

-- ==================================================== nested calls

/-- Conversion that may nest so many calls, itself the first of them. Where it would need one
more it comes to nothing. -/
def convertNested (c : Converter) : Nat → Value → Value → Value → ExceptT Fault Option CedarType
  | 0, _, _, _ => ExceptT.mk none
  | calls + 1, depth, name, node => do
    match ← ExceptT.mk (some (c.view depth name node)) with
    | .leaf type => return type
    | .record below properties =>
      return .record (← properties.mapM fun m => do
        return (m.1, ← convertNested c calls below (.scalar m.1) m.2))
    | .set below element => return .set (← convertNested c calls below name element)

/-- What is made of a result that there is. -/
theorem bind_some {α β : Type} {x : ExceptT Fault Option α} {y : Attempt α}
    (h : x = ExceptT.mk (some y)) (make : α → β) :
    (x >>= fun a => pure (make a)) = ExceptT.mk (some (y >>= fun a => pure (make a))) := by
  subst h
  cases y with
  | error f => rfl
  | ok a => rfl

/-- A walk whose steps all come to something comes to what they come to. -/
theorem mapM_some {α β : Type} {f : α → ExceptT Fault Option β} {g : α → Attempt β} (xs : List α)
    (h : ∀ x ∈ xs, f x = ExceptT.mk (some (g x))) :
    xs.mapM f = ExceptT.mk (some (xs.mapM g)) := by
  induction xs with
  | nil => rfl
  | cons x xs ih =>
      obtain ⟨hx, hxs⟩ := List.forall_mem_cons.1 h
      rw [List.mapM_cons, List.mapM_cons, hx]
      cases g x with
      | error f => rfl
      | ok b => exact bind_some (ih hxs) fun bs => b :: bs

/-- One call for each level and one more for what is deeper are enough for any document. -/
theorem convertNested_eq {limit depth : Int} (hlimit : c.limit = .int limit) {calls : Nat}
    (hcalls : max 1 (limit - depth + 2) ≤ calls) (name node : Value) :
    c.convertNested calls (.int depth) name node =
      ExceptT.mk (some (c.convertAt (.int depth) name node)) := by
  induction calls generalizing depth name node with
  | zero => omega
  | succ calls ih =>
      rw [convertNested, convertAt_eq]
      cases hview : c.view (.int depth) name node with
      | error f => rfl
      | ok shape =>
          have hdepth : ¬limit < depth := fun hdeeper => by
            rw [view_deeper hlimit hdeeper] at hview
            cases hview
          have hbelow : max 1 (limit - (depth + 1) + 2) ≤ calls := by omega
          obtain ⟨-, ms, hms, hv⟩ := view_inv hview
          cases hv with
          | @object _ _ ps _ _ _ _ hn =>
              cases hn
              have hproperties := mapM_some ps fun m _ =>
                bind_some (ih hbelow (.scalar m.1) m.2) fun type => (m.1, type)
              exact bind_some hproperties CedarType.record
          | array _ _ _ hn =>
              cases hn
              exact bind_some (ih hbelow name _) CedarType.set
          | _ => rfl

/-- Conversion does not depend on what stands deeper than the limit: nodes that are equal but for
schemas there come to the same type or to the same fault. And its calls nest no deeper than the
limit asks for, one for each level and one more, so also where nodes are nested without end. -/
theorem convertAt_above_limit (c : Converter) {limit depth : Int} (hlimit : c.limit = .int limit)
    (name node : Value) :
    (∀ node', AgreeDownTo (limit - depth + 1).toNat node node' →
      c.convertAt (.int depth) name node = c.convertAt (.int depth) name node') ∧
    ∀ calls : Nat, max 1 (limit - depth + 2) ≤ calls →
      c.convertNested calls (.int depth) name node =
        ExceptT.mk (some (c.convertAt (.int depth) name node)) := by
  refine ⟨fun node' h => ?_, fun calls hcalls => convertNested_eq hlimit hcalls name node⟩
  exact convertAt_eq_of_agree hlimit (by omega) h name

/-- Arrays in arrays, with null innermost. -/
def arrays : Nat → Value
  | 0 => .null
  | levels + 1 => .object [("type", .text "array"), ("items", arrays levels)]

/-- As long as the innermost one is out of reach, it does not matter how many arrays there are. -/
theorem agree_arrays (levels more more' : Nat) :
    AgreeDownTo levels (arrays (levels + more + 1)) (arrays (levels + more' + 1)) := by
  induction levels with
  | zero => trivial
  | succ levels ih =>
      rw [Nat.succ_add levels more, Nat.succ_add levels more']
      exact .members rfl rfl
        (.cons ⟨rfl, .same _ _⟩ (.cons ⟨rfl, .items rfl rfl ih⟩ .nil))

/-- Three arrays in one another and a thousand of them come to the same fault. -/
theorem convertAt_above_limit_arrays :
    (forSchemas []).convertAt (.int 31) (.text "Deep") (arrays 3) =
        (forSchemas []).convertAt (.int 31) (.text "Deep") (arrays 1000) ∧
      (forSchemas []).convertNested 3 (.int 31) (.text "Deep") (arrays 1000) =
        ExceptT.mk (some ((forSchemas []).convertAt (.int 31) (.text "Deep") (arrays 1000))) := by
  obtain ⟨hagree, -⟩ :=
    @convertAt_above_limit (forSchemas []) 32 31 rfl (.text "Deep") (arrays 3)
  obtain ⟨-, hnested⟩ :=
    @convertAt_above_limit (forSchemas []) 32 31 rfl (.text "Deep") (arrays 1000)
  exact ⟨hagree _ (agree_arrays 2 0 997), hnested 3 (by decide)⟩

end Converter

end ApiAuthz
