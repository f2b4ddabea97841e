/-
The parts of a schema from documents that are the same but for the order of members. A node
and the same node reordered are both refused, or convert to types that are the same but for
the order of attributes (`Converter.alike_convertAt`); with that parameters make the same
context, and operations the same action, but for order (`Operation.alike_entry`).

What something is called matters only to reports, so names may differ. The order of
parameters matters, but that is the order of a list; parameters that are given as a mapping
are refused in any order.

# Nodes

Looking at reordered nodes comes to the same but for order (`alike_view`), since whatever is
asked of them is asked under a key or by their kind. Below them stand reordered nodes again,
which have no two keys that are the same if the whole has none (`keyed_of_record`,
`keyed_of_set`), so the induction is that along conversion. Types are compared as the values
they are written as (`CedarType.Reordered`).

# Lists

Within a context attributes keep their order: parameters stand in a list, and only their types
may change (`Context.Reordered`). Lists of parameters are compared by `ListedAlike`, which has
two cases: parameter by parameter, or both lists hold something that is no parameter at all. The
second is there for parameters given as a mapping. Walking over a mapping is walking over its
keys, in their order, but no key is a parameter, so nothing comes of it in either order
(`listedAlike_keys`, `exists_error_ofParameters`).
-/
import ApiAuthz.Proofs.Reordered
import ApiAuthz.Proofs.Schema.Composition
import ApiAuthz.Proofs.Schema.Naming

namespace ApiAuthz

open Attempt (Alike)

-- ==================================================== types

namespace CedarType

/-- The same type but for the order of attributes. -/
def Reordered (t t' : CedarType) : Prop := t.toValue.Reordered t'.toValue

theorem Reordered.refl (t : CedarType) : t.Reordered t := Value.Reordered.refl t.toValue

/-- Records are reordered attribute by attribute. -/
theorem reordered_record {attributes attributes' : Members CedarType}
    (h : Matched (SameKey Reordered) attributes attributes') :
    (record attributes).Reordered (record attributes') := by
  have hvalues : (Value.map (attributeValues attributes)).Reordered
      (.map (attributeValues attributes')) := by
    rw [attributeValues_eq_map, attributeValues_eq_map]
    exact Value.reordered_map.2 (h.map fun a a' haa' => haa'.map fun t t' ht => ht)
  unfold Reordered toValue
  rw [toMembers, toMembers]
  exact Value.reordered_fields (.cons (.intro (.refl _)) (.cons (.intro hvalues) .nil))

/-- Sets are reordered with their elements. -/
theorem reordered_set {element element' : CedarType} (h : element.Reordered element') :
    (set element).Reordered (set element') := by
  unfold Reordered toValue
  rw [toMembers, toMembers]
  exact Value.reordered_fields (.cons (.intro (.refl _)) (.cons (.intro h) .nil))

end CedarType

-- ==================================================== nodes

/-- The same at its own level, but for the order of what is below. -/
inductive Shape.Reordered : Shape → Shape → Prop
  | leaf (type : CedarType) : Reordered (.leaf type) (.leaf type)
  | record (below : Value) {ps ps' : Members Value} (h : Matched (SameKey Value.Reordered) ps ps') :
      Reordered (.record below ps) (.record below ps')
  | set (below : Value) {element element' : Value} (h : element.Reordered element') :
      Reordered (.set below element) (.set below element')

namespace Converter

variable {c : Converter} {depth name name' node node' : Value}

/-- A reference is a text, so it leads to the same schema. -/
theorem alike_target {ref ref' : Value} (h : ref.Reordered ref') :
    Alike Eq (c.target name ref) (c.target name' ref') := by
  unfold target
  rw [h.text?_eq]
  cases ref.text? with
  | none => exact trivial
  | some text =>
      dsimp only
      cases component? text with
      | none => exact trivial
      | some t =>
          dsimp only
          cases c.names with
          | none => exact rfl
          | some names =>
              dsimp only
              split
              · exact rfl
              · exact trivial

/-- So is the name of a primitive type. -/
theorem alike_primitive {type type' : Value} (h : type.Reordered type') :
    Alike Eq (primitive name type) (primitive name' type') := by
  unfold primitive
  rw [h.text?_eq]
  cases type.text?.bind primitive? with
  | none => exact trivial
  | some t => exact rfl

/-- A node without a type is refused, whatever its keys are. -/
theorem exists_untyped (name : Value) (keys : List Scalar) : ∃ f, untyped name keys = .error f := by
  unfold untyped
  split
  · exact ⟨_, rfl⟩
  · split
    · exact ⟨_, rfl⟩
    · exact ⟨_, rfl⟩

/-- Objects whose properties are reordered are seen as reordered records. -/
theorem alike_viewObject {properties properties' : Value} (h : properties.Reordered properties') :
    Alike Shape.Reordered (viewObject depth properties) (viewObject depth properties') := by
  have hmembers := h.members?_reordered
  unfold viewObject
  rw [h.truthy_eq]
  split
  · exact .leaf _
  · generalize properties.members? = ps? at hmembers ⊢
    generalize properties'.members? = ps'? at hmembers ⊢
    cases hmembers with
    | none => exact trivial
    | some hps =>
        dsimp only
        cases depth.successor? with
        | none => exact trivial
        | some below => exact .record below hps

/-- Lists are seen as reordered sets. -/
theorem alike_viewArray {items items' : Value} (h : items.Reordered items') :
    Alike Shape.Reordered (viewArray depth name items) (viewArray depth name' items') := by
  unfold viewArray
  rw [h.isNull_eq]
  split
  · exact trivial
  · cases depth.successor? with
    | none => exact trivial
    | some below => exact .set below h

theorem getD_reordered {v? w? : Option Value} (h : Option.Rel Value.Reordered v? w?) :
    (v?.getD .null).Reordered (w?.getD .null) := by
  cases h with
  | none => exact .scalar .null
  | some h => exact h

/-- Nodes with a type are seen alike: what they are asked for are fields. -/
theorem alike_viewTyped {ms ns : Members Value} (hd : Members.Distinct ms)
    (h : Matched (SameKey Value.Reordered) ms ns) :
    Alike Shape.Reordered (viewTyped depth name ms) (viewTyped depth name' ns) := by
  have hfound (key : Scalar) := getD_reordered (Members.find?_matched h hd key)
  have htype := hfound (.text "type")
  have hleaf {t t' : Attempt CedarType} (ht : Alike Eq t t') :
      Alike Shape.Reordered (t.map .leaf) (t'.map .leaf) :=
    ht.map fun a b hab => hab ▸ .leaf a
  unfold viewTyped
  generalize (Members.find? (.text "type") ms).getD .null = type at htype ⊢
  generalize (Members.find? (.text "type") ns).getD .null = type' at htype ⊢
  split
  · cases htype
    obtain ⟨f, hf⟩ := exists_untyped name (Members.keys ms)
    obtain ⟨f', hf'⟩ := exists_untyped name' (Members.keys ns)
    dsimp only
    rw [hf, hf']
    exact trivial
  · cases htype
    exact alike_viewObject (hfound _)
  · cases htype
    exact alike_viewArray (hfound _)
  · rename_i hnull hobject harray
    split
    · cases htype
      exact absurd rfl hnull
    · cases htype
      exact absurd rfl hobject
    · cases htype
      exact absurd rfl harray
    · exact hleaf (alike_primitive htype)

/-- So are all nodes. -/
theorem alike_view (hkeyed : node.Keyed) (h : node.Reordered node') :
    Alike Shape.Reordered (c.view depth name node) (c.view depth name' node') := by
  have hmembers := h.members?_reordered
  have hdistinct : ∀ ms, node.members? = some ms → Members.Distinct ms :=
    fun ms hms => (hkeyed.members hms).1
  unfold view
  cases depth.above? c.limit with
  | none => exact trivial
  | some above =>
      cases above with
      | true => exact trivial
      | false =>
          dsimp only
          generalize node.members? = ms? at hmembers hdistinct ⊢
          generalize node'.members? = ns? at hmembers ⊢
          cases hmembers with
          | none => exact trivial
          | @some ms ns hms =>
              have hd := hdistinct ms rfl
              have href := Members.find?_matched hms hd (.text "$ref")
              dsimp only
              generalize Members.find? (.text "$ref") ms = ref? at href ⊢
              generalize Members.find? (.text "$ref") ns = ref'? at href ⊢
              cases href with
              | none => exact alike_viewTyped hd hms
              | some href => exact (alike_target href).map fun a b hab => hab ▸ .leaf _

/-- What is below a node has no two keys that are the same if the node has none. -/
theorem keyed_of_record {below : Value} {ps : Members Value} (hkeyed : node.Keyed)
    (h : c.view depth name node = .ok (.record below ps)) : ∀ m ∈ ps, m.2.Keyed := by
  obtain ⟨-, ms, hms, hviews⟩ := view_inv h
  cases hviews with
  | object _ _ hp hps _ =>
      obtain ⟨m, hm, rfl⟩ := Members.mem_of_find? hp
      exact (((hkeyed.members hms).2 m hm).members hps).2

/-- What a list holds has different keys throughout. -/
theorem keyed_of_set {below element : Value} (hkeyed : node.Keyed)
    (h : c.view depth name node = .ok (.set below element)) : element.Keyed := by
  obtain ⟨-, ms, hms, hviews⟩ := view_inv h
  cases hviews with
  | array _ _ hi _ =>
      obtain ⟨m, hm, rfl⟩ := Members.mem_of_find? hi
      exact (hkeyed.members hms).2 m hm

/-- Reordered nodes convert to types that are the same but for the order of attributes, or
are both refused. -/
theorem alike_convertAt (hkeyed : node.Keyed) (h : node.Reordered node') :
    Alike CedarType.Reordered (c.convertAt depth name node) (c.convertAt depth name' node') := by
  induction depth, name, node using view_induction c generalizing name' node' with
  | step depth name node properties items =>
      rw [convertAt_eq, convertAt_eq]
      refine (alike_view hkeyed h).of_results.bind fun shape shape' hshapes => ?_
      obtain ⟨hview, -, hreordered⟩ := hshapes
      cases hreordered with
      | leaf type => exact .refl type
      | @record below ps ps' hps =>
          have hbelow := keyed_of_record hkeyed hview
          refine (Attempt.alike_mapM_matched (S := SameKey CedarType.Reordered) ?_
            (hps.and_left fun m hm => hm)).bind fun as as' has => CedarType.reordered_record has
          rintro m n ⟨hm, hmn⟩
          cases hmn with
          | intro hvw => exact (properties hview _ hm (hbelow _ hm) hvw).bind fun t t' ht => .intro ht
      | @set below element element' helement =>
          have hitems : Alike CedarType.Reordered (c.convertAt below name element)
              (c.convertAt below name' element') :=
            items hview (keyed_of_set hkeyed hview) helement
          exact hitems.bind fun t t' ht => CedarType.reordered_set ht

/-- Reordered nodes are converted to reordered types. -/
theorem alike_convertTop (hkeyed : node.Keyed) (h : node.Reordered node') :
    Alike CedarType.Reordered (c.convertTop name node) (c.convertTop name' node') :=
  alike_convertAt hkeyed h

/-- So are all common types. -/
theorem alike_commonTypes {schemas schemas' : Members Value} (hkeyed : ∀ m ∈ schemas, m.2.Keyed)
    (h : Matched (SameKey Value.Reordered) schemas schemas') :
    Alike (Matched (SameKey CedarType.Reordered)) (c.commonTypes schemas)
      (c.commonTypes schemas') := by
  refine Attempt.alike_mapM_matched (fun m n hmn => ?_) (h.and_left hkeyed)
  obtain ⟨hm, hmn⟩ := hmn
  cases hmn with
  | intro hvw => exact (alike_convertTop hm hvw).bind fun t t' ht => .intro ht

end Converter

-- ==================================================== contexts

/-- The same attribute but for the order within its type. -/
structure Attribute.Reordered (a a' : Attribute) : Prop where
  type : a.type.Reordered a'.type
  required : a.required = a'.required

/-- Reordered attributes are reordered as values. -/
theorem Attribute.Reordered.toValue {a a' : Attribute} (h : a.Reordered a') :
    a.toValue.Reordered a'.toValue := by
  have htype := Value.reordered_map.1 h.type
  unfold Attribute.toValue Value.object
  rw [List.map_append, List.map_append, h.required]
  exact Value.reordered_map.2 (htype.append (.of_forall₂ (List.forall₂_same.2 fun m _ =>
    .intro (.refl m.2))))

namespace Context

/-- The same context but for the order within the types of attributes. -/
structure Reordered (context context' : Context) : Prop where
  path : List.Forall₂ (SameKey Attribute.Reordered) context.path context'.path
  query : List.Forall₂ (SameKey Attribute.Reordered) context.query context'.query

variable {c : Converter} {context context' : Context}

/-- Attributes are put in order; only their types are reordered. -/
theorem Reordered.put (h : context.Reordered context') (location : Location) (key : Scalar)
    {a a' : Attribute} (ha : a.Reordered a') :
    (context.put location key a).Reordered (context'.put location key a') := by
  cases location with
  | path => exact ⟨Members.forall₂_put h.path key ha, h.query⟩
  | query => exact ⟨h.path, Members.forall₂_put h.query key ha⟩

theorem reordered_groupValue {attributes attributes' : Members Attribute}
    (h : List.Forall₂ (SameKey Attribute.Reordered) attributes attributes') :
    (groupValue attributes).Reordered (groupValue attributes') := by
  have hvalues : (Value.map (attributes.map fun a => (a.1, a.2.toValue))).Reordered
      (.map (attributes'.map fun a => (a.1, a.2.toValue))) :=
    Value.reordered_map.2 ((Matched.of_forall₂ h).map fun a a' haa' =>
      haa'.map fun _ _ hab => hab.toValue)
  exact Value.reordered_fields (.cons (.intro (.refl _)) (.cons (.intro hvalues) .nil))

/-- Reordered contexts are reordered as values. -/
theorem Reordered.toValue (h : context.Reordered context') :
    context.toValue.Reordered context'.toValue := by
  have hgroups : (Value.object [("pathParameters", groupValue context.path),
      ("queryStringParameters", groupValue context.query)]).Reordered
        (.object [("pathParameters", groupValue context'.path),
          ("queryStringParameters", groupValue context'.query)]) :=
    Value.reordered_fields (.cons (.intro (reordered_groupValue h.path))
      (.cons (.intro (reordered_groupValue h.query)) .nil))
  exact Value.reordered_fields (.cons (.intro (.refl _)) (.cons (.intro hgroups) .nil))

-- ==================================================== parameters

variable {parameter parameter' : Value}

/-- The location of a parameter is a text. -/
theorem alike_locationOf (hkeyed : parameter.Keyed) (h : parameter.Reordered parameter') :
    Alike Eq (locationOf parameter) (locationOf parameter') := by
  have href := h.field?_reordered hkeyed "$ref"
  have hmissing : (requiredFields.filter fun f => (parameter'.field f).isBlank) =
      requiredFields.filter fun f => (parameter.field f).isBlank :=
    List.filter_congr fun f _ => (h.field_reordered hkeyed f).isBlank_eq
  have hin := (h.field_reordered hkeyed "in").key?_eq
  unfold locationOf
  rw [h.isMap_eq]
  split
  · exact trivial
  · generalize parameter.field? "$ref" = ref? at href ⊢
    generalize parameter'.field? "$ref" = ref'? at href ⊢
    cases href with
    | some _ => exact trivial
    | none =>
        dsimp only
        rw [hmissing, hin]
        split
        · exact trivial
        · cases (parameter.field "in").key? with
          | none => exact trivial
          | some place => exact rfl

/-- Reordered parameters add reordered attributes. -/
theorem alike_addParameter (hkeyed : parameter.Keyed) (h : parameter.Reordered parameter')
    (hcontext : context.Reordered context') :
    Alike Reordered (addParameter c context parameter) (addParameter c context' parameter') := by
  rw [addParameter_eq, addParameter_eq]
  refine (alike_locationOf hkeyed h).bind fun location? location'? hlocation => ?_
  subst hlocation
  cases location? with
  | none => exact hcontext
  | some location =>
      have hname := h.field_reordered hkeyed "name"
      have hrequired := (h.field_reordered hkeyed "required").truthy_eq
      refine (Converter.alike_convertTop (hkeyed.field "schema")
        (h.field_reordered hkeyed "schema")).bind fun type type' htype => ?_
      rw [hname.key?_eq, hrequired]
      cases (parameter.field "name").key? with
      | none => exact trivial
      | some key => exact hcontext.put location key ⟨htype, rfl⟩

/-- Lists of parameters that agree one by one, or in each of which something is no
parameter. -/
def ListedAlike (vs ws : List Value) : Prop :=
  List.Forall₂ (fun v w => v.Keyed ∧ v.Reordered w) vs ws ∨
    (∃ v ∈ vs, v.isMap = false) ∧ ∃ w ∈ ws, w.isMap = false

theorem ListedAlike.append {vs ws vs' ws' : List Value} (h : ListedAlike vs ws)
    (h' : ListedAlike vs' ws') : ListedAlike (vs ++ vs') (ws ++ ws') := by
  rcases h with h | ⟨⟨v, hv, hvmap⟩, w, hw, hwmap⟩
  · rcases h' with h' | ⟨⟨v, hv, hvmap⟩, w, hw, hwmap⟩
    · exact Or.inl (List.rel_append h h')
    · exact Or.inr ⟨⟨v, List.mem_append_right vs hv, hvmap⟩,
        w, List.mem_append_right ws hw, hwmap⟩
  · exact Or.inr ⟨⟨v, List.mem_append_left vs' hv, hvmap⟩, w, List.mem_append_left ws' hw, hwmap⟩

theorem listedAlike_self {vs : List Value} (h : ∀ v ∈ vs, v.Keyed) : ListedAlike vs vs :=
  Or.inl (List.forall₂_same.2 fun v hv => ⟨h v hv, .refl v⟩)

/-- Keys are no parameters, in any order. -/
theorem listedAlike_keys {ms ns : Members Value} (h : Matched (SameKey Value.Reordered) ms ns) :
    ListedAlike ((Members.keys ms).map .scalar) ((Members.keys ns).map .scalar) := by
  have hkey {m : Scalar × Value} {ms : Members Value} (hm : m ∈ ms) :
      ∃ v ∈ (Members.keys ms).map Value.scalar, v.isMap = false :=
    ⟨.scalar m.1, List.mem_map_of_mem (List.mem_map_of_mem hm), rfl⟩
  cases ms with
  | nil =>
      have hns : ns = [] := List.isEmpty_iff.1 h.isEmpty_eq
      subst hns
      exact Or.inl .nil
  | cons m ms =>
      obtain ⟨n, hn, -⟩ := h.exists_of_mem (List.mem_cons_self ..)
      exact Or.inr ⟨hkey (List.mem_cons_self ..), hkey hn⟩

/-- Only a mapping shows its order where it is listed, and then what is listed are its
keys. -/
theorem elements?_reordered {v w : Value} (hkeyed : v.Keyed) (h : v.Reordered w) :
    Option.Rel ListedAlike v.elements? w.elements? := by
  induction hkeyed generalizing w with
  | scalar s =>
      cases h
      cases s with
      | text s =>
          refine .some (listedAlike_self fun v hv => ?_)
          obtain ⟨c, -, rfl⟩ := List.mem_map.1 hv
          exact .scalar _
      | octets b =>
          refine .some (listedAlike_self fun v hv => ?_)
          obtain ⟨o, -, rfl⟩ := List.mem_map.1 hv
          exact .scalar _
      | _ => exact .none
  | list hvs _ =>
      cases h with
      | list h => exact .some (Or.inl ((List.forall₂_and_left _ _).2 ⟨hvs, h⟩))
  | pair ha hb _ _ =>
      cases h with
      | pair hab hab' => exact .some (Or.inl (.cons ⟨ha, hab⟩ (.cons ⟨hb, hab'⟩ .nil)))
  | set items =>
      cases h
      refine .some (listedAlike_self fun v hv => ?_)
      obtain ⟨s, -, rfl⟩ := List.mem_map.1 hv
      exact .scalar s
  | map _ _ _ =>
      cases h with
      | map h hp => exact .some (listedAlike_keys ⟨_, h, hp⟩)
  | looped _ ih =>
      cases h with
      | looped n h =>
          have hunfolded := ih h
          exact hunfolded

/-- Lists are walked in their order, which is no order of keys. -/
theorem alike_listed {v w : Value} (hkeyed : v.Keyed) (h : v.Reordered w) :
    Alike ListedAlike (listed v) (listed w) := by
  have helements := elements?_reordered hkeyed h
  unfold listed
  rw [h.truthy_eq]
  split
  · exact Or.inl .nil
  · generalize v.elements? = vs? at helements ⊢
    generalize w.elements? = ws? at helements ⊢
    cases helements with
    | none => exact trivial
    | some h => exact h

/-- What is no mapping is no parameter. -/
theorem exists_error_ofParameters {vs : List Value} (h : ∃ v ∈ vs, v.isMap = false) :
    ∃ f, ofParameters c vs = .error f := by
  obtain ⟨v, hv, hmap⟩ := h
  unfold ofParameters
  generalize Context.empty = context
  induction vs generalizing context with
  | nil => cases hv
  | cons u vs ih =>
      rw [List.foldlM_cons]
      rcases List.mem_cons.1 hv with rfl | hv
      · unfold addParameter
        rw [hmap]
        exact ⟨_, rfl⟩
      · cases addParameter c context u with
        | error f => exact ⟨f, rfl⟩
        | ok context' => exact ih hv context'

/-- Lists of reordered parameters make reordered contexts. -/
theorem alike_ofParameters {vs ws : List Value} (h : ListedAlike vs ws) :
    Alike Reordered (ofParameters c vs) (ofParameters c ws) := by
  rcases h with h | ⟨hvs, hws⟩
  · refine Attempt.alike_foldlM h ⟨.nil, .nil⟩ fun v w hvw context context' hcontext => ?_
    exact alike_addParameter hvw.1 hvw.2 hcontext
  · exact Attempt.alike_of_errors (exists_error_ofParameters hvs) (exists_error_ofParameters hws)

end Context

-- ==================================================== actions

/-- The same action but for the order within its context. -/
structure Action.Reordered (a a' : Action) : Prop where
  name : a.name.Reordered a'.name
  context : a.context.Reordered a'.context
  resourceTypes : a.resourceTypes = a'.resourceTypes
  verb : a.verb = a'.verb
  pathTemplate : a.pathTemplate = a'.pathTemplate

namespace Action

variable {c : Converter} {a a' : Action} {operation operation' : Value}

/-- Reordered actions have reordered definitions. -/
theorem Reordered.definition (h : a.Reordered a') : a.definition.Reordered a'.definition := by
  have happlies : (Value.object [("context", a.context.toValue),
      ("principalTypes", .texts principalTypes), ("resourceTypes", .texts a.resourceTypes)]).Reordered
        (.object [("context", a'.context.toValue), ("principalTypes", .texts principalTypes),
          ("resourceTypes", .texts a'.resourceTypes)]) := by
    rw [h.resourceTypes]
    exact Value.reordered_fields
      (.cons (.intro h.context.toValue) (.cons (.intro (.refl _)) (.cons (.intro (.refl _)) .nil)))
  exact Value.reordered_fields (.cons (.intro happlies) .nil)

/-- Their annotations are texts. -/
theorem Reordered.annotations (h : a.Reordered a') : a'.annotations = a.annotations := by
  unfold Action.annotations
  rw [h.verb, h.pathTemplate]

/-- The names of resource types are a list of texts. -/
theorem resourceTypeNames?_eq {types types' : Value} (h : types.Reordered types') :
    resourceTypeNames? types' = resourceTypeNames? types := by
  have hbody := h.body_reordered
  unfold resourceTypeNames?
  generalize types.body = b at hbody ⊢
  generalize types'.body = b' at hbody ⊢
  cases hbody with
  | list hitems =>
      cases hitems with
      | nil => rfl
      | cons hitem hitems =>
          have hnames : ∀ {vs ws : List Value}, List.Forall₂ Value.Reordered vs ws →
              (ws.mapM fun v => v.text?.bind fun s => if s = "" then none else some s) =
                vs.mapM fun v => v.text?.bind fun s => if s = "" then none else some s := by
            intro vs ws h
            induction h with
            | nil => rfl
            | cons hvw _ ih => rw [List.mapM_cons, List.mapM_cons, ih, hvw.text?_eq]
          exact hnames (.cons hitem hitems)
  | scalar s => rfl
  | pair ha hb => rfl
  | set items => rfl
  | map h hp => rfl
  | looped n h => rfl

/-- So reordered operations apply to the same types. -/
theorem alike_resourceTypesOf {name name' : Value} (hkeyed : operation.Keyed)
    (h : operation.Reordered operation') :
    Alike Eq (resourceTypesOf operation name) (resourceTypesOf operation' name') := by
  have hextension := h.field_reordered hkeyed "x-cedar"
  have hfield := hextension.field?_reordered (hkeyed.field _) "appliesToResourceTypes"
  unfold resourceTypesOf
  dsimp only
  rw [h.isMap_eq, hextension.isNull_eq, hextension.isMap_eq]
  split
  · exact trivial
  · split
    · exact rfl
    · split
      · exact trivial
      · generalize (operation.field "x-cedar").field? "appliesToResourceTypes" = types? at hfield ⊢
        generalize (operation'.field "x-cedar").field? "appliesToResourceTypes" = types'? at hfield ⊢
        cases hfield with
        | none => exact rfl
        | @some types types' htypes =>
            dsimp only
            rw [resourceTypeNames?_eq htypes]
            cases resourceTypeNames? types with
            | none => exact trivial
            | some names => exact rfl

/-- The name of an action is reordered with its operation, where it is no text. -/
theorem nameOf_reordered (verb path : Value) (hkeyed : operation.Keyed)
    (h : operation.Reordered operation') :
    (nameOf verb path operation).Reordered (nameOf verb path operation') := by
  have hid := h.field_reordered hkeyed "operationId"
  unfold nameOf
  dsimp only
  rw [hid.truthy_eq]
  split
  · exact hid
  · exact .refl _

/-- Reordered operations are mapped to reordered actions. -/
theorem alike_ofOperation {verb path base parameters parameters' : Value}
    (hkeyed : operation.Keyed) (h : operation.Reordered operation')
    (hparametersKeyed : parameters.Keyed) (hparameters : parameters.Reordered parameters') :
    Alike Reordered (ofOperation c verb path operation base parameters)
      (ofOperation c verb path operation' base parameters') := by
  have hname := nameOf_reordered verb path hkeyed h
  have hown := Context.alike_listed (hkeyed.field "parameters") (h.field_reordered hkeyed _)
  unfold ofOperation
  rw [h.isMap_eq]
  split
  · exact trivial
  · refine (Context.alike_listed hparametersKeyed hparameters).bind fun vs ws hvs => ?_
    refine hown.bind fun vs' ws' hvs' => ?_
    refine (Context.alike_ofParameters (hvs.append hvs')).bind fun context context' hcontext => ?_
    refine (alike_resourceTypesOf hkeyed h).bind fun types types' htypes => ?_
    refine (Attempt.alike_refl (UrlPath.joinValues base path)).bind fun template template' ht => ?_
    exact ⟨hname, hcontext, htypes, rfl, ht⟩

end Action

-- ==================================================== operations

namespace CedarSchema

variable {c : Converter}

/-- And an action with a name that can be a key has the same one. -/
theorem alike_named {a a' : Action} (h : a.Reordered a') :
    Alike (SameKey Action.Reordered) (named a) (named a') := by
  unfold named
  rw [h.name.key?_eq]
  cases a.name.key? with
  | none => exact trivial
  | some key => exact .intro h

/-- The same operation but for the order within its path item. -/
structure Operation.Reordered (o o' : Operation) : Prop where
  path : o.path = o'.path
  verb : o.verb = o'.verb
  item : o.item.Reordered o'.item

/-- The body of a reordered operation. -/
theorem Operation.Reordered.body {o o' : Operation} (h : o.Reordered o') (hkeyed : o.item.Keyed) :
    o.body.Reordered o'.body := by
  unfold Operation.body
  rw [← h.verb]
  exact h.item.field_reordered hkeyed o.verb

/-- Reordered operations have reordered entries. -/
theorem Operation.alike_entry {o o' : Operation} (basePath : String) (hkeyed : o.item.Keyed)
    (h : o.Reordered o') :
    Alike (SameKey Action.Reordered) (o.entry c basePath) (o'.entry c basePath) := by
  have hbody := h.body hkeyed
  have hparameters := h.item.field_reordered hkeyed "parameters"
  unfold entry
  rw [hbody.isMap_eq, ← h.path, ← h.verb]
  split
  · exact trivial
  · exact (Action.alike_ofOperation (hkeyed.field _) hbody (hkeyed.field _) hparameters).bind
      fun a a' ha => alike_named ha

/-- A path item has the same operations in any order. -/
theorem Operation.matched_ofPaths {paths paths' : List (String × Value)}
    (hkeyed : ∀ p ∈ paths, p.2.Keyed) (h : Matched (SameKey Value.Reordered) paths paths') :
    Matched (fun o o' => o.item.Keyed ∧ o.Reordered o') (ofPaths paths) (ofPaths paths') := by
  refine (h.and_left hkeyed).flatMap fun p p' hp => ?_
  obtain ⟨hitem, hp⟩ := hp
  cases hp with
  | @intro path item item' hreordered =>
      have htruthy : (Action.verbs.filter fun verb => (item'.field verb).truthy) =
          Action.verbs.filter fun verb => (item.field verb).truthy :=
        List.filter_congr fun verb _ => (hreordered.field_reordered hitem verb).truthy_eq
      have hverbs : (Action.mappedVerbs item).Perm (Action.mappedVerbs item') := by
        refine (Action.mappedVerbs_perm_of_keyed hitem).trans ?_
        rw [← htruthy]
        exact (Action.mappedVerbs_perm_of_keyed (hreordered.keyed hitem)).symm
      refine (Matched.of_perm hverbs).map fun verb verb' hverb => ?_
      subst hverb
      exact ⟨hitem, rfl, rfl, hreordered⟩

end CedarSchema

end ApiAuthz
