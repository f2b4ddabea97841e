/-
What the type of a node tells about the node. Two nodes have the same skeleton if both are
references to one component, or of the same primitive type, or arrays of nodes with the same
skeleton, or objects with the same names in the same order and nodes with the same skeletons
under them. Types tell skeletons apart, with one exception: the form of a reference is the
name of its component alone, and so is that of a primitive type, so a reference to a component
that bears the name of a built-in type has the form of that type.

`SameSkeletonUpTo` says which names may be confused in that way. Both directions go through
what a node denotes: by the form of its type (`of_namedForm`, `of_recordForm`, `of_setForm`),
and by the form of the node (`of_ref`, `of_primitive`, `of_object`, `of_array`).

# From one type to one skeleton

Two nodes that denote one form are of one kind, but for the named form, which a reference and a
primitive type may share; if they share it the name is one that may be referred to, and this is
what the confused names are (`Denotes.sameSkeleton`). Below records and sets the induction goes
on with what denotes the attributes and the elements, and the names of properties are the keys
of the attributes (`DenotesEach`). Depths and names of nodes do not matter, so the two nodes may
stand anywhere.

# And back

Whatever names are confused, nodes with the same skeleton have the same type
(`SameSkeletonUpTo.eq_of_denotes`), by induction on the skeleton. So the exception is exact:
types are equal exactly if skeletons are the same up to the names of components that are also
those of built-in types, and without such a component exactly if skeletons are the same
(`eq_iff_sameSkeletonUpTo`).
-/
import ApiAuthz.Proofs.Schema.Grammar

namespace ApiAuthz

/-- The properties of an object, none if it has none. -/
def Value.properties (node : Value) : Members Value := (node.field "properties").members?.getD []

namespace Converter

open Value (OfType)

variable {c : Converter} {depth depth' node node' v v' : Value} {target typeName cedarName : String}
  {confused confused' : String → Prop}

-- ==================================================== skeletons

/-- A reference to a component, whether that may be referred to or not. -/
def IsRefTo (node : Value) (target : String) : Prop :=
  node.field? "$ref" = some (.text ("#/components/schemas/" ++ target))

/-- A node that refers is a reference, whatever the converter. -/
theorem Refers.isRefTo {ref : Value} (h : c.Refers ref target) (hr : node.field? "$ref" = some ref) :
    IsRefTo node target := by
  rw [IsRefTo, hr, h.text]

/-- A node refers to one schema. -/
theorem IsRefTo.unique {other : String} (h : IsRefTo node target) (h' : IsRefTo node other) :
    target = other := by
  rw [IsRefTo, h] at h'
  simp only [Option.some.injEq, Value.scalar.injEq, Scalar.text.injEq] at h'
  exact (String.append_right_inj _).1 h'

/-- Nodes with the same skeleton, but that a reference to a component with a confused name may
stand for a primitive type with that counterpart. -/
inductive SameSkeletonUpTo (confused : String → Prop) : Value → Value → Prop
  | ref {node node' : Value} {target : String} (h : IsRefTo node target)
      (h' : IsRefTo node' target) : SameSkeletonUpTo confused node node'
  | primitive {node node' : Value} {typeName typeName' cedarName : String}
      (h : node.OfType typeName) (h' : node'.OfType typeName')
      (known : (typeName, cedarName) ∈ primitiveNames)
      (known' : (typeName', cedarName) ∈ primitiveNames) : SameSkeletonUpTo confused node node'
  | array {node node' : Value} (h : node.OfType "array") (h' : node'.OfType "array")
      (items : SameSkeletonUpTo confused (node.field "items") (node'.field "items")) :
      SameSkeletonUpTo confused node node'
  | object {node node' : Value} (h : node.OfType "object") (h' : node'.OfType "object")
      (names : Members.keys node.properties = Members.keys node'.properties)
      (each : ∀ m ∈ node.properties.zip node'.properties,
        SameSkeletonUpTo confused m.1.2 m.2.2) : SameSkeletonUpTo confused node node'
  | refPrimitive {node node' : Value} {typeName cedarName : String} (h : IsRefTo node cedarName)
      (h' : node'.OfType typeName) (known : (typeName, cedarName) ∈ primitiveNames)
      (isConfused : confused cedarName) : SameSkeletonUpTo confused node node'
  | primitiveRef {node node' : Value} {typeName cedarName : String} (h : node.OfType typeName)
      (h' : IsRefTo node' cedarName) (known : (typeName, cedarName) ∈ primitiveNames)
      (isConfused : confused cedarName) : SameSkeletonUpTo confused node node'

/-- Nodes with the same skeleton. -/
def SameSkeleton : Value → Value → Prop := SameSkeletonUpTo fun _ => False

/-- Where no name of a built-in type is confused, no name is. -/
theorem SameSkeletonUpTo.sameSkeleton (h : SameSkeletonUpTo confused node node')
    (hnone : ∀ cedarName ∈ primitiveNames.map Prod.snd, ¬confused cedarName) :
    SameSkeleton node node' := by
  induction h with
  | ref h h' => exact .ref h h'
  | primitive h h' hknown hknown' => exact .primitive h h' hknown hknown'
  | array h h' _ ih => exact .array h h' ih
  | object h h' hnames _ ih => exact .object h h' hnames ih
  | refPrimitive _ _ hknown hconfused =>
      exact absurd hconfused (hnone _ (List.mem_map_of_mem hknown))
  | primitiveRef _ _ hknown hconfused =>
      exact absurd hconfused (hnone _ (List.mem_map_of_mem hknown))

-- ==================================================== forms of types

/-- Named types tell their names. -/
theorem namedForm_inj {s t : String} : namedForm s = namedForm t ↔ s = t := by
  simp [namedForm, Value.object]

/-- Record types tell their attributes. -/
theorem recordForm_inj {ms ns : Members Value} : recordForm ms = recordForm ns ↔ ms = ns := by
  simp [recordForm, Value.object]

/-- Set types tell their elements. -/
theorem setForm_inj {v w : Value} : setForm v = setForm w ↔ v = w := by
  simp [setForm, Value.object]

theorem namedForm_ne_recordForm {s : String} {ms : Members Value} :
    namedForm s ≠ recordForm ms := by
  simp [namedForm, recordForm, Value.object]

theorem namedForm_ne_setForm {s : String} {w : Value} : namedForm s ≠ setForm w := by
  simp [namedForm, setForm, Value.object]

theorem recordForm_ne_setForm {ms : Members Value} {w : Value} : recordForm ms ≠ setForm w := by
  simp [recordForm, setForm, Value.object]

-- ==================================================== nodes by the form of their type

/-- What the properties of an object denote, by their names and in order. -/
def DenotesEach (c : Converter) (ps types : Members Value) : Prop :=
  Members.keys types = Members.keys ps ∧
    ∀ m ∈ ps.zip types, ∃ below, c.Denotes below m.1.2 m.2.2

theorem denotesEach_nil (c : Converter) : c.DenotesEach [] [] := ⟨rfl, fun _ hm => nomatch hm⟩

/-- A type that goes by its name alone is that of a reference or of a primitive type. -/
theorem Denotes.of_namedForm {s : String} (h : c.Denotes depth node (namedForm s)) :
    IsRefTo node s ∧ c.Known s ∨
      ∃ typeName, node.OfType typeName ∧ (typeName, s) ∈ primitiveNames := by
  generalize hv : namedForm s = v at h
  cases h with
  | ref _ hr hrefers =>
      rw [namedForm_inj.1 hv]
      exact Or.inl ⟨hrefers.isRefTo hr, hrefers.known⟩
  | primitive _ hnode hknown =>
      rw [namedForm_inj.1 hv]
      exact Or.inr ⟨_, hnode, hknown⟩
  | emptyObject => exact absurd hv namedForm_ne_recordForm
  | object => exact absurd hv namedForm_ne_recordForm
  | array => exact absurd hv namedForm_ne_setForm

/-- Only an object denotes a record, and each property its attribute. -/
theorem Denotes.of_recordForm {types : Members Value}
    (h : c.Denotes depth node (recordForm types)) :
    node.OfType "object" ∧ c.DenotesEach node.properties types := by
  generalize hv : recordForm types = v at h
  cases h with
  | emptyObject _ hnode hnone =>
      obtain rfl := recordForm_inj.1 hv
      refine ⟨hnode, ?_⟩
      unfold Value.properties
      cases hps : (node.field "properties").members? with
      | none => exact denotesEach_nil c
      | some ps =>
          rw [Value.truthy_of_members? hps, Bool.not_eq_false', List.isEmpty_iff] at hnone
          rw [hnone]
          exact denotesEach_nil c
  | object _ hnode hps _ hnames heach =>
      obtain rfl := recordForm_inj.1 hv
      refine ⟨hnode, ?_⟩
      rw [Value.properties, hps]
      exact ⟨hnames, fun m hm => ⟨_, heach m hm⟩⟩
  | ref => exact absurd hv.symm namedForm_ne_recordForm
  | primitive => exact absurd hv.symm namedForm_ne_recordForm
  | array => exact absurd hv recordForm_ne_setForm

/-- Only a list denotes a set, and its items the elements. -/
theorem Denotes.of_setForm {type : Value} (h : c.Denotes depth node (setForm type)) :
    node.OfType "array" ∧ ∃ below, c.Denotes below (node.field "items") type := by
  generalize hv : setForm type = v at h
  cases h with
  | array _ hnode _ _ helement =>
      obtain rfl := setForm_inj.1 hv
      exact ⟨hnode, _, helement⟩
  | ref => exact absurd hv.symm namedForm_ne_setForm
  | primitive => exact absurd hv.symm namedForm_ne_setForm
  | emptyObject => exact absurd hv.symm recordForm_ne_setForm
  | object => exact absurd hv.symm recordForm_ne_setForm

-- ==================================================== types by the form of their node

/-- A node has one type. -/
theorem typeName_unique {other : String} (h : node.OfType typeName) (h' : node.OfType other) :
    typeName = other := by
  have hsame := h.type
  rw [h'.type] at hsame
  cases hsame
  rfl

theorem not_ofType_of_isRefTo (hr : IsRefTo node target) : ¬node.OfType typeName := by
  intro h
  have hnone := h.noRef
  rw [hr] at hnone
  cases hnone

/-- The name of a primitive type is not that of objects or arrays, and has one counterpart. -/
theorem primitiveNames_unique (h : (typeName, cedarName) ∈ primitiveNames) :
    typeName ≠ "object" ∧ typeName ≠ "array" ∧
      ∀ other, (typeName, other) ∈ primitiveNames → cedarName = other := by
  simp only [primitiveNames, List.mem_cons, Prod.mk.injEq, List.not_mem_nil, or_false] at h ⊢
  rcases h with ⟨rfl, rfl⟩ | ⟨rfl, rfl⟩ | ⟨rfl, rfl⟩ | ⟨rfl, rfl⟩ <;> simp

/-- A reference denotes the type of its name. -/
theorem Denotes.of_ref (h : c.Denotes depth node v) (hr : IsRefTo node target) :
    v = namedForm target := by
  cases h with
  | ref _ hr' hrefers => rw [hr.unique (hrefers.isRefTo hr')]
  | emptyObject _ hnode => exact absurd hnode (not_ofType_of_isRefTo hr)
  | object _ hnode => exact absurd hnode (not_ofType_of_isRefTo hr)
  | array _ hnode => exact absurd hnode (not_ofType_of_isRefTo hr)
  | primitive _ hnode => exact absurd hnode (not_ofType_of_isRefTo hr)

/-- A primitive node denotes the type of the table. -/
theorem Denotes.of_primitive (h : c.Denotes depth node v) (hnode : node.OfType typeName)
    (hknown : (typeName, cedarName) ∈ primitiveNames) : v = namedForm cedarName := by
  obtain ⟨hobject, harray, hunique⟩ := primitiveNames_unique hknown
  cases h with
  | ref _ hr hrefers => exact absurd hnode (not_ofType_of_isRefTo (hrefers.isRefTo hr))
  | emptyObject _ hnode' => exact absurd (typeName_unique hnode hnode') hobject
  | object _ hnode' => exact absurd (typeName_unique hnode hnode') hobject
  | array _ hnode' => exact absurd (typeName_unique hnode hnode') harray
  | primitive _ hnode' hknown' =>
      rw [← typeName_unique hnode hnode'] at hknown'
      rw [hunique _ hknown']

/-- A list denotes a set of what its items denote. -/
theorem Denotes.of_array (h : c.Denotes depth node v) (hnode : node.OfType "array") :
    ∃ type, v = setForm type ∧ ∃ below, c.Denotes below (node.field "items") type := by
  cases h with
  | array _ _ _ _ helement => exact ⟨_, rfl, _, helement⟩
  | ref _ hr hrefers => exact absurd hnode (not_ofType_of_isRefTo (hrefers.isRefTo hr))
  | emptyObject _ hnode' => exact absurd (typeName_unique hnode hnode') (by decide)
  | object _ hnode' => exact absurd (typeName_unique hnode hnode') (by decide)
  | primitive _ hnode' hknown =>
      exact absurd (typeName_unique hnode' hnode) (primitiveNames_unique hknown).2.1

/-- An object denotes a record of what its properties denote. -/
theorem Denotes.of_object (h : c.Denotes depth node v) (hnode : node.OfType "object") :
    ∃ types, v = recordForm types ∧ c.DenotesEach node.properties types := by
  have hrecord : ∀ {types}, c.Denotes depth node (recordForm types) →
      ∃ types', recordForm types = recordForm types' ∧ c.DenotesEach node.properties types' :=
    fun h => ⟨_, rfl, h.of_recordForm.2⟩
  cases h with
  | emptyObject within hnode' hnone => exact hrecord (.emptyObject within hnode' hnone)
  | object within hnode' hps hn hnames heach =>
      exact hrecord (.object within hnode' hps hn hnames heach)
  | ref _ hr hrefers => exact absurd hnode (not_ofType_of_isRefTo (hrefers.isRefTo hr))
  | array _ hnode' => exact absurd (typeName_unique hnode hnode') (by decide)
  | primitive _ hnode' hknown =>
      exact absurd (typeName_unique hnode' hnode) (primitiveNames_unique hknown).1

-- ==================================================== nodes of one type

/-- Two items at one position are both beside the third that is at that position. -/
theorem exists_of_mem_zip {α β γ : Type} {as : List α} {bs : List β} {cs : List γ} {m : α × β}
    (hm : m ∈ as.zip bs) (ha : cs.length = as.length) (hb : cs.length = bs.length) :
    ∃ x, (m.1, x) ∈ as.zip cs ∧ (m.2, x) ∈ bs.zip cs := by
  obtain ⟨i, hi, rfl⟩ := List.mem_iff_getElem.1 hm
  rw [List.length_zip] at hi
  have hc : i < cs.length := by omega
  refine ⟨cs[i], ?_, ?_⟩
  · exact List.mem_iff_getElem.2 ⟨i, by rw [List.length_zip]; omega, by simp⟩
  · exact List.mem_iff_getElem.2 ⟨i, by rw [List.length_zip]; omega, by simp⟩

theorem length_of_keys {ms ns : Members Value} (h : Members.keys ms = Members.keys ns) :
    ms.length = ns.length := by
  have hlength := congrArg List.length h
  simpa [Members.keys] using hlength

/-- Objects whose properties denote the same, each in its place, have properties with the same
skeletons if that holds of what denotes the same. -/
theorem DenotesEach.each {R : Value → Value → Prop} {ps ps' types : Members Value}
    (h : Members.keys types = Members.keys ps) (h' : c.DenotesEach ps' types)
    (hR : ∀ m ∈ ps.zip types, ∀ {depth' node'}, c.Denotes depth' node' m.2.2 → R m.1.2 node') :
    ∀ m ∈ ps.zip ps', R m.1.2 m.2.2 := by
  intro m hm
  obtain ⟨t, ht, ht'⟩ := exists_of_mem_zip hm (length_of_keys h) (length_of_keys h'.1)
  obtain ⟨below, hdenotes⟩ := h'.2 _ ht'
  exact hR _ ht hdenotes

/-- Nodes of one type have the same skeleton, but for names that may be referred to. -/
theorem Denotes.sameSkeleton (h : c.Denotes depth node v) (h' : c.Denotes depth' node' v) :
    SameSkeletonUpTo c.Known node node' := by
  induction h generalizing depth' node' with
  | ref _ hr hrefers =>
      have href := hrefers.isRefTo hr
      rcases h'.of_namedForm with ⟨href', -⟩ | ⟨typeName, hnode', hknown⟩
      · exact .ref href href'
      · exact .refPrimitive href hnode' hknown hrefers.known
  | primitive _ hnode hknown =>
      rcases h'.of_namedForm with ⟨href', hconfused⟩ | ⟨typeName', hnode', hknown'⟩
      · exact .primitiveRef hnode href' hknown hconfused
      · exact .primitive hnode hnode' hknown hknown'
  | array _ hnode _ _ _ ih =>
      obtain ⟨hnode', below', helement'⟩ := h'.of_setForm
      exact .array hnode hnode' (ih helement')
  | emptyObject within hnode hnone =>
      obtain ⟨-, heach⟩ := (Denotes.emptyObject within hnode hnone).of_recordForm
      obtain ⟨hnode', heach'⟩ := h'.of_recordForm
      refine .object hnode hnode' (heach.1.symm.trans heach'.1) ?_
      exact heach'.each heach.1 fun m hm => absurd hm (by simp)
  | @object depth node below ps types _ hnode hps _ hnames _ ih =>
      obtain ⟨hnode', heach'⟩ := h'.of_recordForm
      have hproperties : node.properties = ps := by rw [Value.properties, hps, Option.getD_some]
      refine .object hnode hnode' ?_ ?_
      · rw [hproperties, ← hnames, heach'.1]
      · rw [hproperties]
        exact heach'.each hnames ih

/-- Properties that denote the same one by one have the same attributes. -/
theorem DenotesEach.unique {ps ps' types types' : Members Value} (h : c.DenotesEach ps types)
    (h' : c.DenotesEach ps' types') (hkeys : Members.keys ps = Members.keys ps')
    (hsame : ∀ m ∈ ps.zip ps', ∀ {d d' t t'}, c.Denotes d m.1.2 t → c.Denotes d' m.2.2 t' → t = t') :
    types = types' := by
  induction ps generalizing ps' types types' with
  | nil =>
      obtain rfl : types = [] := List.map_eq_nil_iff.1 h.1
      obtain rfl : ps' = [] := List.map_eq_nil_iff.1 hkeys.symm
      exact (List.map_eq_nil_iff.1 h'.1).symm
  | cons p ps ih =>
      cases types with
      | nil => cases h.1
      | cons t types =>
          cases ps' with
          | nil => cases hkeys
          | cons p' ps' =>
              cases types' with
              | nil => cases h'.1
              | cons t' types' =>
                  obtain ⟨hkey, hrest⟩ := List.cons.inj h.1
                  obtain ⟨hkey', hrest'⟩ := List.cons.inj h'.1
                  obtain ⟨hname, hnames⟩ := List.cons.inj hkeys
                  have heach := h.2
                  have heach' := h'.2
                  rw [List.zip_cons_cons, List.forall_mem_cons] at heach heach' hsame
                  obtain ⟨d, hd⟩ := heach.1
                  obtain ⟨d', hd'⟩ := heach'.1
                  rw [ih ⟨hrest, heach.2⟩ ⟨hrest', heach'.2⟩ hnames hsame.2]
                  refine congrArg (· :: types') (Prod.ext ?_ (hsame.1 hd hd'))
                  exact hkey.trans (hname.trans hkey'.symm)

/-- Nodes with the same skeleton, whatever names are confused, are of one type. -/
theorem SameSkeletonUpTo.eq_of_denotes (h : SameSkeletonUpTo confused node node')
    (hv : c.Denotes depth node v) (hv' : c.Denotes depth' node' v') : v = v' := by
  induction h generalizing depth depth' v v' with
  | ref h h' => rw [hv.of_ref h, hv'.of_ref h']
  | primitive h h' hknown hknown' => rw [hv.of_primitive h hknown, hv'.of_primitive h' hknown']
  | refPrimitive h h' hknown => rw [hv.of_ref h, hv'.of_primitive h' hknown]
  | primitiveRef h h' hknown => rw [hv.of_primitive h hknown, hv'.of_ref h']
  | array h h' _ ih =>
      obtain ⟨type, rfl, below, helement⟩ := hv.of_array h
      obtain ⟨type', rfl, below', helement'⟩ := hv'.of_array h'
      rw [ih helement helement']
  | object h h' hnames _ ih =>
      obtain ⟨types, rfl, heach⟩ := hv.of_object h
      obtain ⟨types', rfl, heach'⟩ := hv'.of_object h'
      rw [heach.unique heach' hnames ih]

-- ==================================================== conversion

/-- Where two nodes convert, they have one type exactly if they have the same skeleton, but
that a reference to a component with the name of a built-in type has the form of that type.
Where no component with such a name may be referred to, one type is one skeleton; and whatever
has the form of a reference is one, unless the name is that of a text, an integer or a truth
value. -/
theorem eq_iff_sameSkeletonUpTo {name name' : Value}
    (h : (c.convertAt depth name node).map CedarType.toValue = .ok v)
    (h' : (c.convertAt depth' name' node').map CedarType.toValue = .ok v') :
    (v = v' ↔ SameSkeletonUpTo c.Known node node') ∧
      ((∀ cedarName ∈ primitiveNames.map Prod.snd, ¬c.Known cedarName) →
        v = v' → SameSkeleton node node') ∧
      (v = v' → node'.field? "$ref" = none → ∀ target, IsRefTo node target →
        target ∈ ["String", "Long", "Boolean"]) := by
  obtain ⟨t, ht, rfl⟩ := Attempt.map_eq_ok.1 h
  obtain ⟨t', ht', rfl⟩ := Attempt.map_eq_ok.1 h'
  have hd := denotes_of_convertAt ht
  have hd' := denotes_of_convertAt ht'
  have hskeleton : t.toValue = t'.toValue → SameSkeletonUpTo c.Known node node' := by
    intro heq
    rw [← heq] at hd'
    exact hd.sameSkeleton hd'
  refine ⟨⟨hskeleton, fun hsame => hsame.eq_of_denotes hd hd'⟩,
    fun hnone heq => (hskeleton heq).sameSkeleton hnone, fun heq hnoRef target hr => ?_⟩
  cases hskeleton heq with
  | ref _ hr' => exact absurd (hr'.symm.trans hnoRef) (Option.some_ne_none _)
  | primitiveRef _ hr' => exact absurd (hr'.symm.trans hnoRef) (Option.some_ne_none _)
  | primitive hnode => exact absurd hnode (not_ofType_of_isRefTo hr)
  | array hnode => exact absurd hnode (not_ofType_of_isRefTo hr)
  | object hnode => exact absurd hnode (not_ofType_of_isRefTo hr)
  | refPrimitive hr' _ hknown =>
      rw [hr.unique hr']
      simp only [primitiveNames, List.mem_cons, Prod.mk.injEq, List.not_mem_nil, or_false] at hknown
      rcases hknown with ⟨-, rfl⟩ | ⟨-, rfl⟩ | ⟨-, rfl⟩ | ⟨-, rfl⟩ <;> decide

/-- An object with a tag and a size, which is a number of some kind. -/
def sized (numberType : String) : Value :=
  .object [("type", .text "object"), ("properties", .object
    [("tag", .object [("$ref", .text "#/components/schemas/Tag")]),
     ("size", .object [("type", .text numberType)])])]

theorem denotes_sized (numberType : String) (h : (numberType, "Long") ∈ primitiveNames) :
    (forSchemas ["Tag"]).Denotes (.int 0) (sized numberType)
      (recordForm [(.text "tag", namedForm "Tag"), (.text "size", namedForm "Long")]) := by
  have hwithin : (forSchemas ["Tag"]).Within (.int 1) := by
    unfold Within
    decide
  have hknown : (forSchemas ["Tag"]).Known "Tag" := by
    intro names hnames
    cases hnames
    exact List.mem_singleton_self _
  refine .object (by unfold Within; decide) ⟨rfl, rfl⟩ rfl rfl rfl fun m hm => ?_
  rcases List.mem_cons.1 hm with rfl | hm
  · exact .ref hwithin rfl ⟨rfl, by decide, by decide, hknown⟩
  · rcases List.mem_singleton.1 hm with rfl
    exact .primitive hwithin ⟨rfl, rfl⟩ h

/-- Integers and other numbers are one, so the two objects are of one type and have the same
skeleton. -/
theorem sameSkeleton_sized : ∃ v,
    ((forSchemas ["Tag"]).convertAt (.int 0) (.text "Box") (sized "number")).map
      CedarType.toValue = .ok v ∧
    ((forSchemas ["Tag"]).convertAt (.int 0) (.text "Crate") (sized "integer")).map
      CedarType.toValue = .ok v ∧
    SameSkeleton (sized "number") (sized "integer") := by
  have hbox := Attempt.map_eq_ok.2
    (convertAt_of_denotes (denotes_sized "number" (by decide)) (.text "Box"))
  have hcrate := Attempt.map_eq_ok.2
    (convertAt_of_denotes (denotes_sized "integer" (by decide)) (.text "Crate"))
  refine ⟨_, hbox, hcrate, (eq_iff_sameSkeletonUpTo hbox hcrate).2.1 (fun cedarName hmem hknown => ?_)
    rfl⟩
  have hname := List.mem_singleton.1 (hknown _ rfl)
  cases hname
  revert hmem
  decide

/-- A reference to a component that bears the name of the built-in type of texts. -/
def textReference : Value := .object [("$ref", .text "#/components/schemas/String")]

/-- The primitive type of texts. -/
def textNode : Value := .object [("type", .text "string")]

/-- The reference has the form of the built-in type, so that nodes of one type may have two
skeletons. -/
theorem textReference_mistaken : ¬∀ v,
    ((forSchemas ["String"]).convertAt (.int 0) (.text "Title") textReference).map
      CedarType.toValue = .ok v →
    ((forSchemas ["String"]).convertAt (.int 0) (.text "Title") textNode).map
      CedarType.toValue = .ok v →
    SameSkeleton textReference textNode := by
  intro hclaim
  have hwithin : (forSchemas ["String"]).Within (.int 0) := by
    unfold Within
    decide
  have hknown : (forSchemas ["String"]).Known "String" := by
    intro names hnames
    cases hnames
    exact List.mem_singleton_self _
  have hreference : (forSchemas ["String"]).Denotes (.int 0) textReference (namedForm "String") :=
    .ref hwithin rfl ⟨rfl, by decide, by decide, hknown⟩
  have hnode : (forSchemas ["String"]).Denotes (.int 0) textNode (namedForm "String") :=
    .primitive hwithin ⟨rfl, rfl⟩ List.mem_cons_self
  cases hclaim _ (Attempt.map_eq_ok.2 (convertAt_of_denotes hreference _))
    (Attempt.map_eq_ok.2 (convertAt_of_denotes hnode _)) with
  | ref _ hr => cases hr
  | primitive hnode => cases hnode.noRef
  | array hnode => cases hnode.noRef
  | object hnode => cases hnode.noRef
  | refPrimitive _ _ _ hconfused => exact hconfused
  | primitiveRef hnode => cases hnode.noRef

end Converter

end ApiAuthz
