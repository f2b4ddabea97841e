/-
Which attributes a context has. Parameters are entered one after the other, each as an
attribute at its location; so at each location stand the names of its parameters by first
occurrence, and under each name the attribute of the last parameter with that name. What has
another location is not entered, and its schema is not looked at.

`entry` is what one parameter comes to, whatever was entered before; a context is the entries of
its parameters, put into one table for each location (`at?_entered`). What stands in such a
table stands there for a parameter of the location (`forall₂_entriesAt`), and from this
`AttributesOf` says what the whole table holds.

# Where a context comes from

A parameter has to be `Complete` wherever it stands: a mapping without a reference, with a name,
a location and a schema. Only then is its location asked for, and only at the two locations is
its schema converted. So there is a context exactly if every parameter is complete and those at
a location have a schema that converts; which of several faults is met first does not matter
here.

# Replacing

A later parameter with the name of an earlier one takes its place and all that was said of it,
whether it is required included. The parameters of a path item are entered before those of its
operations, so an operation overrides its path item by name and location, and the place among
the attributes stays that of the first. Names are texts for this (`Value.TextNamed`): other
names can be the same key without being equal.
-/
import ApiAuthz.Proofs.Schema.Grammar
import ApiAuthz.Proofs.Schema.Sites

namespace ApiAuthz

-- ==================================================== parameters at a location

namespace Location

/-- What a parameter says that stands at the location. -/
def name : Location → String
  | .path => "path"
  | .query => "query"

/-- Only the two names of locations are locations. -/
theorem ofKey?_eq_some {k : Scalar} {location : Location} :
    ofKey? k = some location ↔ k = .text location.name := by
  constructor
  · intro h
    unfold ofKey? at h
    split at h
    · cases h
      rfl
    · cases h
      rfl
    · cases h
  · rintro rfl
    cases location <;> rfl

end Location

namespace Context

/-- A parameter that has all that is asked of one, its schema aside. -/
structure Complete (p : Value) : Prop where
  isMap : p.isMap = true
  noRef : p.field? "$ref" = none
  filled : ∀ f ∈ ["name", "in", "schema"], p.field f ≠ .null ∧ p.field f ≠ .text ""
  place : (p.field "in").key?.isSome = true

/-- A parameter whose name is a text, if it has one. -/
def TextNamed (p : Value) : Prop :=
  ∀ name, p.field? "name" = some name → name = .null ∨ ∃ s, name = .text s

/-- A complete parameter whose name is a text has that text. -/
theorem TextNamed.text_of_complete {p : Value} (h : TextNamed p) (hp : Complete p) :
    ∃ s, p.field "name" = .text s := by
  have hnull := (hp.filled "name" (by decide)).1
  cases hname : p.field? "name" with
  | none => exact absurd (by rw [Value.field, hname]; rfl) hnull
  | some name =>
      have hfield := Value.field_of_field? hname
      rcases h name hname with rfl | ⟨s, rfl⟩
      · exact absurd hfield hnull
      · exact ⟨s, hfield⟩

/-- The parameter stands at the location. -/
def isAt (location : Location) (p : Value) : Bool := (p.field "in").text? == some location.name

/-- The names of the parameters at a location, in order. -/
def namesAt (location : Location) (parameters : List Value) : List String :=
  (parameters.filter (isAt location)).filterMap fun p => (p.field "name").text?

/-- The last parameter with a name at a location. -/
def lastAt (location : Location) (name : String) (parameters : List Value) : Option Value :=
  (parameters.filter (isAt location)).reverse.find? fun p => (p.field "name").text? == some name

/-- Names are collected in order. -/
theorem namesAt_append (location : Location) (ps qs : List Value) :
    namesAt location (ps ++ qs) = namesAt location ps ++ namesAt location qs := by
  unfold namesAt
  rw [List.filter_append, List.filterMap_append]

/-- The last of two lists of parameters is in the second, if one of that name is. -/
theorem lastAt_append (location : Location) (name : String) (ps qs : List Value) :
    lastAt location name (ps ++ qs) = (lastAt location name qs).or (lastAt location name ps) := by
  unfold lastAt
  rw [List.filter_append, List.reverse_append, List.find?_append]

/-- Blank is what is nothing, and the text that is empty. -/
theorem isBlank_eq_false_iff {v : Value} : v.isBlank = false ↔ v ≠ .null ∧ v ≠ .text "" := by
  cases v with
  | scalar s => cases s <;> simp [Value.isBlank]
  | _ => simp [Value.isBlank]

/-- A parameter that is complete is asked for its location, and nothing else is. -/
theorem locationOf_eq_ok {p : Value} {location? : Option Location} :
    locationOf p = .ok location? ↔
      Complete p ∧ (p.field "in").key?.bind Location.ofKey? = location? := by
  have hfilled : (requiredFields.filter fun f => (p.field f).isBlank) = [] ↔
      ∀ f ∈ ["name", "in", "schema"], p.field f ≠ .null ∧ p.field f ≠ .text "" := by
    rw [List.filter_eq_nil_iff]
    exact forall₂_congr fun f _ => Bool.not_eq_true _ ▸ isBlank_eq_false_iff
  unfold locationOf
  constructor
  · intro h
    split at h
    · cases h
    · next hmap =>
      split at h
      · cases h
      · next href =>
        dsimp only at h
        split at h
        · cases h
        · next hmissing =>
          split at h
          · cases h
          · next place hplace =>
            cases h
            rw [Bool.not_eq_true, Bool.not_eq_false', List.isEmpty_iff, hfilled] at hmissing
            rw [Bool.not_eq_true, Bool.not_eq_false'] at hmap
            exact ⟨⟨hmap, href, hmissing, by rw [hplace]; rfl⟩, by rw [hplace]; rfl⟩
  · rintro ⟨⟨hmap, href, hmissing, hplace⟩, rfl⟩
    obtain ⟨place, hplace⟩ := Option.isSome_iff_exists.1 hplace
    simp only [hmap, href, hfilled.2 hmissing, hplace]
    rfl

/-- A key is that of a location exactly if the parameter stands there. -/
theorem ofKey?_place {p : Value} {location : Location} :
    (p.field "in").key?.bind Location.ofKey? = some location ↔ isAt location p = true := by
  unfold isAt
  rw [beq_iff_eq]
  constructor
  · intro h
    obtain ⟨k, hk, hlocation⟩ := Option.bind_eq_some_iff.1 h
    obtain rfl := Location.ofKey?_eq_some.1 hlocation
    cases hp : p.field "in" with
    | scalar s =>
        rw [hp] at hk
        cases hk
        rfl
    | _ =>
        rw [hp] at hk
        cases hk
  · intro h
    rw [Value.eq_text_of_text? h]
    exact Location.ofKey?_eq_some.2 rfl

-- ==================================================== entries

variable {c : Converter}

/-- What a parameter is entered as: an attribute under a name at a location, or not at all. -/
abbrev Entry := Option (Location × Scalar × Attribute)

/-- What a parameter adds to a context, which may be nothing. -/
def enter (context : Context) : Entry → Context
  | none => context
  | some (location, key, a) => context.put location key a

/-- What one parameter comes to on its own. -/
def entry (c : Converter) (p : Value) : Attempt Entry :=
  locationOf p >>= fun location? =>
    match location? with
    | none => .ok none
    | some location => do
      let type ← c.convertTop (p.field "name") (p.field "schema")
      match (p.field "name").key? with
      | none => Fault.wrongKind
      | some key => return some (location, key, ⟨type, (p.field "required").truthy⟩)

/-- A parameter is looked at without the context, then entered. -/
theorem addParameter_eq_entry (context : Context) (p : Value) :
    addParameter c context p = (entry c p).map context.enter := by
  rw [addParameter_eq, entry]
  cases locationOf p with
  | error f => rfl
  | ok location? =>
      cases location? with
      | none => rfl
      | some location =>
          show (c.convertTop _ _ >>= _) = Except.map _ (c.convertTop _ _ >>= _)
          cases c.convertTop (p.field "name") (p.field "schema") with
          | error f => rfl
          | ok type =>
              show (match (p.field "name").key? with | none => _ | some key => _) =
                Except.map _ (match (p.field "name").key? with | none => _ | some key => _)
              cases (p.field "name").key? <;> rfl

/-- Parameters make a context exactly if each of them has an entry, and then it is made of
these. -/
theorem ofParameters_eq_ok {parameters : List Value} {context : Context} :
    ofParameters c parameters = .ok context ↔
      ∃ entries : List Entry, List.Forall₂ (fun p e => entry c p = .ok e) parameters entries ∧
        entries.foldl enter empty = context := by
  have hfold : addParameter c = fun context p => (entry c p).map context.enter := by
    funext context p
    exact addParameter_eq_entry context p
  unfold ofParameters
  rw [hfold, Attempt.foldlM_map, Attempt.map_eq_ok]
  simp only [Attempt.mapM_eq_ok]

/-- The attribute and its name, if it is entered at the location. -/
def Entry.at? (location : Location) (e : Entry) : Option (Scalar × Attribute) :=
  e.bind fun e => if e.1 = location then some e.2 else none

/-- At each location a context has the attributes entered there, one after the other. -/
theorem at?_entered (location : Location) (entries : List Entry) :
    (entries.foldl enter empty).at? location =
      Members.ofEntries (entries.filterMap (Entry.at? location)) := by
  have hstart : (empty.at? location) = [] := by cases location <;> rfl
  unfold Members.ofEntries
  rw [← hstart]
  generalize empty = context
  induction entries generalizing context with
  | nil => rfl
  | cons e entries ih =>
      rw [List.foldl_cons, ih, List.filterMap_cons]
      cases e with
      | none => rfl
      | some e =>
          obtain ⟨other, key, a⟩ := e
          cases other <;> cases location <;> rfl

/-- What is entered at a location for a parameter that stands there. -/
structure Enters (c : Converter) (p : Value) (e : Scalar × Attribute) : Prop where
  name : p.field "name" = .scalar e.1
  type : c.convertTop (p.field "name") (p.field "schema") = .ok e.2.type
  required : e.2.required = (p.field "required").truthy

/-- A parameter enters the record of its location and no other one. -/
theorem enters_of_entry {p : Value} {e : Entry} (h : entry c p = .ok e) (location : Location) :
    (isAt location p = true ∧ ∃ entered, e.at? location = some entered ∧ Enters c p entered) ∨
      (isAt location p = false ∧ e.at? location = none) := by
  obtain ⟨location?, hlocation, h⟩ := Attempt.bind_eq_ok.1 h
  obtain ⟨-, rfl⟩ := locationOf_eq_ok.1 hlocation
  cases hplace : (p.field "in").key?.bind Location.ofKey? with
  | none =>
      rw [hplace] at h
      cases h
      refine Or.inr ⟨?_, rfl⟩
      rw [Bool.eq_false_iff, ne_eq, ← ofKey?_place, hplace]
      exact fun h => nomatch h
  | some other =>
      rw [hplace] at h
      obtain ⟨type, htype, h⟩ := Attempt.bind_eq_ok.1 h
      cases hkey : (p.field "name").key? with
      | none =>
          rw [hkey] at h
          cases h
      | some key =>
          rw [hkey] at h
          obtain rfl := Attempt.pure_eq_ok.1 h
          have hname := Value.eq_scalar_of_key? hkey
          by_cases hsame : other = location
          · subst hsame
            exact Or.inl ⟨ofKey?_place.1 hplace, _, if_pos rfl, hname, htype, rfl⟩
          · refine Or.inr ⟨?_, if_neg hsame⟩
            rw [Bool.eq_false_iff, ne_eq, ← ofKey?_place, hplace]
            exact fun h => hsame (Option.some.inj h)

/-- What is entered at a location stands beside the parameters of the location. -/
theorem forall₂_entriesAt {parameters : List Value} {entries : List Entry}
    (h : List.Forall₂ (fun p e => entry c p = .ok e) parameters entries) (location : Location) :
    List.Forall₂ (Enters c) (parameters.filter (isAt location))
      (entries.filterMap (Entry.at? location)) := by
  induction h with
  | nil => exact .nil
  | cons he _ ih =>
      rw [List.filter_cons, List.filterMap_cons]
      rcases enters_of_entry he location with ⟨hat, entered, hentered, henters⟩ | ⟨hat, hnone⟩
      · rw [if_pos hat, hentered]
        exact .cons henters ih
      · rw [if_neg (Bool.eq_false_iff.1 hat), hnone]
        exact ih

-- ==================================================== tables of attributes

/-- A type in its form, with a mark beside its other members if it is required. -/
def marked (required : Bool) (type : Value) : Value :=
  if required then .map (Members.put (.text "required") (.bool true) (type.members?.getD []))
  else type

/-- No type has the mark of its own. -/
theorem toValue_attribute (a : Attribute) : a.toValue = marked a.required a.type.toValue := by
  obtain ⟨type, required⟩ := a
  unfold Attribute.toValue marked
  cases required with
  | false =>
      show Value.object (type.toMembers ++ []) = _
      rw [List.append_nil]
      rfl
  | true => cases type <;> simp [CedarType.toValue, CedarType.toMembers, Value.object, Members.put]

/-- The attribute of this name is that of the parameter: its schema converted, and marked if it
is required. -/
def IsAttribute (c : Converter) (attributes : Members Value) (name : String) (p : Value) : Prop :=
  ∃ type, (c.convertTop (.text name) (p.field "schema")).map CedarType.toValue = .ok type ∧
    Members.find? (.text name) attributes = some (marked (p.field "required").truthy type)

/-- The attributes of parameters at a location: their names by first occurrence, each with the
attribute of the last parameter of that name. -/
structure AttributesOf (c : Converter) (location : Location) (parameters : List Value)
    (attributes : Members Value) : Prop where
  names : Members.keys attributes = (namesAt location parameters).eraseDups.map .text
  last : ∀ name p, lastAt location name parameters = some p → IsAttribute c attributes name p

/-- The keys entered are the names. -/
theorem keys_of_enters {ps : List Value} {es : List (Scalar × Attribute)}
    (h : List.Forall₂ (Enters c) ps es) (hnames : ∀ p ∈ ps, ∃ s, p.field "name" = .text s) :
    es.map Prod.fst = (ps.filterMap fun p => (p.field "name").text?).map .text := by
  induction h with
  | nil => rfl
  | @cons p e _ _ he _ ih =>
      rw [List.forall_mem_cons] at hnames
      obtain ⟨⟨s, hs⟩, hrest⟩ := hnames
      have hkey : e.1 = .text s := Value.scalar.inj (he.name.symm.trans hs)
      rw [List.map_cons, ih hrest, List.filterMap_cons, hs, hkey]
      rfl

/-- The first parameter of a name stands beside the first attribute under it. -/
theorem find?_of_enters {ps : List Value} {es : List (Scalar × Attribute)}
    (h : List.Forall₂ (Enters c) ps es) {name : String} {p : Value}
    (hp : (ps.find? fun p => (p.field "name").text? == some name) = some p) :
    ∃ e, (es.find? fun e => e.1.same (.text name)) = some e ∧ p.field "name" = .text name ∧
      Enters c p e := by
  induction h with
  | nil => cases hp
  | @cons q e _ _ he _ ih =>
      rw [List.find?_cons] at hp
      split at hp
      · next hname =>
        cases hp
        have htext := Value.eq_text_of_text? (beq_iff_eq.1 hname)
        have hkey : e.1 = .text name := Value.scalar.inj (he.name.symm.trans htext)
        refine ⟨e, ?_, htext, he⟩
        rw [List.find?_cons, hkey, Scalar.same_refl]
      · next hname =>
        obtain ⟨e', he', hrest⟩ := ih hp
        refine ⟨e', ?_, hrest⟩
        have hother : e.1.same (.text name) = false := by
          rw [Bool.eq_false_iff]
          intro hsame
          rw [he.name, Scalar.eq_text_of_same hsame] at hname
          exact absurd hname (by simp [Value.text?])
        rw [List.find?_cons, hother, he']

/-- A context has, at each location, the attributes of the parameters there. -/
theorem attributesOf_of_ofParameters {parameters : List Value} {context : Context}
    (h : ofParameters c parameters = .ok context)
    (hnames : ∀ p ∈ parameters, TextNamed p) (location : Location) :
    AttributesOf c location parameters
      ((context.at? location).map fun a => (a.1, a.2.toValue)) := by
  obtain ⟨entries, hentries, rfl⟩ := ofParameters_eq_ok.1 h
  have hat := forall₂_entriesAt hentries location
  have htext : ∀ p ∈ parameters.filter (isAt location), ∃ s, p.field "name" = .text s := by
    intro p hp
    have hmem := (List.mem_filter.1 hp).1
    obtain ⟨e, -, he⟩ := Attempt.exists_of_mem_right hentries.flip hmem
    obtain ⟨location?, hlocation, -⟩ := Attempt.bind_eq_ok.1 he
    exact (hnames p hmem).text_of_complete (locationOf_eq_ok.1 hlocation).1
  rw [at?_entered]
  refine ⟨?_, fun name p hp => ?_⟩
  · rw [Members.keys_map, Members.keys_ofEntries, keys_of_enters hat htext,
      Scalar.firsts_map_text]
    rfl
  · obtain ⟨e, hfind, hname, he⟩ := find?_of_enters (List.rel_reverse hat) hp
    refine ⟨e.2.type.toValue, ?_, ?_⟩
    · rw [← hname, he.type]
      rfl
    · rw [Members.find?_map, Members.find?_ofEntries, hfind]
      show some e.2.toValue = _
      rw [toValue_attribute, he.required]

-- ==================================================== contexts

/-- A parameter comes to something, whatever that is, if it is complete and, where it stands at a
location, its schema converts. -/
theorem exists_entry_iff {p : Value} (hname : TextNamed p) :
    (∃ e, entry c p = .ok e) ↔ Complete p ∧ ∀ location, isAt location p = true →
      ∃ t, c.convertTop (p.field "name") (p.field "schema") = .ok t := by
  constructor
  · rintro ⟨e, h⟩
    obtain ⟨location?, hlocation, -⟩ := Attempt.bind_eq_ok.1 h
    refine ⟨(locationOf_eq_ok.1 hlocation).1, fun location hat => ?_⟩
    rcases enters_of_entry h location with ⟨-, entered, -, henters⟩ | ⟨hnot, -⟩
    · exact ⟨entered.2.type, henters.type⟩
    · rw [hat] at hnot
      cases hnot
  · rintro ⟨hcomplete, hschema⟩
    obtain ⟨s, hs⟩ := hname.text_of_complete hcomplete
    unfold entry
    rw [locationOf_eq_ok.2 ⟨hcomplete, rfl⟩]
    cases hplace : (p.field "in").key?.bind Location.ofKey? with
    | none => exact ⟨none, rfl⟩
    | some location =>
        obtain ⟨t, ht⟩ := hschema location (ofKey?_place.1 hplace)
        refine ⟨some (location, .text s, ⟨t, (p.field "required").truthy⟩), ?_⟩
        refine Attempt.bind_eq_ok.2 ⟨some location, rfl, Attempt.bind_eq_ok.2 ⟨t, ht, ?_⟩⟩
        rw [hs]
        rfl

/-- Which parameters have a context. -/
theorem exists_ofParameters_iff {parameters : List Value}
    (hnames : ∀ p ∈ parameters, TextNamed p) :
    (∃ context, ofParameters c parameters = .ok context) ↔
      ∀ p ∈ parameters, Complete p ∧ ∀ location, isAt location p = true →
        ∃ t, c.convertTop (p.field "name") (p.field "schema") = .ok t := by
  constructor
  · rintro ⟨context, h⟩ p hp
    obtain ⟨entries, hentries, -⟩ := ofParameters_eq_ok.1 h
    obtain ⟨e, -, he⟩ := Attempt.exists_of_mem_right hentries.flip hp
    exact (exists_entry_iff (hnames p hp)).1 ⟨e, he⟩
  · intro h
    have hentries : ∃ entries, List.Forall₂ (fun p e => entry c p = .ok e) parameters entries := by
      induction parameters with
      | nil => exact ⟨[], .nil⟩
      | cons p ps ih =>
          rw [List.forall_mem_cons] at hnames h
          obtain ⟨e, he⟩ := (exists_entry_iff hnames.1).2 h.1
          obtain ⟨es, hes⟩ := ih hnames.2 h.2
          exact ⟨e :: es, .cons he hes⟩
    obtain ⟨entries, hentries⟩ := hentries
    exact ⟨_, ofParameters_eq_ok.2 ⟨entries, hentries, rfl⟩⟩

/-- The items of a list are what it lists. -/
theorem listed_of_body {list : Value} {items : List Value} (h : list.body = .list items) :
    listed list = .ok items := by
  induction list with
  | looped n v ih => exact ih h
  | list vs =>
      cases h
      cases items <;> rfl
  | scalar s => cases h
  | pair a b => cases h
  | set vs => cases h
  | map ms => cases h

/-- The form of a context: a record of one record for each location. -/
def form (attributes : Location → Members Value) : Value :=
  Converter.recordForm
    [(.text "pathParameters", Converter.recordForm (attributes .path)),
     (.text "queryStringParameters", Converter.recordForm (attributes .query))]

/-- The value of a context has the form of its attributes. -/
theorem toValue_eq_form (context : Context) :
    context.toValue = form fun location =>
      (context.at? location).map fun a => (a.1, a.2.toValue) :=
  rfl

/-- Which parameters have a context, and which: a list of parameters has one if each of them is
complete and each that stands at a location has a schema that converts; and then there are, at
each location, the names of its parameters by first occurrence, each with the attribute of the
last parameter of that name.

In the context of an operation its own parameters are the later ones. -/
theorem context_of_parameters (c : Converter) :
    (∀ list parameters, list.body = .list parameters → (∀ p ∈ parameters, TextNamed p) →
      ((∃ context, ofValue c list = .ok context) ↔
        ∀ p ∈ parameters, Complete p ∧ ∀ location, isAt location p = true →
          ∃ t, c.convertTop (p.field "name") (p.field "schema") = .ok t) ∧
      ∀ context, ofValue c list = .ok context → ∃ attributes, context.toValue = form attributes ∧
        ∀ location, AttributesOf c location parameters (attributes location)) ∧
    ∀ verb path operation base pathParameters a inherited own,
      Action.ofOperation c verb path operation base pathParameters = .ok a →
      listed pathParameters = .ok inherited → listed (operation.field "parameters") = .ok own →
      (∀ p ∈ inherited ++ own, TextNamed p) →
      ∃ attributes, a.context.toValue = form attributes ∧ ∀ location,
        Members.keys (attributes location) =
          (namesAt location inherited ++ namesAt location own).eraseDups.map .text ∧
        ∀ name,
          (∀ p, lastAt location name own = some p → IsAttribute c (attributes location) name p) ∧
          (lastAt location name own = none → ∀ p, lastAt location name inherited = some p →
            IsAttribute c (attributes location) name p) := by
  refine ⟨fun list parameters hlist hnames => ⟨?_, fun context h => ?_⟩, ?_⟩
  · rw [ofValue, listed_of_body hlist]
    exact exists_ofParameters_iff hnames
  · rw [ofValue, listed_of_body hlist] at h
    exact ⟨_, toValue_eq_form context, attributesOf_of_ofParameters h hnames⟩
  · intro verb path operation base pathParameters a inherited own ha hinherited hown hnames
    obtain ⟨ps, qs, hps, hqs, hcontext⟩ := (Action.ofOperation_eq_ok.1 ha).context
    obtain rfl := Except.ok.inj (hps.symm.trans hinherited)
    obtain rfl := Except.ok.inj (hqs.symm.trans hown)
    refine ⟨_, toValue_eq_form a.context, fun location => ?_⟩
    obtain ⟨hkeys, hlast⟩ := attributesOf_of_ofParameters hcontext hnames location
    rw [namesAt_append] at hkeys
    refine ⟨hkeys, fun name => ⟨fun p hp => hlast name p ?_, fun hnone p hp => hlast name p ?_⟩⟩
    · rw [lastAt_append, hp, Option.some_or]
    · rw [lastAt_append, hnone, hp, Option.none_or]

/-- A parameter with a name, a location, a schema and a mark. -/
def sample (name place : String) (schema : Value) (required : Bool) : Value :=
  .object [("name", .text name), ("in", .text place), ("schema", schema),
    ("required", .bool required)]

/-- A path item requires a page, and what its operation says of the page is another thing. What
stands in the header has no schema that converts. -/
def inheritedSample : List Value :=
  [sample "id" "path" (.object [("type", .text "string")]) true,
   sample "page" "query" (.object [("type", .text "string")]) true,
   sample "trace" "header" (.object []) false]

/-- The parameters of an operation, one of which repeats an inherited name. -/
def ownSample : List Value := [sample "page" "query" (.object [("type", .text "integer")]) false]

theorem textNamed_samples : ∀ p ∈ inheritedSample ++ ownSample, TextNamed p := by
  have hsample : ∀ name place schema required, TextNamed (sample name place schema required) := by
    intro name place schema required v hv
    have hname : (sample name place schema required).field? "name" = some (.text name) := rfl
    rw [hname] at hv
    cases hv
    exact Or.inr ⟨name, rfl⟩
  simp [inheritedSample, ownSample, hsample]

/-- The parameters have a context, and that of the operation has its own page, which is not
required, in the place of the inherited one. -/
theorem context_of_parameters_samples :
    (∃ context attributes,
      ofValue (.forSchemas []) (.list (inheritedSample ++ ownSample)) = .ok context ∧
      context.toValue = form attributes ∧
      AttributesOf (.forSchemas []) .path (inheritedSample ++ ownSample) (attributes .path)) ∧
    ∃ a attributes, Action.ofOperation (.forSchemas []) (.text "get") (.text "/pets")
        (.object [("parameters", .list ownSample)]) (.text "") (.list inheritedSample) = .ok a ∧
      a.context.toValue = form attributes ∧
      Members.keys (attributes .query) = [.text "page"] ∧
      IsAttribute (.forSchemas []) (attributes .query) "page"
        (sample "page" "query" (.object [("type", .text "integer")]) false) := by
  obtain ⟨hlists, hoperations⟩ := context_of_parameters (.forSchemas [])
  constructor
  · obtain ⟨context, h⟩ := Attempt.exists_eq_ok (by decide +kernel :
      (ofValue (.forSchemas []) (.list (inheritedSample ++ ownSample))).isOk = true)
    obtain ⟨attributes, hform, hattributes⟩ := (hlists _ _ rfl textNamed_samples).2 context h
    exact ⟨context, attributes, h, hform, hattributes .path⟩
  · obtain ⟨a, h⟩ := Attempt.exists_eq_ok (by decide +kernel :
      (Action.ofOperation (.forSchemas []) (.text "get") (.text "/pets")
        (.object [("parameters", .list ownSample)]) (.text "") (.list inheritedSample)).isOk = true)
    obtain ⟨attributes, hform, hattributes⟩ :=
      hoperations _ _ _ _ _ a inheritedSample ownSample h rfl rfl textNamed_samples
    obtain ⟨hkeys, hlast⟩ := hattributes .query
    exact ⟨a, attributes, h, hform, hkeys, (hlast "page").1 _ rfl⟩

end Context

end ApiAuthz
