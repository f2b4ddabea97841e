/-
The value of the nodes of a JSON text. The nodes of a phrase are a tree (`isTree`), so parts are
built of them unless a number has too many digits (`limited`), and the value of the parts of a
phrase is what the phrase comes to, its numbers and strings read as scalars (`Phrase.valued`).

# Trees

Nodes refer to one another by number, and building goes by the height of the nodes, which an
alias may make endless. A JSON text has no aliases: items, names and values stand behind the
node of their list or object (`Items.treeNodes`, `Fields.treeNodes`), so the references go
forward only and every node is reached. What is left to stop the building is a scalar that has
no value, and that is an integer beyond the limit (`not_unreadable`).

# Values

`Valued` is what is known of parts that have been built: each is made of its node, and its value
is what the values of the parts below make of it. From there the value of a scalar, a list and
an object is read off (`Valued.scalar`, `Valued.sequence`, `Valued.mapping`), and by induction
over the phrase that of a phrase (`Phrase.valued`), which also gives back that its numbers are
within the limit. Together with the tree this is an equivalence: a phrase has a value from its
nodes exactly if it keeps the limit, and then it is `p.denoted asRead`
(`Phrase.ofGraph_of_limited`, `Phrase.limited_of_ofGraph`).
-/
import ApiAuthz.Proofs.Json.Nodes
import ApiAuthz.Proofs.Json.Scalars
import ApiAuthz.Proofs.Yaml.Parts
import ApiAuthz.Proofs.Yaml.Values

namespace ApiAuthz.Json

open Yaml (Graph Node IsTree TreeNode MembersIn Made HasPart Part Unreadable)
open Yaml.Graph (scalarNode)
open Yaml.QuotedScalar (folded)

-- ==================================================== trees

/-- What building asks of a text: integers are within the limit of digits. -/
def limited : Rule where
  blank := fun _ => True
  number := Number.WithinLimit
  string := fun _ => True
  name := fun _ => True

/-- The node of a phrase with this property. -/
def IsPhraseNode (nodes : Graph) (r : Rule) (n : Nat) : Prop :=
  ∃ p : Phrase, p.Obeys r ∧ p.At nodes n

variable {nodes : Graph} {n : Nat}

/-- A number has the tag of a scalar, whichever form it has. -/
theorem isScalar_tagOf_text (x : Number) :
    (Yaml.PlainForm.tagOf (String.ofList x.text)).isScalar = true := by
  rw [x.tagOf_text]
  split
  · rfl
  · split <;> rfl

/-- Items stand behind the node of their list. -/
theorem Items.treeNodes {n : Nat} {is : List Nat} {r : Rule} :
    (items : Items) → items.Obeys r → items.At nodes n is →
      ∀ i ∈ is, n + 1 ≤ i ∧ IsPhraseNode nodes r i
  | .last _ item _, ⟨_, hr, _⟩, ⟨i, his, hi, hitem⟩ => by
    rw [his]
    exact List.forall_mem_singleton.2 ⟨hi, item, hr, hitem⟩
  | .more _ item _ rest, ⟨_, hr, _, hrest⟩, ⟨i, js, his, hi, hitem, hjs⟩ => by
    rw [his]
    exact List.forall_mem_cons.2 ⟨⟨hi, item, hr, hitem⟩, rest.treeNodes hrest hjs⟩

/-- Names and values stand behind the node of their object, and a name is a scalar. -/
theorem Fields.treeNodes {n : Nat} {ms : List (Nat × Nat)} {r : Rule}
    (hstring : ∀ s, r.string s) :
    (fields : Fields) → fields.Obeys r → fields.At nodes n ms →
      MembersIn nodes (IsPhraseNode nodes r) (n + 1) ms
  | .last name _ item _, ⟨_, _, hr, _⟩, ⟨k, i, hms, hk, hname, hi, hitem⟩ => by
    rw [hms]
    exact List.forall_mem_singleton.2
      ⟨⟨hk, ⟨.string name.letters, hstring _, hname⟩, hi, item, hr, hitem⟩, _, hname⟩
  | .more name _ item _ rest, ⟨_, _, hr, _, hrest⟩, ⟨k, i, ns, hms, hk, hname, hi, hitem, hns⟩ => by
    rw [hms]
    refine List.forall_mem_cons.2 ⟨?_, rest.treeNodes hstring hrest hns⟩
    exact ⟨⟨hk, ⟨.string name.letters, hstring _, hname⟩, hi, item, hr, hitem⟩, _, hname⟩

/-- The nodes of phrases are trees. -/
theorem isTree {r : Rule} (hstring : ∀ s, r.string s) : IsTree nodes (IsPhraseNode nodes r) := by
  rintro n ⟨p, hr, hp⟩
  cases p with
  | null => exact ⟨_, hp, .scalar (by decide)⟩
  | bool b => exact ⟨_, hp, .scalar (by cases b <;> decide)⟩
  | number x => exact ⟨_, hp, .scalar (isScalar_tagOf_text x)⟩
  | string s => exact ⟨_, hp, .scalar rfl⟩
  | emptyList inside => exact ⟨_, hp, .sequence nofun⟩
  | list items =>
      obtain ⟨is, hn, his⟩ := hp
      exact ⟨_, hn, .sequence (items.treeNodes hr his)⟩
  | emptyObject inside => exact ⟨_, hp, .mapping nofun⟩
  | object fields =>
      obtain ⟨ms, hn, hms⟩ := hp
      exact ⟨_, hn, .mapping (fields.treeNodes hstring hr hms)⟩

-- ==================================================== values of parts

/-- The parts are made of their nodes, and have these values. -/
structure Valued (nodes : Graph) (parts : Array (Option Part)) (values : Nat → Value Broken) :
    Prop where
  made : ∀ (n : Nat) (p : Part), parts[n]? = some (some p) →
    ∃ x, nodes[n]? = some x ∧ Made nodes (HasPart parts) n x p
  value : ∀ (n : Nat) (p : Part), parts[n]? = some (some p) → values n = p.value values

/-- How words and strings are read as scalars. -/
def asRead : Meaning := ⟨Number.reading, fun s => .ofPoints (folded s)⟩

section Valued

variable {parts : Array (Option Part)} {values : Nat → Value Broken}

/-- The value of a scalar is what its tag makes of its text. -/
theorem Valued.scalar (h : Valued nodes parts values) (hn : HasPart parts n) {tag : Yaml.Tag}
    {text : List CodePoint} (hx : nodes[n]? = some ⟨tag, .scalar text⟩) :
    ∃ s, Yaml.ScalarValue.ofTag (n + 1) tag text = .ok s ∧ values n = .scalar s := by
  obtain ⟨p, hp⟩ := hn
  obtain ⟨x, hx', hmade⟩ := h.made n p hp
  rw [hx] at hx'
  cases hx'
  cases hmade with
  | scalar hs => exact ⟨_, hs, h.value n _ hp⟩

/-- The value of a list is that of its items. -/
theorem Valued.sequence (h : Valued nodes parts values) (hn : HasPart parts n) {is : List Nat}
    (hx : nodes[n]? = some ⟨.seq, .sequence is⟩) :
    (∀ i ∈ is, HasPart parts i) ∧ values n = .list (is.map values) := by
  obtain ⟨p, hp⟩ := hn
  obtain ⟨x, hx', hmade⟩ := h.made n p hp
  rw [hx] at hx'
  cases hx'
  cases hmade with
  | sequence items => exact ⟨fun i hi => (items i hi).2, h.value n _ hp⟩

/-- A member with its key and the value under it. -/
def valuedEntry (nodes : Graph) (values : Nat → Value Broken) (m : Nat × Nat) :
    Scalar Broken × Value Broken :=
  (.ofPoints (nodes.scalarText m.1), values m.2)

/-- The value of an object is that of its members, the last one for each key. -/
theorem Valued.mapping (h : Valued nodes parts values) (hn : HasPart parts n)
    {ms : List (Nat × Nat)} (hx : nodes[n]? = some ⟨.map, .mapping ms⟩) :
    (∀ m ∈ ms, HasPart parts m.2) ∧
      values n = .map (Members.ofEntries (ms.map (valuedEntry nodes values))) := by
  obtain ⟨p, hp⟩ := hn
  obtain ⟨x, hx', hmade⟩ := h.made n p hp
  rw [hx] at hx'
  cases hx'
  cases hmade with
  | mapping members =>
      refine ⟨fun m hm => (members m hm).2, (h.value n _ hp).trans (congrArg Value.map ?_)⟩
      rw [← Members.ofEntries_map, List.map_map]
      rfl

/-- The text of a string is its folded letters. -/
theorem scalarText_stringNode {s : List Letter} (h : nodes[n]? = some (stringNode s)) :
    nodes.scalarText n = folded s := by
  unfold Graph.scalarText
  rw [h]
  rfl

mutual

/-- Where a phrase has a part, its numbers are within the limit, and the value is what the
phrase comes to. -/
theorem Phrase.valued {n : Nat} (h : Valued nodes parts values) :
    (p : Phrase) → p.At nodes n → HasPart parts n →
      p.Obeys limited ∧ values n = p.denoted asRead
  | .null, hp, hn => by
    obtain ⟨s, hs, hvalue⟩ := h.scalar hn hp
    rw [ofTag_null] at hs
    cases hs
    exact ⟨trivial, hvalue⟩
  | .bool b, hp, hn => by
    obtain ⟨s, hs, hvalue⟩ := h.scalar hn hp
    rw [ofTag_bool] at hs
    cases hs
    exact ⟨trivial, hvalue⟩
  | .number x, hp, hn => by
    obtain ⟨s, hs, hvalue⟩ := h.scalar hn hp
    have hlimit : x.WithinLimit := by
      by_contra hnot
      obtain ⟨f, hf⟩ := x.ofTag_eq_error (n + 1) hnot
      rw [hf] at hs
      cases hs
    rw [x.ofTag_eq_ok (n + 1) hlimit] at hs
    cases hs
    exact ⟨hlimit, hvalue⟩
  | .string s, hp, hn => by
    obtain ⟨_, hs, hvalue⟩ := h.scalar hn hp
    cases hs
    exact ⟨trivial, hvalue⟩
  | .emptyList _, hp, hn => ⟨trivial, (h.sequence hn hp).2⟩
  | .list items, ⟨is, hx, his⟩, hn => by
    obtain ⟨hthere, hvalue⟩ := h.sequence hn hx
    obtain ⟨hlimited, hitems⟩ := items.valued h his hthere
    exact ⟨hlimited, hvalue.trans (congrArg Value.list hitems)⟩
  | .emptyObject _, hp, hn => ⟨trivial, (h.mapping hn hp).2⟩
  | .object fields, ⟨ms, hx, hms⟩, hn => by
    obtain ⟨hthere, hvalue⟩ := h.mapping hn hx
    obtain ⟨hlimited, hfields⟩ := fields.valued h hms hthere
    rw [hfields] at hvalue
    exact ⟨hlimited, hvalue⟩

/-- Items that have values have those that are read from them, and keep the limit. -/
theorem Items.valued {n : Nat} {is : List Nat} (h : Valued nodes parts values) :
    (items : Items) → items.At nodes n is → (∀ i ∈ is, HasPart parts i) →
      items.Obeys limited ∧ is.map values = items.denoted asRead
  | .last _ item _, ⟨i, his, _, hitem⟩, hthere => by
    subst his
    obtain ⟨hlimited, hvalue⟩ := item.valued h hitem (hthere i (List.mem_cons_self ..))
    exact ⟨⟨trivial, hlimited, trivial⟩, congrArg ([·]) hvalue⟩
  | .more _ item _ rest, ⟨i, js, his, _, hitem, hjs⟩, hthere => by
    subst his
    rw [List.forall_mem_cons] at hthere
    obtain ⟨hlimited, hvalue⟩ := item.valued h hitem hthere.1
    obtain ⟨hlimited', hvalues⟩ := rest.valued h hjs hthere.2
    exact ⟨⟨trivial, hlimited, trivial, hlimited'⟩, congrArg₂ List.cons hvalue hvalues⟩

/-- So have members. -/
theorem Fields.valued {n : Nat} {ms : List (Nat × Nat)} (h : Valued nodes parts values) :
    (fields : Fields) → fields.At nodes n ms → (∀ m ∈ ms, HasPart parts m.2) →
      fields.Obeys limited ∧ ms.map (valuedEntry nodes values) = fields.denoted asRead
  | .last name _ item _, ⟨k, i, hms, _, hname, _, hitem⟩, hthere => by
    subst hms
    obtain ⟨hlimited, hvalue⟩ := item.valued h hitem (hthere (k, i) (List.mem_cons_self ..))
    refine ⟨⟨trivial, trivial, hlimited, trivial⟩, ?_⟩
    show [(Scalar.ofPoints (nodes.scalarText k), values i)] = _
    rw [scalarText_stringNode hname, hvalue]
    rfl
  | .more name _ item _ rest, ⟨k, i, ns, hms, _, hname, _, hitem, hns⟩, hthere => by
    subst hms
    rw [List.forall_mem_cons] at hthere
    obtain ⟨hlimited, hvalue⟩ := item.valued h hitem hthere.1
    obtain ⟨hlimited', hvalues⟩ := rest.valued h hns hthere.2
    refine ⟨⟨trivial, trivial, hlimited, trivial, hlimited'⟩, ?_⟩
    show (Scalar.ofPoints (nodes.scalarText k), values i) :: ns.map (valuedEntry nodes values) = _
    rw [scalarText_stringNode hname, hvalue, hvalues]
    rfl

end

end Valued

-- ==================================================== documents

open Yaml (Known)
open Yaml.Document (ofGraph)

theorem holdLater_of_made {parts : Array (Option Part)}
    (h : ∀ (n : Nat) (p : Part), parts[n]? = some (some p) →
      ∃ x, nodes[n]? = some x ∧ Made nodes (HasPart parts) n x p) : Yaml.HoldLater parts := by
  intro n p hp i hi
  obtain ⟨x, _, hmade⟩ := h n p hp
  cases hmade with
  | scalar => cases hi
  | sequence items => exact items i hi
  | mapping members =>
      obtain ⟨m, hm, rfl⟩ := List.mem_map.1 hi
      obtain ⟨e, he, hem⟩ := Members.mem_ofEntries hm
      obtain ⟨k, hk, rfl⟩ := List.mem_map.1 he
      rw [← hem]
      exact members k hk

/-- If the parts of a phrase can be built, numbers are within the limit, and the document is
what the phrase comes to. -/
theorem Phrase.ofGraph_of_parts {p : Phrase} {parts : Array (Option Part)} (hp : p.At nodes n)
    (hparts : Part.ofGraph nodes n = .ok parts) :
    p.Obeys limited ∧ ofGraph nodes n = .ok (p.denoted asRead) := by
  have hany : Rule.Always ⟨fun _ => True, fun _ => True, fun _ => True, fun _ => True⟩ :=
    ⟨fun _ => trivial, fun _ => trivial, fun _ => trivial, fun _ => trivial⟩
  have hroot : IsPhraseNode nodes _ n := ⟨p, p.obeys_of_always hany, hp⟩
  have hbuilt := Yaml.parts_of_tree (isTree hany.string) hroot
  rw [hparts] at hbuilt
  obtain ⟨hthere, hmade⟩ := hbuilt
  have hvalue (m : Nat) (q : Part) (hq : parts[m]? = some (some q)) :
      (Known.ofParts parts).at? m = some (q.value (Known.ofParts parts).valueAt) :=
    Known.known_ofParts (holdLater_of_made hmade) hq
  have hvalued : Valued nodes parts (Known.ofParts parts).valueAt := by
    refine ⟨hmade, fun m q hq => ?_⟩
    unfold Known.valueAt
    rw [hvalue m q hq]
    rfl
  obtain ⟨hlimited, hdenoted⟩ := p.valued hvalued hp hthere
  refine ⟨hlimited, ?_⟩
  obtain ⟨q, hq⟩ := hthere
  have hat : (Known.ofParts parts).at? n = some (p.denoted asRead) := by
    rw [hvalue n q hq, ← hdenoted, hvalued.value n q hq]
  unfold ofGraph
  rw [hparts]
  dsimp only [bind, Except.bind]
  rw [hat]
  rfl

/-- A scalar that has no value is a number beyond the limit. -/
theorem not_unreadable : ¬Unreadable nodes (IsPhraseNode nodes limited) := by
  rintro ⟨n, tag, text, f, ⟨p, hlimited, hp⟩, hx, hf⟩
  have hleaf {tag' : Yaml.Tag} {text' : List CodePoint} (hn : nodes[n]? = some ⟨tag', .scalar text'⟩)
      (hs : ∃ s, Yaml.ScalarValue.ofTag (n + 1) tag' text' = .ok s) : False := by
    obtain ⟨s, hs⟩ := hs
    rw [hx] at hn
    cases hn
    cases hs.symm.trans hf
  cases p with
  | null => exact hleaf hp ⟨_, ofTag_null _⟩
  | bool b => exact hleaf hp ⟨_, ofTag_bool _ b⟩
  | number x => exact hleaf hp ⟨_, x.ofTag_eq_ok _ hlimited⟩
  | string s => exact hleaf hp ⟨_, rfl⟩
  | emptyList inside =>
      rw [hp] at hx
      cases hx
  | list items =>
      obtain ⟨is, hn, _⟩ := hp
      rw [hn] at hx
      cases hx
  | emptyObject inside =>
      rw [hp] at hx
      cases hx
  | object fields =>
      obtain ⟨ms, hn, _⟩ := hp
      rw [hn] at hx
      cases hx

/-- A value within the limit is read from its nodes. -/
theorem Phrase.ofGraph_of_limited {p : Phrase} (hp : p.At nodes n) (h : p.Obeys limited) :
    ofGraph nodes n = .ok (p.denoted asRead) := by
  have hroot : IsPhraseNode nodes limited n := ⟨p, h, hp⟩
  have hbuilt := Yaml.parts_of_tree (isTree fun _ => trivial) hroot
  split at hbuilt
  · next parts hparts => exact (Phrase.ofGraph_of_parts hp hparts).2
  · exact absurd hbuilt not_unreadable

/-- What is read from the nodes of a value is within the limit. -/
theorem Phrase.limited_of_ofGraph {p : Phrase} (hp : p.At nodes n) {v : Value Broken}
    (h : ofGraph nodes n = .ok v) : p.Obeys limited ∧ v = p.denoted asRead := by
  cases hparts : Part.ofGraph nodes n with
  | ok parts =>
      obtain ⟨hlimited, hdocument⟩ := Phrase.ofGraph_of_parts hp hparts
      rw [hdocument] at h
      exact ⟨hlimited, (Except.ok.inj h).symm⟩
  | error f =>
      unfold ofGraph at h
      rw [hparts] at h
      cases h

end ApiAuthz.Json
