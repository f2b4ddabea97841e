/-
The nodes of a JSON text. `Phrase.At` says that a node of a graph is that of a phrase, together
with all nodes in it, whose numbers are greater. Reading the tokens of a phrase adds such a node
and changes none that was there, provided that all names fit; the name that does not fit is
followed by a sign that no key is in front of, which is unexpected. `Phrase.ofTokens_of_fitting`
and `Phrase.not_ofTokens_of_not_fitting` are the result for a document.

# Reading a phrase

A collection takes its number first and is filled last, so while its items are read its node
stands in the graph without content. `Added` says what reading has done when it is over: the
number is the next free one, the phrase stands there, and no node with a smaller number has
changed (`Kept`). `Phrase.At.kept` is why nodes that were read stay those of their phrase while
others are added behind them.

# The measure

The readers call one another with less fuel each time. A phrase takes two rounds for each of its
tokens at most, one to find that an item is there and one to read it, which is what the bounds
of `Phrase.reads`, `Items.reads` and `Fields.reads` say; the three go by induction on the
grammar, and `Phrase.reads_document` starts them with fuel for the whole text.
-/
import ApiAuthz.Proofs.Json.Tokens
import ApiAuthz.Proofs.Yaml.BracketNodes

namespace ApiAuthz.Json

open Text (unifyLineEnds)
open Yaml (Graph Node Token)
open Yaml.Graph (Kept Reads StartsNode StartsMember scalarNode filled node flowItem flowItems
  flowMember flowMembers)
open Yaml.Scan (Fits nameTokens stringToken)
open Yaml.QuotedScalar (folded)

-- ==================================================== nodes of phrases

/-- The node of a word. -/
def wordNode (w : String) : Node := ⟨Yaml.PlainForm.tagOf w, .scalar (Text.points w)⟩

/-- The node of a plain text is that of a word. -/
theorem scalarNode_points (w : String) : scalarNode (Text.points w) true = wordNode w := by
  rw [scalarNode, Text.whole_points]
  rfl

theorem scalarNode_chars (cs : List Char) :
    scalarNode (cs.map .char) true = wordNode (String.ofList cs) := by
  rw [← scalarNode_points, Text.points, String.toList_ofList]

/-- The node of a string. -/
def stringNode (s : List Letter) : Node := scalarNode (folded s) false

mutual

/-- The node of this number is that of the phrase. -/
def Phrase.At (nodes : Graph) : Phrase → Nat → Prop
  | .null, n => nodes[n]? = some (wordNode "null")
  | .bool b, n => nodes[n]? = some (wordNode (if b then "true" else "false"))
  | .number x, n => nodes[n]? = some (wordNode (String.ofList x.text))
  | .string s, n => nodes[n]? = some (stringNode s)
  | .emptyList _, n => nodes[n]? = some ⟨.seq, .sequence []⟩
  | .list items, n => ∃ is, nodes[n]? = some ⟨.seq, .sequence is⟩ ∧ items.At nodes n is
  | .emptyObject _, n => nodes[n]? = some ⟨.map, .mapping []⟩
  | .object fields, n => ∃ ms, nodes[n]? = some ⟨.map, .mapping ms⟩ ∧ fields.At nodes n ms

/-- The nodes of these numbers, behind a node, are those of the items. -/
def Items.At (nodes : Graph) : Items → Nat → List Nat → Prop
  | .last _ item _, n, is => ∃ i, is = [i] ∧ n < i ∧ item.At nodes i
  | .more _ item _ rest, n, is =>
    ∃ i js, is = i :: js ∧ n < i ∧ item.At nodes i ∧ rest.At nodes n js

/-- The members start behind the number `n`, each name with its own node. -/
def Fields.At (nodes : Graph) : Fields → Nat → List (Nat × Nat) → Prop
  | .last name _ item _, n, ms =>
    ∃ k i, ms = [(k, i)] ∧ n < k ∧ nodes[k]? = some (stringNode name.letters) ∧
      n < i ∧ item.At nodes i
  | .more name _ item _ rest, n, ms =>
    ∃ k i ns, ms = (k, i) :: ns ∧ n < k ∧ nodes[k]? = some (stringNode name.letters) ∧
      n < i ∧ item.At nodes i ∧ rest.At nodes n ns

end

section Kept

variable {nodes nodes' : Graph}

mutual

/-- What a phrase is in a graph depends on no node in front of it. -/
theorem Phrase.At.kept {n : Nat} (h : Kept n nodes nodes') :
    (p : Phrase) → p.At nodes n → p.At nodes' n
  | .null, hp | .bool _, hp | .number _, hp | .string _, hp | .emptyList _, hp
  | .emptyObject _, hp => h _ _ (Nat.le_refl n) hp
  | .list items, ⟨is, hn, his⟩ =>
    ⟨is, h _ _ (Nat.le_refl n) hn, Items.At.kept (h.mono (Nat.le_succ n)) items his⟩
  | .object fields, ⟨ms, hn, hms⟩ =>
    ⟨ms, h _ _ (Nat.le_refl n) hn, Fields.At.kept (h.mono (Nat.le_succ n)) fields hms⟩

/-- Nodes that are made later do not touch items that are there. -/
theorem Items.At.kept {n : Nat} {is : List Nat} (h : Kept (n + 1) nodes nodes') :
    (items : Items) → items.At nodes n is → items.At nodes' n is
  | .last _ item _, ⟨i, his, hi, hitem⟩ => ⟨i, his, hi, Phrase.At.kept (h.mono hi) item hitem⟩
  | .more _ item _ rest, ⟨i, js, his, hi, hitem, hrest⟩ =>
    ⟨i, js, his, hi, Phrase.At.kept (h.mono hi) item hitem, Items.At.kept h rest hrest⟩

/-- Nor do they touch members. -/
theorem Fields.At.kept {n : Nat} {ms : List (Nat × Nat)} (h : Kept (n + 1) nodes nodes') :
    (fields : Fields) → fields.At nodes n ms → fields.At nodes' n ms
  | .last _ _ item _, ⟨k, i, hms, hk, hname, hi, hitem⟩ =>
    ⟨k, i, hms, hk, h _ _ hk hname, hi, Phrase.At.kept (h.mono hi) item hitem⟩
  | .more _ _ item _ rest, ⟨k, i, ns, hms, hk, hname, hi, hitem, hrest⟩ =>
    ⟨k, i, ns, hms, hk, h _ _ hk hname, hi, Phrase.At.kept (h.mono hi) item hitem,
      Fields.At.kept h rest hrest⟩

end

end Kept

-- ==================================================== reading the tokens

/-- The name and the blanks behind it may be a key. -/
def Name.Fits (n : Name) : Prop :=
  Yaml.Scan.Fits (quoted n.letters ++ unifyLineEnds n.after.chars)

/-- What reading the nodes asks of a text: all names may be keys. -/
def fitting : Rule where
  blank := fun _ => True
  number := fun _ => True
  string := fun _ => True
  name := Name.Fits

/-- The tokens of a value start with one that starts a node. -/
theorem Phrase.tokens_eq_cons (p : Phrase) : ∃ t ts, p.tokens = t :: ts ∧ StartsNode t := by
  cases p with
  | null => exact ⟨_, _, rfl, .scalar _ _⟩
  | bool b => exact ⟨_, _, rfl, .scalar _ _⟩
  | number n => exact ⟨_, _, rfl, .scalar _ _⟩
  | string s => exact ⟨_, _, rfl, .scalar _ _⟩
  | emptyList inside => exact ⟨_, _, rfl, .sequence⟩
  | list items => exact ⟨_, _, rfl, .sequence⟩
  | emptyObject inside => exact ⟨_, _, rfl, .mapping⟩
  | object fields => exact ⟨_, _, rfl, .mapping⟩

theorem Items.tokens_eq_cons (items : Items) :
    ∃ t ts, items.tokens = t :: ts ∧ StartsNode t := by
  cases items with
  | last before item after => exact item.tokens_eq_cons
  | more before item after rest =>
      obtain ⟨t, ts, heq, ht⟩ := item.tokens_eq_cons
      exact ⟨t, ts ++ .flowEntry :: rest.tokens, by rw [Items.tokens, heq]; rfl, ht⟩

theorem Phrase.length_tokens_pos (p : Phrase) : 0 < p.tokens.length := by
  obtain ⟨t, ts, heq, _⟩ := p.tokens_eq_cons
  rw [heq]
  exact Nat.succ_pos _

theorem Items.length_tokens_pos (items : Items) : 0 < items.tokens.length := by
  obtain ⟨t, ts, heq, _⟩ := items.tokens_eq_cons
  rw [heq]
  exact Nat.succ_pos _

theorem Name.tokens_eq_cons (n : Name) : ∃ t ts, n.tokens = t :: ts ∧ StartsMember t := by
  unfold Name.tokens nameTokens
  split
  · exact ⟨_, _, rfl, .key⟩
  · exact ⟨_, _, rfl, .scalar _⟩

/-- The tokens of members start with one that starts a member. -/
theorem Fields.tokens_eq_cons (fields : Fields) :
    ∃ t ts, fields.tokens = t :: ts ∧ StartsMember t := by
  cases fields with
  | last name before item after =>
      obtain ⟨t, ts, heq, ht⟩ := name.tokens_eq_cons
      exact ⟨t, ts ++ item.tokens, by rw [Fields.tokens, heq]; rfl, ht⟩
  | more name before item after rest =>
      obtain ⟨t, ts, heq, ht⟩ := name.tokens_eq_cons
      exact ⟨t, ts ++ (item.tokens ++ .flowEntry :: rest.tokens),
        by rw [Fields.tokens, heq]; rfl, ht⟩

theorem Fields.length_tokens_pos (fields : Fields) : 0 < fields.tokens.length := by
  obtain ⟨t, ts, heq, _⟩ := fields.tokens_eq_cons
  rw [heq]
  exact Nat.succ_pos _

variable {nodes : Graph} {fuel : Nat} {rest : List Token}

/-- What is known of the node that has been read for a phrase. -/
structure Added (p : Phrase) (nodes : Graph) (n : Nat) (nodes' : Graph) : Prop where
  number : n = nodes.size
  kept : Kept 0 nodes nodes'
  at_ : p.At nodes' n

/-- A scalar is one token and one node. -/
theorem reads_leaf {p : Phrase} {text : List CodePoint} {plain : Bool} (block : Bool)
    (htokens : p.tokens = [.scalar text plain])
    (hat : ∀ nodes' n, nodes'[n]? = some (scalarNode text plain) → p.At nodes' n) :
    Reads True (node block false (fuel + 1)) nodes (p.tokens ++ rest) rest (Added p nodes) := by
  rw [htokens]
  refine (Yaml.Graph.reads_scalar block text plain).imp ?_
  rintro _ _ ⟨rfl, rfl⟩
  exact ⟨rfl, Yaml.Graph.kept_push 0 nodes _, hat _ _ Array.getElem?_push_size⟩

/-- A list takes the first number and its items the following ones; the node is filled at the end.
-/
theorem added_list {items : Items} {is : List Nat} {inner : Graph}
    (h : Kept 0 (nodes.push ⟨.seq, .sequence []⟩) inner) (his : items.At inner nodes.size is) :
    Added (.list items) nodes nodes.size (filled inner nodes.size (.sequence is)) := by
  obtain ⟨hkept, hinner, hn⟩ := h.filled (.sequence is)
  exact ⟨rfl, hkept, is, hn, Items.At.kept hinner items his⟩

/-- An object takes the first number and its members the following ones. -/
theorem added_object {fields : Fields} {ms : List (Nat × Nat)} {inner : Graph}
    (h : Kept 0 (nodes.push ⟨.map, .mapping []⟩) inner) (hms : fields.At inner nodes.size ms) :
    Added (.object fields) nodes nodes.size (filled inner nodes.size (.mapping ms)) := by
  obtain ⟨hkept, hinner, hn⟩ := h.filled (.mapping ms)
  exact ⟨rfl, hkept, ms, hn, Fields.At.kept hinner fields hms⟩

theorem lt_size_push (x : Node) : nodes.size < (nodes.push x).size := by
  rw [Array.size_push]
  exact Nat.lt_succ_self _

/-- A list is read where its items are. -/
theorem reads_list {items : Items} {P : Prop} (block : Bool)
    (h : Reads P (flowItem fuel) (nodes.push ⟨.seq, .sequence []⟩)
      (items.tokens ++ .flowSequenceEnd :: rest) rest fun is inner =>
        Kept 0 (nodes.push ⟨.seq, .sequence []⟩) inner ∧ items.At inner nodes.size is) :
    Reads P (node block false (fuel + 2)) nodes ((Phrase.list items).tokens ++ rest) rest
      (Added (.list items) nodes) := by
  obtain ⟨t, ts, heq, ht⟩ := items.tokens_eq_cons
  rw [heq] at h
  rw [Phrase.tokens, heq, List.cons_append, List.append_assoc]
  refine (Yaml.Graph.reads_sequence block (Yaml.Graph.reads_items_first ht h)).imp ?_
  rintro _ _ ⟨rfl, is, inner, ⟨hkept, his⟩, rfl⟩
  exact added_list hkept his

/-- An object is read where its members are. -/
theorem reads_object {fields : Fields} {P : Prop} (block : Bool)
    (h : Reads P (flowMember fuel) (nodes.push ⟨.map, .mapping []⟩)
      (fields.tokens ++ .flowMappingEnd :: rest) rest fun ms inner =>
        Kept 0 (nodes.push ⟨.map, .mapping []⟩) inner ∧ fields.At inner nodes.size ms) :
    Reads P (node block false (fuel + 2)) nodes ((Phrase.object fields).tokens ++ rest) rest
      (Added (.object fields) nodes) := by
  obtain ⟨t, ts, heq, ht⟩ := fields.tokens_eq_cons
  rw [heq] at h
  rw [Phrase.tokens, heq, List.cons_append, List.append_assoc]
  refine (Yaml.Graph.reads_mapping block (Yaml.Graph.reads_members_first ht h)).imp ?_
  rintro _ _ ⟨rfl, ms, inner, ⟨hkept, hms⟩, rfl⟩
  exact added_object hkept hms

/-- An item, with what is read behind it. -/
theorem reads_more {item : Phrase} {rest' : List Token} {P P' : Prop}
    {Q : List Nat → Graph → Prop}
    (h : Reads P (node false false fuel) nodes (item.tokens ++ rest') rest' (Added item nodes))
    (h' : ∀ i inner, Added item nodes i inner →
      Reads P' (flowItems false fuel) inner rest' rest
        fun is nodes' => Q (i :: is) nodes') :
    Reads (P ∧ P') (flowItem (fuel + 1)) nodes (item.tokens ++ rest') rest Q := by
  obtain ⟨t, ts, heq, ht⟩ := item.tokens_eq_cons
  rw [heq] at h ⊢
  exact Yaml.Graph.reads_item ht h h'

/-- A member, with what is read behind it. A name that does not fit is the end of the reading. -/
theorem reads_named {name : Name} {item : Phrase} {rest' : List Token} {P P' : Prop}
    {Q : List (Nat × Nat) → Graph → Prop}
    (h : Reads P (node false false (fuel + 1)) (nodes.push (stringNode name.letters))
      (item.tokens ++ rest') rest' (Added item (nodes.push (stringNode name.letters))))
    (h' : ∀ i inner, Added item (nodes.push (stringNode name.letters)) i inner →
      Reads P' (flowMembers false (fuel + 1)) inner rest' rest
        fun ms nodes' => Q ((nodes.size, i) :: ms) nodes') :
    Reads (name.Fits ∧ P ∧ P') (flowMember (fuel + 2)) nodes
      (name.tokens ++ (item.tokens ++ rest')) rest Q := by
  by_cases hfits : name.Fits
  · have htokens : name.tokens = [.key, stringToken name.letters, .value] := if_pos hfits
    obtain ⟨t, ts, heq, ht⟩ := item.tokens_eq_cons
    rw [heq] at h
    rw [htokens, heq]
    exact (Yaml.Graph.reads_member ht h h').congr (and_iff_right hfits)
  · have htokens : name.tokens = [stringToken name.letters, .value] := if_neg hfits
    rw [htokens]
    exact Yaml.Graph.reads_unsigned.congr (iff_false_intro fun hall => hfits hall.1)

/-- The name of a member is there when its value has been read. -/
theorem Added.name {name : Name} {item : Phrase} {i base : Nat} {inner : Graph}
    (h : Added item (nodes.push (stringNode name.letters)) i inner) (hbase : base < nodes.size) :
    Kept 0 nodes inner ∧ inner[nodes.size]? = some (stringNode name.letters) ∧ base < i :=
  ⟨(Yaml.Graph.kept_push 0 nodes _).trans h.kept,
    h.kept _ _ (Nat.zero_le _) Array.getElem?_push_size,
    h.number ▸ Nat.lt_trans hbase (lt_size_push _)⟩

mutual

/-- The tokens of a value are read as its nodes if they fit, and refused otherwise. Each token takes
two rounds at most, which bounds the fuel. -/
theorem Phrase.reads {nodes : Graph} {fuel : Nat} {rest : List Token} (block : Bool) :
    (p : Phrase) → 2 * p.tokens.length ≤ fuel + 2 →
      Reads (p.Obeys fitting) (node block false (fuel + 2)) nodes (p.tokens ++ rest) rest
        (Added p nodes)
  | .null, _ =>
    reads_leaf block rfl fun _ _ h => h.trans (congrArg some (scalarNode_points _))
  | .bool _, _ =>
    reads_leaf block rfl fun _ _ h => h.trans (congrArg some (scalarNode_points _))
  | .number _, _ =>
    reads_leaf block rfl fun _ _ h => h.trans (congrArg some (scalarNode_chars _))
  | .string _, _ => reads_leaf block rfl fun _ _ h => h
  | .emptyList inside, _ => by
    refine (Yaml.Graph.reads_sequence block (Yaml.Graph.reads_items_end true)).imp ?_
    rintro _ _ ⟨rfl, _, _, ⟨rfl, rfl⟩, rfl⟩
    obtain ⟨hkept, _, hn⟩ := Kept.filled (fun _ _ _ h => h) _
    exact ⟨rfl, hkept, hn⟩
  | .list items, hfuel => by
    have hpos := items.length_tokens_pos
    simp only [Phrase.tokens, List.length_cons, List.length_append, List.length_nil] at hfuel
    obtain ⟨fuel, rfl⟩ : ∃ fuel', fuel = fuel' + 3 := ⟨fuel - 3, by omega⟩
    exact reads_list block (items.reads (lt_size_push _) (by omega))
  | .emptyObject inside, hfuel => by
    refine (Yaml.Graph.reads_mapping block (Yaml.Graph.reads_members_end true)).imp ?_
    rintro _ _ ⟨rfl, _, _, ⟨rfl, rfl⟩, rfl⟩
    obtain ⟨hkept, _, hn⟩ := Kept.filled (fun _ _ _ h => h) _
    exact ⟨rfl, hkept, hn⟩
  | .object fields, hfuel => by
    have hpos := fields.length_tokens_pos
    simp only [Phrase.tokens, List.length_cons, List.length_append, List.length_nil] at hfuel
    obtain ⟨fuel, rfl⟩ : ∃ fuel', fuel = fuel' + 3 := ⟨fuel - 3, by omega⟩
    exact reads_object block (fields.reads (lt_size_push _) (by omega))

/-- So are those of items, up to the closing bracket. -/
theorem Items.reads {nodes : Graph} {fuel base : Nat} {rest : List Token} :
    (items : Items) → base < nodes.size → 2 * items.tokens.length + 1 ≤ fuel + 3 →
      Reads (items.Obeys fitting) (flowItem (fuel + 3)) nodes
        (items.tokens ++ .flowSequenceEnd :: rest) rest
        fun is nodes' => Kept 0 nodes nodes' ∧ items.At nodes' base is
  | .last before item after, hbase, hfuel => by
    have hend (i : Nat) (inner : Graph) (hi : Added item nodes i inner) :
        Reads True (flowItems false (fuel + 2)) inner (.flowSequenceEnd :: rest) rest
          fun is nodes' => Kept 0 nodes nodes' ∧
            (Items.last before item after).At nodes' base (i :: is) := by
      refine (Yaml.Graph.reads_items_end false).imp ?_
      rintro _ _ ⟨rfl, rfl⟩
      exact ⟨hi.kept, i, rfl, hi.number ▸ hbase, hi.at_⟩
    refine (reads_more (item.reads false (Nat.le_of_succ_le_succ hfuel)) hend).congr ?_
    simp only [Items.Obeys, fitting, true_and]
  | .more before item after more, hbase, hfuel => by
    have hpos := item.length_tokens_pos
    have hpos' := more.length_tokens_pos
    simp only [Items.tokens, List.length_append, List.length_cons] at hfuel
    obtain ⟨fuel, rfl⟩ : ∃ fuel', fuel = fuel' + 2 := ⟨fuel - 2, by omega⟩
    have hmore (i : Nat) (inner : Graph) (hi : Added item nodes i inner) :
        Reads (more.Obeys fitting) (flowItems false (fuel + 4)) inner
          (.flowEntry :: (more.tokens ++ .flowSequenceEnd :: rest)) rest
          fun is nodes' => Kept 0 nodes nodes' ∧
            (Items.more before item after more).At nodes' base (i :: is) := by
      have hbase' := Nat.lt_of_lt_of_le hbase hi.kept.size_le
      refine (Yaml.Graph.reads_items_comma (more.reads hbase' (by omega))).imp ?_
      rintro is nodes' ⟨hkept, his⟩
      exact ⟨hi.kept.trans hkept, i, is, rfl, hi.number ▸ hbase,
        Phrase.At.kept (hkept.mono (Nat.zero_le _)) item hi.at_, his⟩
    rw [Items.tokens, List.append_assoc]
    refine (reads_more (item.reads false (by omega)) hmore).congr ?_
    simp only [Items.Obeys, fitting, true_and]

/-- So are those of members, up to the closing brace. -/
theorem Fields.reads {nodes : Graph} {fuel base : Nat} {rest : List Token} :
    (fields : Fields) → base < nodes.size → 2 * fields.tokens.length + 1 ≤ fuel + 3 →
      Reads (fields.Obeys fitting) (flowMember (fuel + 3)) nodes
        (fields.tokens ++ .flowMappingEnd :: rest) rest
        fun ms nodes' => Kept 0 nodes nodes' ∧ fields.At nodes' base ms
  | .last name before item after, hbase, hfuel => by
    simp only [Fields.tokens, List.length_append] at hfuel
    have hend (i : Nat) (inner : Graph)
        (hi : Added item (nodes.push (stringNode name.letters)) i inner) :
        Reads True (flowMembers false (fuel + 2)) inner (.flowMappingEnd :: rest) rest
          fun ms nodes' => Kept 0 nodes nodes' ∧
            (Fields.last name before item after).At nodes' base ((nodes.size, i) :: ms) := by
      refine (Yaml.Graph.reads_members_end false).imp ?_
      rintro _ _ ⟨rfl, rfl⟩
      obtain ⟨hkept, hname, hi'⟩ := hi.name hbase
      exact ⟨hkept, nodes.size, i, rfl, hbase, hname, hi', hi.at_⟩
    rw [Fields.tokens, List.append_assoc]
    refine (reads_named (item.reads false (by omega)) hend).congr ?_
    simp only [Fields.Obeys, fitting, true_and]
  | .more name before item after more, hbase, hfuel => by
    have hpos := item.length_tokens_pos
    have hpos' := more.length_tokens_pos
    simp only [Fields.tokens, List.length_append, List.length_cons] at hfuel
    obtain ⟨fuel, rfl⟩ : ∃ fuel', fuel = fuel' + 2 := ⟨fuel - 2, by omega⟩
    have hmore (i : Nat) (inner : Graph)
        (hi : Added item (nodes.push (stringNode name.letters)) i inner) :
        Reads (more.Obeys fitting) (flowMembers false (fuel + 4)) inner
          (.flowEntry :: (more.tokens ++ .flowMappingEnd :: rest)) rest
          fun ms nodes' => Kept 0 nodes nodes' ∧
            (Fields.more name before item after more).At nodes' base ((nodes.size, i) :: ms) := by
      obtain ⟨hkept, hname, hi'⟩ := hi.name hbase
      have hbase' := Nat.lt_of_lt_of_le hbase hkept.size_le
      refine (Yaml.Graph.reads_members_comma (more.reads hbase' (by omega))).imp ?_
      rintro ms nodes' ⟨hkept', hms⟩
      exact ⟨hkept.trans hkept', nodes.size, i, ms, rfl, hbase,
        hkept' _ _ (Nat.zero_le _) hname, hi',
        Phrase.At.kept (hkept'.mono (Nat.zero_le _)) item hi.at_, hms⟩
    rw [Fields.tokens, List.append_assoc, List.append_assoc, List.cons_append]
    refine (reads_named (item.reads false (by omega)) hmore).congr ?_
    simp only [Fields.Obeys, fitting, true_and]

end

-- ==================================================== texts

/-- The nodes of a phrase are read from its tokens if all names fit, and only then. -/
theorem Phrase.reads_document (p : Phrase) :
    Reads (p.Obeys fitting) (Yaml.Graph.document (Yaml.Graph.fuelFor (p.tokens ++ [.streamEnd])))
      #[] (p.tokens ++ [.streamEnd]) [.streamEnd] fun n? nodes => n? = some 0 ∧ p.At nodes 0 := by
  obtain ⟨t, ts, heq, ht⟩ := p.tokens_eq_cons
  obtain ⟨fuel, hfuel⟩ : ∃ fuel, Yaml.Graph.fuelFor (p.tokens ++ [.streamEnd]) = fuel + 2 :=
    ⟨_, rfl⟩
  have hread : Reads (p.Obeys fitting) (node true false (fuel + 2)) #[]
      (p.tokens ++ [.streamEnd]) [.streamEnd] (Added p #[]) := by
    refine p.reads true ?_
    rw [← hfuel, Yaml.Graph.fuelFor, List.length_append]
    omega
  rw [hfuel]
  rw [heq] at hread ⊢
  refine (Yaml.Graph.reads_document ht hread).imp ?_
  rintro _ nodes ⟨n, rfl, rfl, _, hp⟩
  exact ⟨rfl, hp⟩

/-- Tokens that fit make the graph of the value, from the number zero on. -/
theorem Phrase.ofTokens_of_fitting {p : Phrase} (h : p.Obeys fitting) :
    ∃ nodes, Yaml.Graph.ofTokens (p.tokens ++ [.streamEnd]) = .ok (some 0, nodes) ∧
      p.At nodes 0 := by
  obtain ⟨_, nodes, hrun, rfl, hp⟩ := p.reads_document.succeeds h
  refine ⟨nodes, ?_, hp⟩
  unfold Yaml.Graph.ofTokens StateT.run
  change Yaml.Graph.document _ ⟨_, #[], [], Yaml.Graph.defaultHandles⟩ = _ at hrun
  rw [hrun]
  rfl

/-- Tokens that do not fit are refused. -/
theorem Phrase.not_ofTokens_of_not_fitting {p : Phrase} (h : ¬p.Obeys fitting) :
    ∃ f, Yaml.Graph.ofTokens (p.tokens ++ [.streamEnd]) = .error f := by
  obtain ⟨f, hrun⟩ := p.reads_document.fails h
  refine ⟨f, ?_⟩
  unfold Yaml.Graph.ofTokens StateT.run
  change Yaml.Graph.document _ ⟨_, #[], [], Yaml.Graph.defaultHandles⟩ = _ at hrun
  rw [hrun]
  rfl

end ApiAuthz.Json
