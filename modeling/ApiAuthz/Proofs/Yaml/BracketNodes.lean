/-
Reading nodes in brackets. `Reads` says that a reading passes some tokens under a condition, and
fails otherwise; readings that follow each other are put together like their conditions. The
other lemmas are what the readers do at one token: at the start of a collection, at its items or
members, at the comma behind one and at its end. A scalar in the place of a key with a sign
behind it, but no sign in front, is the one error among them (`reads_unsigned`).

# The state of a reading

A reading has tokens, nodes, anchors and handles. Brackets without anchors and tags change the
first two only, so `Reads` goes from the nodes and tokens before to those behind, with the rest
as it was at the start (`between`). What has been read is a property of a result and a graph,
which is what the next reading starts from (`Reads.bind`).

# Graphs that grow

Nodes are added at the end, and a collection is filled in its place when its items are known.
`Kept n` says that from a number on all nodes are what they were. Everything keeps the nodes that
were there before it began (`kept_push`), and filling a collection keeps all but that one
(`Kept.filled`), whose number is smaller than those of its items.
-/
import ApiAuthz.Proofs.Yaml.Reading

namespace ApiAuthz.Yaml.Graph

-- ==================================================== readings

/-- A reading between two tokens, without anchors and handles of its own. -/
def between (nodes : Graph) (ts : List Token) : Reading := ⟨ts, nodes, [], defaultHandles⟩

variable {α β : Type} {P P' : Prop} {nodes nodes' nodes'' : Graph} {ts rest rest' : List Token}

/-- Under the condition the reading succeeds with such a result and leaves the rest of the
tokens, and otherwise it fails. -/
structure Reads (P : Prop) (x : Read α) (nodes : Graph) (ts rest : List Token)
    (Q : α → Graph → Prop) : Prop where
  succeeds : P → ∃ a nodes', x (between nodes ts) = .ok (a, between nodes' rest) ∧ Q a nodes'
  fails : ¬P → ∃ f, x (between nodes ts) = .error f

variable {x y : Read α} {k : α → Read β} {Q : α → Graph → Prop} {Q' : β → Graph → Prop}

/-- What two steps ask of the tokens is asked of both. -/
theorem Reads.bind (h : Reads P x nodes ts rest Q)
    (h' : ∀ a nodes', Q a nodes' → Reads P' (k a) nodes' rest rest' Q') :
    Reads (P ∧ P') (x >>= k) nodes ts rest' Q' := by
  constructor
  · rintro ⟨hP, hP'⟩
    obtain ⟨a, nodes', hx, hQ⟩ := h.succeeds hP
    rw [run_bind, hx]
    exact (h' a nodes' hQ).succeeds hP'
  · intro hnot
    rw [run_bind]
    by_cases hP : P
    · obtain ⟨a, nodes', hx, hQ⟩ := h.succeeds hP
      rw [hx]
      exact (h' a nodes' hQ).fails fun hP' => hnot ⟨hP, hP'⟩
    · obtain ⟨f, hx⟩ := h.fails hP
      exact ⟨f, by rw [hx]⟩

/-- A reading that comes to a result without a condition. -/
theorem Reads.of_ok {a : α} (h : x (between nodes ts) = .ok (a, between nodes' rest))
    (hQ : Q a nodes') : Reads True x nodes ts rest Q :=
  ⟨fun _ => ⟨a, nodes', h, hQ⟩, fun hnot => absurd trivial hnot⟩

/-- Nothing is read and nothing is asked. -/
theorem Reads.pure_of {a : α} (hQ : Q a nodes) : Reads True (pure a) nodes ts ts Q :=
  .of_ok rfl hQ

/-- A reading that goes on like another one from other tokens. -/
theorem Reads.of_eq {ts' : List Token} (h : Reads P y nodes' ts' rest Q)
    (heq : x (between nodes ts) = y (between nodes' ts')) : Reads P x nodes ts rest Q :=
  ⟨fun hP => by rw [heq]; exact h.succeeds hP, fun hP => by rw [heq]; exact h.fails hP⟩

/-- What is asked may be said otherwise. -/
theorem Reads.congr (h : Reads P x nodes ts rest Q) (hP : P' ↔ P) :
    Reads P' x nodes ts rest Q :=
  ⟨fun hP' => h.succeeds (hP.1 hP'), fun hP' => h.fails (mt hP.2 hP')⟩

/-- What comes of it may be less. -/
theorem Reads.imp {Q' : α → Graph → Prop} (h : Reads P x nodes ts rest Q)
    (hQ : ∀ a nodes', Q a nodes' → Q' a nodes') : Reads P x nodes ts rest Q' := by
  refine ⟨fun hP => ?_, h.fails⟩
  obtain ⟨a, nodes', hx, ha⟩ := h.succeeds hP
  exact ⟨a, nodes', hx, hQ a nodes' ha⟩

-- ==================================================== nodes that stay

/-- Nodes from this number on are the same in the other graph. -/
def Kept (n : Nat) (nodes nodes' : Graph) : Prop :=
  ∀ i x, n ≤ i → nodes[i]? = some x → nodes'[i]? = some x

/-- What is kept twice is kept. -/
theorem Kept.trans {n : Nat} (h : Kept n nodes nodes') (h' : Kept n nodes' nodes'') :
    Kept n nodes nodes'' := fun i x hi hx => h' i x hi (h i x hi hx)

theorem Kept.mono {n m : Nat} (h : Kept n nodes nodes') (hle : n ≤ m) : Kept m nodes nodes' :=
  fun i x hi => h i x (Nat.le_trans hle hi)

/-- A node that is added keeps those that are there. -/
theorem kept_push (n : Nat) (nodes : Graph) (x : Node) : Kept n nodes (nodes.push x) := by
  intro i y _ hy
  obtain ⟨hlt, _⟩ := Array.getElem?_eq_some_iff.1 hy
  rw [Array.getElem?_push_lt hlt]
  exact hy ▸ (Array.getElem?_eq_getElem hlt).symm

theorem Kept.size_le (h : Kept 0 nodes nodes') : nodes.size ≤ nodes'.size := by
  refine Nat.le_of_not_lt fun hlast => ?_
  have hkept := h nodes'.size _ (Nat.zero_le _) (Array.getElem?_eq_getElem hlast)
  obtain ⟨hself, _⟩ := Array.getElem?_eq_some_iff.1 hkept
  exact Nat.lt_irrefl _ hself

-- ==================================================== nodes

variable {fuel : Nat} {t : Token}

/-- The first token of a node without properties. -/
inductive StartsNode : Token → Prop
  | scalar (text : List CodePoint) (plain : Bool) : StartsNode (.scalar text plain)
  | sequence : StartsNode .flowSequence
  | mapping : StartsNode .flowMapping

/-- The node of a scalar without properties. -/
def scalarNode (text : List CodePoint) : Bool → Node
  | true => ⟨PlainForm.tagOf (Text.whole text), .scalar text⟩
  | false => ⟨.str, .scalar text⟩

/-- A scalar is read as one node, and asks nothing. -/
theorem reads_scalar (block : Bool) (text : List CodePoint) (plain : Bool) :
    Reads True (node block false (fuel + 1)) nodes (.scalar text plain :: rest) rest
      fun n nodes' => n = nodes.size ∧ nodes' = nodes.push (scalarNode text plain) := by
  cases plain <;> exact .of_ok rfl ⟨rfl, rfl⟩

/-- The collection under a number is filled. -/
def filled (nodes : Graph) (number : Nat) (content : Content) : Graph :=
  nodes.modify number fun n => { n with content }

/-- A collection is begun, what is in it is read, then it is filled. -/
theorem reads_collection {empty : Node} {content : α → Content}
    (h : Reads P x (nodes.push empty) ts rest Q) :
    Reads P (do
        let number ← addNamed none empty
        fill number (content (← x))
        return number) nodes ts rest
      fun n nodes' => n = nodes.size ∧
        ∃ a inner, Q a inner ∧ nodes' = filled inner nodes.size (content a) := by
  have hinside : Reads P (do fill nodes.size (content (← x)); return nodes.size)
      (nodes.push empty) ts rest fun n nodes' => n = nodes.size ∧
        ∃ a inner, Q a inner ∧ nodes' = filled inner nodes.size (content a) := by
    refine (h.bind fun a inner ha => ?_).congr (and_true P).symm.to_iff
    exact .of_ok rfl ⟨rfl, a, inner, ha, rfl⟩
  exact hinside.of_eq rfl

/-- An opening bracket makes a node that is filled when the bracket is closed. -/
theorem reads_sequence {Q : List Nat → Graph → Prop} (block : Bool)
    (h : Reads P (flowItems true fuel) (nodes.push ⟨.seq, .sequence []⟩) ts rest Q) :
    Reads P (node block false (fuel + 1)) nodes (.flowSequence :: ts) rest
      fun n nodes' => n = nodes.size ∧
        ∃ is inner, Q is inner ∧ nodes' = filled inner nodes.size (.sequence is) :=
  (reads_collection h).of_eq rfl

/-- So does an opening brace. -/
theorem reads_mapping {Q : List (Nat × Nat) → Graph → Prop} (block : Bool)
    (h : Reads P (flowMembers true fuel) (nodes.push ⟨.map, .mapping []⟩) ts rest Q) :
    Reads P (node block false (fuel + 1)) nodes (.flowMapping :: ts) rest
      fun n nodes' => n = nodes.size ∧
        ∃ ms inner, Q ms inner ∧ nodes' = filled inner nodes.size (.mapping ms) :=
  (reads_collection h).of_eq rfl

theorem getElem?_filled_of_ne {number i : Nat} {content : Content} (h : i ≠ number) :
    (filled nodes number content)[i]? = nodes[i]? := by
  unfold filled
  rw [Array.getElem?_modify, if_neg (Ne.symm h)]

/-- A collection that is filled is there, behind nodes that stay, in front of those in it. -/
theorem Kept.filled {x : Node} (h : Kept 0 (nodes.push x) nodes') (content : Content) :
    Kept 0 nodes (filled nodes' nodes.size content) ∧
      Kept (nodes.size + 1) nodes' (filled nodes' nodes.size content) ∧
      (Graph.filled nodes' nodes.size content)[nodes.size]? = some { x with content } := by
  refine ⟨fun i y _ hy => ?_, fun i y hi hy => ?_, ?_⟩
  · obtain ⟨hlt, _⟩ := Array.getElem?_eq_some_iff.1 hy
    rw [getElem?_filled_of_ne (Nat.ne_of_lt hlt)]
    exact h i y (Nat.zero_le i) (kept_push 0 nodes x i y (Nat.zero_le i) hy)
  · rwa [getElem?_filled_of_ne (Nat.ne_of_gt hi)]
  · have hx : nodes'[nodes.size]? = some x :=
      h nodes.size x (Nat.zero_le _) Array.getElem?_push_size
    unfold Graph.filled
    rw [Array.getElem?_modify, if_pos rfl, hx]
    rfl

-- ==================================================== items

/-- Nothing stands between the brackets any more. -/
theorem reads_items_end (first : Bool) :
    Reads True (flowItems first (fuel + 1)) nodes (.flowSequenceEnd :: rest) rest
      fun is nodes' => is = [] ∧ nodes' = nodes :=
  .of_ok rfl ⟨rfl, rfl⟩

variable {Q : List Nat → Graph → Prop}

/-- The first item has no comma before it. -/
theorem reads_items_first (ht : StartsNode t) (h : Reads P (flowItem fuel) nodes (t :: ts) rest Q) :
    Reads P (flowItems true (fuel + 1)) nodes (t :: ts) rest Q :=
  h.of_eq (by cases ht <;> rfl)

/-- Every other item has one. -/
theorem reads_items_comma (h : Reads P (flowItem fuel) nodes ts rest Q) :
    Reads P (flowItems false (fuel + 1)) nodes (.flowEntry :: ts) rest Q :=
  h.of_eq rfl

/-- The next item, and the items behind it. -/
theorem reads_item {QNode : Nat → Graph → Prop} (ht : StartsNode t)
    (h : Reads P (node false false fuel) nodes (t :: ts) rest' QNode)
    (h' : ∀ n inner, QNode n inner →
      Reads P' (flowItems false fuel) inner rest' rest fun is nodes' => Q (n :: is) nodes') :
    Reads (P ∧ P') (flowItem (fuel + 1)) nodes (t :: ts) rest Q := by
  have hitems : Reads (P ∧ P') (do
      let n ← node false false fuel
      return n :: (← flowItems false fuel)) nodes (t :: ts) rest Q := by
    refine h.bind fun n inner hn => ?_
    refine ((h' n inner hn).bind fun is nodes' his => ?_).congr (and_true P').symm.to_iff
    exact .pure_of his
  exact hitems.of_eq (by cases ht <;> rfl)

-- ==================================================== members

/-- Nothing stands between the braces any more. -/
theorem reads_members_end (first : Bool) :
    Reads True (flowMembers first (fuel + 1)) nodes (.flowMappingEnd :: rest) rest
      fun ms nodes' => ms = [] ∧ nodes' = nodes :=
  .of_ok rfl ⟨rfl, rfl⟩

/-- The first token of a member whose key is a scalar. -/
inductive StartsMember : Token → Prop
  | key : StartsMember .key
  | scalar (text : List CodePoint) : StartsMember (.scalar text false)

variable {Q : List (Nat × Nat) → Graph → Prop} {text : List CodePoint}

/-- The first member has no comma before it. -/
theorem reads_members_first (ht : StartsMember t)
    (h : Reads P (flowMember fuel) nodes (t :: ts) rest Q) :
    Reads P (flowMembers true (fuel + 1)) nodes (t :: ts) rest Q :=
  h.of_eq (by cases ht <;> rfl)

/-- Every other member has one. -/
theorem reads_members_comma (h : Reads P (flowMember fuel) nodes ts rest Q) :
    Reads P (flowMembers false (fuel + 1)) nodes (.flowEntry :: ts) rest Q :=
  h.of_eq rfl

/-- The next member, and the members behind it. -/
theorem reads_member {QNode : Nat → Graph → Prop} (ht : StartsNode t)
    (h : Reads P (node false false (fuel + 1)) (nodes.push (scalarNode text false)) (t :: ts)
      rest' QNode)
    (h' : ∀ n inner, QNode n inner →
      Reads P' (flowMembers false (fuel + 1)) inner rest' rest
        fun ms nodes' => Q ((nodes.size, n) :: ms) nodes') :
    Reads (P ∧ P') (flowMember (fuel + 2)) nodes
      (.key :: .scalar text false :: .value :: t :: ts) rest Q := by
  have hmembers : Reads (P ∧ P') (do
      let n ← node false false (fuel + 1)
      return (nodes.size, n) :: (← flowMembers false (fuel + 1)))
      (nodes.push (scalarNode text false)) (t :: ts) rest Q := by
    refine h.bind fun n inner hn => ?_
    refine ((h' n inner hn).bind fun ms nodes' hms => ?_).congr (and_true P').symm.to_iff
    exact .pure_of hms
  exact hmembers.of_eq (by cases ht <;> rfl)

/-- A scalar with the sign of a value behind it is no key without the sign of one. -/
theorem reads_unsigned :
    Reads False (flowMember fuel) nodes (.scalar text false :: .value :: ts) rest Q := by
  refine ⟨False.elim, fun _ => ?_⟩
  match fuel with
  | 0 | 1 | _ + 2 => exact ⟨.malformed, rfl⟩

-- ==================================================== documents

/-- A document without a mark of its start, and nothing behind it. -/
theorem reads_document {Q : Nat → Graph → Prop} (ht : StartsNode t)
    (h : Reads P (node true false fuel) nodes (t :: ts) [.streamEnd] Q) :
    Reads P (document fuel) nodes (t :: ts) [.streamEnd]
      fun n? nodes' => ∃ n, n? = some n ∧ Q n nodes' := by
  have honly : Reads P (only (node true false fuel)) nodes (t :: ts) [.streamEnd]
      fun n? nodes' => ∃ n, n? = some n ∧ Q n nodes' := by
    refine (h.bind fun n nodes' hn => ?_).congr (and_true P).symm.to_iff
    exact .of_ok rfl ⟨n, rfl, hn⟩
  exact honly.of_eq (by cases ht <;> rfl)

end ApiAuthz.Yaml.Graph
