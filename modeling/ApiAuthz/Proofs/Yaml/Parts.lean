/-
Building the parts of a tree. In a tree collections hold later nodes only, and keys are texts,
so there is nothing to merge, and nothing stands within itself. What is known of the building
between two nodes is `Sane`: parts that are there are either made of their nodes, or begun and
still to be filled. Every step keeps this, or a scalar of the tree has no value (`Builds`).
A round of filling begins later nodes only, so nothing is left to fill after as many rounds as
there are nodes, and all parts are made (`parts_of_tree`).

# The invariant

A scalar is made when it is met. A collection is begun as an empty part, put on the list of what is
pending, and made when its turn comes; while a round goes on, the collections of that round are on
a list of their own (`todo`). So a part that is there may be one of three things, and `Sane` says
which numbers are in which state. It also says that the nodes do not change, that all that was
begun belongs to the tree, and that pending numbers are not below a bound.

`Builds` is the invariant for a step: if it succeeds it keeps `Sane`, it takes no part away
(`Grows`), and some property of its result holds; if it fails, a scalar of the tree is unreadable.
Steps are put together by `Builds.bind`. Looking things up changes nothing and has its own lemmas
(`run_nodeAt`, `run_partAt?`, `run_membersAt`).

# Rounds

The bound is the measure. Filling a collection begins nodes that stand behind it, so the pending
numbers of one round are greater than the least one of the round before (`Sane.round`), and once
the bound is the number of nodes there are none (`Sane.pending_eq_nil`). With fuel for as many
rounds as there are nodes the rounds come to an end (`builds_fillAll`).
-/
import ApiAuthz.Yaml.Part

namespace ApiAuthz.Yaml

-- ==================================================== trees

/-- The text of a node that is a scalar. -/
def Graph.scalarText (nodes : Graph) (n : Nat) : List CodePoint :=
  match nodes[n]? with
  | some ⟨_, .scalar text⟩ => text
  | _ => []

/-- The members have texts for keys, and their nodes are among these, from a number on. -/
def MembersIn (nodes : Graph) (R : Nat → Prop) (lo : Nat) (ms : List (Nat × Nat)) : Prop :=
  ∀ m ∈ ms, (lo ≤ m.1 ∧ R m.1 ∧ lo ≤ m.2 ∧ R m.2) ∧
    ∃ text, nodes[m.1]? = some ⟨.str, .scalar text⟩

/-- What a node of a tree is, given the numbers of all nodes of the tree. -/
inductive TreeNode (nodes : Graph) (R : Nat → Prop) (n : Nat) : Node → Prop
  | scalar {tag : Tag} {text : List CodePoint} (value : tag.isScalar = true) :
      TreeNode nodes R n ⟨tag, .scalar text⟩
  | sequence {is : List Nat} (items : ∀ i ∈ is, n + 1 ≤ i ∧ R i) :
      TreeNode nodes R n ⟨.seq, .sequence is⟩
  | mapping {ms : List (Nat × Nat)} (members : MembersIn nodes R (n + 1) ms) :
      TreeNode nodes R n ⟨.map, .mapping ms⟩

/-- These nodes are a tree, or several. -/
def IsTree (nodes : Graph) (R : Nat → Prop) : Prop :=
  ∀ n, R n → ∃ x, nodes[n]? = some x ∧ TreeNode nodes R n x

/-- A scalar among these nodes has no value. -/
def Unreadable (nodes : Graph) (R : Nat → Prop) : Prop :=
  ∃ n tag text f, R n ∧ nodes[n]? = some ⟨tag, .scalar text⟩ ∧
    ScalarValue.ofTag (n + 1) tag text = .error f

/-- A member with its key. -/
def Graph.entry (nodes : Graph) (m : Nat × Nat) : Scalar Broken × Nat :=
  (.ofPoints (nodes.scalarText m.1), m.2)

/-- The part of this number is there. -/
def HasPart (parts : Array (Option Part)) (n : Nat) : Prop := ∃ p, parts[n]? = some (some p)

/-- What is made of a node, the parts of the later nodes in it being there. -/
inductive Made (nodes : Graph) (there : Nat → Prop) (n : Nat) : Node → Part → Prop
  | scalar {tag : Tag} {text : List CodePoint} {s : Scalar Broken}
      (value : ScalarValue.ofTag (n + 1) tag text = .ok s) :
      Made nodes there n ⟨tag, .scalar text⟩ (.scalar s)
  | sequence {is : List Nat} (items : ∀ i ∈ is, n < i ∧ there i) :
      Made nodes there n ⟨.seq, .sequence is⟩ (.list is)
  | mapping {ms : List (Nat × Nat)} (members : ∀ m ∈ ms, n < m.2 ∧ there m.2) :
      Made nodes there n ⟨.map, .mapping ms⟩
        (.map (Members.ofEntries (ms.map nodes.entry)))

/-- A part is made from parts that are there; more may be. -/
theorem Made.imp {nodes : Graph} {there there' : Nat → Prop} {n : Nat} {x : Node} {p : Part}
    (h : Made nodes there n x p) (hthere : ∀ i, there i → there' i) :
    Made nodes there' n x p := by
  cases h with
  | scalar value => exact .scalar value
  | sequence items => exact .sequence fun i hi => (items i hi).imp_right (hthere i)
  | mapping members => exact .mapping fun m hm => (members m hm).imp_right (hthere m.2)

namespace Build

variable {α β : Type} {nodes : Graph} {R : Nat → Prop} {lo n : Nat} {todo : List Nat}
  {b b' : Building}

theorem run_bind (x : Build α) (k : α → Build β) (b : Building) :
    (x >>= k) b = match x b with
      | .ok (a, b') => k a b'
      | .error f => .error f := by
  show (x b >>= fun p => k p.1 p.2) = _
  cases x b <;> rfl

theorem run_bind_of_ok {x : Build α} {a : α} {b b' : Building} (h : x b = .ok (a, b'))
    (k : α → Build β) : (x >>= k) b = k a b' := by
  rw [run_bind, h]

-- ==================================================== what stays

/-- The part of a node has been made. -/
def Has (b : Building) (n : Nat) : Prop := HasPart b.parts n

/-- What is known between two steps: these numbers and the pending ones are begun, all other
parts are made. Pending numbers are not below `lo`. -/
structure Sane (nodes : Graph) (R : Nat → Prop) (lo : Nat) (todo : List Nat) (b : Building) :
    Prop where
  nodes_eq : b.nodes = nodes
  size_eq : b.parts.size = nodes.size
  merges_ne : b.merges ≠ 0
  made : ∀ n p, b.parts[n]? = some (some p) →
    n ∈ todo ∨ n ∈ b.pending ∨ ∃ x, nodes[n]? = some x ∧ Made nodes (Has b) n x p
  begun : ∀ n, n ∈ todo ∨ n ∈ b.pending → R n ∧ Has b n ∧
    ∀ tag text, nodes[n]? ≠ some ⟨tag, .scalar text⟩
  pending_ge : ∀ n ∈ b.pending, lo ≤ n

/-- No part is taken away. -/
def Grows (b b' : Building) : Prop := ∀ n, Has b n → Has b' n

theorem Grows.refl (b : Building) : Grows b b := fun _ => id

/-- The step keeps what is known and takes no part away, or a scalar has no value. -/
def Builds (nodes : Graph) (R : Nat → Prop) (lo : Nat) (x : Build α) (b : Building)
    (todo : List Nat) (Q : α → Building → Prop) : Prop :=
  match x b with
  | .ok (a, b') => Sane nodes R lo todo b' ∧ Grows b b' ∧ Q a b'
  | .error _ => Unreadable nodes R

/-- Two constructions, the second one from what the first one leaves. -/
theorem Builds.bind {x : Build α} {k : α → Build β} {lo' : Nat} {todo' : List Nat}
    {Q : α → Building → Prop} {Q' : β → Building → Prop} (h : Builds nodes R lo x b todo Q)
    (h' : ∀ a b', Sane nodes R lo todo b' → Grows b b' → Q a b' →
      Builds nodes R lo' (k a) b' todo' Q') : Builds nodes R lo' (x >>= k) b todo' Q' := by
  unfold Builds at h ⊢
  rw [run_bind]
  cases hx : x b with
  | error f =>
      rw [hx] at h
      exact h
  | ok r =>
      obtain ⟨a, b'⟩ := r
      rw [hx] at h
      obtain ⟨hsane, hgrows, hQ⟩ := h
      have hnext := h' a b' hsane hgrows hQ
      unfold Builds at hnext
      dsimp only
      cases hk : k a b' with
      | error f =>
          rw [hk] at hnext
          exact hnext
      | ok r =>
          obtain ⟨c, b''⟩ := r
          rw [hk] at hnext
          exact ⟨hnext.1, fun n hn => hnext.2.1 n (hgrows n hn), hnext.2.2⟩

/-- A construction with a known end. -/
theorem Builds.of_ok {x : Build α} {a : α} {Q : α → Building → Prop} (hx : x b = .ok (a, b'))
    (h : Sane nodes R lo todo b') (hgrows : Grows b b') (hQ : Q a b') :
    Builds nodes R lo x b todo Q := by
  unfold Builds
  rw [hx]
  exact ⟨h, hgrows, hQ⟩

/-- What comes of a construction may be said with less. -/
theorem Builds.imp {x : Build α} {Q Q' : α → Building → Prop} (h : Builds nodes R lo x b todo Q)
    (hQ : ∀ a b', Grows b b' → Q a b' → Q' a b') : Builds nodes R lo x b todo Q' := by
  unfold Builds at h ⊢
  cases hx : x b with
  | error f =>
      rw [hx] at h
      exact h
  | ok r =>
      rw [hx] at h
      exact ⟨h.1, h.2.1, hQ _ _ h.2.1 h.2.2⟩

/-- A first construction with a known end. -/
theorem Builds.bind_of_ok {x : Build α} {k : α → Build β} {a : α} {Q : β → Building → Prop}
    (hx : x b = .ok (a, b')) (hgrows : Grows b b') (h : Builds nodes R lo (k a) b' todo Q) :
    Builds nodes R lo (x >>= k) b todo Q := by
  unfold Builds at h ⊢
  rw [run_bind, hx]
  dsimp only
  cases hk : k a b' with
  | error f =>
      rw [hk] at h
      exact h
  | ok r =>
      rw [hk] at h
      exact ⟨h.1, fun n hn => h.2.1 n (hgrows n hn), h.2.2⟩

/-- A step that only looks at the building. -/
theorem Builds.bind_of_read {x : Build α} {k : α → Build β} {a : α} {Q : β → Building → Prop}
    (hx : x b = .ok (a, b)) (h : Builds nodes R lo (k a) b todo Q) :
    Builds nodes R lo (x >>= k) b todo Q := .bind_of_ok hx (.refl b) h

-- ==================================================== setting parts

/-- The building with this part in the place of its number. -/
def withPart (b : Building) (n : Nat) (p : Part) : Building :=
  { b with parts := b.parts.setIfInBounds n (some p) }

/-- Other parts stay when one is put in its place. -/
theorem getElem?_withPart_of_ne {m : Nat} (p : Part) (h : m ≠ n) :
    (withPart b n p).parts[m]? = b.parts[m]? := by
  show (b.parts.setIfInBounds n (some p))[m]? = _
  rw [Array.getElem?_setIfInBounds_ne (Ne.symm h)]

/-- The part that is found is the one that was put. -/
theorem getElem?_withPart_self {p q : Part} (h : (withPart b n p).parts[n]? = some (some q)) :
    q = p := by
  change (b.parts.setIfInBounds n (some p))[n]? = some (some q) at h
  rw [Array.getElem?_setIfInBounds_self] at h
  split at h
  · exact (Option.some.inj (Option.some.inj h)).symm
  · cases h

theorem has_withPart_self (p : Part) (h : n < b.parts.size) : Has (withPart b n p) n :=
  ⟨p, by
    show (b.parts.setIfInBounds n (some p))[n]? = _
    rw [Array.getElem?_setIfInBounds_self, if_pos h]⟩

/-- What has been made stays made. -/
theorem Has.withPart {m : Nat} (h : Has b m) (n : Nat) (p : Part) : Has (withPart b n p) m := by
  by_cases hm : m = n
  · subst hm
    obtain ⟨q, hq⟩ := h
    exact has_withPart_self p (Array.getElem?_eq_some_iff.1 hq).1
  · obtain ⟨q, hq⟩ := h
    exact ⟨q, (getElem?_withPart_of_ne p hm).trans hq⟩

/-- What is made of a node may be put in its place; the node need not be filled any more. -/
theorem Sane.withPart {todo' : List Nat} {x : Node} {p : Part} (h : Sane nodes R lo todo b)
    (hsub : ∀ m ∈ todo', m ∈ todo) (hdone : ∀ m ∈ todo, m = n ∨ m ∈ todo')
    (hx : nodes[n]? = some x) (hp : Made nodes (Has b) n x p) :
    Sane nodes R lo todo' (withPart b n p) where
  nodes_eq := h.nodes_eq
  size_eq := (Array.size_setIfInBounds ..).trans h.size_eq
  merges_ne := h.merges_ne
  made := by
    intro m q hq
    by_cases hm : m = n
    · subst hm
      rw [getElem?_withPart_self hq]
      exact Or.inr (Or.inr ⟨x, hx, hp.imp fun i hi => hi.withPart m p⟩)
    · rw [getElem?_withPart_of_ne p hm] at hq
      rcases h.made m q hq with hmem | hmem | ⟨y, hy, hmade⟩
      · exact Or.inl ((hdone m hmem).resolve_left hm)
      · exact Or.inr (Or.inl hmem)
      · exact Or.inr (Or.inr ⟨y, hy, hmade.imp fun i hi => hi.withPart n p⟩)
  begun := by
    intro m hm
    obtain ⟨hR, hhas, hcollection⟩ := h.begun m (hm.imp_left (hsub m))
    exact ⟨hR, hhas.withPart n p, hcollection⟩
  pending_ge := h.pending_ge

-- ==================================================== beginning parts

/-- No part is found where none was made. -/
theorem run_partAt?_of_not_has (h : ¬Has b n) : partAt? n b = .ok (none, b) := by
  show Except.ok ((b.parts[n]?).join, b) = _
  cases hp : b.parts[n]? with
  | none => rfl
  | some q =>
      cases q with
      | none => rfl
      | some p => exact absurd ⟨p, hp⟩ h

/-- A part that was made is found. -/
theorem run_partAt? {p : Part} (h : b.parts[n]? = some (some p)) :
    partAt? n b = .ok (some p, b) := by
  show Except.ok ((b.parts[n]?).join, b) = _
  rw [h]
  rfl

/-- A node of the graph is found. -/
theorem run_nodeAt {x : Node} (h : b.nodes[n]? = some x) : nodeAt n b = .ok (x, b) := by
  show Except.ok ((b.nodes[n]?).getD default, b) = _
  rw [h]
  rfl

theorem run_tagAt {x : Node} (h : b.nodes[n]? = some x) : tagAt n b = .ok (x.tag, b) := by
  unfold tagAt
  rw [run_bind, run_nodeAt h]
  rfl

/-- What has been made is not begun again. -/
theorem run_begin_of_has (h : Has b n) : begin n b = .ok ((), b) := by
  obtain ⟨p, hp⟩ := h
  unfold Build.begin
  rw [run_bind, run_partAt? hp]
  rfl

/-- A node is begun as an empty collection that is filled later, or made at once. -/
theorem run_begin {x : Node} (h : ¬Has b n) (hx : b.nodes[n]? = some x) :
    begin n b = (match x.tag.emptyPart? with
      | some p => do
        setPart n p
        modify fun b => { b with pending := n :: b.pending }
      | none =>
        if x.tag.isScalar then do setPart n (.scalar (← scalarAt n x.tag))
        else throw .malformed : Build Unit) b := by
  unfold Build.begin
  rw [run_bind_of_ok (run_partAt?_of_not_has h), Option.isSome_none, if_neg Bool.false_ne_true]
  exact run_bind_of_ok (run_tagAt hx) _

/-- The value of a scalar is what its tag makes of its text. -/
theorem run_scalarAt {tag : Tag} {text : List CodePoint}
    (h : b.nodes[n]? = some ⟨tag, .scalar text⟩) :
    scalarAt n tag b = match ScalarValue.ofTag (n + 1) tag text with
      | .ok s => .ok (s, b)
      | .error f => .error f := by
  have htext : textAt (b.nodes.size + 1) n b = .ok (text, b) := by
    unfold textAt
    rw [run_bind, run_nodeAt h]
    rfl
  have hwritten : isWrittenScalar n b = .ok (true, b) := by
    unfold isWrittenScalar
    rw [run_bind, run_nodeAt h]
    rfl
  unfold scalarAt
  rw [run_bind]
  show (textAt (b.nodes.size + 1) n >>= _) b = _
  rw [run_bind, htext]
  dsimp only
  rw [run_bind, hwritten]
  dsimp only
  rw [Bool.not_true, Bool.and_false, if_neg Bool.false_ne_true]
  cases ScalarValue.ofTag (n + 1) tag text <;> rfl

theorem emptyPart?_of_isScalar {tag : Tag} (h : tag.isScalar = true) : tag.emptyPart? = none := by
  cases tag <;> first | rfl | cases h

/-- A collection is begun with nothing in it. -/
theorem builds_begin_collection {x : Node} {p : Part} (h : Sane nodes R lo todo b) (hhas : ¬Has b n)
    (hn : R n) (hlo : lo ≤ n) (hx : nodes[n]? = some x) (hp : x.tag.emptyPart? = some p)
    (hcollection : ∀ tag text, x ≠ ⟨tag, .scalar text⟩) :
    Builds nodes R lo (begin n) b todo fun _ b' => Has b' n := by
  have hsize : n < b.parts.size := by
    rw [h.size_eq]
    exact (Array.getElem?_eq_some_iff.1 hx).1
  have hself : Has (withPart b n p) n := has_withPart_self p hsize
  have hbegin : begin n b = .ok ((), { withPart b n p with pending := n :: b.pending }) := by
    rw [run_begin hhas (by rw [h.nodes_eq, hx]), hp]
    rfl
  refine .of_ok hbegin ?_ (fun m hm => hm.withPart n p) hself
  constructor
  · exact h.nodes_eq
  · exact (Array.size_setIfInBounds ..).trans h.size_eq
  · exact h.merges_ne
  · intro m q hq
    by_cases hm : m = n
    · exact Or.inr (Or.inl (List.mem_cons.2 (Or.inl hm)))
    · rcases h.made m q ((getElem?_withPart_of_ne p hm).symm.trans hq) with
        hmem | hmem | ⟨y, hy, hmade⟩
      · exact Or.inl hmem
      · exact Or.inr (Or.inl (List.mem_cons_of_mem _ hmem))
      · exact Or.inr (Or.inr ⟨y, hy, hmade.imp fun i hi => hi.withPart n p⟩)
  · intro m hm
    by_cases heq : m = n
    · subst heq
      refine ⟨hn, hself, fun tag text hscalar => hcollection tag text ?_⟩
      rw [hx] at hscalar
      exact Option.some.inj hscalar
    · obtain ⟨hR, hhas, hnot⟩ :=
        h.begun m (hm.imp_right fun hmem => (List.mem_cons.1 hmem).resolve_left heq)
      exact ⟨hR, hhas.withPart n p, hnot⟩
  · exact List.forall_mem_cons.2 ⟨hlo, h.pending_ge⟩

/-- A scalar is made when it is begun. -/
theorem builds_begin_scalar {tag : Tag} {text : List CodePoint} (h : Sane nodes R lo todo b)
    (hhas : ¬Has b n) (hn : R n) (hx : nodes[n]? = some ⟨tag, .scalar text⟩)
    (htag : tag.isScalar = true) :
    Builds nodes R lo (begin n) b todo fun _ b' => Has b' n := by
  have hsize : n < b.parts.size := by
    rw [h.size_eq]
    exact (Array.getElem?_eq_some_iff.1 hx).1
  have hx' : b.nodes[n]? = some ⟨tag, .scalar text⟩ := by rw [h.nodes_eq, hx]
  have hbegin : begin n b = match ScalarValue.ofTag (n + 1) tag text with
      | .ok s => .ok ((), withPart b n (.scalar s))
      | .error f => .error f := by
    rw [run_begin hhas hx']
    dsimp only
    rw [emptyPart?_of_isScalar htag]
    dsimp only
    rw [if_pos htag, run_bind, run_scalarAt hx']
    cases ScalarValue.ofTag (n + 1) tag text <;> rfl
  cases hs : ScalarValue.ofTag (n + 1) tag text with
  | ok s =>
      rw [hs] at hbegin
      exact .of_ok hbegin (h.withPart (fun _ => id) (fun _ => Or.inr) hx (.scalar hs))
        (fun m hm => hm.withPart n _) (has_withPart_self _ hsize)
  | error f =>
      unfold Builds
      rw [hbegin, hs]
      exact ⟨n, tag, text, f, hn, hx, hs⟩

/-- Afterwards the part is there. -/
theorem builds_begin (htree : IsTree nodes R) (h : Sane nodes R lo todo b) (hn : R n)
    (hlo : lo ≤ n) : Builds nodes R lo (begin n) b todo fun _ b' => Has b' n := by
  by_cases hhas : Has b n
  · exact .of_ok (run_begin_of_has hhas) h (.refl b) hhas
  obtain ⟨x, hx, hshape⟩ := htree n hn
  cases hshape with
  | scalar value => exact builds_begin_scalar h hhas hn hx value
  | sequence items => exact builds_begin_collection h hhas hn hlo hx rfl nofun
  | mapping members => exact builds_begin_collection h hhas hn hlo hx rfl nofun

-- ==================================================== filling collections

/-- Afterwards the parts of all items are there. -/
theorem builds_forM_begin (htree : IsTree nodes R) {is : List Nat} (h : Sane nodes R lo todo b)
    (his : ∀ i ∈ is, lo ≤ i ∧ R i) :
    Builds nodes R lo (is.forM begin) b todo fun _ b' => ∀ i ∈ is, Has b' i := by
  induction is generalizing b with
  | nil => exact .of_ok rfl h (.refl b) nofun
  | cons i is ih =>
      rw [List.forall_mem_cons] at his
      refine (builds_begin htree h his.1.2 his.1.1).bind fun _ b' hsane _ hi => ?_
      exact (ih hsane his.2).imp fun _ b'' hgrows hrest =>
        List.forall_mem_cons.2 ⟨hgrows i hi, hrest⟩

/-- The key of a node that is a text. -/
theorem builds_keyAt (htree : IsTree nodes R) (h : Sane nodes R lo todo b) (hn : R n)
    (hlo : lo ≤ n) {text : List CodePoint} (hx : nodes[n]? = some ⟨.str, .scalar text⟩) :
    Builds nodes R lo (keyAt n) b todo fun key _ => key = .ofPoints (nodes.scalarText n) := by
  refine (builds_begin htree h hn hlo).bind fun _ b' hsane _ ⟨p, hp⟩ => ?_
  refine .bind_of_read (run_partAt? hp) ?_
  have hmade : Made nodes (Has b') n ⟨.str, .scalar text⟩ p := by
    have hnot (hbegun : n ∈ todo ∨ n ∈ b'.pending) : False :=
      (hsane.begun n hbegun).2.2 .str text hx
    obtain hbegun | hbegun | ⟨x, hx', hmade⟩ := hsane.made n p hp
    · exact (hnot (Or.inl hbegun)).elim
    · exact (hnot (Or.inr hbegun)).elim
    · rw [hx] at hx'
      exact Option.some.inj hx' ▸ hmade
  cases hmade with
  | scalar value =>
      cases value
      refine .of_ok rfl hsane (.refl b') ?_
      unfold Graph.scalarText
      rw [hx]

/-- A key that is a text stays one. -/
theorem run_keepAsText {text : List CodePoint} (hx : b.nodes[n]? = some ⟨.str, .scalar text⟩) :
    keepAsText n b = .ok ((), b) := by
  have hsame : (b.nodes.modify n fun x => if x.tag = .value then { x with tag := .str } else x) =
      b.nodes := by
    refine Array.ext_getElem? fun i => ?_
    rw [Array.getElem?_modify]
    split
    · next heq =>
      subst heq
      rw [hx]
      rfl
    · rfl
  show Except.ok ((), { b with nodes := b.nodes.modify n _ }) = _
  rw [hsame]

theorem run_forM_keepAsText {ms : List (Nat × Nat)}
    (h : ∀ m ∈ ms, ∃ text, b.nodes[m.1]? = some ⟨.str, .scalar text⟩) :
    (ms.forM fun m => keepAsText m.1) b = .ok ((), b) := by
  induction ms with
  | nil => rfl
  | cons m ms ih =>
      rw [List.forall_mem_cons] at h
      obtain ⟨text, hx⟩ := h.1
      show (keepAsText m.1 >>= fun _ => ms.forM fun m => keepAsText m.1) b = _
      rw [run_bind, run_keepAsText hx]
      exact ih h.2

/-- Among keys that are texts there is no merge. -/
theorem firstMerge?_eq_none {ms : List (Nat × Nat)}
    (h : ∀ m ∈ ms, ∃ text, nodes[m.1]? = some ⟨.str, .scalar text⟩) :
    firstMerge? nodes ms = none := by
  induction ms with
  | nil => rfl
  | cons m ms ih =>
      rw [List.forall_mem_cons] at h
      obtain ⟨text, hx⟩ := h.1
      unfold firstMerge?
      rw [hx, ih h.2]
      rfl

/-- The members of a mapping are found. -/
theorem run_membersAt? {tag : Tag} {ms : List (Nat × Nat)}
    (hx : b.nodes[n]? = some ⟨tag, .mapping ms⟩) : membersAt? n b = .ok (some ms, b) := by
  unfold membersAt?
  rw [run_bind, run_nodeAt hx]
  rfl

theorem run_membersAt {tag : Tag} {ms : List (Nat × Nat)}
    (hx : b.nodes[n]? = some ⟨tag, .mapping ms⟩) : membersAt n b = .ok (ms, b) := by
  unfold membersAt
  rw [run_bind, run_membersAt? hx]
  rfl

/-- Where all keys are texts there is nothing to merge. -/
theorem run_flatten {fuel : Nat} {ms : List (Nat × Nat)} (hfuel : fuel ≠ 0)
    (hx : b.nodes[n]? = some ⟨.map, .mapping ms⟩)
    (h : ∀ m ∈ ms, ∃ text, b.nodes[m.1]? = some ⟨.str, .scalar text⟩) :
    flatten fuel n b = .ok ((), b) := by
  obtain ⟨fuel, rfl⟩ := Nat.exists_eq_succ_of_ne_zero hfuel
  unfold flatten
  have hget : (get : Build Building) b = .ok (b, b) := rfl
  rw [run_bind_of_ok (run_membersAt hx), run_bind_of_ok hget, firstMerge?_eq_none h]
  exact run_forM_keepAsText h

/-- Afterwards the parts of all values are there. -/
theorem builds_entries (htree : IsTree nodes R) {ms : List (Nat × Nat)}
    (h : Sane nodes R lo todo b) (hms : MembersIn nodes R lo ms) :
    Builds nodes R lo (ms.mapM fun m => do
        let key ← keyAt m.1
        begin m.2
        return (key, m.2)) b todo fun entries b' =>
      entries = ms.map nodes.entry ∧ ∀ m ∈ ms, Has b' m.2 := by
  induction ms generalizing b with
  | nil => exact .of_ok rfl h (.refl b) ⟨rfl, nofun⟩
  | cons m ms ih =>
      unfold MembersIn at hms
      rw [List.forall_mem_cons] at hms
      obtain ⟨⟨⟨hlo, hR, hlo', hR'⟩, text, hx⟩, hms⟩ := hms
      have hentry : Builds nodes R lo (do
          let key ← keyAt m.1
          begin m.2
          return (key, m.2)) b todo fun e b' => e = nodes.entry m ∧ Has b' m.2 := by
        refine (builds_keyAt htree h hR hlo hx).bind fun _ b₁ h₁ _ hkey => ?_
        refine (builds_begin htree h₁ hR' hlo').bind fun _ b₂ h₂ _ hvalue => ?_
        exact .of_ok rfl h₂ (.refl b₂) ⟨by rw [hkey]; rfl, hvalue⟩
      rw [List.mapM_cons]
      refine hentry.bind ?_
      rintro _ b₁ h₁ _ ⟨rfl, hvalue⟩
      refine (ih h₁ hms).bind fun _ b₂ h₂ hgrows hrest => ?_
      refine .of_ok rfl h₂ (.refl b₂) ⟨by rw [hrest.1]; rfl, ?_⟩
      exact List.forall_mem_cons.2 ⟨hgrows _ hvalue, hrest.2⟩

/-- The members of a mapping are made, and their entries are those of the node. -/
theorem builds_entriesAt (htree : IsTree nodes R) {ms : List (Nat × Nat)}
    (h : Sane nodes R lo todo b) (hx : nodes[n]? = some ⟨.map, .mapping ms⟩)
    (hms : MembersIn nodes R lo ms) :
    Builds nodes R lo (entriesAt n) b todo fun entries b' =>
      entries = Members.ofEntries (ms.map nodes.entry) ∧ ∀ m ∈ ms, Has b' m.2 := by
  have hx' : b.nodes[n]? = some ⟨.map, .mapping ms⟩ := by rw [h.nodes_eq, hx]
  have hkeys : ∀ m ∈ ms, ∃ text, b.nodes[m.1]? = some ⟨.str, .scalar text⟩ := by
    rw [h.nodes_eq]
    exact fun m hm => (hms m hm).2
  unfold entriesAt
  refine .bind_of_read (run_membersAt? hx') ?_
  refine .bind_of_read (a := b) rfl ?_
  refine .bind_of_read (run_flatten h.merges_ne hx' hkeys) ?_
  refine .bind_of_read (run_membersAt hx') ?_
  refine (builds_entries htree h hms).bind fun _ b' h' _ hentries => ?_
  exact .of_ok rfl h' (.refl b') ⟨by rw [hentries.1], hentries.2⟩

/-- A collection that was to be filled is made. -/
theorem builds_fill (htree : IsTree nodes R) (h : Sane nodes R lo (n :: todo) b)
    (hlo : lo ≤ n + 1) : Builds nodes R lo (fill n) b todo fun _ _ => True := by
  obtain ⟨hR, hhas, hcollection⟩ := h.begun n (Or.inl (List.mem_cons_self ..))
  obtain ⟨x, hx, hshape⟩ := htree n hR
  have hx' : b.nodes[n]? = some x := by rw [h.nodes_eq, hx]
  have hsub : ∀ m ∈ todo, m ∈ n :: todo := fun m hm => List.mem_cons_of_mem _ hm
  have hdone : ∀ m ∈ n :: todo, m = n ∨ m ∈ todo := fun m hm => List.mem_cons.1 hm
  unfold fill
  refine .bind_of_read (run_tagAt hx') ?_
  cases hshape with
  | scalar value => exact absurd hx (hcollection _ _)
  | @sequence is items =>
      have hitems : itemsAt n b = .ok (is, b) := by
        unfold itemsAt
        rw [run_bind, run_nodeAt hx']
        rfl
      refine .bind_of_read hitems ?_
      refine (builds_forM_begin htree h fun i hi =>
        ⟨Nat.le_trans hlo (items i hi).1, (items i hi).2⟩).bind fun _ b' h' _ hthere => ?_
      have hmade : Made nodes (Has b') n ⟨.seq, .sequence is⟩ (.list is) :=
        .sequence fun i hi => ⟨(items i hi).1, hthere i hi⟩
      exact .of_ok rfl (h'.withPart hsub hdone hx hmade)
        (fun m hm => hm.withPart n _) trivial
  | @mapping ms members =>
      refine (builds_entriesAt htree h hx fun m hm => ?_).bind ?_
      · obtain ⟨⟨hk, hRk, hv, hRv⟩, htext⟩ := members m hm
        exact ⟨⟨Nat.le_trans hlo hk, hRk, Nat.le_trans hlo hv, hRv⟩, htext⟩
      · rintro _ b' h' _ ⟨rfl, hthere⟩
        have hmade : Made nodes (Has b') n ⟨.map, .mapping ms⟩
            (.map (Members.ofEntries (ms.map nodes.entry))) :=
          .mapping fun m hm => ⟨(members m hm).1.2.2.1, hthere m hm⟩
        exact .of_ok rfl (h'.withPart hsub hdone hx hmade)
          (fun m hm => hm.withPart n _) trivial

/-- Collections are filled one after another. -/
theorem builds_forM_fill (htree : IsTree nodes R) {ns : List Nat} (h : Sane nodes R lo ns b)
    (hlo : ∀ n ∈ ns, lo ≤ n + 1) :
    Builds nodes R lo (ns.forM fill) b [] fun _ _ => True := by
  induction ns generalizing b with
  | nil => exact .of_ok rfl h (.refl b) trivial
  | cons n ns ih =>
      rw [List.forall_mem_cons] at hlo
      exact (builds_fill htree h hlo.1).bind fun _ b' h' _ _ => ih h' hlo.2

/-- A round fills what is pending, and what is pending then are later nodes. -/
theorem Sane.round (h : Sane nodes R lo [] b) :
    Sane nodes R (lo + 1) b.pending.reverse { b with pending := [] } where
  nodes_eq := h.nodes_eq
  size_eq := h.size_eq
  merges_ne := h.merges_ne
  made := by
    intro n p hp
    rcases h.made n p hp with hmem | hmem | hmade
    · cases hmem
    · exact Or.inl (List.mem_reverse.2 hmem)
    · exact Or.inr (Or.inr hmade)
  begun := by
    rintro n (hmem | hmem)
    · exact h.begun n (Or.inr (List.mem_reverse.1 hmem))
    · cases hmem
  pending_ge := nofun

/-- In the end no collection is left to fill. -/
theorem Sane.pending_eq_nil (h : Sane nodes R lo [] b) (hlo : nodes.size ≤ lo) :
    b.pending = [] := by
  refine List.eq_nil_iff_forall_not_mem.2 fun n hn => ?_
  obtain ⟨_, ⟨p, hp⟩, _⟩ := h.begun n (Or.inr hn)
  have hlt := (Array.getElem?_eq_some_iff.1 hp).1
  have hge := h.pending_ge n hn
  rw [h.size_eq] at hlt
  omega

theorem Sane.unbounded (h : Sane nodes R lo todo b) : Sane nodes R 0 todo b :=
  { h with pending_ge := fun n _ => Nat.zero_le n }

/-- With as many rounds as there are nodes nothing is left to fill. -/
theorem builds_fillAll (htree : IsTree nodes R) {fuel : Nat} (h : Sane nodes R lo [] b)
    (hfuel : nodes.size ≤ lo + fuel) :
    Builds nodes R 0 (fillAll fuel) b [] fun _ b' => b'.pending = [] := by
  induction fuel generalizing lo b with
  | zero => exact .of_ok rfl h.unbounded (.refl b) (h.pending_eq_nil hfuel)
  | succ fuel ih =>
      unfold fillAll
      refine .bind_of_read (a := b) rfl ?_
      split
      · next hnone => exact .of_ok rfl h.unbounded (.refl b) hnone
      · have hge : ∀ n ∈ b.pending.reverse, lo + 1 ≤ n + 1 := fun n hn =>
          Nat.succ_le_succ (h.pending_ge n (List.mem_reverse.1 hn))
        refine .bind_of_ok rfl (.refl b) ?_
        exact (builds_forM_fill htree h.round hge).bind fun _ b' h' _ _ => ih h' (by omega)

end Build

/-- All parts of a tree are made, or one of its scalars has no value. -/
theorem parts_of_tree {nodes : Graph} {R : Nat → Prop} {root : Nat} (htree : IsTree nodes R)
    (hroot : R root) :
    match Part.ofGraph nodes root with
    | .ok parts => HasPart parts root ∧ ∀ n p, parts[n]? = some (some p) →
        ∃ x, nodes[n]? = some x ∧ Made nodes (HasPart parts) n x p
    | .error _ => Unreadable nodes R := by
  have hstart : Build.Sane nodes R 0 []
      ⟨nodes, Array.replicate nodes.size none, [], nodes.mergeCount + 1⟩ := by
    refine ⟨rfl, Array.size_replicate, Nat.succ_ne_zero _, ?_, by simp, nofun⟩
    intro n p hp
    rw [Array.getElem?_replicate] at hp
    split at hp <;> cases hp
  have hbuild : Build.Builds nodes R 0 (do
      Build.begin root
      Build.fillAll (nodes.size + 1))
      ⟨nodes, Array.replicate nodes.size none, [], nodes.mergeCount + 1⟩ []
      fun _ b => b.pending = [] ∧ Build.Has b root := by
    refine (Build.builds_begin htree hstart hroot (Nat.zero_le _)).bind fun _ b h _ hhas => ?_
    exact (Build.builds_fillAll htree h (by omega)).imp fun _ b' hgrows hnone =>
      ⟨hnone, hgrows root hhas⟩
  unfold Build.Builds at hbuild
  unfold Part.ofGraph
  show match (do
    let r ← (do
      Build.begin root
      Build.fillAll (nodes.size + 1) : Build Unit)
        ⟨nodes, Array.replicate nodes.size none, [], nodes.mergeCount + 1⟩
    return r.2.parts : Step (Array (Option Part))) with
  | .ok parts => _
  | .error _ => _
  split at hbuild
  · next a b' hrun =>
    rw [hrun]
    obtain ⟨hsane, _, hnone, hhas⟩ := hbuild
    refine ⟨hhas, fun n p hp => ?_⟩
    rcases hsane.made n p hp with hmem | hmem | hmade
    · cases hmem
    · rw [hnone] at hmem
      cases hmem
    · exact hmade
  · next f hrun =>
    rw [hrun]
    exact hbuild

end ApiAuthz.Yaml
