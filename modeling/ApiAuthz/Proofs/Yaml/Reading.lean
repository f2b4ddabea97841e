/-
What reading the nodes of a text does to its tokens. It takes them from the front and puts
none back, and it fails only where the text is malformed or with a flaw that is one of the
tokens (`Conforms`). Both come from one pass over the readers: the ways to put readings
together keep them, and the nine readers that call each other keep them by induction on how
deep they may go.

A document is read only if the end of the text is among the tokens (`Demands`,
`streamEnd_mem_of_ofTokens`): whatever reads one looks for the end before it is done.

# One round

The readers of nodes, items and members call one another with less fuel, so what is known of all of
them at a depth is kept together (`ConformAt`), and for each of them there is a lemma that goes from
one depth to the next (`conforms_node_succ` and those behind it). `conformAt` is the induction. A
reader that is new needs a field of the structure, a lemma, and a line there.

# Why both at once

That tokens are only taken is needed for flaws: a flaw is met when it is the next token, and it is
one of the tokens of the text only if nothing else can come to stand in front. It is needed for the
end of the text as well. A reading that demands a token still does so behind one that conforms
(`Demands.after`), because the tokens it starts from are among those of the text.
-/
import ApiAuthz.Yaml.Node

namespace ApiAuthz.Yaml.Graph

variable {α β : Type}

/-- The reading takes tokens from the front only, and fails only where the text is malformed
or with a flaw among the tokens. -/
def Conforms (x : Read α) : Prop :=
  ∀ r : Reading,
    match x r with
    | .ok (_, r') => r'.tokens <:+ r.tokens
    | .error f => f = .malformed ∨ .flaw f ∈ r.tokens

-- ==================================================== ways to put readings together

/-- Two readings, the second one from where the first one stopped. -/
theorem run_bind (x : Read α) (k : α → Read β) (r : Reading) :
    (x >>= k) r = match x r with
      | .ok (a, r') => k a r'
      | .error f => .error f := by
  show (x r >>= fun p => k p.1 p.2) = _
  cases x r <;> rfl

/-- Readings that conform do so one behind the other. -/
theorem Conforms.bind {x : Read α} {k : α → Read β} (hx : Conforms x)
    (hk : ∀ a, Conforms (k a)) : Conforms (x >>= k) := by
  intro r
  have hfirst := hx r
  rw [run_bind]
  cases hr : x r with
  | error f =>
      rw [hr] at hfirst
      exact hfirst
  | ok p =>
      obtain ⟨a, r'⟩ := p
      rw [hr] at hfirst
      have hsecond := hk a r'
      dsimp only at hfirst hsecond ⊢
      cases hr' : k a r' with
      | error f =>
          rw [hr'] at hsecond
          exact hsecond.imp_right fun hflaw => hfirst.subset hflaw
      | ok q =>
          rw [hr'] at hsecond
          exact hsecond.trans hfirst

theorem conforms_pure (a : α) : Conforms (pure a) := fun _ => List.suffix_rfl

/-- Stopping for malformed tokens conforms. -/
theorem conforms_malformed : Conforms (throw .malformed : Read α) := fun _ => Or.inl rfl

theorem conforms_get : Conforms get := fun _ => List.suffix_rfl

/-- Whatever leaves a suffix of the tokens conforms. -/
theorem conforms_modify {f : Reading → Reading} (h : ∀ r, (f r).tokens <:+ r.tokens) :
    Conforms (modify f) := h

theorem run_peek (r : Reading) :
    peek r = match r.tokens.head? with
      | some (.flaw f) => .error f
      | next => .ok (next, r) := by
  unfold peek
  rw [run_bind]
  show (match r.tokens.head? with
    | some (.flaw f) => throw f
    | next => return next : Read (Option Token)) r = _
  cases r.tokens.head? with
  | none => rfl
  | some t => cases t <;> rfl

/-- So does looking at the next token: a flaw among the tokens is reported when it is met. -/
theorem conforms_peek : Conforms peek := by
  intro r
  rw [run_peek]
  split
  · next heq =>
    split at heq
    · cases heq
    · cases heq
      exact List.suffix_rfl
  · next heq =>
    split at heq
    · next hhead =>
      cases heq
      exact Or.inr (List.mem_of_head? hhead)
    · cases heq

/-- So does passing it. -/
theorem conforms_skip : Conforms skip := conforms_modify fun r => List.drop_suffix 1 r.tokens

theorem conforms_unexpected : Conforms (unexpected : Read α) :=
  conforms_peek.bind fun _ => conforms_malformed

theorem conforms_add (n : Node) : Conforms (add n) := fun _ => List.suffix_rfl

/-- Nodes are added without touching the tokens. -/
theorem conforms_addNamed (anchor? : Option String) (n : Node) :
    Conforms (addNamed anchor? n) := by
  unfold addNamed
  cases anchor? with
  | none => exact conforms_add n
  | some a =>
      refine conforms_get.bind fun r => ?_
      split
      · exact conforms_malformed
      · exact (conforms_add n).bind fun _ _ => List.suffix_rfl

theorem conforms_ofAlias (name : String) : Conforms (ofAlias name) := by
  refine conforms_get.bind fun r => ?_
  split
  · exact conforms_pure _
  · exact conforms_malformed

theorem conforms_fill (number : Nat) (content : Content) : Conforms (fill number content) :=
  conforms_modify fun _ => List.suffix_rfl

/-- An anchor and a tag take two tokens at most. -/
theorem conforms_properties : Conforms properties := by
  refine conforms_peek.bind fun first => ?_
  split
  · refine conforms_skip.bind fun _ => conforms_peek.bind fun second => ?_
    split
    · exact conforms_skip.bind fun _ => conforms_pure _
    · exact conforms_pure _
  · refine conforms_skip.bind fun _ => conforms_peek.bind fun second => ?_
    split
    · exact conforms_skip.bind fun _ => conforms_pure _
    · exact conforms_pure _
  · exact conforms_pure _

/-- A tag with a handle that is not known is malformed. -/
theorem conforms_fullTag (t? : Option WrittenTag) : Conforms (fullTag t?) := by
  unfold fullTag
  split
  · exact conforms_pure _
  · split
    · exact conforms_pure _
    · refine conforms_get.bind fun r => ?_
      split
      · exact conforms_pure _
      · exact conforms_malformed

/-- A node that is left out takes no token. -/
theorem Conforms.orEmpty {read : Read Nat} (h : Conforms read) (ends : Option Token → Bool) :
    Conforms (orEmpty ends read) := by
  refine conforms_peek.bind fun next => ?_
  split
  · exact conforms_add _
  · exact h

/-- So it is with a key. -/
theorem Conforms.keyPart {read : Read Nat} (h : Conforms read) (ends : Option Token → Bool) :
    Conforms (keyPart ends read) := h.orEmpty _

/-- And with a value, which may have its sign and nothing behind it. -/
theorem Conforms.valuePart {read : Read Nat} (h : Conforms read) (ends : Option Token → Bool) :
    Conforms (valuePart ends read) := by
  refine conforms_peek.bind fun next => ?_
  split
  · exact conforms_skip.bind fun _ => h.orEmpty _
  · exact conforms_add _

/-- A list conforms with its items. -/
theorem Conforms.sequenceOf {items : Read (List Nat)} (h : Conforms items)
    (anchor tag? : Option String) : Conforms (sequenceOf anchor tag? items) :=
  (conforms_addNamed _ _).bind fun _ => h.bind fun _ => (conforms_fill _ _).bind fun _ =>
    conforms_pure _

/-- A mapping conforms with its members. -/
theorem Conforms.mappingOf {members : Read (List (Nat × Nat))} (h : Conforms members)
    (anchor tag? : Option String) : Conforms (mappingOf anchor tag? members) :=
  (conforms_addNamed _ _).bind fun _ => h.bind fun _ => (conforms_fill _ _).bind fun _ =>
    conforms_pure _

theorem conforms_scalarOf (anchor tag? : Option String) (text : List CodePoint) (plain : Bool) :
    Conforms (scalarOf anchor tag? text plain) := conforms_addNamed _ _

-- ==================================================== nodes

/-- All readers that call each other conform, as deep as they may go. -/
structure ConformAt (fuel : Nat) : Prop where
  node (block indentless : Bool) : Conforms (node block indentless fuel)
  blockItems : Conforms (blockItems fuel)
  indentlessItems : Conforms (indentlessItems fuel)
  blockMembers : Conforms (blockMembers fuel)
  flowItems (first : Bool) : Conforms (flowItems first fuel)
  flowItem : Conforms (flowItem fuel)
  flowMembers (first : Bool) : Conforms (flowMembers first fuel)
  flowMember : Conforms (flowMember fuel)

variable {fuel : Nat}

/-- One round more for a node. -/
theorem conforms_node_succ (h : ConformAt fuel) (block indentless : Bool) :
    Conforms (node block indentless (fuel + 1)) := by
  unfold node
  refine conforms_peek.bind fun next => ?_
  split
  · exact conforms_skip.bind fun _ => conforms_ofAlias _
  · refine conforms_properties.bind fun p => (conforms_fullTag _).bind fun tag? =>
      conforms_peek.bind fun next => ?_
    split
    · exact h.indentlessItems.sequenceOf _ _
    · exact conforms_skip.bind fun _ => conforms_scalarOf _ _ _ _
    · exact conforms_skip.bind fun _ => (h.flowItems true).sequenceOf _ _
    · exact conforms_skip.bind fun _ => (h.flowMembers true).mappingOf _ _
    · exact conforms_skip.bind fun _ => h.blockItems.sequenceOf _ _
    · exact conforms_skip.bind fun _ => h.blockMembers.mappingOf _ _
    · split
      · exact conforms_scalarOf _ _ _ _
      · exact conforms_unexpected

/-- One round more for the items of a block. -/
theorem conforms_blockItems_succ (h : ConformAt fuel) : Conforms (blockItems (fuel + 1)) := by
  unfold blockItems
  refine conforms_peek.bind fun next => ?_
  split
  · exact conforms_skip.bind fun _ => ((h.node _ _).orEmpty _).bind fun _ =>
      h.blockItems.bind fun _ => conforms_pure _
  · exact conforms_skip.bind fun _ => conforms_pure _
  · exact conforms_unexpected

/-- The same without indentation. -/
theorem conforms_indentlessItems_succ (h : ConformAt fuel) :
    Conforms (indentlessItems (fuel + 1)) := by
  unfold indentlessItems
  refine conforms_peek.bind fun next => ?_
  split
  · exact conforms_skip.bind fun _ => ((h.node _ _).orEmpty _).bind fun _ =>
      h.indentlessItems.bind fun _ => conforms_pure _
  · exact conforms_pure _

/-- One round more for the members of a block. -/
theorem conforms_blockMembers_succ (h : ConformAt fuel) :
    Conforms (blockMembers (fuel + 1)) := by
  unfold blockMembers
  refine conforms_peek.bind fun next => ?_
  split
  · exact conforms_skip.bind fun _ => ((h.node _ _).keyPart _).bind fun _ =>
      ((h.node _ _).valuePart _).bind fun _ => h.blockMembers.bind fun _ => conforms_pure _
  · exact conforms_skip.bind fun _ => conforms_pure _
  · exact conforms_unexpected

/-- One round more for items between brackets. -/
theorem conforms_flowItems_succ (h : ConformAt fuel) (first : Bool) :
    Conforms (flowItems first (fuel + 1)) := by
  unfold flowItems
  refine conforms_peek.bind fun next => ?_
  split
  · exact conforms_skip.bind fun _ => conforms_pure _
  · exact conforms_skip.bind fun _ => h.flowItem
  · exact conforms_unexpected
  · exact h.flowItem

/-- An item there may be a pair. -/
theorem conforms_flowItem_succ (h : ConformAt fuel) : Conforms (flowItem (fuel + 1)) := by
  unfold flowItem
  refine conforms_peek.bind fun next => ?_
  split
  · exact conforms_skip.bind fun _ => conforms_pure _
  · exact conforms_skip.bind fun _ => (conforms_add _).bind fun _ =>
      ((h.node _ _).keyPart _).bind fun _ => ((h.node _ _).valuePart _).bind fun _ =>
      (conforms_fill _ _).bind fun _ => (h.flowItems _).bind fun _ => conforms_pure _
  · exact (h.node _ _).bind fun _ => (h.flowItems _).bind fun _ => conforms_pure _

/-- One round more for members between braces. -/
theorem conforms_flowMembers_succ (h : ConformAt fuel) (first : Bool) :
    Conforms (flowMembers first (fuel + 1)) := by
  unfold flowMembers
  refine conforms_peek.bind fun next => ?_
  split
  · exact conforms_skip.bind fun _ => conforms_pure _
  · exact conforms_skip.bind fun _ => h.flowMember
  · exact conforms_unexpected
  · exact h.flowMember

/-- A member there may lack its value. -/
theorem conforms_flowMember_succ (h : ConformAt fuel) : Conforms (flowMember (fuel + 1)) := by
  unfold flowMember
  refine conforms_peek.bind fun next => ?_
  split
  · exact conforms_skip.bind fun _ => conforms_pure _
  · exact conforms_skip.bind fun _ => ((h.node _ _).keyPart _).bind fun _ =>
      ((h.node _ _).valuePart _).bind fun _ => (h.flowMembers _).bind fun _ => conforms_pure _
  · exact (h.node _ _).bind fun _ => (conforms_add _).bind fun _ =>
      (h.flowMembers _).bind fun _ => conforms_pure _

/-- All readers of nodes conform, by induction on their fuel. -/
theorem conformAt (fuel : Nat) : ConformAt fuel := by
  induction fuel with
  | zero =>
      exact ⟨fun _ _ => conforms_unexpected, conforms_unexpected, conforms_unexpected,
        conforms_unexpected, fun _ => conforms_unexpected, conforms_unexpected,
        fun _ => conforms_unexpected, conforms_unexpected⟩
  | succ fuel ih =>
      exact ⟨conforms_node_succ ih, conforms_blockItems_succ ih, conforms_indentlessItems_succ ih,
        conforms_blockMembers_succ ih, conforms_flowItems_succ ih, conforms_flowItem_succ ih,
        conforms_flowMembers_succ ih, conforms_flowMember_succ ih⟩

-- ==================================================== documents

/-- Directives are taken from the front. -/
theorem suffix_of_directives {versioned : Bool} {handles handles' : List (String × String)}
    {ts rest : List Token} (h : directives versioned handles ts = .ok (handles', rest)) :
    rest <:+ ts := by
  fun_induction directives versioned handles ts with
  | case1 => cases h
  | case2 _ _ _ _ _ ih => exact (ih h).trans (List.suffix_cons _ _)
  | case3 => cases h
  | case4 _ _ _ _ _ _ ih => exact (ih h).trans (List.suffix_cons _ _)
  | case5 _ _ _ ih => exact (ih h).trans (List.suffix_cons _ _)
  | case6 =>
      cases h
      exact List.suffix_rfl

/-- What is wrong with directives is malformed. -/
theorem malformed_of_directives {versioned : Bool} {handles : List (String × String)}
    {ts : List Token} {f : Flaw} (h : directives versioned handles ts = .error f) :
    f = .malformed := by
  fun_induction directives versioned handles ts with
  | case1 =>
      cases h
      rfl
  | case2 _ _ _ _ _ ih => exact ih h
  | case3 =>
      cases h
      rfl
  | case4 _ _ _ _ _ _ ih => exact ih h
  | case5 _ _ _ ih => exact ih h
  | case6 => cases h

/-- So taking them conforms. -/
theorem conforms_takeDirectives : Conforms takeDirectives := by
  intro r
  have hrun : takeDirectives r = match directives false [] r.tokens with
      | .ok (handles, rest) =>
        .ok ((), { r with tokens := rest, handles := handles ++ defaultHandles })
      | .error f => .error f := by
    unfold takeDirectives
    rw [run_bind]
    show ((liftM (directives false [] r.tokens) >>= _ : Read Unit) r) = _
    rw [run_bind]
    cases hd : directives false [] r.tokens <;> rfl
  rw [hrun]
  cases hd : directives false [] r.tokens with
  | error f => exact Or.inl (malformed_of_directives hd)
  | ok p => exact suffix_of_directives hd

theorem conforms_dropDocumentEnds : Conforms dropDocumentEnds :=
  conforms_modify fun _ => List.dropWhile_suffix _

/-- Whatever follows the only document is malformed. -/
theorem Conforms.only {read : Read Nat} (h : Conforms read) : Conforms (only read) := by
  refine h.bind fun n => conforms_dropDocumentEnds.bind fun _ => conforms_peek.bind fun next => ?_
  split
  · exact conforms_pure _
  · exact conforms_takeDirectives.bind fun _ => conforms_unexpected

/-- A document behind its mark conforms. -/
theorem conforms_marked (fuel : Nat) : Conforms (marked fuel) := by
  refine conforms_dropDocumentEnds.bind fun _ => conforms_peek.bind fun next => ?_
  split
  · exact conforms_pure _
  · refine conforms_takeDirectives.bind fun _ => conforms_peek.bind fun next => ?_
    split
    · exact conforms_skip.bind fun _ => (((conformAt fuel).node _ _).orEmpty _).only
    · exact conforms_unexpected

/-- So does a whole text. -/
theorem conforms_document (fuel : Nat) : Conforms (document fuel) := by
  refine conforms_peek.bind fun next => ?_
  split
  · exact conforms_marked fuel
  · exact conforms_marked fuel
  · exact conforms_marked fuel
  · exact ((conformAt fuel).node _ _).only

/-- The nodes of a text cannot be read only if it is malformed, or with a flaw that is one of
its tokens. -/
theorem flaw_of_ofTokens {ts : List Token} {f : Flaw} (h : ofTokens ts = .error f) :
    f = .malformed ∨ .flaw f ∈ ts := by
  have hconforms := conforms_document (fuelFor ts) ⟨ts, #[], [], defaultHandles⟩
  unfold ofTokens StateT.run at h
  cases hrun : document (fuelFor ts) ⟨ts, #[], [], defaultHandles⟩ with
  | error g =>
      rw [hrun] at h hconforms
      cases h
      exact hconforms
  | ok p =>
      rw [hrun] at h
      cases h

-- ==================================================== the end of the text

/-- The reading succeeds only if the end of the text is among the tokens. -/
def Demands (x : Read α) : Prop := ∀ r p, x r = .ok p → .streamEnd ∈ r.tokens

/-- A token that is not expected is refused, so the end of tokens is. -/
theorem demands_unexpected : Demands (unexpected : Read α) := by
  intro r p h
  unfold unexpected at h
  rw [run_bind] at h
  split at h <;> cases h

/-- What demands a token still does behind what conforms. -/
theorem Demands.after {x : Read α} {k : α → Read β} (hx : Conforms x) (hk : ∀ a, Demands (k a)) :
    Demands (x >>= k) := by
  intro r p h
  have hsuffix := hx r
  rw [run_bind] at h
  split at h
  · next a r' hr =>
    rw [hr] at hsuffix
    exact hsuffix.subset (hk a r' p h)
  · cases h

/-- To look for the end of the text and go on only there. -/
theorem Demands.peek {k : Option Token → Read β}
    (hk : ∀ next, next ≠ some .streamEnd → Demands (k next)) : Demands (peek >>= k) := by
  intro r p h
  by_cases hend : r.tokens.head? = some .streamEnd
  · exact List.mem_of_head? hend
  · rw [run_bind, run_peek] at h
    split at h
    · next heq =>
      split at heq
      · cases heq
      · cases heq
        exact hk _ hend r p h
    · cases h

/-- An only document demands the end of the text. -/
theorem Demands.only {read : Read Nat} (h : Conforms read) : Demands (only read) := by
  refine .after h fun n => .after conforms_dropDocumentEnds fun _ => .peek fun next hnext => ?_
  split
  · exact absurd rfl hnext
  · exact .after conforms_takeDirectives fun _ => demands_unexpected

theorem demands_marked (fuel : Nat) : Demands (marked fuel) := by
  refine .after conforms_dropDocumentEnds fun _ => .peek fun next hnext => ?_
  split
  · exact absurd rfl hnext
  · refine .after conforms_takeDirectives fun _ => .after conforms_peek fun next => ?_
    split
    · exact .after conforms_skip fun _ => .only (((conformAt fuel).node _ _).orEmpty _)
    · exact demands_unexpected

/-- So does whatever is read of a text. -/
theorem demands_document (fuel : Nat) : Demands (document fuel) := by
  refine .after conforms_peek fun next => ?_
  split
  · exact demands_marked fuel
  · exact demands_marked fuel
  · exact demands_marked fuel
  · exact .only ((conformAt fuel).node _ _)

/-- No document is read without the end of the text. -/
theorem streamEnd_mem_of_ofTokens {ts : List Token} {p : Option Nat × Graph}
    (h : ofTokens ts = .ok p) : .streamEnd ∈ ts := by
  unfold ofTokens StateT.run at h
  cases hrun : document (fuelFor ts) ⟨ts, #[], [], defaultHandles⟩ with
  | error g =>
      rw [hrun] at h
      cases h
  | ok q => exact demands_document _ _ q hrun

end ApiAuthz.Yaml.Graph
