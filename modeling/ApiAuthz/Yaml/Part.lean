/-
What is built of the nodes of a document. A node becomes a `Part`, once, however
many aliases it has: a scalar, or a collection that holds the numbers of its own
parts. Scalars are built where they are met; a collection is begun, empty, and
filled after everything that was begun before it, so that of several flaws the
one nearest to the root counts.

Merging changes the nodes themselves: the merge entries of a mapping are taken
out and the members they bring are put in front, once and for all.

# Rounds

`Build.begin` builds a scalar or begins a collection, and `Build.fill` fills one:
the items of a list are begun, and the keys of a mapping are read while its values
are begun. What is begun in one round is filled in the next (`Build.fillAll`).
Every node is begun once, so there are no more rounds than nodes.

# Merging

An entry is taken out before it is followed, so a mapping may merge itself, and
every call takes out one entry at least: one more than all merge entries there are
is fuel enough (`Building.merges`). Of several mappings that are merged at once the
last comes first, and a mapping's own members come behind all of them, so that
they replace what is merged (`Build.flatten`).

# Tags

The tag of a node says what is built of it: a list, a set, a mapping, a list of
pairs, or a scalar of some kind. A scalar may also be written as a mapping with a
member for its value (`Build.textAt`). A tag that asks for something else than the
node has is malformed, and so is one that is not known.
-/
import ApiAuthz.Yaml.Node
import ApiAuthz.Yaml.ScalarValue

namespace ApiAuthz.Yaml

/-- What is built of a node, or of an entry in a list of pairs. -/
inductive Part where
  | scalar (s : Scalar Broken)
  | list (items : List Nat)
  | pair (first second : Nat)
  | set (keys : List (Scalar Broken))
  | map (members : List (Scalar Broken × Nat))

/-- The collection that a tag asks for, with nothing in it. -/
def Tag.emptyPart? : Tag → Option Part
  | .seq | .omap | .pairs => some (.list [])
  | .set => some (.set [])
  | .map => some (.map [])
  | _ => none

/-- The tags of scalars that have values. -/
def Tag.isScalar : Tag → Bool
  | .null | .bool | .int | .float | .binary | .timestamp | .str => true
  | _ => false

/-- The graph, and how far its parts have been made. -/
structure Building where
  nodes : Graph
  /-- Parts by the numbers of their nodes; pairs come behind them. -/
  parts : Array (Option Part)
  /-- Collections that are begun and not filled, the last first. -/
  pending : List Nat
  /-- More than the merge entries that are left. -/
  merges : Nat

/-- Builds parts, or meets a flaw. -/
abbrev Build := StateT Building Step

namespace Build

-- ==================================================== nodes

/-- The node of a number; one that is out of range is empty. -/
def nodeAt (number : Nat) : Build Node := return ((← get).nodes[number]?).getD default

/-- The tag of a node. -/
def tagAt (number : Nat) : Build Tag := return (← nodeAt number).tag

/-- The members of a node, if it is a mapping. -/
def membersAt? (number : Nat) : Build (Option (List (Nat × Nat))) := do
  match (← nodeAt number).content with
  | .mapping members => return some members
  | _ => return none

/-- The members of a node; one that is no mapping has none. -/
def membersAt (number : Nat) : Build (List (Nat × Nat)) :=
  return (← membersAt? number).getD []

/-- The items of a node, which has to be a sequence. -/
def itemsAt (number : Nat) : Build (List Nat) := do
  match (← nodeAt number).content with
  | .sequence items => return items
  | _ => throw .malformed

/-- Changes one node of the graph, for every alias of it. -/
def change (number : Nat) (f : Node → Node) : Build Unit :=
  modify fun b => { b with nodes := b.nodes.modify number f }

/-- Gives a node other members. -/
def setMembers (number : Nat) (members : List (Nat × Nat)) : Build Unit :=
  change number fun n => { n with content := .mapping members }

-- ==================================================== merging

/-- A member list around its first merge entry: the members before it, what is to
be merged, the members behind it. -/
structure MergeEntry where
  before : List (Nat × Nat)
  merged : Nat
  after : List (Nat × Nat)

/-- The first merge among members, with what is before and behind it. -/
def firstMerge? (nodes : Graph) : List (Nat × Nat) → Option MergeEntry
  | [] => none
  | (k, v) :: ms =>
    if (nodes[k]?).any fun n => n.tag == .merge then some ⟨[], v, ms⟩
    else (firstMerge? nodes ms).map fun e => { e with before := (k, v) :: e.before }

/-- An equals sign as a key is text. -/
def keepAsText (key : Nat) : Build Unit :=
  change key fun n => if n.tag = .value then { n with tag := .str } else n

/-- The members that are merged from a node, given how one mapping is flattened:
those of a mapping, or of all mappings of a sequence, the last of them first. -/
def mergedFrom (flatten : Nat → Build Unit) (number : Nat) : Build (List (Nat × Nat)) := do
  let ofMapping (n : Nat) : Build (List (Nat × Nat)) := do
    match ← membersAt? n with
    | none => throw .malformed
    | some _ => do flatten n; membersAt n
  match (← nodeAt number).content with
  | .sequence items => return (← items.mapM ofMapping).reverse.flatten
  | _ => ofMapping number

/-- Puts what a mapping merges in front of its own members. An entry is taken out
before it is followed, so a mapping may merge itself. -/
def flatten : Nat → Nat → Build Unit
  | 0, _ => throw .malformed
  | fuel + 1, number => do
    let members ← membersAt number
    match firstMerge? (← get).nodes members with
    | none => members.forM fun m => keepAsText m.1
    | some e => do
      setMembers number (e.before ++ e.after)
      let merged ← mergedFrom (flatten fuel) e.merged
      flatten fuel number
      setMembers number (merged ++ (← membersAt number))

-- ==================================================== scalars

/-- The text of a node where one is needed: a scalar's own, or that of the member
of a mapping that has an equals sign for its key. -/
def textAt : Nat → Nat → Build (List CodePoint)
  | 0, _ => throw (.misused .endless)
  | fuel + 1, number => do
    match (← nodeAt number).content with
    | .scalar text => return text
    | .sequence _ => throw .malformed
    | .mapping members => do
      let nodes := (← get).nodes
      match members.find? fun m => (nodes[m.1]?).any fun n => n.tag == .value with
      | some m => textAt fuel m.2
      | none => throw .malformed

/-- Whether a node is written as a scalar. -/
def isWrittenScalar (number : Nat) : Build Bool := do
  match (← nodeAt number).content with
  | .scalar _ => return true
  | _ => return false

/-- The scalar of a node with a scalar's tag. Times are read from scalars alone. -/
def scalarAt (number : Nat) (tag : Tag) : Build (Scalar Broken) := do
  let text ← textAt ((← get).nodes.size + 1) number
  if tag = .timestamp && !(← isWrittenScalar number) then throw (.misused .wrongKind)
  else ScalarValue.ofTag (number + 1) tag text

-- ==================================================== parts

/-- The part of a node, if it has been made. -/
def partAt? (number : Nat) : Build (Option Part) := return ((← get).parts[number]?).join

/-- Puts a part in its place. -/
def setPart (number : Nat) (p : Part) : Build Unit :=
  modify fun b => { b with parts := b.parts.setIfInBounds number (some p) }

/-- Adds a pair behind the parts, and gives its number. -/
def addPair (first second : Nat) : Build Nat := do
  let number := (← get).parts.size
  modify fun b => { b with parts := b.parts.push (some (.pair first second)) }
  return number

/-- Builds a scalar, or begins a collection, unless it is there already. -/
def begin (number : Nat) : Build Unit := do
  if (← partAt? number).isSome then return
  else
    let tag ← tagAt number
    match tag.emptyPart? with
    | some p => do
      setPart number p
      modify fun b => { b with pending := number :: b.pending }
    | none =>
      if tag.isScalar then setPart number (.scalar (← scalarAt number tag))
      else throw .malformed

/-- The key that a node stands for; a collection is none. -/
def keyAt (number : Nat) : Build (Scalar Broken) := do
  begin number
  match ← partAt? number with
  | some (.scalar s) => return s
  | _ => throw .malformed

/-- The members of a mapping: the last value of a key counts. -/
def entriesAt (number : Nat) : Build (Members Nat Broken) := do
  match ← membersAt? number with
  | none => throw .malformed
  | some _ => do
    flatten (← get).merges number
    let entries ← (← membersAt number).mapM fun m => do
      let key ← keyAt m.1
      begin m.2
      return (key, m.2)
    return Members.ofEntries entries

/-- The pair of an item, which has to be a mapping of one member. -/
def pairAt (number : Nat) : Build Nat := do
  match ← membersAt? number with
  | some [(k, v)] => do begin k; begin v; addPair k v
  | _ => throw .malformed

/-- Fills a collection. -/
def fill (number : Nat) : Build Unit := do
  match ← tagAt number with
  | .seq => do
    let items ← itemsAt number
    items.forM begin
    setPart number (.list items)
  | .map => do setPart number (.map (← entriesAt number))
  | .set => do setPart number (.set (Members.keys (← entriesAt number)))
  | _ => do setPart number (.list (← (← itemsAt number).mapM pairAt))

/-- Fills what is begun, round by round. Every node is begun once, so there are no
more rounds than nodes. -/
def fillAll : Nat → Build Unit
  | 0 => return
  | fuel + 1 => do
    match (← get).pending with
    | [] => return
    | pending => do
      modify fun b => { b with pending := [] }
      pending.reverse.forM fill
      fillAll fuel

end Build

/-- How many merge entries the mappings of a graph have. -/
def Graph.mergeCount (nodes : Graph) : Nat :=
  nodes.foldl (fun count n =>
    match n.content with
    | .mapping members =>
      count + members.countP fun m => (nodes[m.1]?).any fun k => k.tag == .merge
    | _ => count) 0

/-- The parts of the document of a node. -/
def Part.ofGraph (nodes : Graph) (root : Nat) : Step (Array (Option Part)) := do
  let build : Build Unit := do
    Build.begin root
    Build.fillAll (nodes.size + 1)
  let ((), b) ← build.run ⟨nodes, Array.replicate nodes.size none, [], nodes.mergeCount + 1⟩
  return b.parts

end ApiAuthz.Yaml
