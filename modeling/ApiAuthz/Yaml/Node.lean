/-
The nodes of a YAML document. Nodes have numbers, and a collection holds the
numbers of what stands in it, so an alias needs no node of its own: it is the
number of the node that it names, finished or not, and a collection may stand
within itself.

`Graph.ofTokens` reads the one document of a text from its tokens. A flaw of the
text is met when the token in its place is looked at, not before.

# Readers

Each reader takes tokens from the front of those that are left and adds nodes to
the graph (`Read`). A collection takes its number before its items are read, so
that an alias in it can name it, and is filled when they have been (`sequenceOf`,
`mappingOf`). An entry may be left out, and what stands in its place is an empty
node; whether it is left out is seen at the next token (`orEmpty`), and each kind
of collection has its own tokens for that (`endsBlockEntry`, `endsFlowItem` and
those beside them). The readers call one another with less fuel each time, and a
text has fuel for all of its tokens.

# Tags

A scalar in quotes is a string. One without is what its form says, unless a tag
stands in front of it (`scalarTag`). Collections have the tags of their kinds or
the one that is written. A tag is given in full or by a handle, which has to be
one of those that the document declares or has by default (`fullTag`).
-/
import ApiAuthz.Yaml.PlainForm
import ApiAuthz.Yaml.Token

namespace ApiAuthz.Yaml

/-- What a node holds: a string, or the numbers of other nodes. -/
inductive Content where
  | scalar (text : List CodePoint)
  | sequence (items : List Nat)
  | mapping (members : List (Nat × Nat))

/-- A node of the graph. -/
structure Node where
  tag : Tag
  content : Content

namespace Node

/-- What an empty place stands for. -/
def empty : Node := ⟨.null, .scalar []⟩

instance : Inhabited Node := ⟨empty⟩

end Node

/-- Nodes by their numbers. -/
abbrev Graph := Array Node

namespace Graph

-- ==================================================== reading tokens

/-- Where the reader of nodes is, and what it has made so far. -/
structure Reading where
  tokens : List Token
  nodes : Graph
  anchors : List (String × Nat)
  handles : List (String × String)

/-- Takes tokens from those that are left. -/
abbrev Read := StateT Reading Step

/-- The next token, which may not be a flaw. -/
def peek : Read (Option Token) := do
  match (← get).tokens.head? with
  | some (.flaw f) => throw f
  | next => return next

/-- Past the next token. -/
def skip : Read Unit := modify fun r => { r with tokens := r.tokens.drop 1 }

/-- Fails at the next token. -/
def unexpected {α : Type} : Read α := do
  let _ ← peek
  throw .malformed

/-- Adds a node and gives its number. -/
def add (n : Node) : Read Nat := do
  let number := (← get).nodes.size
  modify fun r => { r with nodes := r.nodes.push n }
  return number

/-- Adds a node under a name, if it has one. A name is given once. -/
def addNamed (anchor? : Option String) (n : Node) : Read Nat := do
  match anchor? with
  | none => add n
  | some a =>
    if (← get).anchors.any fun b => b.1 == a then throw .malformed
    else
      let number ← add n
      modify fun r => { r with anchors := (a, number) :: r.anchors }
      return number

/-- The node that an alias stands for. -/
def ofAlias (name : String) : Read Nat := do
  match (← get).anchors.find? fun a => a.1 == name with
  | some (_, number) => return number
  | none => throw .malformed

/-- Finishes a collection. -/
def fill (number : Nat) (content : Content) : Read Unit :=
  modify fun r => { r with nodes := r.nodes.modify number fun n => { n with content } }

/-- An anchor and a tag in front of a node, in either order. -/
structure Properties where
  anchor : Option String
  tag : Option WrittenTag

/-- An anchor and a tag, in either order, each at most once. -/
def properties : Read Properties := do
  match ← peek with
  | some (.anchor a) =>
    skip
    match ← peek with
    | some (.tag t) => do skip; return ⟨some a, some t⟩
    | _ => return ⟨some a, none⟩
  | some (.tag t) =>
    skip
    match ← peek with
    | some (.anchor a) => do skip; return ⟨some a, some t⟩
    | _ => return ⟨none, some t⟩
  | _ => return ⟨none, none⟩

/-- The tag in full: what its handle stands for, then the rest. -/
def fullTag (t? : Option WrittenTag) : Read (Option String) := do
  match t? with
  | none => return none
  | some t =>
    match t.handle with
    | none => return some t.suffix
    | some h =>
      match (← get).handles.find? fun k => k.1 == h with
      | some k => return some (k.2 ++ t.suffix)
      | none => throw .malformed

/-- A lone exclamation mark is no tag. -/
def collectionTag (default : Tag) : Option String → Tag
  | none => default
  | some t => if t == "!" then default else .ofText t

/-- A lone exclamation mark makes a scalar plain. -/
def scalarTag (text : List CodePoint) (plain : Bool) : Option String → Tag
  | none => if plain then PlainForm.tagOf (Text.whole text) else .str
  | some t => if t == "!" then PlainForm.tagOf (Text.whole text) else .ofText t

-- ==================================================== ends of entries

/-- Nothing stands behind the hyphen of an item. -/
def endsBlockEntry : Option Token → Bool
  | some .blockEntry | some .blockEnd => true
  | _ => false

/-- Nothing stands behind the hyphen of an item that is not indented. -/
def endsIndentlessEntry : Option Token → Bool
  | some .blockEntry | some .key | some .value | some .blockEnd => true
  | _ => false

/-- Nothing stands behind the sign of a key or a value. -/
def endsBlockMember : Option Token → Bool
  | some .key | some .value | some .blockEnd => true
  | _ => false

/-- Nothing stands where an item between brackets could. -/
def endsFlowItem : Option Token → Bool
  | some .flowEntry | some .flowSequenceEnd => true
  | _ => false

/-- Nothing stands where a member between braces could. -/
def endsFlowMember : Option Token → Bool
  | some .flowEntry | some .flowMappingEnd => true
  | _ => false

/-- The sign between a key and its value. -/
def isValueSign : Option Token → Bool
  | some .value => true
  | _ => false

/-- An empty node, if the next token ends the entry. -/
def orEmpty (ends : Option Token → Bool) (read : Read Nat) : Read Nat := do
  if ends (← peek) then add .empty else read

/-- A key, which a value's sign ends too. -/
def keyPart (ends : Option Token → Bool) (read : Read Nat) : Read Nat :=
  orEmpty (fun t => isValueSign t || ends t) read

/-- A value with its sign, if the sign is there. -/
def valuePart (ends : Option Token → Bool) (read : Read Nat) : Read Nat := do
  if isValueSign (← peek) then
    skip
    orEmpty ends read
  else add .empty

-- ==================================================== nodes

/-- A sequence, given how its items are read. -/
def sequenceOf (anchor tag? : Option String) (items : Read (List Nat)) : Read Nat := do
  let number ← addNamed anchor ⟨collectionTag .seq tag?, .sequence []⟩
  fill number (.sequence (← items))
  return number

/-- A mapping, given how its members are read. -/
def mappingOf (anchor tag? : Option String) (members : Read (List (Nat × Nat))) : Read Nat := do
  let number ← addNamed anchor ⟨collectionTag .map tag?, .mapping []⟩
  fill number (.mapping (← members))
  return number

/-- A node for a scalar. -/
def scalarOf (anchor tag? : Option String) (text : List CodePoint) (plain : Bool) : Read Nat :=
  addNamed anchor ⟨scalarTag text plain tag?, .scalar text⟩

mutual

/-- A node. `block` allows a block collection, `indentless` a sequence whose
entries are no deeper than the key before it. -/
def node (block indentless : Bool) : Nat → Read Nat
  | 0 => unexpected
  | fuel + 1 => do
    match ← peek with
    | some (.alias a) => do skip; ofAlias a
    | _ => do
      let p ← properties
      let tag? ← fullTag p.tag
      match ← peek, block, indentless with
      | some .blockEntry, _, true => sequenceOf p.anchor tag? (indentlessItems fuel)
      | some (.scalar text plain), _, _ => do skip; scalarOf p.anchor tag? text plain
      | some .flowSequence, _, _ => do skip; sequenceOf p.anchor tag? (flowItems true fuel)
      | some .flowMapping, _, _ => do skip; mappingOf p.anchor tag? (flowMembers true fuel)
      | some .blockSequence, true, _ => do skip; sequenceOf p.anchor tag? (blockItems fuel)
      | some .blockMapping, true, _ => do skip; mappingOf p.anchor tag? (blockMembers fuel)
      | _, _, _ =>
        if p.anchor.isSome || p.tag.isSome then scalarOf p.anchor tag? [] true else unexpected

/-- The entries of a block sequence, up to its end. -/
def blockItems : Nat → Read (List Nat)
  | 0 => unexpected
  | fuel + 1 => do
    match ← peek with
    | some .blockEntry => do
      skip
      let n ← orEmpty endsBlockEntry (node true false fuel)
      return n :: (← blockItems fuel)
    | some .blockEnd => do skip; return []
    | _ => unexpected

/-- The entries of a sequence at its parent's indentation. -/
def indentlessItems : Nat → Read (List Nat)
  | 0 => unexpected
  | fuel + 1 => do
    match ← peek with
    | some .blockEntry => do
      skip
      let n ← orEmpty endsIndentlessEntry (node true false fuel)
      return n :: (← indentlessItems fuel)
    | _ => return []

/-- The members of a block mapping, up to its end. -/
def blockMembers : Nat → Read (List (Nat × Nat))
  | 0 => unexpected
  | fuel + 1 => do
    match ← peek with
    | some .key => do
      skip
      let k ← keyPart endsBlockMember (node true true fuel)
      let v ← valuePart endsBlockMember (node true true fuel)
      return (k, v) :: (← blockMembers fuel)
    | some .blockEnd => do skip; return []
    | _ => unexpected

/-- The items of a sequence in brackets, up to its end; between two of them there
is a comma. -/
def flowItems (first : Bool) : Nat → Read (List Nat)
  | 0 => unexpected
  | fuel + 1 => do
    match ← peek, first with
    | some .flowSequenceEnd, _ => do skip; return []
    | some .flowEntry, false => do skip; flowItem fuel
    | _, false => unexpected
    | _, true => flowItem fuel

/-- The items from a place where one may start. A key makes an item a mapping of
one member. -/
def flowItem : Nat → Read (List Nat)
  | 0 => unexpected
  | fuel + 1 => do
    match ← peek with
    | some .flowSequenceEnd => do skip; return []
    | some .key => do
      skip
      let n ← add ⟨.map, .mapping []⟩
      let k ← keyPart endsFlowItem (node false false fuel)
      let v ← valuePart endsFlowItem (node false false fuel)
      fill n (.mapping [(k, v)])
      return n :: (← flowItems false fuel)
    | _ => do
      let n ← node false false fuel
      return n :: (← flowItems false fuel)

/-- The members of a mapping in brackets, up to its end; between two of them
there is a comma. -/
def flowMembers (first : Bool) : Nat → Read (List (Nat × Nat))
  | 0 => unexpected
  | fuel + 1 => do
    match ← peek, first with
    | some .flowMappingEnd, _ => do skip; return []
    | some .flowEntry, false => do skip; flowMember fuel
    | _, false => unexpected
    | _, true => flowMember fuel

/-- The members from a place where one may start. A node without a sign is a key
with an empty value. -/
def flowMember : Nat → Read (List (Nat × Nat))
  | 0 => unexpected
  | fuel + 1 => do
    match ← peek with
    | some .flowMappingEnd => do skip; return []
    | some .key => do
      skip
      let k ← keyPart endsFlowMember (node false false fuel)
      let v ← valuePart endsFlowMember (node false false fuel)
      return (k, v) :: (← flowMembers false fuel)
    | _ => do
      let n ← node false false fuel
      let v ← add .empty
      return (n, v) :: (← flowMembers false fuel)

end

-- ==================================================== documents

/-- The handles that every document has. -/
def defaultHandles : List (String × String) := [("!", "!"), ("!!", Tag.repository)]

/-- The directives in front of a document: a version of 1, once, and handles,
each once. -/
def directives : Bool → List (String × String) → List Token →
    Step (List (String × String) × List Token)
  | versioned, handles, .directive d :: rest =>
    match d with
    | .version major =>
      if versioned || major != 1 then malformed else directives true handles rest
    | .tag h start =>
      if handles.any fun k => k.1 == h then malformed
      else directives versioned ((h, start) :: handles) rest
    | .other => directives versioned handles rest
  | _, handles, rest => .ok (handles, rest)

/-- The mark that ends a document. -/
def isDocumentEnd : Token → Bool
  | .documentEnd => true
  | _ => false

/-- Past all marks that end a document. -/
def dropDocumentEnds : Read Unit :=
  modify fun r => { r with tokens := r.tokens.dropWhile isDocumentEnd }

/-- A token that stands outside of any document. -/
def endsDocument : Option Token → Bool
  | some (.directive _) | some .documentStart | some .documentEnd | some .streamEnd => true
  | _ => false

/-- Every token is passed by at most two calls that nest. -/
def fuelFor (ts : List Token) : Nat := 4 * ts.length + 8

/-- Takes the directives that come next. -/
def takeDirectives : Read Unit := do
  let r ← get
  let (handles, rest) ← directives false [] r.tokens
  set { r with tokens := rest, handles := handles ++ defaultHandles }

/-- The node of a document, behind which nothing but the end of the text may follow. -/
def only (read : Read Nat) : Read (Option Nat) := do
  let n ← read
  dropDocumentEnds
  match ← peek with
  | some .streamEnd => return some n
  | _ => do takeDirectives; unexpected

/-- The document whose start is marked, if there is one. -/
def marked (fuel : Nat) : Read (Option Nat) := do
  dropDocumentEnds
  match ← peek with
  | some .streamEnd => return none
  | _ =>
    takeDirectives
    match ← peek with
    | some .documentStart => do
      skip
      only (orEmpty endsDocument (node true false fuel))
    | _ => unexpected

/-- The document of a text, whose start need not be marked. -/
def document (fuel : Nat) : Read (Option Nat) := do
  match ← peek with
  | some (.directive _) | some .documentStart | some .streamEnd => marked fuel
  | _ => only (node true false fuel)

/-- The nodes of a text, and the number of its document's, if it has one. -/
def ofTokens (ts : List Token) : Step (Option Nat × Graph) := do
  let (root?, r) ← (document (fuelFor ts)).run ⟨ts, #[], [], defaultHandles⟩
  return (root?, r.nodes)

end Graph

end ApiAuthz.Yaml
