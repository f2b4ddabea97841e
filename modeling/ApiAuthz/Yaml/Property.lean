/-
What stands in front of nodes and documents: anchors and aliases, tags, and
directives.

A name ends where a blank, a line end or a sign of structure comes, and something
else behind it is malformed (`anchorName`). A tag is written in full between angle
brackets, or by a handle and a rest; octets may be escaped in it, and they have to
be UTF-8 together (`uriParts`). A lone exclamation mark is a tag with nothing
behind it.

A directive stands on a line of its own in front of a document. One tells the
version, whose numbers have a limit on their digits, one declares a handle for
tags, and every other one is passed over as a line (`directive`). Whether they fit
together is not asked here.
-/
import ApiAuthz.Json.Reader
import ApiAuthz.Text.Utf8
import ApiAuthz.Yaml.Cursor

namespace ApiAuthz.Yaml

/-- A tag as written: a handle to be looked up, if it has one, and the rest. -/
structure WrittenTag where
  handle : Option String
  suffix : String
  deriving DecidableEq

/-- A line in front of a document that says how to read it. -/
inductive Directive where
  | version (major : Nat)
  | tag (handle start : String)
  | other
  deriving DecidableEq

namespace Property

-- ==================================================== names

/-- What may follow the name of an anchor or an alias. -/
def followsAnchor : Option Char → Bool
  | none => true
  | some c => endsWord (some c) || "?:,]\x7d%@\u0060".toList.contains c

/-- The name of an anchor or an alias, whose sign is at the place. -/
def anchorName (c : Cursor) : Step (String × Cursor) :=
  let (name, c) := c.advance.takeWhile isNameChar
  if name.isEmpty || !followsAnchor c.peek? then malformed
  else .ok (String.ofList name, c)

-- ==================================================== tags

/-- What stands for itself in a tag. -/
def isUriChar (c : Char) : Bool :=
  c.isAlphanum || "-;/?:@&=+$,_.!~*'()[]".toList.contains c

/-- The octets of escapes at the start of a text, and how many there are. -/
def escapedOctets : List Char → Option (List UInt8)
  | '%' :: a :: b :: rest => do
    let a ← Json.hexDigit? a
    let b ← Json.hexDigit? b
    let more ← escapedOctets rest
    return UInt8.ofNat (a * 16 + b) :: more
  | '%' :: _ => none
  | _ => some []

/-- The parts of a tag's text, last first, and the place behind it. -/
def uriParts : Nat → List (List Char) → Cursor → Step (List (List Char) × Cursor)
  | 0, acc, c => .ok (acc, c)
  | fuel + 1, acc, c =>
    if c.sees '%' then
      match escapedOctets c.rest with
      | none => malformed
      | some octets =>
        match Text.Utf8.decode octets with
        | .error _ => malformed
        | .ok text => uriParts fuel (text :: acc) (c.advanceBy (3 * octets.length))
    else
      let (text, after) := c.takeWhile isUriChar
      if text.isEmpty then .ok (acc, c) else uriParts fuel (text :: acc) after

/-- The text of a tag, which may not be empty. -/
def uri (c : Cursor) : Step (String × Cursor) :=
  match uriParts c.fuel [] c with
  | .error f => .error f
  | .ok (parts, c) =>
    if parts.isEmpty then malformed else .ok (String.ofList parts.reverse.flatten, c)

/-- A handle: an exclamation mark, and a name with another one, if there is more
than a blank. -/
def handle (c : Cursor) : Step (String × Cursor) :=
  if !c.sees '!' then malformed
  else if c.advance.sees ' ' then .ok ("!", c.advance)
  else
    let (name, c) := c.advance.takeWhile isNameChar
    if c.sees '!' then .ok (String.ofList ('!' :: name ++ ['!']), c.advance)
    else malformed

/-- A second exclamation mark comes before the word ends. -/
def hasHandle (text : List Char) : Bool :=
  (text.takeWhile fun ch => !endsName (some ch)).contains '!'

/-- A handle may be a lone exclamation mark only in a directive. -/
def shorthand (c : Cursor) : Step (WrittenTag × Cursor) :=
  let handle? : Step (String × Cursor) :=
    if hasHandle (c.rest.drop 1) then handle c else .ok ("!", c.advance)
  match handle? with
  | .error f => .error f
  | .ok (h, c) =>
    match uri c with
    | .error f => .error f
    | .ok (suffix, c) => .ok (⟨some h, suffix⟩, c)

/-- The tag at a place, and the place behind it. -/
def tag (c : Cursor) : Step (WrittenTag × Cursor) :=
  let written : Step (WrittenTag × Cursor) :=
    match (c.rest.drop 1).head? with
    | some '<' =>
      match uri (c.advanceBy 2) with
      | .error f => .error f
      | .ok (text, c) => if c.sees '>' then .ok (⟨none, text⟩, c.advance) else malformed
    | next => if endsWord next then .ok (⟨none, "!"⟩, c.advance) else shorthand c
  match written with
  | .error f => .error f
  | .ok (t, c) => if endsName c.peek? then .ok (t, c) else malformed

-- ==================================================== directives

/-- A number in a version. -/
def number (c : Cursor) : Step (Nat × Cursor) :=
  let (digits, c) := c.takeWhile Char.isDigit
  if digits.isEmpty then malformed
  else if DigitLimit.digits < digits.length then
    .error (.unreadable (DigitLimit.unreadWords digits.length))
  else .ok (Json.natOf digits, c)

/-- A version of YAML; only its first number matters. -/
def version (c : Cursor) : Step (Directive × Cursor) := do
  let (major, c) ← number (c.skipWhile (· == ' '))
  if !c.sees '.' then malformed
  else
    let (_, c) ← number c.advance
    if endsName c.peek? then return (.version major, c) else malformed

/-- A handle, and the start of the tags that it stands for. -/
def tagDirective (c : Cursor) : Step (Directive × Cursor) := do
  let (h, c) ← handle (c.skipWhile (· == ' '))
  if !c.sees ' ' then malformed
  else
    let (start, c) ← uri (c.skipWhile (· == ' '))
    if endsName c.peek? then return (.tag h start, c) else malformed

/-- The directive at a place, and the place in the next line. -/
def directive (c : Cursor) : Step (Directive × Cursor) := do
  let (name, c) := c.advance.takeWhile isNameChar
  if name.isEmpty || !endsName c.peek? then malformed
  else
    let (d, c) ←
      if name = "YAML".toList then version c
      else if name = "TAG".toList then tagDirective c
      else .ok (Directive.other, c.skipWhile fun ch => !isBreak ch)
    return (d, ← c.endOfLine)

end Property

end ApiAuthz.Yaml
