/-
The tokens of a YAML text. Indentation becomes tokens: a block collection is
opened by the first of its entries and closed by a line that is indented less.
A key without a sign is recognised only at the colon behind it, so its place is
remembered and the token of the key put there later.

`Scan.step` finds the next token; `Token.ofText` collects all of them. If the
text stops being one, its flaw is the last token, and no token is found from
which on a key was still possible.

# The state

A `Scan` has the place in the text, the tokens so far, the number of open
brackets, the indentations around the place, and the places where a key may have
started, one for each number of open brackets. Between brackets indentation means
nothing: blocks are neither opened nor closed there (`unindent`).

# Possible keys

A key takes one line and 1024 characters at most, so a possible one is dropped
when the scan has come further (`isStale`). In a block that starts at the column
of the key nothing else may stand there, and to drop such a key is a flaw
(`PossibleKey.required`). At the colon the sign of the key is put in front of all
tokens that came after its place, and with it the sign of a block, if the key is
indented further than what is around it (`valueSign`).

# Flaws

Tokens may be read while later ones are still searched for. So a text is as good
as its tokens up to the flaw, but a token may still get a key in front of it as
long as one is possible: only what stands before the first possible key is
certain (`certain`).
-/
import ApiAuthz.Yaml.BlockScalar
import ApiAuthz.Yaml.PlainScalar
import ApiAuthz.Yaml.Property
import ApiAuthz.Yaml.QuotedScalar

namespace ApiAuthz.Yaml

/-- What the scanner finds; blocks have tokens of their own where indentation opens and ends them.
-/
inductive Token where
  | directive (d : Directive)
  | documentStart
  | documentEnd
  | blockSequence
  | blockMapping
  | blockEnd
  | flowSequence
  | flowSequenceEnd
  | flowMapping
  | flowMappingEnd
  | blockEntry
  | flowEntry
  | key
  | value
  | alias (name : String)
  | anchor (name : String)
  | tag (t : WrittenTag)
  | scalar (text : List CodePoint) (plain : Bool)
  | streamEnd
  | flaw (f : Flaw)

/-- A place where a key may have started. -/
structure PossibleKey where
  /-- How many tokens came before it. -/
  before : Nat
  /-- In a block it is the only thing that may stand there. -/
  required : Bool
  index : Nat
  line : Nat
  column : Nat

/-- Where the scanner is, and what it has found. -/
structure Scan where
  place : Cursor
  /-- The tokens found, last first. -/
  tokens : List Token
  count : Nat
  /-- How many brackets are open. -/
  depth : Nat
  indent : Int
  /-- The indentations around the present one, innermost first. -/
  outer : List Int
  keyAllowed : Bool
  /-- The possible keys by the number of brackets open at each. -/
  keys : List (Nat × PossibleKey)

namespace Scan

/-- The scanner before the text. -/
def start (text : List Char) : Scan :=
  { place := .start text, tokens := [], count := 0, depth := 0, indent := -1, outer := [],
    keyAllowed := true, keys := [] }

/-- Between brackets, where indentation means nothing. -/
def inFlow (s : Scan) : Bool := s.depth != 0

/-- One token more. -/
def push (t : Token) (s : Scan) : Scan :=
  { s with tokens := t :: s.tokens, count := s.count + 1 }

/-- Puts a token behind the first `before` ones. -/
def insert (before : Nat) (t : Token) (s : Scan) : Scan :=
  let later := s.count - before
  { s with tokens := s.tokens.take later ++ t :: s.tokens.drop later, count := s.count + 1 }

/-- Pushes a token of so many characters. -/
def take (n : Nat) (t : Token) (s : Scan) : Scan :=
  { s.push t with place := s.place.advanceBy n }

-- ==================================================== possible keys

/-- A place that can no longer be a key: keys take one line and 1024 characters at most. -/
def isStale (s : Scan) (k : PossibleKey) : Bool :=
  k.line != s.place.line || 1024 < s.place.index - k.index

/-- A key ends on the line it starts on, within 1024 characters. -/
def dropStaleKeys (s : Scan) : Step Scan :=
  if s.keys.any fun k => s.isStale k.2 && k.2.required then malformed
  else .ok { s with keys := s.keys.filter fun k => !s.isStale k.2 }

/-- No key starts where one might have, between the present brackets. -/
def forgetKey (s : Scan) : Step Scan :=
  match s.keys.find? fun k => k.1 == s.depth with
  | none => .ok s
  | some k =>
    if k.2.required then malformed
    else .ok { s with keys := s.keys.filter fun k => k.1 != s.depth }

/-- A key may start here. -/
def rememberKey (s : Scan) : Step Scan :=
  if !s.keyAllowed then .ok s
  else do
    let s' ← s.forgetKey
    let key : PossibleKey :=
      { before := s.count, required := !s.inFlow && s.indent == (s.place.column : Int),
        index := s.place.index, line := s.place.line, column := s.place.column }
    return { s' with keys := (s.depth, key) :: s'.keys }

-- ==================================================== indentation

/-- Closes the blocks that are indented further than a column. -/
def closeBlocks (column : Int) : Nat → Scan → Scan
  | 0, s => s
  | fuel + 1, s =>
    if s.indent ≤ column then s
    else
      match s.outer with
      | [] => { s.push .blockEnd with indent := -1 }
      | i :: outer => closeBlocks column fuel { s.push .blockEnd with indent := i, outer := outer }

/-- Brackets suspend indentation. -/
def unindent (column : Int) (s : Scan) : Scan :=
  if s.inFlow then s else closeBlocks column (s.outer.length + 1) s

/-- A deeper column opens a block. -/
def opensBlock (column : Nat) (s : Scan) : Bool := s.indent < (column : Int)

/-- Goes into a block that starts at a column. -/
def enterBlock (column : Nat) (s : Scan) : Scan :=
  { s with outer := s.indent :: s.outer, indent := column }

/-- Opens a block here if the column is deeper, with this token. -/
def openBlock (t : Token) (s : Scan) : Scan :=
  if s.opensBlock s.place.column then (s.enterBlock s.place.column).push t else s

-- ==================================================== tokens

/-- Blanks, comments and line breaks before the next token. A line break outside
brackets allows a key. -/
def skipToToken : Nat → Scan → Scan
  | 0, s => s
  | fuel + 1, s =>
    let c := s.place.skipWhile (· == ' ')
    let c := if c.sees '#' then c.skipWhile fun ch => !isBreak ch else c
    match c.lineBreak? with
    | some (_, c) =>
      skipToToken fuel { s with place := c, keyAllowed := s.keyAllowed || !s.inFlow }
    | none => { s with place := c }

/-- A byte order mark at the very start is passed over. -/
def skipMark (s : Scan) : Scan :=
  if s.place.index == 0 && s.place.sees '\ufeff' then { s with place := s.place.advance } else s

/-- The end of the text, which ends all blocks. -/
def streamEnd (s : Scan) : Step Scan := do
  let s ← (s.unindent (-1)).forgetKey
  return s.push .streamEnd

/-- A mark of a document's start or end. -/
def documentMark (t : Token) (s : Scan) : Step Scan := do
  let s ← (s.unindent (-1)).forgetKey
  return { s.take 3 t with keyAllowed := false }

/-- A line that says how to read the document behind it. -/
def directive (s : Scan) : Step Scan := do
  let s ← (s.unindent (-1)).forgetKey
  let (d, c) ← Property.directive s.place
  return { s.push (.directive d) with place := c, keyAllowed := false }

/-- An opening bracket, behind which there may be a key; it may be the start of one itself. -/
def openBracket (t : Token) (s : Scan) : Step Scan := do
  let s ← s.rememberKey
  return { s.take 1 t with depth := s.depth + 1, keyAllowed := true }

/-- A closing bracket; the brackets may be a key together. -/
def closeBracket (t : Token) (s : Scan) : Step Scan := do
  let s ← s.forgetKey
  return { s.take 1 t with depth := s.depth - 1, keyAllowed := false }

/-- A comma between brackets. -/
def flowEntry (s : Scan) : Step Scan := do
  let s ← s.forgetKey
  return { s.take 1 .flowEntry with keyAllowed := true }

/-- A hyphen before an item, which may open a block. -/
def blockEntry (s : Scan) : Step Scan := do
  if !s.inFlow && !s.keyAllowed then malformed
  else
    let s := if s.inFlow then s else s.openBlock .blockSequence
    let s ← s.forgetKey
    return { s.take 1 .blockEntry with keyAllowed := true }

/-- A question mark before a key, which may open a block. -/
def keySign (s : Scan) : Step Scan := do
  if !s.inFlow && !s.keyAllowed then malformed
  else
    let s := if s.inFlow then s else s.openBlock .blockMapping
    let s' ← s.forgetKey
    return { s'.take 1 .key with keyAllowed := !s.inFlow }

/-- A colon makes a key of what may be one; otherwise it stands for an empty key. -/
def valueSign (s : Scan) : Step Scan :=
  match s.keys.find? fun k => k.1 == s.depth with
  | some (_, k) =>
    let s := { s with keys := s.keys.filter fun k => k.1 != s.depth }
    let s := s.insert k.before .key
    let s :=
      if !s.inFlow && s.opensBlock k.column then
        (s.enterBlock k.column).insert k.before .blockMapping
      else s
    .ok { s.take 1 .value with keyAllowed := false }
  | none =>
    if !s.inFlow && !s.keyAllowed then malformed
    else
      let s := if s.inFlow then s else s.openBlock .blockMapping
      .ok { s.take 1 .value with keyAllowed := !s.inFlow }

/-- A token that may be the start of a key. -/
def keyed (read : Cursor → Step (Token × Cursor)) (s : Scan) : Step Scan := do
  let s ← s.rememberKey
  let (t, c) ← read s.place
  return { s.push t with place := c, keyAllowed := false }

/-- The name of an anchor, met again. -/
def readAlias (c : Cursor) : Step (Token × Cursor) := do
  let (name, c) ← Property.anchorName c
  return (.alias name, c)

/-- The name that a node is given. -/
def readAnchor (c : Cursor) : Step (Token × Cursor) := do
  let (name, c) ← Property.anchorName c
  return (.anchor name, c)

/-- The tag that a node is given. -/
def readTag (c : Cursor) : Step (Token × Cursor) := do
  let (t, c) ← Property.tag c
  return (.tag t, c)

/-- A scalar between quotes. -/
def readQuoted (double : Bool) (c : Cursor) : Step (Token × Cursor) := do
  let (text, c) ← QuotedScalar.scan double c
  return (.scalar text false, c)

/-- A scalar of indented lines, which is never a key. -/
def blockScalar (folded : Bool) (s : Scan) : Step Scan := do
  let s ← s.forgetKey
  let (text, c) ← BlockScalar.scan folded s.indent s.place
  return { s.push (.scalar (text.map .char) false) with place := c, keyAllowed := true }

/-- A line break behind a plain scalar allows a key. -/
def plainScalar (s : Scan) : Step Scan := do
  let s ← s.rememberKey
  let (text, c, broke) := PlainScalar.scan s.inFlow (s.indent + 1) s.place
  return { s.push (.scalar (text.map .char) true) with place := c, keyAllowed := broke }

/-- Characters that a plain scalar cannot start with. -/
def isIndicator (c : Char) : Bool := "-?:,[]\x7b\x7d#&*!|>'\"%@\u0060".toList.contains c

/-- A plain scalar may start with this character: any but a sign, and some signs if a word goes on
behind them. -/
def startsPlain (s : Scan) (ch : Char) (next : Option Char) : Bool :=
  !(isIndicator ch || isSpaceOrTab ch || isBreak ch) ||
    (!endsWord next && (ch == '-' || (!s.inFlow && (ch == '?' || ch == ':'))))

/-- The token at a place that is neither blank nor the end. -/
def token (s : Scan) (ch : Char) (next : Option Char) : Step Scan :=
  let signed := s.inFlow || endsWord next
  if ch == '%' && s.place.column == 0 then s.directive
  else if s.place.column == 0 && s.place.atTriple '-' then s.documentMark .documentStart
  else if s.place.column == 0 && s.place.atTriple '.' then s.documentMark .documentEnd
  else if ch == '[' then s.openBracket .flowSequence
  else if ch == '\x7b' then s.openBracket .flowMapping
  else if ch == ']' then s.closeBracket .flowSequenceEnd
  else if ch == '\x7d' then s.closeBracket .flowMappingEnd
  else if ch == ',' then s.flowEntry
  else if ch == '-' && endsWord next then s.blockEntry
  else if ch == '?' && signed then s.keySign
  else if ch == ':' && signed then s.valueSign
  else if ch == '*' then s.keyed readAlias
  else if ch == '&' then s.keyed readAnchor
  else if ch == '!' then s.keyed readTag
  else if ch == '|' && !s.inFlow then s.blockScalar false
  else if ch == '>' && !s.inFlow then s.blockScalar true
  else if ch == '\'' then s.keyed (readQuoted false)
  else if ch == '"' then s.keyed (readQuoted true)
  else if s.startsPlain ch next then s.plainScalar
  else malformed

/-- The scan with its next tokens. -/
def step (s : Scan) : Step Scan := do
  let s := skipToToken s.place.fuel s.skipMark
  let s ← s.dropStaleKeys
  let s := s.unindent s.place.column
  match s.place.rest with
  | [] => s.streamEnd
  | ch :: rest => s.token ch rest.head?

/-- The tokens that are certain: those before the first place where a key is still
possible. -/
def certain (s : Scan) : List Token :=
  let keys := s.keys.filter fun k => !s.isStale k.2
  s.tokens.reverse.take (keys.foldl (fun n k => min n k.2.before) s.count)

/-- Steps until the end of the text or a flaw. -/
def run : Nat → Scan → List Token
  | 0, s => s.tokens.reverse
  | fuel + 1, s =>
    match s.step with
    | .error f => s.certain ++ [.flaw f]
    | .ok s' =>
      match s'.tokens with
      | .streamEnd :: _ => s'.tokens.reverse
      | _ => run fuel s'

end Scan

/-- The tokens of a text. Every step but the last takes a character at least. -/
def Token.ofText (text : List Char) : List Token :=
  Scan.run (text.length + 2) (Scan.start text)

end ApiAuthz.Yaml
