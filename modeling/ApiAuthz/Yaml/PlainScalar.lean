/-
Scalars without quotes. A plain scalar is a run of words on one or more lines;
between lines one break counts as a blank and further breaks as themselves. A
word ends at a colon that a blank follows, and inside brackets also at the
signs that structure them.

After each word the blanks and breaks behind it are passed, and if another word
starts there the scalar goes on with it; else it ended with the word, but the place
behind it is where the search for another one stopped (`parts`). Only spaces and
breaks are passed, so behind a tab the scalar does not go on. A document mark ends it,
and so does a comment, or, outside of brackets, a line that is not indented further
than what is around it. Whether a line has ended on the way is told as well, as a key may
start behind it.
-/
import ApiAuthz.Yaml.Cursor

namespace ApiAuthz.Yaml.PlainScalar

/-- What ends a plain scalar between brackets. -/
def isFlowSign (c : Char) : Bool :=
  c == ',' || c == '[' || c == ']' || c == '\x7b' || c == '\x7d'

/-- The word at the start of a text; `flow` says whether it is inside brackets. -/
def word (flow : Bool) : List Char → List Char
  | [] => []
  | c :: cs =>
    if isSpaceOrTab c || isBreak c then []
    else if c == ':' && (endsWord cs.head? || (flow && cs.head?.any isFlowSign)) then []
    else if flow && (c == '?' || isFlowSign c) then []
    else c :: word flow cs

/-- What stands between two words, as it counts; nothing if the scalar ends. -/
structure Gap where
  text : List Char
  after : Cursor
  /-- A line ended. -/
  broke : Bool

/-- Breaks and blanks after a line's end; none if a document mark ends them. -/
def breaks : Nat → List Char → Cursor → Option (List Char) × Cursor
  | 0, acc, c => (some acc.reverse, c)
  | fuel + 1, acc, c =>
    if c.sees ' ' then breaks fuel acc c.advance
    else
      match c.lineBreak? with
      | none => (some acc.reverse, c)
      | some (b, c) => if c.atDocumentMark then (none, c) else breaks fuel (b :: acc) c

/-- The gap at a place. -/
def gap (c : Cursor) : Gap :=
  let (blanks, c) := c.takeWhile (· == ' ')
  match c.lineBreak? with
  | none => ⟨blanks, c, false⟩
  | some (b, c) =>
    if c.atDocumentMark then ⟨[], c, true⟩
    else
      match breaks c.fuel [] c with
      | (none, c) => ⟨[], c, true⟩
      | (some more, c) =>
        ⟨(if b != '\n' then [b] else if more.isEmpty then [' '] else []) ++ more, c, true⟩

/-- The scalar's parts from a word on, last first, the place behind them, and
whether a line ended just before it. -/
def parts (flow : Bool) (indent : Int) :
    Nat → List (List Char) → List Char → Bool → Cursor → List (List Char) × Cursor × Bool
  | 0, acc, _, broke, c => (acc, c, broke)
  | fuel + 1, acc, before, broke, c =>
    let w := if c.sees '#' then [] else word flow c.rest
    if w.isEmpty then (acc, c, broke)
    else
      let g := gap (c.advanceBy w.length)
      let acc := w :: before :: acc
      if g.text.isEmpty || g.after.sees '#' || (!flow && (g.after.column : Int) < indent) then
        (acc, g.after, g.broke)
      else parts flow indent fuel acc g.text g.broke g.after

/-- The plain scalar at a place, the place behind it, and whether a line ended
just before that. Lines have to be indented at least so far. -/
def scan (flow : Bool) (indent : Int) (c : Cursor) : List Char × Cursor × Bool :=
  let (acc, c, broke) := parts flow indent c.fuel [] [] false c
  (acc.reverse.flatten, c, broke)

end ApiAuthz.Yaml.PlainScalar
