/-
Scalars in blocks. The sign is followed by an optional indentation and an
optional rule for the last line breaks: keep one, keep none, keep all. A literal
block keeps its lines; a folded one joins two lines that both start with no
blank.

Without an indentation in the header it is that of the deepest of the empty lines
at the start, or of the first line that is not empty, whichever is more, and at
least one deeper than what is around the block (`leading`, `header`). The lines
that are indented so far belong to the block, with everything on them; the first
one that is indented less ends it. Line breaks between two lines are collected and
put down with the next line, so those behind the last line are left over for the
rule (`lines`).
-/
import ApiAuthz.Yaml.Cursor

namespace ApiAuthz.Yaml.BlockScalar

/-- Which of the last line breaks belong to the scalar. -/
inductive Chomping where
  | clip
  | strip
  | keep
  deriving DecidableEq

/-- What stands behind the sign of a block scalar. -/
structure Header where
  chomping : Chomping
  /-- How much deeper than its parent the block is, if that is given. -/
  increment : Option Nat

-- ==================================================== header

/-- How the breaks at the end are to be treated, by its sign. -/
def chomping? : Option Char → Option Chomping
  | some '+' => some .keep
  | some '-' => some .strip
  | _ => none

/-- The digit that gives the indentation. -/
def digit? : Option Char → Option Nat
  | some c => if c.isDigit then some (c.toNat - '0'.toNat) else none
  | none => none

/-- The header behind its sign: the two parts in either order. An indentation of
zero is refused. -/
def header (c : Cursor) : Step (Header × Cursor) :=
  let (first?, c) := match chomping? c.peek? with
    | some k => (some k, c.advance)
    | none => (none, c)
  let (increment, c) := match digit? c.peek? with
    | some n => (some n, c.advance)
    | none => (none, c)
  let (second?, c) := match first?, increment, chomping? c.peek? with
    | none, some _, some k => (some k, c.advance)
    | _, _, _ => (none, c)
  if increment == some 0 || !endsName c.peek? then malformed
  else
    match c.endOfLine with
    | .error f => .error f
    | .ok c => .ok (⟨(first?.orElse fun _ => second?).getD .clip, increment⟩, c)

-- ==================================================== lines

/-- Blank lines before the first line with text: their breaks and the greatest
column that blanks reach. -/
def leading : Nat → List Char → Nat → Cursor → List Char × Nat × Cursor
  | 0, acc, deepest, c => (acc.reverse, deepest, c)
  | fuel + 1, acc, deepest, c =>
    if c.sees ' ' then leading fuel acc (max deepest c.advance.column) c.advance
    else
      match c.lineBreak? with
      | some (b, c) => leading fuel (b :: acc) deepest c
      | none => (acc.reverse, deepest, c)

/-- Blanks up to a column. -/
def indentTo (indent : Nat) : Nat → Cursor → Cursor
  | 0, c => c
  | fuel + 1, c => if c.column < indent && c.sees ' ' then indentTo indent fuel c.advance else c

/-- The breaks of blank lines, and the place in the next line up to the column. -/
def breaks (indent : Nat) : Nat → List Char → Cursor → List Char × Cursor
  | 0, acc, c => (acc.reverse, c)
  | fuel + 1, acc, c =>
    let c := indentTo indent indent c
    match c.lineBreak? with
    | some (b, c) => breaks indent fuel (b :: acc) c
    | none => (acc.reverse, c)

/-- Breaks from a place on, with the lines between them indented no deeper than the block; the rest
of the text is fuel enough. -/
def breaksFrom (indent : Nat) (c : Cursor) : List Char × Cursor :=
  breaks indent c.fuel [] c

/-- The lines of a block: their text, last part first, then the break that ends
the last of them, the breaks behind it, and the place. -/
structure Body where
  parts : List (List Char)
  lastBreak : List Char
  trailing : List Char
  after : Cursor

/-- The line goes on with a blank, so it is not folded with the one before. -/
def startsBlank (c : Cursor) : Bool := c.peek?.any isSpaceOrTab

/-- The lines from a place that is at the column, if there is text. -/
def lines (folded : Bool) (indent : Nat) :
    Nat → List (List Char) → List Char → Cursor → Body
  | 0, acc, pending, c => ⟨acc, [], pending, c⟩
  | fuel + 1, acc, pending, c =>
    if c.column != indent || c.atEnd then ⟨acc, [], pending, c⟩
    else
      let blank := startsBlank c
      let (text, c) := c.takeWhile fun ch => !isBreak ch
      let acc := text :: pending :: acc
      let (ending, c) := match c.lineBreak? with
        | some (b, c) => ([b], c)
        | none => ([], c)
      let (more, c) := breaksFrom indent c
      if c.column != indent || c.atEnd then ⟨acc, ending, more, c⟩
      else
        let between :=
          if folded && ending == ['\n'] && !blank && !startsBlank c then
            (if more.isEmpty then [' '] else [])
          else ending
        lines folded indent fuel (between :: acc) more c

/-- The scalar at a place, where its sign is, in a block with this indentation,
and the place behind it. -/
def scan (folded : Bool) (parent : Int) (c : Cursor) : Step (List Char × Cursor) :=
  match header c.advance with
  | .error f => .error f
  | .ok (h, c) =>
    let least := (max (parent + 1) 1).toNat
    let (pending, indent, c) := match h.increment with
      | none =>
        let (pending, deepest, c) := leading c.fuel [] 0 c
        (pending, max least deepest, c)
      | some n =>
        let indent := least + n - 1
        let (pending, c) := breaksFrom indent c
        (pending, indent, c)
    let body := lines folded indent c.fuel [] pending c
    let tail := match h.chomping with
      | .strip => []
      | .clip => body.lastBreak
      | .keep => body.lastBreak ++ body.trailing
    .ok ((tail :: body.parts).reverse.flatten, body.after)

end ApiAuthz.Yaml.BlockScalar
