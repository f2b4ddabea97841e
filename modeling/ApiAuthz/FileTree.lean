/-
Files and directories. A tree lists what exists by its place: the parts of the
way from the present directory, or from a root. The starting points themselves
are directories that always exist. Operations fail the way a system does: on the
way to a place every step has to lead through a directory that exists.

# Places

A path is walked part by part. Two dots lead back, which is nowhere at a root, and
above the present directory as far as one likes (`step`). A text is walked as it
is written, with its empty parts and dots, so that a slash at the end asks for a
directory (`entryOfText`); a path has lost them (`entryOf`). Parts and paths have a
limit on their octets.

# Writing

Creating a directory creates what is missing on the way to it, from the inside out:
it is tried first, and only if something on the way is missing are the parents
created (`makeDirectoriesUpTo`). Directories that were created before a fault stay.
A file is written as a whole in place of what is there. A string of code points
that is no text has no octets, and its file is empty afterwards (`writePoints`),
since a file is opened, and emptied, before anything is written to it.

Rights, links and devices are left out: what exists can be read and written.
-/
import ApiAuthz.Fault
import ApiAuthz.FilePath
import ApiAuthz.Text.Classes
import ApiAuthz.Text.Utf8

namespace ApiAuthz

/-- What may be at a place. -/
inductive Entry where
  | directory
  | file (content : List UInt8)
  deriving DecidableEq

/-- The parts of the way to an entry. -/
abbrev Place := List String

/-- What exists, each thing beside its place. -/
structure FileTree where
  entries : List (Place × Entry)

namespace FileTree

/-- Nothing exists but the starting points. -/
def empty : FileTree := ⟨[]⟩

/-- The present directory, what is above it, and the roots. -/
def isStart (p : Place) : Bool := p.all fun part => part == ".." || part == "/" || part == "//"

/-- What exists at a place. -/
def entryAt? (t : FileTree) (p : Place) : Option Entry :=
  if isStart p then some .directory
  else (t.entries.find? fun e => e.1 == p).map Prod.snd

/-- Puts an entry at a place. -/
def put (p : Place) (e : Entry) (t : FileTree) : FileTree :=
  if t.entries.any fun x => x.1 == p then
    ⟨t.entries.map fun x => if x.1 == p then (p, e) else x⟩
  else ⟨t.entries ++ [(p, e)]⟩

-- ==================================================== finding places

/-- One step on the way: two dots lead back, at a root nowhere, and an empty part
or a single dot stays at the place. -/
def step (p : Place) (part : String) : Place :=
  if part == "" || part == "." then p
  else if part == ".." then
    match p.getLast? with
    | none => [".."]
    | some last =>
      if last == ".." then p ++ [".."] else if isStart [last] then p else p.dropLast
  else p ++ [part]

/-- Goes on from a place; every place on the way is a directory, and no part of the
way is too long. -/
def walk (t : FileTree) (p : Place) : List String → Except FileFault Place
  | [] => .ok p
  | part :: parts =>
    match t.entryAt? p with
    | some .directory =>
      if FilePath.isPartTooLong part then .error .nameTooLong else walk t (step p part) parts
    | some (.file _) => .error .notDirectory
    | none => .error .notFound

/-- The place a path leads to, whether anything is there or not. -/
def placeOf (t : FileTree) (p : FilePath) : Except FileFault Place :=
  if FilePath.isTooLong p.text then .error .nameTooLong
  else t.walk (if p.root == "" then [] else [p.root]) p.parts

/-- What is at a place, if it leads anywhere. -/
def entryAtPlace (t : FileTree) (p : Place) : Except FileFault Entry :=
  match t.entryAt? p with
  | some e => .ok e
  | none => .error .notFound

/-- What a path leads to. -/
def entryOf (t : FileTree) (p : FilePath) : Except FileFault Entry := do
  t.entryAtPlace (← t.placeOf p)

/-- What a path leads to as it is written. No text at all leads nowhere, and a
slash or a dot at the end asks for a directory. -/
def entryOfText (t : FileTree) (s : String) : Except FileFault Entry := do
  if s == "" then .error .notFound
  else if FilePath.isTooLong s then .error .nameTooLong
  else
    let root := FilePath.rootOf s.toList
    let parts := (List.splitOn '/' s.toList).map String.ofList
    t.entryAtPlace (← t.walk (if root == "" then [] else [root]) parts)

/-- There is a directory at this path. -/
def isDirectory (t : FileTree) (p : FilePath) : Bool :=
  match t.entryOf p with
  | .ok .directory => true
  | _ => false

/-- The outcome of an operation at a path that can be asked for. -/
def asked {α : Type} (p : FilePath) (outcome : Except FileFault α) : Attempt α :=
  if FilePath.holdsNull p.text then .error Fault.nullInPath
  else
    match outcome with
    | .ok a => .ok a
    | .error f => .error (.file f)

-- ==================================================== reading

/-- The content of a file. -/
def read (t : FileTree) (p : FilePath) : Except FileFault (List UInt8) := do
  match ← t.entryOf p with
  | .file content => return content
  | .directory => .error .isDirectory

/-- The text of a file's content, with line feeds for all line ends. -/
def textOf (content : List UInt8) : Attempt (List Char) :=
  match Text.Utf8.decode content with
  | .ok cs => .ok (Text.unifyLineEnds cs)
  | .error diagnosis => .error (.undecodable diagnosis)

/-- The text of a file. -/
def readText (t : FileTree) (p : FilePath) : Attempt (List Char) := do
  textOf (← asked p (t.read p))

-- ==================================================== writing

/-- Creates a directory in one that exists. -/
def makeDirectory (t : FileTree) (p : FilePath) : Except FileFault FileTree := do
  let place ← t.placeOf p
  match t.entryAt? place with
  | some _ => .error .alreadyExists
  | none => return t.put place .directory

/-- A failure to create does not matter where a directory already is. -/
def unlessDirectory (t : FileTree) (p : FilePath) (f : FileFault) : Option FileFault :=
  if t.isDirectory p then none else some f

/-- Creates a directory and what is missing on the way to it; `n` counts the
parts of the path that may have to be created. Directories made before a fault stay. -/
def makeDirectoriesUpTo : Nat → FileTree → FilePath → FileTree × Option FileFault
  | 0, t, p => (t, t.unlessDirectory p .notFound)
  | n + 1, t, p =>
    match t.makeDirectory p with
    | .ok t => (t, none)
    | .error .notFound =>
      match makeDirectoriesUpTo n t p.parent with
      | (t, some f) => (t, some f)
      | (t, none) =>
        match t.makeDirectory p with
        | .ok t => (t, none)
        | .error .notFound => (t, some .notFound)
        | .error f => (t, t.unlessDirectory p f)
    | .error f => (t, t.unlessDirectory p f)

/-- Creates a directory and what is missing on the way to it: the files afterwards,
and the fault, if it has one. -/
def makeDirectories (t : FileTree) (p : FilePath) : FileTree × Option Fault :=
  if FilePath.holdsNull p.text then (t, some Fault.nullInPath)
  else
    let (t, fault?) := makeDirectoriesUpTo p.parts.length t p
    (t, fault?.map .file)

/-- Writes a file, in place of the one that is there, if any. -/
def write (t : FileTree) (p : FilePath) (content : List UInt8) : Except FileFault FileTree := do
  let place ← t.placeOf p
  match t.entryAt? place with
  | some .directory => .error .isDirectory
  | _ => return t.put place (.file content)

/-- Writes a text file. -/
def writeText (t : FileTree) (p : FilePath) (text : String) : Attempt FileTree :=
  asked p (t.write p (Text.Utf8.encode text))

/-- Writes a string of code points: the files afterwards, and the fault, if it has one. A
file is emptied before it is written, so one that cannot take the string is left empty. -/
def writePoints (t : FileTree) (p : FilePath) (ps : List CodePoint) : FileTree × Option Fault :=
  match Text.Utf8.encodePoints ps with
  | .ok content =>
    match asked p (t.write p content) with
    | .ok t => (t, none)
    | .error f => (t, some f)
  | .error diagnosis =>
    match asked p (t.write p []) with
    | .ok t => (t, some (.unencodable diagnosis))
    | .error f => (t, some f)

/-- What a later tree has at places where this one has nothing. -/
def added (before after : FileTree) : List (Place × Entry) :=
  after.entries.filter fun e => (before.entryAt? e.1).isNone

/-- What a later tree has that this one has not, or has otherwise. -/
def changed (before after : FileTree) : List (Place × Entry) :=
  after.entries.filter fun e => before.entryAt? e.1 != some e.2

end FileTree

end ApiAuthz
