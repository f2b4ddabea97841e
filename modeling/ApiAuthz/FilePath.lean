/-
Paths of files. A path is its root, if it is absolute, and its parts; empty
parts and single dots do not count, double dots do. Two slashes at the start are
a root of their own, three or more are one.
-/
import ApiAuthz.Value.Display

namespace ApiAuthz

/-- A path without its empty and single-dot parts; the root is empty for a relative one. -/
structure FilePath where
  root : String
  parts : List String
  deriving DecidableEq

namespace FilePath

/-- The present directory. -/
def here : FilePath := ⟨"", []⟩

/-- The root that a text starts with. -/
def rootOf (cs : List Char) : String :=
  match (cs.takeWhile (· == '/')).length with
  | 0 => ""
  | 2 => "//"
  | _ => "/"

/-- A part that is kept: an empty one and a single dot lead nowhere. -/
def isPart (cs : List Char) : Bool := !cs.isEmpty && cs != ['.']

/-- The path that a text stands for. -/
def ofString (s : String) : FilePath :=
  ⟨rootOf s.toList, ((List.splitOn '/' s.toList).filter isPart).map String.ofList⟩

-- ==================================================== limits

/-- The most octets that a part of a path may have. -/
def longestPart : Nat := 255

/-- The most octets that a path may have. -/
def longestPath : Nat := 4095

/-- No file system takes a part of so many octets. -/
def isPartTooLong (part : String) : Bool := longestPart < part.utf8ByteSize

/-- No file system takes a path of so many octets. -/
def isTooLong (path : String) : Bool := longestPath < path.utf8ByteSize

/-- A path with a null character leads nowhere, and cannot even be asked for. -/
def holdsNull (path : String) : Bool := path.toList.contains '\x00'

-- ==================================================== paths as text

/-- The path as text; the present directory is a dot. -/
def text (p : FilePath) : String :=
  if p.root == "" && p.parts.isEmpty then "." else p.root ++ joined "/" p.parts

/-- A path below this one. -/
def child (p : FilePath) (name : String) : FilePath := { p with parts := p.parts ++ [name] }

/-- The path one level up; that of a root is the root. -/
def parent (p : FilePath) : FilePath := { p with parts := p.parts.dropLast }

end FilePath

end ApiAuthz
