/-
The program: a run of the command line on the files there are. Only what the
arguments and the settings mention is looked at; afterwards whatever the run has
added or changed is written.
-/
import ApiAuthz.CommandLine.Run

namespace ApiAuthz.CommandLine

-- ==================================================== looking at files

/-- What is at a path: octets, a directory, or nothing. What cannot be read
counts as a directory. -/
def entryThere (path : String) : IO (Option Entry) := do
  try
    let content ← IO.FS.readBinFile path
    return some (.file content.toList)
  catch
    | .noFileOrDirectory .. => return none
    | _ => return some .directory

/-- A tree with what is on the way to a path, as far as the way leads. -/
def lookAt (t : FileTree) (p : FilePath) : IO FileTree :=
  (List.range p.parts.length).foldlM (fun t n => do
    let part : FilePath := { p with parts := p.parts.take (n + 1) }
    match t.placeOf part with
    | .error _ => return t
    | .ok place =>
      match ← entryThere part.text with
      | some e => return t.put place e
      | none => return t) t

/-- The files that a run may look at. Settings name a directory, so the paths are
asked for again once the files with settings are known. -/
def filesFor (arguments : List String) : IO FileTree := do
  let t ← (pathsOf .empty arguments).foldlM lookAt .empty
  (pathsOf t arguments).foldlM lookAt t

-- ==================================================== keeping changes

/-- Writes what a run has put at a place. -/
def save (e : Place × Entry) : IO Unit :=
  let path := joined "/" e.1
  match e.2 with
  | .directory => IO.FS.createDir path
  | .file content => IO.FS.writeBinFile path ⟨content.toArray⟩

end ApiAuthz.CommandLine

open ApiAuthz in
/-- Runs the command line with these arguments. -/
def main (arguments : List String) : IO UInt32 := do
  let before ← CommandLine.filesFor arguments
  let o := CommandLine.run before (← IO.getEnv "CEDAR_NAMESPACE") arguments
  (before.changed o.files).forM CommandLine.save
  if o.exitCode = 0 then IO.print o.output else IO.eprint o.output
  if o.uncaught.isSome then IO.eprintln "The run was ended by a fault."
  return UInt32.ofNat o.exitCode
