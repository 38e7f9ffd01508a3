/-
ModuleLint/Main.lean

The program.  It gathers what a run can look at, runs, and carries out what comes of
it: it prints, writes files and ends with the exit code.
-/
import ModuleLint.CommandLine.Inputs

namespace ModuleLint

/-- An entry of a file system as a part of a tree, with all that lies below it; links are left
out, and so are contents that are never looked at. -/
partial def loadTree (entry : IO.FS.DirEntry) : IO (Option FileEntry) := do
  match (← entry.path.symlinkMetadata).type with
  | .file =>
    if Inputs.isRead entry.fileName then return some (.file (← IO.FS.readBinFile entry.path))
    else return some (.file ByteArray.empty)
  | .dir =>
    let mut entries := []
    for below in ← entry.path.readDir do
      match ← loadTree below with
      | some e => entries := (below.fileName.toList, e) :: entries
      | none => pure ()
    return some (.directory entries.reverse)
  | _ => return none

/-- Adds what lies at and below a path, if anything is there. -/
def addTree (s : Surroundings) (path : Path.Text) : IO Surroundings := do
  let place := Inputs.place s path
  try
    match ← loadTree ⟨String.ofList (Path.ofNames place.dropLast),
        String.ofList (place.getLast?.getD [])⟩ with
    | some e => return { s with files := s.files.put place e }
    | none => return s
  catch _ => return s

/-- Adds a single file, if it is there. -/
def addFile (s : Surroundings) (path : Path.Text) : IO Surroundings := do
  let place := Inputs.place s path
  if (s.files.at? place).isSome then return s
  try
    let content ← IO.FS.readBinFile (String.ofList (Path.ofNames place))
    return { s with files := s.files.put place (.file content) }
  catch _ => return s

/-- What a run with the given arguments finds around it. -/
def gather (args : List String) : IO Surroundings := do
  let directory := (← IO.currentDir).toString.toList
  let mut environment := []
  for name in Inputs.variableNames do
    match ← IO.getEnv name with
    | some value => environment := (name, value) :: environment
    | none => pure ()
  let mut s : Surroundings := ⟨FileEntry.empty, directory, environment⟩
  s := { s with files := s.files.makeDirectory (Inputs.place s directory) }
  match Arguments.invocation (s.value? Program.configVariable) args with
  | .error _ => return s
  | .ok i =>
    for path in (Inputs.root? i).toList do
      s ← addTree s path
    for path in Inputs.files s i do
      s ← addFile s path
    for path in s.userRulesPath?.toList do
      s ← addFile s path
    return s

end ModuleLint

open ModuleLint

/-- **The program.** -/
def main (args : List String) : IO UInt32 := do
  let s ← gather args
  let (outcome, level) := Program.run s args .standard
  for (path, content) in outcome.writes do
    IO.FS.writeFile (String.ofList path) content
  IO.print outcome.output
  IO.eprint (outcome.messageText level)
  return UInt32.ofNat outcome.exitCode
