/-
ModuleLint/Files/FileTree.lean

Trees of files.  A directory holds entries under names, and a place in a tree is the
list of names that leads to it.  A path is resolved to such a place step by step:
each step but the last has to lead to a directory, and `..` leads back.
-/
import ModuleLint.Files.Path

namespace ModuleLint

/-- **A file or a directory.** -/
inductive FileEntry where
  | file (content : ByteArray)
  | directory (entries : List (List Char × FileEntry))
  deriving Inhabited

/-- Why a path cannot be used. -/
inductive FileProblem where
  | missing
  | notDirectory
  | isDirectory
  | notText
  deriving DecidableEq, Repr, Inhabited

namespace FileProblem

/-- The wording of a problem. -/
def message : FileProblem → String
  | .missing => "No such file or directory (os error 2)"
  | .notDirectory => "Not a directory (os error 20)"
  | .isDirectory => "Is a directory (os error 21)"
  | .notText => "stream did not contain valid UTF-8"

end FileProblem

namespace FileEntry

/-- A directory without entries. -/
def empty : FileEntry := .directory []

/-- The entries of a directory. -/
def entries : FileEntry → List (List Char × FileEntry)
  | .file _ => []
  | .directory entries => entries

/-- The entry under a name. -/
def child? (name : List Char) (e : FileEntry) : Option FileEntry :=
  (e.entries.find? fun entry => entry.1 == name).map Prod.snd

/-- The content of a file. -/
def content? : FileEntry → Option ByteArray
  | .file content => some content
  | .directory _ => none

/-- Whether this is a file. -/
def isFile (e : FileEntry) : Bool := e.content?.isSome

/-- **The entry at a place.** -/
def at? : List (List Char) → FileEntry → Option FileEntry
  | [], e => some e
  | name :: more, e => (e.child? name).bind (at? more)

/-- The entries with another one under a name. -/
def setChild (name : List Char) (e : FileEntry) (entries : List (List Char × FileEntry)) :
    List (List Char × FileEntry) :=
  if entries.any fun entry => entry.1 == name then
    entries.map fun entry => if entry.1 == name then (name, e) else entry
  else entries ++ [(name, e)]

/-- **Puts an entry at a place**; directories on the way are made.  Nothing can be put below
a file. -/
def put : List (List Char) → FileEntry → FileEntry → FileEntry
  | [], _, new => new
  | _ :: _, .file content, _ => .file content
  | name :: more, .directory entries, new =>
    .directory
      (setChild name (put more ((child? name (.directory entries)).getD empty) new) entries)

/-- Makes a directory at a place, unless there is something already. -/
def makeDirectory (names : List (List Char)) (e : FileEntry) : FileEntry :=
  if (e.at? names).isSome then e else e.put names empty

/-- Removes what is at a place. -/
def remove : List (List Char) → FileEntry → FileEntry
  | [], e => e
  | _, .file content => .file content
  | [name], .directory entries => .directory (entries.filter fun entry => entry.1 != name)
  | name :: more, .directory entries =>
    .directory (entries.map fun (n, e) => (n, if n == name then remove more e else e))

/-- The place that parts of a path lead to from a place, whose names come last first. -/
def follow (e : FileEntry) :
    List PathPart → List (List Char) → Except FileProblem (List (List Char))
  | [], names => if (e.at? names.reverse).isSome then .ok names else .error .missing
  | part :: more, names =>
    match e.at? names.reverse with
    | none => .error .missing
    | some (.file _) => .error .notDirectory
    | some (.directory _) =>
      match part with
      | .root => e.follow more []
      | .current => e.follow more names
      | .parent => e.follow more names.tail
      | .name name => e.follow more (name :: names)

/-- Whether the end of a path demands a directory. -/
def demandsDirectory (path : Path.Text) : Bool :=
  !path.isEmpty && ((Path.segments path).getLast?.map Path.isIdle).getD false

/-- **The place and the entry that an absolute path leads to.** -/
def resolve (e : FileEntry) (path : Path.Text) :
    Except FileProblem (List (List Char) × FileEntry) := do
  let names := (← e.follow (Path.parts path) []).reverse
  match e.at? names with
  | none => .error .missing
  | some found =>
    if found.isFile && demandsDirectory path then .error .notDirectory else .ok (names, found)

/-- **The content of the file that an absolute path leads to.** -/
def read (e : FileEntry) (path : Path.Text) : Except FileProblem ByteArray := do
  match (← e.resolve path).2 with
  | .file content => return content
  | .directory _ => .error .isDirectory

/-- The text of the file that an absolute path leads to. -/
def readText (e : FileEntry) (path : Path.Text) : Except FileProblem (List Char) := do
  match String.fromUTF8? (← e.read path) with
  | some text => return text.toList
  | none => .error .notText

end FileEntry

/-- **What a run finds around it**: all files, the directory in which it works, and the
variables that are set. -/
structure Surroundings where
  files : FileEntry
  directory : Path.Text
  environment : List (String × String)
  deriving Inhabited

namespace Surroundings

/-- The value of a variable. -/
def value? (s : Surroundings) (name : String) : Option String :=
  (s.environment.find? fun v => v.1 == name).map Prod.snd

/-- The value of a variable that is set to something. -/
def filled? (s : Surroundings) (name : String) : Option String :=
  (s.value? name).filter fun value => !value.isEmpty

/-- The directory of the user. -/
def home? (s : Surroundings) : Option Path.Text := (s.value? "HOME").map String.toList

/-- A path seen from the root. -/
def absolute (s : Surroundings) (path : Path.Text) : Path.Text := Path.join s.directory path

/-- What a path leads to, and where that is. -/
def resolve (s : Surroundings) (path : Path.Text) :
    Except FileProblem (List (List Char) × FileEntry) :=
  s.files.resolve (s.absolute path)

/-- Whether a path leads to a file. -/
def isFile (s : Surroundings) (path : Path.Text) : Bool :=
  match s.resolve path with
  | .ok (_, e) => e.isFile
  | .error _ => false

/-- Whether a path leads anywhere. -/
def isThere (s : Surroundings) (path : Path.Text) : Bool := (s.resolve path).toOption.isSome

/-- The text of the file that a path leads to. -/
def readText (s : Surroundings) (path : Path.Text) : Except FileProblem (List Char) :=
  s.files.readText (s.absolute path)

end Surroundings

end ModuleLint
