/-
ModuleLint/Files/Discovery.lean

Finding the files below a directory.  Every directory on the way may hold ignore
files, whose rules speak about all paths below it.  A directory's own rules come
before those of the directories around it, `.ignore` before `.gitignore`, and the
user's own rules last.  What is ignored is not entered.
-/
import ModuleLint.Files.FileTree
import ModuleLint.Files.IgnoreRule

namespace ModuleLint

/-- The rules of one directory, and the path from that directory to the one at hand. -/
structure IgnoreLayer where
  below : List UInt8
  general : List IgnoreRule
  repository : List IgnoreRule
  excluded : List IgnoreRule
  deriving Inhabited

namespace IgnoreLayer

/-- The bytes of a name. -/
def bytes (text : List Char) : List UInt8 := text.flatMap String.utf8EncodeChar

/-- The rules in a file of a directory. -/
def rulesAt (directory : FileEntry) (place : List String) : List IgnoreRule :=
  match (directory.at? (place.map String.toList)).bind FileEntry.content? with
  | some content => IgnoreRule.ofFile content
  | none => []

/-- **The rules of a directory.**  Those for a repository count only on demand. -/
def ofDirectory (repository : Bool) (below : List UInt8) (directory : FileEntry) : IgnoreLayer where
  below := below
  general := rulesAt directory [".ignore"]
  repository := if repository then rulesAt directory [".gitignore"] else []
  excluded := if repository then rulesAt directory [".git", "info", "exclude"] else []

/-- The same rules, seen from a directory further below. -/
def enter (name : List Char) (l : IgnoreLayer) : IgnoreLayer :=
  { l with below := l.below ++ bytes name ++ [IgnoreToken.slash] }

/-- **What the rules of directories, the nearest first, say about an entry.** -/
def verdict? (layers : List IgnoreLayer) (name : List Char) (isDirectory : Bool) :
    Option IgnoreVerdict :=
  let from? := fun (rules : IgnoreLayer → List IgnoreRule) =>
    layers.findSome? fun l => IgnoreRule.verdict? (rules l) (l.below ++ bytes name) isDirectory
  from? general <|> from? repository <|> from? excluded

/-- Whether an entry is ignored. -/
def ignores (layers : List IgnoreLayer) (name : List Char) (e : FileEntry) : Bool :=
  verdict? layers name (!e.isFile) == some .ignored

end IgnoreLayer

/-! ### The files below a directory -/

namespace FileEntry

mutual

/-- The paths of all files at or below an entry that are not ignored. -/
def filesBelow (repository : Bool) (around : List IgnoreLayer) (user : IgnoreLayer)
    (path : Path.Text) : FileEntry → List Path.Text
  | .file _ => [path]
  | .directory entries =>
    filesAmong repository (IgnoreLayer.ofDirectory repository [] (.directory entries) :: around)
      user path entries

/-- The paths of all files at or below the entries of a directory that are not ignored. -/
def filesAmong (repository : Bool) (layers : List IgnoreLayer) (user : IgnoreLayer)
    (path : Path.Text) : List (List Char × FileEntry) → List Path.Text
  | [] => []
  | (name, e) :: rest =>
    (if IgnoreLayer.ignores (layers ++ [user]) name e then []
      else
        filesBelow repository (layers.map (IgnoreLayer.enter name)) (user.enter name)
          (Path.join path name) e) ++
    filesAmong repository layers user path rest

end

end FileEntry

/-- Why the files below a path cannot be found. -/
structure DiscoveryError where
  path : Path.Text
  problem : FileProblem
  deriving DecidableEq, Repr, Inhabited

namespace DiscoveryError

/-- The wording of an error. -/
def message (e : DiscoveryError) : String :=
  let path := String.ofList e.path
  path ++ ": IO error for operation on " ++ path ++ ": " ++ e.problem.message

end DiscoveryError

/-- **A way to find files**: the paths of those at or below a root, with or without heed to the
rules of repositories. -/
abbrev Walk := Surroundings → Bool → Path.Text → Except DiscoveryError (List Path.Text)

namespace Surroundings

/-- The rules of the directories around a place, the nearest first. -/
def layersAround (s : Surroundings) (repository : Bool) (place : List (List Char)) :
    List IgnoreLayer :=
  (List.range place.length).reverse.map fun depth =>
    let layer := IgnoreLayer.ofDirectory repository []
      ((s.files.at? (place.take depth)).getD FileEntry.empty)
    (place.drop depth).foldl (fun l name => l.enter name) layer

/-- The file that a line of the user's settings names as the one with rules for all
repositories. -/
def excludesFile? (line : List Char) : Option (List Char) := do
  let line := trim line
  let key := "excludesfile".toList
  if (line.take key.length).map Char.toLower != key then none
  else
    let value ← afterStart? ['='] (trim (line.drop key.length))
    let value := trim value
    let value := if value.head? == some '"' then trim value.tail else value
    let value :=
      if value.length > 1 && value.getLast? == some '"' then trimEnd value.dropLast else value
    if value.isEmpty || value.any isBlank then none else some value

/-- The directory of the user's settings for programs. -/
def settingsDirectory? (s : Surroundings) : Option Path.Text :=
  match s.filled? "XDG_CONFIG_HOME" with
  | some path => some path.toList
  | none => s.home?.map fun home => Path.join home ".config".toList

/-- The file with the user's rules for all repositories. -/
def userRulesPath? (s : Surroundings) : Option Path.Text :=
  let named := fun (path : Path.Text) => do
    let settings ← (s.readText path).toOption
    let value ← (settings.splitOn '\n').findSome? excludesFile?
    return value.flatMap fun c => if c = '~' then s.home?.getD ['~'] else [c]
  (s.home?.bind fun home => named (Path.join home ".gitconfig".toList)) <|>
  (s.settingsDirectory?.bind fun path => named (Path.join path "git/config".toList)) <|>
  s.settingsDirectory?.map fun path => Path.join path "git/ignore".toList

/-- The user's own rules.  They speak about paths below the working directory. -/
def userLayer (s : Surroundings) (root : Path.Text) : IgnoreLayer :=
  let rules := match s.userRulesPath?.map fun path => s.files.read (s.absolute path) with
    | some (.ok content) => IgnoreRule.ofFile content
    | _ => []
  let below := match afterStart? s.directory (Path.join root []) with
    | some rest => (afterStart? ['/'] rest).getD rest
    | none => Path.join root []
  ⟨IgnoreLayer.bytes below, [], [], rules⟩

/-- **The paths of all files at or below a root** that no rule tells to ignore. -/
def filesBelow (s : Surroundings) (repository : Bool) (root : Path.Text) :
    Except DiscoveryError (List Path.Text) :=
  match s.resolve root with
  | .error problem => .error ⟨root, problem⟩
  | .ok (place, e) =>
    let user := if repository then s.userLayer root else default
    .ok (e.filesBelow repository (s.layersAround repository place) user root)

end Surroundings

end ModuleLint
