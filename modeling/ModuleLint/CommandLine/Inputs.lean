/-
ModuleLint/CommandLine/Inputs.lean

What a run can look at.  A check looks at everything at or below its path, at ignore
files and configuration files in the directories above it, and at the settings of
the user; all other commands look at the working directory alone.
-/
import ModuleLint.CommandLine.Run

namespace ModuleLint

namespace Inputs

/-- The names of the variables that a run looks at. -/
def variableNames : List String :=
  ["HOME", "XDG_CONFIG_HOME", ConfigSource.directoryVariable, Program.configVariable]

/-- Files of a directory that speak about what lies below it. -/
def besides : List String :=
  [".ignore", ".gitignore", ".git/info/exclude"] ++ ConfigSource.projectNames

/-- Whether the content of a file of this name may be looked at during a check. -/
def isRead (name : String) : Bool :=
  (Dialect.ofPath? name.toList).isSome || ["exclude", ".ignore", ".gitignore"].contains name ||
    ConfigSource.projectNames.contains name

/-- The names that lead to a path, with steps back undone. -/
def place (s : Surroundings) (path : Path.Text) : List (List Char) :=
  ((Path.parts (s.absolute path)).foldl (fun names part =>
    match part with
    | .name name => name :: names
    | .parent => names.tail
    | _ => names) []).reverse

/-- The path that a check starts from. -/
def root? (i : Invocation) : Option Path.Text :=
  match i.command with
  | .check path _ _ _ => some path.toList
  | _ => none

/-- The files of the user's settings. -/
def settings (s : Surroundings) : List Path.Text :=
  let inHome := fun (name : String) => s.home?.toList.map fun home => Path.join home name.toList
  let inSettings := fun (name : String) =>
    s.settingsDirectory?.toList.map fun path => Path.join path name.toList
  inHome ".gitconfig" ++ inSettings "git/config" ++ inSettings "git/ignore" ++
    (ConfigSource.globalDirectory? s).toList.map fun path =>
      Path.join path ConfigSource.globalName.toList

/-- **Single files that a run may look at.** -/
def files (s : Surroundings) (i : Invocation) : List Path.Text :=
  let above := match root? i with
    | none => [s.directory]
    | some path =>
      Path.ancestors (Path.ofNames (place s path)) ++ Path.ancestors path ++ [s.directory]
  above.flatMap (fun directory => besides.map fun name => Path.join directory name.toList) ++
    settings s ++ (i.config.map String.toList).toList

end Inputs

end ModuleLint
