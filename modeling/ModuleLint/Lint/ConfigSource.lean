/-
ModuleLint/Lint/ConfigSource.lean

Where the configuration of a run comes from.  A file that is named explicitly is
taken in any case.  Otherwise the nearest directory at or above the project that
holds a configuration file wins, then the user's own file, then the built-in
settings.
-/
import ModuleLint.Lint.Config
import ModuleLint.Files.FileTree

namespace ModuleLint

/-- Why a configuration cannot be loaded. -/
inductive ConfigError where
  | unreadable (path : Path.Text) (problem : FileProblem)
  | malformed
  deriving DecidableEq, Repr, Inhabited

namespace ConfigError

/-- The wording of an error, and what lies behind it. -/
def messages : ConfigError → List String
  | .unreadable path problem =>
    ["Failed to read config file " ++ String.ofList path ++ ": " ++ problem.message,
      problem.message]
  | .malformed => ["Failed to parse config: TOML parse error"]

end ConfigError

/-- **The configuration in a file.** -/
def Config.load (s : Surroundings) (path : Path.Text) (toml : TomlReader := Toml.read?) :
    Except ConfigError Config :=
  match s.readText path with
  | .error problem => .error (.unreadable path problem)
  | .ok text =>
    match Config.read? (String.ofList text) toml with
    | some c => .ok c
    | none => .error .malformed

/-- **Where a configuration comes from.** -/
inductive ConfigSource where
  /-- A file named by the user. -/
  | explicit (path : Path.Text)
  /-- A file at or above the project. -/
  | project (path : Path.Text)
  /-- The user's own file. -/
  | global (path : Path.Text)
  | builtIn
  deriving DecidableEq, Repr, Inhabited

namespace ConfigSource

/-- The names of configuration files in a project; the first is preferred. -/
def projectNames : List String := ["bsl-lint.toml", ".bsl-lint.toml"]

/-- The name of the configuration file among the user's settings. -/
def globalName : String := "config.toml"

/-- The configuration file in a directory. -/
def inDirectory? (isFile : Path.Text → Bool) (directory : Path.Text) : Option Path.Text :=
  (projectNames.map fun name => Path.join directory name.toList).find? isFile

/-- **The source that is used**, given which files there are. -/
def choose (isFile : Path.Text → Bool) (project : Path.Text) (explicit? globalDirectory? :
    Option Path.Text) : ConfigSource :=
  match explicit? with
  | some path => .explicit path
  | none =>
    match (Path.ancestors project).findSome? (inDirectory? isFile) with
    | some path => .project path
    | none =>
      match (globalDirectory?.map fun d => Path.join d globalName.toList).filter isFile with
      | some path => .global path
      | none => .builtIn

/-- The file of a source. -/
def path? : ConfigSource → Option Path.Text
  | .explicit path => some path
  | .project path => some path
  | .global path => some path
  | .builtIn => none

/-- The variable that names the directory of the user's settings. -/
def directoryVariable : String := "BSL_LINT_CONFIG_DIR"

/-- The directory of the user's settings. -/
def globalDirectory? (s : Surroundings) : Option Path.Text :=
  match s.filled? directoryVariable with
  | some path => some path.toList
  | none => s.home?.map fun home => Path.join home ".bsl-lint".toList

/-- **The source for a run over a project**, which is looked up where it really lies, if it
is there at all. -/
def find (s : Surroundings) (project : Path.Text) (explicit? : Option Path.Text) : ConfigSource :=
  let place := match s.resolve project with
    | .ok (names, _) => Path.ofNames names
    | .error _ => project
  choose s.isFile place explicit? (globalDirectory? s)

/-- **The configuration of a source.** -/
def load (s : Surroundings) (c : ConfigSource) (toml : TomlReader := Toml.read?) :
    Except ConfigError Config :=
  match c.path? with
  | none => .ok {}
  | some path => Config.load s path toml

end ConfigSource

end ModuleLint
