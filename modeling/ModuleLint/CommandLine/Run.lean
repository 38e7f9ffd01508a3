/-
ModuleLint/CommandLine/Run.lean

Running a command.  A run is a function of what the program finds around it, of its
arguments and of the tools it is given; what comes of it is an exit code, what is
written to the two outputs, and the files that are to be written.
-/
import ModuleLint.CommandLine.Arguments
import ModuleLint.Lint.Catalogue
import ModuleLint.Lint.ConfigSource
import ModuleLint.Lint.Log
import ModuleLint.Lint.ResultJson
import ModuleLint.Report.Listing
import ModuleLint.Report.RuleTable
import ModuleLint.Report.Snippet

namespace ModuleLint

/-- **What a run is given to work with**: a walk that finds files, readers for patterns and for
configurations, and the text format of results. -/
structure Toolkit where
  walk : Walk
  patterns : PatternReader
  toml : TomlReader
  json : JsonFormat

/-- The tools that the program works with. -/
def Toolkit.standard : Toolkit :=
  ⟨Surroundings.filesBelow, Glob.reader, Toml.read?, JsonFormat.standard⟩

/-- A message beside the output: a line of the log, or a text that is shown in any case. -/
inductive Message where
  | log (line : LogLine)
  | shown (text : String)
  deriving DecidableEq, Repr, Inhabited

/-- **What comes of a run.** -/
structure Outcome where
  exitCode : Nat
  output : String := ""
  messages : List Message := []
  /-- Files to be written, with their contents. -/
  writes : List (Path.Text × String) := []
  deriving Repr, Inhabited

namespace Outcome

/-- The messages from a level on. -/
def messageText (o : Outcome) (level : LogLevel) : String :=
  String.join (o.messages.map fun
    | .shown text => text
    | .log line => if Nat.ble level.rank line.level.rank then line.display else "")

/-- An error and what lies behind it, one behind the other. -/
def errorText : List String → String
  | [] => ""
  | [e] => "Error: " ++ e ++ "\n"
  | [e, cause] => "Error: " ++ e ++ "\n\nCaused by:\n    " ++ cause ++ "\n"
  | e :: causes =>
    "Error: " ++ e ++ "\n\nCaused by:\n" ++
      String.join
        (causes.zipIdx.map fun (cause, n) => "    " ++ toString n ++ ": " ++ cause ++ "\n")

/-- The outcome of a run that fails. -/
def failed (messages : List Message) (errors : List String) : Outcome :=
  { exitCode := 1, messages := messages ++ [.shown (errorText errors)] }

end Outcome

/-! ### Checking -/

namespace Check

/-- The names in a list between commas. -/
def wanted (filter : String) : List String :=
  ((filter.toList.splitOn ',').map trim).filterMap fun name =>
    if name.isEmpty then none else some (String.ofList name)

/-- **The rules that a filter names**; without a filter all of them. -/
def selected (rules : List Rule) : Option String → List Rule
  | none => rules
  | some filter => rules.filter fun r => (wanted filter).any r.isCalled

/-- What is said about names in a filter that no rule has. -/
def unknown (rules : List Rule) (filter : Option String) : List Message :=
  ((filter.map wanted).getD []).filterMap fun name =>
    if rules.any fun r => r.isCalled name then none
    else some (.log ⟨.warn, "Unknown rule: " ++ name⟩)

/-- What is said about the source of the configuration. -/
def sourceMessages : ConfigSource → List Message
  | .explicit _ => []
  | .project path => [.log ⟨.debug, "Found project config: " ++ String.ofList path⟩]
  | .global path => [.log ⟨.info, "Using global config: " ++ String.ofList path⟩]
  | .builtIn => [.log ⟨.debug, "No configuration file, using defaults"⟩]

/-- What is said about a finding that is shown in its source. -/
def snippetMessages (s : Surroundings) (root : Path.Text) (f : Finding) : List Message :=
  let path := Path.join root f.location.file.toList
  match s.readText path with
  | .ok source => [.shown (f.snippet (some source))]
  | .error problem =>
    [.log ⟨.debug, "Cannot read " ++ String.ofList path ++ " for rich output: " ++ problem.message⟩,
      .shown (f.snippet none)]

/-- **A result in a format**: what is written out, and what is shown beside it. -/
def written (k : Toolkit) (s : Surroundings) (root : Path.Text) (format : OutputFormat)
    (r : LintResult) : String × List Message :=
  match format with
  | .text => (r.paragraphs, [])
  | .json => (k.json.indented r.toJson ++ "\n", [])
  | .compact => (r.lines, [])
  | .rich => ("", r.findings.flatMap (snippetMessages s root) ++ [.shown (r.tally ++ "\n")])

/-- The run of an analyzer. -/
def finish (k : Toolkit) (s : Surroundings) (a : Analyzer) (format : OutputFormat)
    (messages : List Message) : Outcome :=
  let messages := messages ++
    .log ⟨.info, "Analyzing " ++ String.ofList a.root ++ " with " ++ toString a.rules.length ++
      " rules"⟩ :: (a.log s k.walk).map Message.log
  match a.analyze s k.walk with
  | .error e => .failed messages ["Analysis failed", e.message, e.cause]
  | .ok r =>
    let (output, shown) := written k s a.root format r
    { exitCode := if r.reaches a.config.failThreshold then 1 else 0
      output := output
      messages := messages ++ shown }

/-- **Checks the sources at or below a path.** -/
def run (k : Toolkit) (s : Surroundings) (config : Option String) (path : String)
    (format : OutputFormat) (filter : Option String) (exclude : List String) : Outcome :=
  let source := ConfigSource.find s path.toList (config.map String.toList)
  let messages := sourceMessages source
  match source.load s k.toml with
  | .error e =>
    .failed messages (("Failed to load config: " ++ String.ofList (source.path?.getD [])) ::
      e.messages)
  | .ok config =>
    let rules := Rule.configured config
    let messages := messages ++ unknown rules filter
    match Analyzer.build s (some path) (selected rules filter) exclude config false k.patterns with
    | .error e =>
      .failed messages
        ["Failed to build analyzer", "Invalid glob pattern: " ++ e.message, e.message]
    | .ok a => finish k s a format messages

end Check

/-! ### The other commands -/

/-- The rules and how to choose among them. -/
def ruleOverview : String :=
  "Available rules:\n\n" ++ RuleTable.table Rule.all ++
    "\nUse --rules to filter specific rules, e.g.:\n" ++
    "  bsl-lint check --rules using-object-not-available-unix\n" ++
    "  bsl-lint check --rules BSL001\n"

namespace ConfigTemplate

/-- The name of the file. -/
def fileName : String := "bsl-lint.toml"

/-- **A configuration that says what can be configured.** -/
def text : String :=
"# bsl-lint configuration

# Fail `bsl-lint check` on violations at or above this severity
# fail_on = \"error\"

[analyzer]
# Root directory to analyze (default: current directory)
# root = \"./src\"

# Glob patterns to exclude from analysis
exclude = [
    \"**/vendor/**\",
]

# Respect .gitignore files
respect_gitignore = true

# Language of diagnostic messages: \"ru\" or \"en\"
language = \"ru\"

# Rule configurations
# Each rule can be enabled/disabled and have its severity overridden

[rules.using-object-not-available-unix]
enabled = true
# severity = \"warning\"  # Override default severity
# Type names that are not available on Linux (case-insensitive prefixes)
# type_prefixes = [\"COMObject\", \"COMОбъект\", \"Mail\", \"Почта\"]
# Text that marks a platform check in an enclosing If branch
# guard_token = \"Linux_x86\"
"

/-- **Writes the configuration**, but over another file only on demand. -/
def create (s : Surroundings) (force : Bool) : Outcome :=
  let path := "./" ++ fileName
  if s.isThere path.toList && !force then
    .failed [] ["Configuration file already exists at " ++ path ++ ". Use --force to overwrite."]
  else if s.isThere path.toList && !s.isFile path.toList then
    .failed [] ["Failed to write " ++ path, FileProblem.isDirectory.message]
  else
    { exitCode := 0
      output := "Created " ++ fileName ++ "\n\nNext steps:\n  1. Edit " ++ fileName ++
        " to configure rules\n  2. Run: bsl-lint check\n"
      writes := [(path.toList, text)] }

end ConfigTemplate

/-! ### The program -/

namespace Program

/-- The name and the version of the program. -/
def version : String := "bsl-lint 0.1.0\n"

/-- How the program is called. -/
def usage : String :=
  "Usage: bsl-lint [OPTIONS] <COMMAND>\n\nCommands:\n" ++
    "  check       Run lint checks\n  list-rules  List available rules\n" ++
    "  init        Initialize configuration file\n\nOptions:\n" ++
    "  -v, --verbose          Enable verbose output\n" ++
    "  -c, --config <CONFIG>  Path to configuration file\n"

/-- Runs a command. -/
def runCommand (k : Toolkit) (s : Surroundings) (i : Invocation) : Outcome :=
  match i.command with
  | .check path format rules exclude => Check.run k s i.config path format rules exclude
  | .listRules => { exitCode := 0, output := ruleOverview }
  | .init force => ConfigTemplate.create s force

/-- The variable that names a configuration file. -/
def configVariable : String := "BSL_LINT_CONFIG"

/-- **Runs the program**: its outcome, and the level from which on its messages are shown. -/
def run (s : Surroundings) (args : List String) (k : Toolkit := .standard) :
    Outcome × LogLevel :=
  match Arguments.invocation (s.value? configVariable) args with
  | .error .usage => ({ exitCode := 2, messages := [.shown usage] }, .info)
  | .error .help => ({ exitCode := 0, output := usage }, .info)
  | .error .version => ({ exitCode := 0, output := version }, .info)
  | .ok i => (runCommand k s i, if i.verbose then .debug else .info)

end Program

end ModuleLint
