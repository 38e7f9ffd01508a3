/-
ModuleLint/Lint/Analysis.lean

Running rules over files.  A rule is run on a file if it is enabled and covers the
file's dialect; its findings are given its effort and the severity that is set for
it.  A file that cannot be parsed is skipped, or ends the run if the run is strict;
one that cannot be read always ends it.  The result depends on nothing but the files
that are handed in.

How files are found and what a pattern covers is not laid down here: an analyzer is built
with a reader of patterns and run with a walk, and the standard ones are taken unless
there are others.
-/
import ModuleLint.Lint.Rule
import ModuleLint.Lint.Config
import ModuleLint.Files.Glob
import ModuleLint.Files.Discovery
import ModuleLint.Grammar.Parse

namespace ModuleLint

/-- **An analyzer**: where it works, with which rules, and what it leaves out. -/
structure Analyzer where
  root : Path.Text
  rules : List Rule
  /-- Which paths are left out, for each pattern. -/
  exclude : List (Path.Text → Bool)
  config : Config
  /-- Whether a file that cannot be parsed ends the run. -/
  strict : Bool := false

/-- A file to analyze: its path, and its text or the reason why it cannot be read. -/
structure SourceFile where
  path : Path.Text
  content : Except String (List Char)

/-- What comes of one file. -/
inductive FileOutcome where
  | checked (findings : List Finding)
  | unparsable (e : SourceError)
  | unreadable (reason : String)

/-- Why a run fails. -/
inductive AnalysisError where
  | discovery (e : DiscoveryError)
  | read (path : Path.Text) (reason : String)
  | parse (path : Path.Text) (e : SourceError)

namespace AnalysisError

/-- What lies behind an error. -/
def cause : AnalysisError → String
  | .discovery e => e.message
  | .read _ reason => reason
  | .parse _ e => e.display

/-- **The wording of an error.** -/
def message (e : AnalysisError) : String :=
  (match e with
    | .discovery _ => "Failed to walk source tree: "
    | .read path _ => "Failed to read " ++ String.ofList path ++ ": "
    | .parse path _ => "Parse error in " ++ String.ofList path ++ ": ") ++ e.cause

end AnalysisError

namespace Analyzer

/-- **An analyzer** that works in a root, or in the one that its configuration names.
Patterns of the caller come before those of the configuration. -/
def build (s : Surroundings) (root : Option String) (rules : List Rule) (exclude : List String)
    (config : Config) (strict : Bool) (patterns : PatternReader := Glob.reader) :
    Except GlobError Analyzer := do
  let excluded ← (exclude ++ config.analyzer.exclude).mapM fun p => patterns p.toList
  return {
    root := s.absolute (root.getD config.analyzer.root).toList
    rules := rules
    exclude := excluded
    config := config
    strict := strict }

/-! ### One file -/

/-- A path as it is reported. -/
def reported (a : Analyzer) (path : Path.Text) : String := String.ofList (Path.relative a.root path)

/-- The context in which rules see a file. -/
def context (a : Analyzer) (path : Path.Text) : FileContext :=
  FileContext.of a.root path a.config.analyzer.language

/-- Whether a rule is run on a file. -/
def runs (a : Analyzer) (file : FileContext) (r : Rule) : Bool :=
  a.config.isEnabled r.name && r.scope.covers file.dialect

/-- The findings of a rule in a file, with its effort and the severity that is set for it. -/
def findingsOf (a : Analyzer) (file : FileContext) (t : Tree) (r : Rule) : List Finding :=
  (r.check file t).map fun f =>
    { f with
      severity := (a.config.severityOf r.name).getD f.severity
      minutesToFix := some r.minutes }

/-- The findings in a module, rule by rule. -/
def analyzeTree (a : Analyzer) (path : Path.Text) (t : Tree) : List Finding :=
  let file := a.context path
  (a.rules.filter (a.runs file)).flatMap (a.findingsOf file t)

/-- **The findings in a source text**, or a report on its first error. -/
def analyzeSource (a : Analyzer) (path : Path.Text) (source : List Char) :
    Except SourceError (List Finding) :=
  (parse source).map (a.analyzeTree path)

/-- What comes of a file. -/
def outcome (a : Analyzer) (file : SourceFile) : FileOutcome :=
  match file.content with
  | .error reason => .unreadable reason
  | .ok source =>
    match a.analyzeSource file.path source with
    | .ok findings => .checked findings
    | .error e => .unparsable e

/-! ### Many files -/

/-- The result with what comes of a further file. -/
def add (a : Analyzer) (r : LintResult) (file : SourceFile) : Except AnalysisError LintResult :=
  match a.outcome file with
  | .checked findings =>
    .ok { r with findings := r.findings ++ findings, filesChecked := r.filesChecked + 1 }
  | .unparsable e =>
    if a.strict then .error (.parse file.path e)
    else .ok { r with filesSkipped := r.filesSkipped ++ [a.reported file.path] }
  | .unreadable reason => .error (.read file.path reason)

/-- **The result over files**, taken in order; its findings are sorted by location. -/
def analyzeFiles (a : Analyzer) (files : List SourceFile) : Except AnalysisError LintResult :=
  (files.foldlM a.add LintResult.empty).map LintResult.sort

/-! ### Finding the files -/

/-- Whether a pattern excludes a path, as it is reported or in full. -/
def excludes (a : Analyzer) (path : Path.Text) : Bool :=
  a.exclude.any fun covers => covers (Path.relative a.root path) || covers path

/-- Those of some paths that lead to sources, in the order of paths. -/
def sources (paths : List Path.Text) : List Path.Text :=
  (paths.filter fun path => (Dialect.ofPath? path).isSome).mergeSort fun a b =>
    Path.partsLe (Path.parts a) (Path.parts b)

/-- **The sources below the root**, those that are excluded among them. -/
def candidates (a : Analyzer) (s : Surroundings) (walk : Walk := Surroundings.filesBelow) :
    Except AnalysisError (List Path.Text) :=
  match walk s a.config.analyzer.respectGitignore a.root with
  | .error e => .error (.discovery e)
  | .ok paths => .ok (sources paths)

/-- The file that a path leads to. -/
def load (s : Surroundings) (path : Path.Text) : SourceFile :=
  ⟨path, (s.readText path).mapError FileProblem.message⟩

/-- The files to analyze, of some candidates. -/
def select (a : Analyzer) (s : Surroundings) (paths : List Path.Text) : List SourceFile :=
  (paths.filter fun path => !a.excludes path).map (load s)

/-- **The result over all sources below the root.** -/
def analyze (a : Analyzer) (s : Surroundings) (walk : Walk := Surroundings.filesBelow) :
    Except AnalysisError LintResult := do
  a.analyzeFiles (a.select s (← a.candidates s walk))

end Analyzer

end ModuleLint
