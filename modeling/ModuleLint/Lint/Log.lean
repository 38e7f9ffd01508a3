/-
ModuleLint/Lint/Log.lean

The log of a run: what an analyzer has to say about each step, from the start up to
its end or its failure.
-/
import ModuleLint.Lint.Analysis
import ModuleLint.Text.Quoted

namespace ModuleLint

/-- How important a line of a log is, the least important first. -/
inductive LogLevel where
  | trace
  | debug
  | info
  | warn
  | error
  | off
  deriving DecidableEq, Repr, Inhabited

namespace LogLevel

/-- The place of a level in their order. -/
def rank : LogLevel → Nat
  | .trace => 0
  | .debug => 1
  | .info => 2
  | .warn => 3
  | .error => 4
  | .off => 5

/-- The name of a level. -/
def name : LogLevel → String
  | .trace => "TRACE"
  | .debug => "DEBUG"
  | .info => "INFO"
  | .warn => "WARN"
  | .error => "ERROR"
  | .off => "OFF"

/-- The level of a given name, in any letter case. -/
def ofName? (s : String) : Option LogLevel :=
  [.trace, .debug, .info, .warn, .error, .off].find? fun level =>
    level.name.toList == s.toList.map Char.toUpper

end LogLevel

/-- **A line of a log.** -/
structure LogLine where
  level : LogLevel
  text : String
  deriving DecidableEq, Repr, Inhabited

namespace LogLine

/-- The line as it is written. -/
def display (l : LogLine) : String := l.level.name ++ " " ++ l.text ++ "\n"

end LogLine

namespace Analyzer

/-- What is said about a rule in a file that was parsed. -/
def logRule (a : Analyzer) (file : FileContext) (t : Tree) (r : Rule) : List LogLine :=
  if !a.config.isEnabled r.name then [⟨.debug, "Skipping disabled rule: " ++ r.name⟩]
  else if !r.scope.covers file.dialect then
    [⟨.debug, "Skipping rule " ++ r.name ++ " for " ++ file.relativePath ++ ": out of scope"⟩]
  else (r.notes file t).map fun note => ⟨.debug, note⟩

/-- What is said about a file. -/
def logFile (a : Analyzer) (file : SourceFile) : List LogLine :=
  let path := String.ofList file.path
  ⟨.debug, "Analyzing: " ++ path⟩ ::
    match file.content with
    | .error _ => []
    | .ok source =>
      match parse source with
      | .error e => [⟨.warn, "Failed to parse " ++ path ++ ": " ++ e.display⟩]
      | .ok t => a.rules.flatMap (a.logRule (a.context file.path) t)

/-- Whether a file ends the run. -/
def endsRun (a : Analyzer) (file : SourceFile) : Bool :=
  match a.outcome file with
  | .checked _ => false
  | .unparsable _ => a.strict
  | .unreadable _ => true

/-- What is said about files, up to and with the first that ends the run. -/
def logFiles (a : Analyzer) : List SourceFile → List LogLine
  | [] => []
  | file :: rest => a.logFile file ++ (if a.endsRun file then [] else a.logFiles rest)

/-- The last line of a run that does not fail. -/
def logResult (r : LintResult) : LogLine :=
  ⟨.info, "Analysis complete: " ++ toString r.findings.length ++ " violations in " ++
    toString r.filesChecked ++ " files (" ++ toString r.filesSkipped.length ++ " skipped)"⟩

/-- **The log of a run.** -/
def log (a : Analyzer) (s : Surroundings) (walk : Walk := Surroundings.filesBelow) :
    List LogLine :=
  ⟨.info, "Starting analysis at " ++ String.ofList (quotedText a.root)⟩ ::
    match a.candidates s walk with
    | .error _ => []
    | .ok paths =>
      let files := a.select s paths
      (paths.filter a.excludes).map (fun path => ⟨.debug, "Excluding: " ++ String.ofList path⟩) ++
        [⟨.info, "Found " ++ toString files.length ++ " files to analyze"⟩] ++ a.logFiles files ++
        (match a.analyzeFiles files with
          | .ok r => [logResult r]
          | .error _ => [])

end Analyzer

end ModuleLint
