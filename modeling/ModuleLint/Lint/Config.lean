/-
ModuleLint/Lint/Config.lean

The configuration of a run: which severity makes it fail, where and in which language
the analyzer works, and a table of settings for each rule.
-/
import ModuleLint.Lint.Severity
import ModuleLint.Lint.Dialect
import ModuleLint.Toml.Reader

namespace ModuleLint

/-- The settings of the analyzer. -/
structure AnalyzerConfig where
  root : String := "."
  exclude : List String := []
  respectGitignore : Bool := true
  language : MessageLanguage := .ru
  deriving DecidableEq, Repr, Inhabited

/-- The settings of one rule.  What is not known to all rules is left to the rule. -/
structure RuleConfig where
  enabled : Option Bool := none
  severity : Option Severity := none
  options : List (String × TomlValue) := []
  deriving Repr, Inhabited

namespace RuleConfig

/-- A setting that is true or false. -/
def flag (c : RuleConfig) (key : String) (default : Bool) : Bool :=
  (((valueUnder? key c.options).bind TomlValue.boolean?)).getD default

/-- A setting that is a text. -/
def text (c : RuleConfig) (key default : String) : String :=
  ((valueUnder? key c.options).bind TomlValue.string?).getD default

/-- A setting that is a list of texts; what is no text in it is passed over. -/
def texts? (c : RuleConfig) (key : String) : Option (List String) :=
  ((valueUnder? key c.options).bind TomlValue.elements?).map fun elements =>
    elements.filterMap TomlValue.string?

end RuleConfig

/-- **The configuration of a run.** -/
structure Config where
  failOn : Option Severity := none
  analyzer : AnalyzerConfig := {}
  rules : List (String × RuleConfig) := []
  deriving Repr, Inhabited

namespace Config

/-- The settings of a rule. -/
def rule? (c : Config) (name : String) : Option RuleConfig := valueUnder? name c.rules

/-- Whether a rule is to be run. -/
def isEnabled (c : Config) (name : String) : Bool :=
  ((c.rule? name).bind RuleConfig.enabled).getD true

/-- The severity that all findings of a rule are given, if one is set. -/
def severityOf (c : Config) (name : String) : Option Severity :=
  (c.rule? name).bind RuleConfig.severity

/-- The severity from which on findings make a run fail. -/
def failThreshold (c : Config) : Severity := c.failOn.getD .error

end Config

/-! ### Reading a configuration -/

namespace TomlValue

/-- The name that a value stands for: a text, or the only name in a table over nothing. -/
def choice? : TomlValue → Option String
  | .string s => some s
  | .table [(s, .table [])] => some s
  | .table [(s, .array [])] => some s
  | _ => none

/-- A severity. -/
def severity? (v : TomlValue) : Option Severity := v.choice?.bind Severity.ofName?

/-- A language for findings. -/
def language? (v : TomlValue) : Option MessageLanguage := v.choice?.bind MessageLanguage.ofName?

/-- A list of texts. -/
def strings? (v : TomlValue) : Option (List String) :=
  v.elements?.bind fun elements => elements.mapM TomlValue.string?

end TomlValue

/-- What a value may be read as, if it is there at all. -/
def readOr {α : Type} (read : TomlValue → Option α) (default : α) : Option TomlValue → Option α
  | none => some default
  | some v => read v

namespace AnalyzerConfig

/-- The settings, given the value of each. -/
def ofFields? (root exclude respectGitignore language : Option TomlValue) :
    Option AnalyzerConfig := do
  let standard : AnalyzerConfig := {}
  return {
    root := ← readOr TomlValue.string? standard.root root
    exclude := ← readOr TomlValue.strings? standard.exclude exclude
    respectGitignore := ← readOr TomlValue.boolean? standard.respectGitignore respectGitignore
    language := ← readOr TomlValue.language? standard.language language }

/-- The settings that a value holds: a table by name, or an array in order. -/
def ofToml? (v : TomlValue) : Option AnalyzerConfig :=
  match v.entries?, v.elements? with
  | some entries, _ =>
    ofFields? (valueUnder? "root" entries) (valueUnder? "exclude" entries)
      (valueUnder? "respect_gitignore" entries) (valueUnder? "language" entries)
  | none, some elements => ofFields? elements[0]? elements[1]? elements[2]? elements[3]?
  | none, none => none

end AnalyzerConfig

namespace RuleConfig

/-- The settings that a table holds. -/
def ofToml? (v : TomlValue) : Option RuleConfig := do
  let entries ← v.entries?
  return {
    enabled := ← readOr (fun v => v.boolean?.map some) none (valueUnder? "enabled" entries)
    severity := ← readOr (fun v => v.severity?.map some) none (valueUnder? "severity" entries)
    options := entries.filter fun entry => entry.1 != "enabled" && entry.1 != "severity" }

end RuleConfig

namespace Config

/-- The settings of all rules that a table holds. -/
def rulesOfToml? (v : TomlValue) : Option (List (String × RuleConfig)) := do
  let entries ← v.entries?
  entries.mapM fun (name, v) => (RuleConfig.ofToml? v).map fun c => (name, c)

/-- **The configuration that a text holds**, a document for some reader. -/
def read? (source : String) (toml : TomlReader := Toml.read?) : Option Config := do
  let entries ← toml source
  return {
    failOn := ← readOr (fun v => v.severity?.map some) none (valueUnder? "fail_on" entries)
    analyzer := ← readOr AnalyzerConfig.ofToml? {} (valueUnder? "analyzer" entries)
    rules := ← readOr rulesOfToml? [] (valueUnder? "rules" entries) }

end Config

end ModuleLint
