/-
ModuleLint/Lint/Rule.lean

What a rule is.  A rule is given a file and the tree of its module and reports
findings in the order in which it meets them.  `Rule.ofKind` makes a rule that
reports every node of one kind.
-/
import ModuleLint.Lint.Finding
import ModuleLint.Lint.Dialect

namespace ModuleLint

/-- What kind of problem a rule detects. -/
inductive ProblemKind where
  /-- Code that fails when it is run. -/
  | error
  /-- Code that is hard to maintain. -/
  | codeSmell
  /-- Code that can be attacked. -/
  | vulnerability
  deriving DecidableEq, Repr, Inhabited

namespace ProblemKind

/-- The name of a kind of problem. -/
def name : ProblemKind → String
  | .error => "error"
  | .codeSmell => "code-smell"
  | .vulnerability => "vulnerability"

/-- The kind of problem of a given name. -/
def ofName? (s : String) : Option ProblemKind :=
  [.error, .codeSmell, .vulnerability].find? fun kind => kind.name == s

end ProblemKind

/-- Which dialects a rule applies to. -/
inductive RuleScope where
  | all
  | only (dialect : Dialect)
  deriving DecidableEq, Repr, Inhabited

namespace RuleScope

/-- Whether files in a dialect are in scope. -/
def covers (scope : RuleScope) (dialect : Dialect) : Bool :=
  match scope with
  | .all => true
  | .only own => own == dialect

/-- The name of a scope. -/
def name : RuleScope → String
  | .all => "all"
  | .only dialect => dialect.name

/-- The scope of a given name. -/
def ofName? (s : String) : Option RuleScope :=
  [.all, .only .bsl, .only .os].find? fun scope => scope.name == s

end RuleScope

/-- The file that a rule is run on. -/
structure FileContext where
  /-- The path in reports. -/
  relativePath : String
  dialect : Dialect
  language : MessageLanguage
  deriving DecidableEq, Repr, Inhabited

namespace FileContext

/-- The context of a file below a root.  A file of unknown extension counts as a module
of 1C:Enterprise. -/
def of (root path : Path.Text) (language : MessageLanguage) : FileContext :=
  ⟨String.ofList (Path.relative root path), (Dialect.ofPath? path).getD .bsl, language⟩

end FileContext

/-- **A rule.** -/
structure Rule where
  code : String
  name : String
  description : String := ""
  /-- The severity of its findings, unless it decides otherwise or is overridden. -/
  severity : Severity
  kind : ProblemKind := .codeSmell
  /-- The estimated effort to fix one finding, in minutes. -/
  minutes : Nat := 5
  scope : RuleScope := .all
  /-- The findings in a module, in the order in which they are met. -/
  check : FileContext → Tree → List Finding
  /-- What there is to say about places that were considered and found in order. -/
  notes : FileContext → Tree → List String := fun _ _ => []

namespace Rule

/-- Whether an allow directive has to give a reason to silence the rule. -/
def requiresReason (r : Rule) : Bool := r.severity == .error

/-- Whether a filter entry means the rule: by its name or its code. -/
def isCalled (r : Rule) (wanted : String) : Bool := r.name == wanted || r.code == wanted

/-- **A rule that reports every node of one kind**, with the text of the node. -/
def ofKind (code name : String) (node : NodeKind) (severity : Severity) : Rule where
  code := code
  name := name
  severity := severity
  check := fun file t =>
    ((t.descendants Tree.root).filter (t.hasKind node)).map fun id =>
      { code := code, rule := name, severity := severity
        location := Location.ofSpan file.relativePath (t.span id)
        message := file.language.pick "найдено " "found " ++ String.ofList (t.text id) }

end Rule

end ModuleLint
