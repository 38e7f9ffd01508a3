/-
ModuleLint/Lint/Severity.lean

How grave a finding is.
-/
namespace ModuleLint

/-- How grave a finding is, the least grave first. -/
inductive Severity where
  | info
  | warning
  | error
  deriving DecidableEq, Repr, Inhabited

namespace Severity

/-- The place of a severity in their order. -/
def rank : Severity → Nat
  | .info => 0
  | .warning => 1
  | .error => 2

/-- **At least as grave.** -/
def reaches (severity threshold : Severity) : Bool :=
  Nat.ble threshold.rank severity.rank

/-- The name of a severity. -/
def name : Severity → String
  | .info => "info"
  | .warning => "warning"
  | .error => "error"

/-- The severity of a given name. -/
def ofName? (s : String) : Option Severity :=
  [.info, .warning, .error].find? fun severity => severity.name == s

end Severity

end ModuleLint
