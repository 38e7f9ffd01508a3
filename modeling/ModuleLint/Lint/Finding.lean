/-
ModuleLint/Lint/Finding.lean

Findings, and the result of a run.  A result counts the files that were checked,
names those that were skipped, and holds the findings; `LintResult.sort` brings
them into the order of files and places and keeps the order of findings at one
place.
-/
import ModuleLint.Lint.Severity
import ModuleLint.Tree.Basic
import ModuleLint.Files.Path

namespace ModuleLint

/-- Where a finding lies: a file, a place in it, and the bytes it covers. -/
structure Location where
  file : String
  line : Nat
  column : Nat
  offset : Nat
  length : Nat
  deriving DecidableEq, Repr, Inhabited

namespace Location

/-- The location of a part of a file. -/
def ofSpan (file : String) (span : Span) : Location :=
  ⟨file, span.line, span.column, span.offset, span.length⟩

/-- Whether `a` comes no later than `b`: by file, then line, then column. -/
def le (a b : Location) : Bool :=
  let fa := Path.parts a.file.toList
  let fb := Path.parts b.file.toList
  if fa = fb then
    if a.line = b.line then Nat.ble a.column b.column else Nat.ble a.line b.line
  else Path.partsLe fa fb

end Location

/-- **A finding**: what a rule reports about a place. -/
structure Finding where
  code : String
  rule : String
  severity : Severity
  location : Location
  message : String
  suggestion : Option String := none
  minutesToFix : Option Nat := none
  deriving DecidableEq, Repr, Inhabited

namespace Finding

/-- What a finding says, headed by its code. -/
def title (f : Finding) : String := "[" ++ f.code ++ "] " ++ f.message

/-- The finding on one line. -/
def display (f : Finding) : String :=
  f.location.file ++ ":" ++ toString f.location.line ++ ":" ++ toString f.location.column ++ ": " ++
    f.severity.name ++ " " ++ f.title

end Finding

/-- **The result of a run.** -/
structure LintResult where
  findings : List Finding
  filesChecked : Nat
  filesSkipped : List String
  deriving DecidableEq, Repr, Inhabited

namespace LintResult

/-- The result of a run over nothing. -/
def empty : LintResult := ⟨[], 0, []⟩

/-- How many findings have exactly this severity. -/
def count (r : LintResult) (severity : Severity) : Nat :=
  r.findings.countP fun f => f.severity == severity

/-- Whether some finding is at least as grave as the threshold. -/
def reaches (r : LintResult) (threshold : Severity) : Bool :=
  r.findings.any fun f => f.severity.reaches threshold

/-- The estimated effort to fix all findings, in minutes. -/
def totalMinutes (r : LintResult) : Nat :=
  (r.findings.filterMap Finding.minutesToFix).foldl Nat.add 0

/-- **The result with its findings in the order of their locations.** -/
def sort (r : LintResult) : LintResult :=
  { r with findings := r.findings.mergeSort fun a b => a.location.le b.location }

end LintResult

end ModuleLint
