/-
ModuleLint/Report/Listing.lean

Results as plain listings: one line for each finding, or a short paragraph for each
with a summary at the end, in colour.
-/
import ModuleLint.Lint.Finding

namespace ModuleLint

/-- Colours of a terminal. -/
inductive Colour where
  | red
  | green
  | yellow
  | blue
  deriving DecidableEq, Repr, Inhabited

namespace Colour

/-- The mark that switches a colour on. -/
def start : Colour → String
  | .red => "\x1b[31m"
  | .green => "\x1b[32m"
  | .yellow => "\x1b[33m"
  | .blue => "\x1b[34m"

/-- The mark that switches all colours off. -/
def stop : String := "\x1b[0m"

/-- A text in a colour. -/
def paint (c : Colour) (text : String) : String := c.start ++ text ++ stop

/-- The colour of a severity. -/
def ofSeverity : Severity → Colour
  | .error => .red
  | .warning => .yellow
  | .info => .blue

end Colour

/-- The paragraph of a finding. -/
def Finding.paragraph (f : Finding) : String :=
  f.code ++ " " ++ f.rule ++ " at " ++ f.location.file ++ ":" ++ toString f.location.line ++ ":" ++
    toString f.location.column ++ "\n  " ++
    (Colour.ofSeverity f.severity).paint f.severity.name ++ ": " ++ f.message ++ "\n" ++
    (match f.suggestion with
      | some s => "  = help: " ++ s ++ "\n"
      | none => "") ++ "\n"

namespace LintResult

/-- How many findings of each severity there are, and in how many files. -/
def tally (r : LintResult) : String :=
  "Found " ++ toString (r.count .error) ++ " error(s), " ++ toString (r.count .warning) ++
    " warning(s), " ++ toString (r.count .info) ++ " info(s) in " ++ toString r.filesChecked ++
    " file(s)"

/-- The colour of a result: that of its gravest findings, if they count as problems. -/
def colour (r : LintResult) : Colour :=
  if 0 < r.count .error then .red else if 0 < r.count .warning then .yellow else .green

/-- **The result in paragraphs**, with the skipped files, the counts and the effort. -/
def paragraphs (r : LintResult) : String :=
  String.join (r.findings.map Finding.paragraph) ++
    String.join (r.filesSkipped.map fun file =>
      Colour.yellow.paint "skipped" ++ " " ++ file ++ " (parse error)\n") ++
    r.colour.paint r.tally ++ "\n" ++
    (if 0 < r.totalMinutes then "Estimated effort: " ++ toString r.totalMinutes ++ " min\n" else "")

/-- **The result in lines**, one for each finding. -/
def lines (r : LintResult) : String :=
  String.join (r.findings.map fun f => f.display ++ "\n")

end LintResult

end ModuleLint
