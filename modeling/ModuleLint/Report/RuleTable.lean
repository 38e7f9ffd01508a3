/-
ModuleLint/Report/RuleTable.lean

A table of rules, one row for each.
-/
import ModuleLint.Lint.Rule

namespace ModuleLint

namespace RuleTable

/-- A text filled up with blanks to a width. -/
def padRight (width : Nat) (text : String) : String :=
  text ++ String.ofList (List.replicate (width - text.length) ' ')

/-- A row; the last cell is as wide as it is. -/
def row (code name severity scope effort kind description : String) : String :=
  padRight 8 code ++ " " ++ padRight 34 name ++ " " ++ padRight 8 severity ++ " " ++
    padRight 6 scope ++ " " ++ padRight 7 effort ++ " " ++ padRight 8 kind ++ " " ++
    description ++ "\n"

/-- The row of a rule. -/
def ofRule (r : Rule) : String :=
  row r.code r.name r.severity.name r.scope.name (toString r.minutes ++ " min") r.kind.name
    r.description

/-- **The table of some rules**, under a headline. -/
def table (rules : List Rule) : String :=
  row "Code" "Name" "Severity" "Scope" "Effort" "Type" "Description" ++
    String.ofList (List.replicate 120 '-') ++ "\n" ++ String.join (rules.map ofRule)

end RuleTable

end ModuleLint
