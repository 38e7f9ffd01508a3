/-
ModuleLint/Lint/Catalogue.lean

The rules that come with the program, as they stand and as a configuration sets them up.
-/
import ModuleLint.Lint.UnixObject
import ModuleLint.Lint.Config

namespace ModuleLint

/-- The settings that a table holds; what it leaves out stays as it is. -/
def UnixObject.ofConfig (c : RuleConfig) : UnixObject :=
  { UnixObject.default with
    typeStarts := (c.texts? "type_prefixes").getD defaultTypeStarts
    guardToken := c.text "guard_token" defaultGuardToken }

/-- The settings under which a configuration runs the rule. -/
def UnixObject.configured (c : Config) : UnixObject :=
  ((c.rule? UnixObject.name).map UnixObject.ofConfig).getD UnixObject.default

namespace Rule

/-- **All rules**, as they stand. -/
def all : List Rule := [UnixObject.default.rule]

/-- **All rules, set up by a configuration.**  Whether they are run and with which severity
they report in the end is not settled here. -/
def configured (c : Config) : List Rule := [(UnixObject.configured c).rule]

end Rule

end ModuleLint
