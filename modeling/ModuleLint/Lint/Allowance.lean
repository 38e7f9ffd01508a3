/-
ModuleLint/Lint/Allowance.lean

Allow directives.  A comment such as

    // bsl-lint: allow(rule-a, rule-b) reason="why"

exempts its own line and the next one from the named rules, or from all of them
under the name `all`.  `AllowDirective.ofComment?` reads the comment, and
`allowanceAt` looks a line up: the comment on the line itself comes first, then
the one on the line before.
-/
import ModuleLint.Tree.Basic
import ModuleLint.Text.Blank
import ModuleLint.Text.Cut

namespace ModuleLint

/-- **What an allow directive says**: the rules it exempts from, and why. -/
structure AllowDirective where
  rules : List (List Char)
  reason : Option (List Char)
  deriving DecidableEq, Repr, Inhabited

namespace AllowDirective

/-- Whether the directive exempts from a rule. -/
def covers (d : AllowDirective) (rule : List Char) : Bool :=
  d.rules.contains rule || d.rules.contains "all".toList

/-- The names between commas, without blanks around them and without empty ones. -/
def names (text : List Char) : List (List Char) :=
  ((text.splitOn ',').map trim).filter fun name => !name.isEmpty

/-- The reason at the start of a text: `reason=` and a quoted text that is not blank. -/
def reason? (text : List Char) : Option (List Char) := do
  let quoted ← afterStart? "reason=".toList text
  let inside ← afterStart? ['"'] (trim quoted)
  let (reason, _) ← cutAt? '"' inside
  if (trim reason).isEmpty then none else some reason

/-- **The directive that a comment holds**, if it holds one. -/
def ofComment? (comment : List Char) : Option AllowDirective := do
  let slashes ← afterStart? "//".toList (trim comment)
  let body := trim (slashes.dropWhile (· == '/'))
  let directive ← afterStart? "bsl-lint:".toList body
  let content ← afterStart? "allow(".toList (trim directive)
  let (inside, rest) ← cutAt? ')' (trim content)
  let rules := names inside
  if rules.isEmpty then none
  else some ⟨rules, reason? (trim rest)⟩

end AllowDirective

/-- Whether a rule is allowed to be broken at a line. -/
inductive Allowance where
  | denied
  | allowed (reason : Option (List Char))
  deriving DecidableEq, Repr, Inhabited

/-- The first directive on a line that exempts from a rule. -/
def directiveOn (t : Tree) (rule : List Char) (line : Nat) : Option AllowDirective :=
  ((t.commentsOnLine line).filterMap AllowDirective.ofComment?).find? fun d => d.covers rule

/-- **Whether a rule is allowed to be broken at a line**: by a directive on that line,
else by one on the line before.  Lines are counted from one. -/
def allowanceAt (t : Tree) (line : Nat) (rule : List Char) : Allowance :=
  let candidates := [line, line - 1].filter fun n => n != 0
  match candidates.findSome? (directiveOn t rule) with
  | some directive => .allowed directive.reason
  | none => .denied

end ModuleLint
