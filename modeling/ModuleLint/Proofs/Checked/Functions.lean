/-
ModuleLint/Proofs/Checked/Functions.lean

The functions of the parser and its loops, each as a machine, and where they are called.  A
function is called with as many tokens taken as the forest counts and with its parent open; the
functions that take their first token without asking for its kind are called where one is ahead.

A loop is named apart from the function it stands in.  `ParseLoop.machine_eq` takes it apart into
what stands before its first turn and the turns it takes, so that one can speak of each turn.
A list after commas has its comma at the beginning of a turn: what stands before the first turn
is the first item.
-/
import ModuleLint.Proofs.Checked.Progress

namespace ModuleLint

namespace Checked

open Reader (nextIs)
open Grammar (isWord isComparison isAdditive isMultiplicative continuesBlock beginsDeclaration)

/-- Each level stands over the one that it may open. -/
theorem Machine.level_eq (n : Nat) : Machine.level n = Machine.levelOver (Machine.below n) := by
  cases n <;> rfl

/-! ### Functions -/

/-- The levels of binary operators, the loosest first. -/
inductive Tier where
  | or | and | comparison | additive | multiplicative
  deriving DecidableEq, Repr

namespace Tier

def isOperator : Tier → TokenKind → Bool
  | or => isWord .Or
  | and => isWord .And
  | comparison => isComparison
  | additive => isAdditive
  | multiplicative => isMultiplicative

/-- What stands on both sides of an operator. -/
def operand (inner : Option Level) : Tier → Machine
  | or => Machine.binary (isWord .And) (Machine.negated inner)
  | and => Machine.negated inner
  | comparison => Machine.binary isAdditive (Machine.binary isMultiplicative (Machine.signed inner))
  | additive => Machine.binary isMultiplicative (Machine.signed inner)
  | multiplicative => Machine.signed inner

end Tier

/-- **The functions of the parser.** -/
inductive ParseFunction where
  | module
  | varDeclaration
  | method
  | directive
  | parameterList
  | block (ends : List Keyword)
  | statement
  | simpleStatement
  | ifStatement
  | whileStatement
  | forStatement
  | loopBody
  | tryStatement
  | handlerStatement (kind : NodeKind)
  | expression
  | negated
  | binary (tier : Tier)
  | signed
  | suffixed
  | primary
  | newExpression
  | argumentList
  | identifier
  | memberName
  deriving DecidableEq, Repr

namespace ParseFunction

/-- What a function does where the next level of nesting is `inner`. -/
def machine (inner : Option Level) : ParseFunction → Machine
  | module => Machine.module inner
  | varDeclaration => Machine.varDeclaration
  | method => Machine.method inner
  | directive => Machine.directive inner
  | parameterList => Machine.parameterList inner
  | block ends => Machine.block inner ends
  | statement => Machine.statement inner
  | simpleStatement => Machine.simpleStatement inner
  | ifStatement => Machine.ifStatement inner
  | whileStatement => Machine.whileStatement inner
  | forStatement => Machine.forStatement inner
  | loopBody => Machine.loopBody inner
  | tryStatement => Machine.tryStatement inner
  | handlerStatement kind => Machine.handlerStatement inner kind
  | expression => Machine.expression inner
  | negated => Machine.negated inner
  | binary tier => Machine.binary tier.isOperator (tier.operand inner)
  | signed => Machine.signed inner
  | suffixed => Machine.suffixed (Machine.expression inner)
  | primary => Machine.primary (Machine.expression inner)
  | newExpression => Machine.newExpression (Machine.expression inner)
  | argumentList => Machine.argumentList (Machine.expression inner)
  | identifier => Machine.identifier
  | memberName => Machine.memberName

/-- **A function as it runs** where some levels of nesting are open already: as many may be
opened as are left up to the limit. -/
def run (f : ParseFunction) : Machine := fun input s =>
  f.machine (Machine.below (Grammar.nestingLimit - s.depth)) input s

/-- How many tokens a function takes at least. -/
def takes : ParseFunction → Nat
  | module | block _ => 0
  | _ => 1

/-- The functions that take their first token without asking for its kind.  Whoever calls them
has seen one. -/
def bumpsFirst : ParseFunction → Bool
  | varDeclaration | directive | ifStatement | whileStatement | forStatement | tryStatement
  | handlerStatement _ | newExpression => true
  | _ => false

/-- **The situation in which a function is called**: no more tokens are taken than there are, the
forest counts as many, and its innermost open node is there, which only a module can do
without. -/
structure Called (f : ParseFunction) (input : Input) (s : State) : Prop where
  taken_le : s.taken ≤ input.lexed.tokens.size
  tokens_eq : s.builder.tokens = s.taken
  ready : s.builder.Ready
  opened_ne : f ≠ module → s.builder.opened ≠ []
  ahead_ne : f.bumpsFirst = true → input.ahead s ≠ []

end ParseFunction

/-! ### Loops -/

/-- **The loops of the parser.** -/
inductive ParseLoop where
  /-- The declarations of a module. -/
  | declarations
  /-- The statements of a block, up to one of the words that end it. -/
  | statements (ends : List Keyword)
  /-- The operators of a level, each with its right side. -/
  | operators (tier : Tier)
  /-- What follows a primary. -/
  | suffixes
  | arguments
  | parameters
  /-- The further branches of `If`. -/
  | elsIfs
  /-- The names of declared variables. -/
  | names
  /-- The directives before a method or a parameter. -/
  | directives
  /-- The pieces of a literal. -/
  | strings
  deriving DecidableEq, Repr

namespace ParseLoop

/-- An argument, which may be left out. -/
def argument (inner : Option Level) : Machine :=
  Machine.ifNext (fun kind => kind == .comma || kind == .rParen) Machine.skip
    (Machine.expression inner)

/-- A declared variable. -/
def variableName : Machine := Machine.identifier >> Machine.accept (.keyword .Export)

/-- What wraps a primary once more. -/
def suffix (inner : Option Level) : TokenKind → Option (NodeKind × Machine)
  | .dot => some (.memberAccess, Machine.bump >> Machine.memberName)
  | .lBracket =>
    some (.indexAccess, Machine.bump >> Machine.expression inner >> Machine.expect .rBracket)
  | .lParen => some (.callExpression, Machine.argumentList (Machine.expression inner))
  | _ => none

/-- What stands before the first turn, behind the checkpoint of the loop. -/
def first (inner : Option Level) : ParseLoop → Machine
  | operators tier => tier.operand inner
  | suffixes => Machine.primary (Machine.expression inner)
  | arguments => argument inner
  | parameters => Machine.parameter inner
  | names => variableName
  | declarations | statements _ | elsIfs | directives | strings => Machine.skip

/-- **The turns of a loop.** -/
def loop (inner : Option Level) : ParseLoop → Loop
  | declarations => Machine.repeating beginsDeclaration (Machine.declaration inner)
  | statements ends => Machine.repeating (nextIs (continuesBlock ends))
      (Machine.ifNext (· == .semicolon) Machine.bump (Machine.statement inner))
  | operators tier => Machine.wrapping fun kind =>
      if tier.isOperator kind then some (.binaryExpression, Machine.bump >> tier.operand inner)
      else none
  | suffixes => Machine.wrapping (suffix inner)
  | arguments => Machine.repeating (nextIs (· == .comma)) (Machine.bump >> argument inner)
  | parameters =>
      Machine.repeating (nextIs (· == .comma)) (Machine.bump >> Machine.parameter inner)
  | elsIfs => Machine.repeating (nextIs (isWord .ElsIf))
      (Machine.node .elsIfBranch (Machine.condition inner))
  | names => Machine.repeating (nextIs (· == .comma)) (Machine.bump >> variableName)
  | directives => Machine.repeating (nextIs (· == .ampersand)) (Machine.directive inner)
  | strings => Machine.repeating (nextIs (· == .string)) Machine.bump

/-- A loop as it stands in its function. -/
def machine (inner : Option Level) : ParseLoop → Machine
  | declarations => Machine.many beginsDeclaration (Machine.declaration inner)
  | statements ends => Machine.many (nextIs (continuesBlock ends))
      (Machine.ifNext (· == .semicolon) Machine.bump (Machine.statement inner))
  | operators tier => Machine.binary tier.isOperator (tier.operand inner)
  | suffixes => Machine.suffixed (Machine.expression inner)
  | arguments => Machine.commaSeparated (argument inner)
  | parameters => Machine.commaSeparated (Machine.parameter inner)
  | elsIfs => Machine.many (nextIs (isWord .ElsIf))
      (Machine.node .elsIfBranch (Machine.condition inner))
  | names => Machine.commaSeparated variableName
  | directives => Machine.directives inner
  | strings => Machine.many (nextIs (· == .string)) Machine.bump

/-- **A loop is what stands before it and its turns.** -/
theorem machine_eq (inner : Option Level) (l : ParseLoop) :
    l.machine inner = Machine.looping (l.first inner) (l.loop inner) := by
  cases l with
  | declarations => exact Machine.many_eq _ _
  | statements ends => exact Machine.many_eq _ _
  | operators tier => exact Machine.chain_eq _ _
  | suffixes =>
    have hstep : Machine.suffixed (Machine.expression inner) =
        Machine.chain (Machine.primary (Machine.expression inner)) (suffix inner) := by
      refine congrArg (Machine.chain _) (funext fun kind => ?_)
      cases kind <;> rfl
    exact hstep.trans (Machine.chain_eq _ _)
  | arguments => exact Machine.commaSeparated_eq _
  | parameters => exact Machine.commaSeparated_eq _
  | elsIfs => exact Machine.many_eq _ _
  | names => exact Machine.commaSeparated_eq _
  | directives => exact Machine.many_eq _ _
  | strings => exact Machine.many_eq _ _

/-- **A loop takes a turn** from one state to the next.  Its checkpoint was made in `s₀`. -/
def Turns (l : ParseLoop) (inner : Option Level) (input : Input) (s₀ s s' : State) : Prop :=
  ∃ turn, l.loop inner (input.ahead s) = some turn ∧
    turn s₀.builder.checkpoint input s = some (.ok s')

/-- **Where a loop stands**: behind what comes first, or behind a further turn. -/
inductive Stands (l : ParseLoop) (inner : Option Level) (input : Input) (s₀ : State) :
    State → Prop
  | first {s : State} (h : l.first inner input s₀ = some (.ok s)) : Stands l inner input s₀ s
  | turn {s s' : State} (h : Stands l inner input s₀ s) (hturn : l.Turns inner input s₀ s s') :
    Stands l inner input s₀ s'

end ParseLoop

end Checked

end ModuleLint
