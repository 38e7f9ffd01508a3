/-
ModuleLint/Grammar/Statement.lean

The grammar of statements, of methods and of a whole module.

A block of statements ends at the end of input or before one of the reserved words
that its surroundings wait for; semicolons between statements may be repeated or
left out.  `Grammar.level` ties the knot: level `n` reads what may open `n` further
levels, each one what the level below it reads.
-/
import ModuleLint.Grammar.Expression

namespace ModuleLint

namespace Grammar

open Reader

/-- Takes the given reserved word, or stops. -/
def word (keyword : Keyword) : Reader := expect (.keyword keyword)

/-- Where the optional expression of a statement cannot begin. -/
def isStatementEnd : TokenKind → Bool
  | .semicolon => true
  | .keyword .EndIf | .keyword .ElsIf | .keyword .Else | .keyword .EndDo
  | .keyword .EndTry | .keyword .Except | .keyword .EndProcedure
  | .keyword .EndFunction => true
  | _ => false

/-! ### Blocks -/

/-- Whether a block goes on at a token, given the words that end it. -/
def continuesBlock (ends : List Keyword) : TokenKind → Bool
  | .keyword keyword => !ends.contains keyword
  | _ => true

/-- **A block of statements**, up to one of the words that end it. -/
def block (inner : Option Level) (ends : List Keyword) : Reader :=
  deeper inner fun level =>
    node .codeBlock (many (nextIs (continuesBlock ends))
      (ifNext (· == .semicolon) take level.statement))

/-! ### Declarations -/

/-- Declared variables, each of which may be exported. -/
def varDeclaration : Reader :=
  node .varDeclaration (take >> commaSeparated (identifier >> accept (.keyword .Export)) >>
    accept .semicolon)

/-- A directive before a method or a parameter. -/
def directive (inner : Option Level) : Reader :=
  node .directive (take >> identifier >>
    ifNext (· == .lParen) (argumentList (expression inner)) pass)

/-- All directives that stand here. -/
def directives (inner : Option Level) : Reader :=
  many (nextIs (· == .ampersand)) (directive inner)

/-- A parameter, with its default value. -/
def parameter (inner : Option Level) : Reader :=
  node .parameter (directives inner >> accept (.keyword .Val) >> identifier >>
    ifNext (· == .eq) (take >> expression inner) pass)

/-- Parameters in parentheses. -/
def parameterList (inner : Option Level) : Reader :=
  node .parameterList (expect .lParen >>
    ifNext (· == .rParen) take (commaSeparated (parameter inner) >> expect .rParen))

/-- What follows the words before a method: its head, its body, and the word that ends it. -/
def methodContent (inner : Option Level) (finish : Keyword) : Reader :=
  take >> identifier >> parameterList inner >> accept (.keyword .Export) >>
    block inner [finish] >> expectAs (.keyword finish) .endOfMethod

/-- **A procedure or a function**, with the directives before it. -/
def method (inner : Option Level) : Reader :=
  wrap (directives inner >> accept (.keyword .Async)) fun
    | some (.keyword .Procedure) => .ok (.procedure, methodContent inner .EndProcedure)
    | some (.keyword .Function) => .ok (.function, methodContent inner .EndFunction)
    | _ => .error .method

/-! ### Statements -/

/-- A condition with the block it guards. -/
def condition (inner : Option Level) : Reader :=
  take >> expression inner >> word .Then >> block inner [.ElsIf, .Else, .EndIf]

/-- `If` with all its branches. -/
def ifStatement (inner : Option Level) : Reader :=
  node .ifStatement (node .ifBranch (condition inner) >>
    many (nextIs (isWord .ElsIf)) (node .elsIfBranch (condition inner)) >>
    ifNext (isWord .Else) (node .elseBranch (take >> block inner [.EndIf])) pass >>
    word .EndIf)

/-- The body of a loop. -/
def loopBody (inner : Option Level) : Reader :=
  word .Do >> block inner [.EndDo] >> word .EndDo

/-- `While`. -/
def whileStatement (inner : Option Level) : Reader :=
  node .whileStatement (take >> expression inner >> loopBody inner)

/-- `For`, over a range of numbers or over each item of a collection. -/
def forStatement (inner : Option Level) : Reader :=
  ifAhead (fun ahead => nextIs (isWord .Each) ahead.tail)
    (node .forEachStatement (take >> take >> identifier >> word .In >> expression inner >>
      loopBody inner))
    (node .forStatement (take >> identifier >> expect .eq >> expression inner >> word .To >>
      expression inner >> loopBody inner))

/-- `Try`. -/
def tryStatement (inner : Option Level) : Reader :=
  node .tryStatement (take >> block inner [.Except] >>
    node .exceptBranch (word .Except >> block inner [.EndTry]) >> word .EndTry)

/-- An expression, unless the statement ends here. -/
def optionalExpression (inner : Option Level) : Reader := peek fun
  | none => pass
  | some kind => if isStatementEnd kind then pass else expression inner

/-- `AddHandler` or `RemoveHandler`: an event and its handler. -/
def handlerStatement (inner : Option Level) (kind : NodeKind) : Reader :=
  node kind (take >> expression inner >> expect .comma >> expression inner)

/-- An assignment or a call. -/
def simpleStatement (inner : Option Level) : Reader :=
  wrap (ifNext (isWord .Await) (signed inner) (suffixed (expression inner))) fun
    | some .eq => .ok (.assignmentStatement, take >> expression inner)
    | _ => .ok (.callStatement, pass)

/-- **A statement.** -/
def statement (inner : Option Level) : Reader := peek fun
  | some (.keyword .If) => ifStatement inner
  | some (.keyword .While) => whileStatement inner
  | some (.keyword .For) => forStatement inner
  | some (.keyword .Try) => tryStatement inner
  | some (.keyword .Var) => varDeclaration
  | some (.keyword .Return) => node .returnStatement (take >> optionalExpression inner)
  | some (.keyword .Raise) =>
    node .raiseStatement (take >>
      ifNext (· == .lParen) (argumentList (expression inner)) (optionalExpression inner))
  | some (.keyword .Execute) => node .executeStatement (take >> expression inner)
  | some (.keyword .Goto) => node .gotoStatement (take >> expect .tilde >> identifier)
  | some (.keyword .Break) => node .breakStatement take
  | some (.keyword .Continue) => node .continueStatement take
  | some (.keyword .AddHandler) => handlerStatement inner .addHandlerStatement
  | some (.keyword .RemoveHandler) => handlerStatement inner .removeHandlerStatement
  | some .tilde => node .label (take >> identifier >> expect .colon)
  | _ => simpleStatement inner

/-! ### Levels and modules -/

/-- What is read where the next level of nesting is `inner`. -/
def levelOver (inner : Option Level) : Level where
  negated := negated inner
  signed := signed inner
  statement := statement inner

/-- **The level that may open `n` further levels.** -/
def level : Nat → Level
  | 0 => levelOver none
  | n + 1 => levelOver (some (level n))

/-- What may open `n` levels reads one level deeper: nothing if `n` is zero. -/
def below : Nat → Option Level
  | 0 => none
  | n + 1 => some (level n)

/-- Every level reads over what may be opened below it. -/
theorem level_eq (n : Nat) : level n = levelOver (below n) := by
  cases n <;> rfl

/-- A declaration of the module: variables or a method. -/
def declaration (inner : Option Level) : Reader :=
  ifNext (isWord .Var) varDeclaration (method inner)

/-- Whether a declaration begins with these tokens. -/
def beginsDeclaration : List TokenKind → Bool
  | .keyword .Var :: _ | .keyword .Procedure :: _ | .keyword .Function :: _ => true
  | .ampersand :: _ => true
  | .keyword .Async :: .keyword .Procedure :: _ => true
  | .keyword .Async :: .keyword .Function :: _ => true
  | _ => false

/-- **A module**: its declarations, then its own statements. -/
def module (inner : Option Level) : Reader :=
  node .module (many beginsDeclaration (declaration inner) >> block inner [])

end Grammar

end ModuleLint
