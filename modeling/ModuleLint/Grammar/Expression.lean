/-
ModuleLint/Grammar/Expression.lean

The grammar of expressions.  From loosest to tightest: `Or`, `And`, `Not`,
comparison, sums, products, signs and `Await`, and at last a primary with its
chain of member names, indices and calls.  The binary levels grow to the left.

Nesting is limited.  An expression, a `Not` and a sign each open a level, and a
block of statements opens one too; `Level` holds what can be read one level
deeper, and a reader that may open a level takes an `Option Level`, which is
`none` where the limit is reached.
-/
import ModuleLint.Grammar.Reader

namespace ModuleLint

/-- What can be read one level of nesting deeper. -/
structure Level where
  negated : Reader
  signed : Reader
  statement : Reader

namespace Grammar

open Reader

/-- How many levels of nesting a module may open. -/
def nestingLimit : Nat := 64

/-- Opens a level of nesting, or stops where none is left. -/
def deeper (inner : Option Level) (content : Level → Reader) : Reader :=
  match inner with
  | none => stop (.nesting nestingLimit)
  | some level => content level

/-- Whether a token is the given reserved word. -/
def isWord (word : Keyword) (kind : TokenKind) : Bool := kind == .keyword word

/-! ### Operators -/

/-- An operator that compares. -/
def isComparison : TokenKind → Bool
  | .eq | .notEq | .less | .lessEq | .greater | .greaterEq => true
  | _ => false

/-- An operator of sums. -/
def isAdditive : TokenKind → Bool
  | .plus | .minus => true
  | _ => false

/-- An operator of products. -/
def isMultiplicative : TokenKind → Bool
  | .star | .slash | .percent => true
  | _ => false

/-- An operator before a single operand, of the tightest kind. -/
def isSign : TokenKind → Bool
  | .minus | .plus | .keyword .Await => true
  | _ => false

/-- **A level of binary operators**: operands with operators between them. -/
def binary (isOperator : TokenKind → Bool) (operand : Reader) : Reader :=
  chain operand fun kind =>
    if isOperator kind then some (.binaryExpression, take >> operand) else none

/-! ### Names and literals -/

/-- A plain name. -/
def identifier : Reader :=
  ifNext (· == .identifier) (node .identifier take) (stop .identifier)

/-- The name of a member, which may be spelled like a reserved word. -/
def memberName : Reader :=
  ifNext (fun | .identifier | .keyword _ => true | _ => false)
    (node .identifier take) (stop .memberName)

/-- A literal of one token. -/
def isLiteral : TokenKind → Bool
  | .number | .date => true
  | .keyword .True | .keyword .False | .keyword .Undefined | .keyword .Null => true
  | _ => false

/-! ### Primaries, given how an expression is read -/

/-- Arguments in parentheses; any of them may be left out. -/
def argumentList (expression : Reader) : Reader :=
  node .argumentList (expect .lParen >>
    ifNext (· == .rParen) take
      (commaSeparated (ifNext (fun kind => kind == .comma || kind == .rParen) pass expression) >>
        expect .rParen))

/-- `New T`, `New T(…)` or `New(…)`. -/
def newExpression (expression : Reader) : Reader :=
  node .newExpression (take >> peek fun
    | some .identifier =>
      node .typeName take >> ifNext (· == .lParen) (argumentList expression) pass
    | some .lParen => argumentList expression
    | _ => stop .typeName)

/-- `?(condition, yes, no)`. -/
def ternary (expression : Reader) : Reader :=
  node .ternaryExpression (take >> expect .lParen >> expression >> expect .comma >> expression >>
    expect .comma >> expression >> expect .rParen)

/-- An expression in parentheses. -/
def parenthesised (expression : Reader) : Reader :=
  node .parenExpression (take >> expression >> expect .rParen)

/-- A primary: what an operand begins with. -/
def primary (expression : Reader) : Reader := peek fun
  | some .identifier => identifier
  | some .string => node .literal (many (nextIs (· == .string)) take)
  | some .lParen => parenthesised expression
  | some .question => ternary expression
  | some (.keyword .New) => newExpression expression
  | some kind => if isLiteral kind then node .literal take else stop .expression
  | none => stop .expression

/-- **A primary with what follows it**: member names, indices and calls. -/
def suffixed (expression : Reader) : Reader :=
  chain (primary expression) fun
    | .dot => some (.memberAccess, take >> memberName)
    | .lBracket => some (.indexAccess, take >> expression >> expect .rBracket)
    | .lParen => some (.callExpression, argumentList expression)
    | _ => none

/-! ### Expressions, given what one level deeper reads -/

/-- **An expression.** -/
def expression (inner : Option Level) : Reader :=
  deeper inner fun level => binary (isWord .Or) (binary (isWord .And) level.negated)

/-- An operand, with signs and `Await` before it. -/
def signed (inner : Option Level) : Reader :=
  ifNext isSign (deeper inner fun level => node .unaryExpression (take >> level.signed))
    (suffixed (expression inner))

/-- Products, sums and comparisons of operands. -/
def comparison (inner : Option Level) : Reader :=
  binary isComparison (binary isAdditive (binary isMultiplicative (signed inner)))

/-- A comparison, with `Not` before it. -/
def negated (inner : Option Level) : Reader :=
  ifNext (isWord .Not) (deeper inner fun level => node .unaryExpression (take >> level.negated))
    (comparison inner)

end Grammar

end ModuleLint
