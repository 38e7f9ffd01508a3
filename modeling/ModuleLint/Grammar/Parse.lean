/-
ModuleLint/Grammar/Parse.lean

From a source text to the tree of a module.  The grammar reads the kinds of the
tokens; what it read is laid out in a forest, or, where it stopped, the place and
the text of the offending token are looked up for the report.
-/
import ModuleLint.Grammar.Statement
import ModuleLint.Tree.Basic

namespace ModuleLint

/-- The spelling of a token kind in a report on what was expected. -/
def TokenKind.spelling : TokenKind → String
  | .keyword word => word.name
  | .identifier => "identifier" | .number => "number" | .string => "string" | .date => "date"
  | .plus => "+" | .minus => "-" | .star => "*" | .slash => "/" | .percent => "%"
  | .eq => "=" | .notEq => "<>" | .less => "<" | .lessEq => "<=" | .greater => ">"
  | .greaterEq => ">="
  | .lParen => "(" | .rParen => ")" | .lBracket => "[" | .rBracket => "]"
  | .comma => "," | .semicolon => ";" | .colon => ":" | .dot => "."
  | .question => "?" | .ampersand => "&" | .tilde => "~"

/-- The wording of what was expected. -/
def Expected.wording : Expected → String
  | .token kind => "'" ++ kind.spelling ++ "'"
  | .identifier => "identifier"
  | .expression => "expression"
  | .typeName => "type name"
  | .memberName => "member name"
  | .method => "'Procedure' or 'Function'"
  | .endOfMethod => "end of method"
  | .nesting limit => "at most " ++ toString limit ++ " nested blocks or expressions"

namespace Grammar

/-- **What a module derives from**, given the kinds of its tokens. -/
def derive (kinds : List TokenKind) : Except Stop (List Derivation) :=
  match module (below nestingLimit) kinds with
  | .error stop => .error stop
  | .ok (items, _) => .ok items

/-- **The report on where reading stopped**: the token found there, or the end of input
one character past the start of the last token. -/
def report (lexed : Lexed) (stop : Stop) : SourceError :=
  let expected := "expected " ++ stop.expected.wording ++ ", found "
  match lexed.tokens[lexed.tokens.size - stop.unread]? with
  | some token =>
    ⟨expected ++ "'" ++ String.ofList token.text ++ "'",
      token.position.line, token.position.column⟩
  | none =>
    match lexed.tokens.back? with
    | some last => ⟨expected ++ "end of input", last.position.line, last.position.column + 1⟩
    | none => ⟨expected ++ "end of input", 1, 1⟩

end Grammar

/-- The tree over a source that derivations describe. -/
def Tree.ofDerivations (source : List Char) (lexed : Lexed) (items : List Derivation) : Tree :=
  (Derivation.emitAll items Builder.empty).toTree source lexed

/-- **The tree of a module**, or a report on its first error. -/
def parse (source : List Char) : Except SourceError Tree :=
  match tokenize source with
  | .error e => .error e
  | .ok lexed =>
    match Grammar.derive lexed.kinds with
    | .error stop => .error (Grammar.report lexed stop)
    | .ok items => .ok (Tree.ofDerivations source lexed items)

end ModuleLint
