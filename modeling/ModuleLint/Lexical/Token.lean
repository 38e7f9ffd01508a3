/-
ModuleLint/Lexical/Token.lean

Tokens of a module.  A token carries its text and the place where it begins, so
nothing has to be cut out of the source again.  Comments and preprocessor lines
are no tokens; they are kept beside them as trivia, because allow directives are
written in comments.
-/
import ModuleLint.Lexical.Keyword
import ModuleLint.Text.Position

namespace ModuleLint

/-- What a token is, without its text. -/
inductive TokenKind where
  | keyword (word : Keyword)
  | identifier | number | string | date
  | plus | minus | star | slash | percent
  | eq | notEq | less | lessEq | greater | greaterEq
  | lParen | rParen | lBracket | rBracket
  | comma | semicolon | colon | dot | question | ampersand | tilde
  deriving DecidableEq, Repr, Inhabited

/-- The name of a token kind in reports about tokens. -/
def TokenKind.name : TokenKind → String
  | .keyword word => "Keyword(" ++ word.name ++ ")"
  | .identifier => "Identifier" | .number => "Number" | .string => "String" | .date => "Date"
  | .plus => "Plus" | .minus => "Minus" | .star => "Star" | .slash => "Slash"
  | .percent => "Percent"
  | .eq => "Eq" | .notEq => "NotEq" | .less => "Less" | .lessEq => "LessEq"
  | .greater => "Greater" | .greaterEq => "GreaterEq"
  | .lParen => "LParen" | .rParen => "RParen" | .lBracket => "LBracket" | .rBracket => "RBracket"
  | .comma => "Comma" | .semicolon => "Semicolon" | .colon => "Colon" | .dot => "Dot"
  | .question => "Question" | .ampersand => "Ampersand" | .tilde => "Tilde"

/-- A token: its kind, its text and the place of its first character. -/
structure Token where
  kind : TokenKind
  text : List Char
  position : Position
  deriving DecidableEq, Repr, Inhabited

namespace Token

/-- The length of a token in bytes. -/
def size (t : Token) : Nat := byteLength t.text

/-- The offset one past the last byte of a token. -/
def stop (t : Token) : Nat := t.position.offset + t.size

end Token

/-- What a fragment between tokens is. -/
inductive TriviaKind where
  | comment
  | preprocessor
  deriving DecidableEq, Repr, Inhabited

/-- The name of a kind of trivia in reports about tokens. -/
def TriviaKind.name : TriviaKind → String
  | .comment => "Comment"
  | .preprocessor => "Preprocessor"

/-- A comment or a preprocessor line. -/
structure Trivia where
  kind : TriviaKind
  text : List Char
  position : Position
  deriving DecidableEq, Repr, Inhabited

end ModuleLint
