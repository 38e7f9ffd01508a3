/-
ModuleLint/Lexical/Piece.lean

The pieces a source text falls into: blanks, comments, preprocessor lines and
tokens.  A piece is a kind and its text, and the texts of all pieces, in order,
are the source itself, so a scan loses nothing and no two pieces overlap.  Where
a piece lies is not part of it; places are counted afterwards, along the pieces.

`munch` decides from the characters ahead what the next piece is and how far it
reaches.  It knows one thing about the past: whether a token already touches the
current line, because `#` opens a preprocessor line only where none does.
-/
import ModuleLint.Lexical.Token
import ModuleLint.Text.Letter
import ModuleLint.Text.Blank

namespace ModuleLint

/-- What a piece of a source text is. -/
inductive PieceKind where
  | blank
  | trivia (kind : TriviaKind)
  | token (kind : TokenKind)
  deriving DecidableEq, Repr, Inhabited

/-- A piece of a source text. -/
structure Piece where
  kind : PieceKind
  text : List Char
  deriving DecidableEq, Repr, Inhabited

/-- Why no piece begins at a character. -/
inductive LexicalFault where
  | unterminatedString
  | unterminatedDate
  | unexpected (c : Char)
  deriving DecidableEq, Repr, Inhabited

/-- The wording of a fault. -/
def LexicalFault.message : LexicalFault → String
  | .unterminatedString => "unterminated string literal"
  | .unterminatedDate => "unterminated date literal"
  | .unexpected c => "unexpected character '" ++ String.singleton c ++ "'"

namespace Lexical

/-- A character that separates pieces: a blank or a byte order mark. -/
def isSeparator (c : Char) : Bool :=
  isBlank c || c == '\ufeff'

/-- The first character of a word. -/
def isWordStart (c : Char) : Bool :=
  isAlphabetic c || c == '_'

/-- A later character of a word. -/
def isWordPart (c : Char) : Bool :=
  isAlphanumeric c || c == '_'

/-- How many characters the rest of the line has. -/
def lineLength (rest : List Char) : Nat :=
  (rest.takeWhile fun c => c != '\n').length

/-- How many characters of `rest` continue a word. -/
def wordLength (rest : List Char) : Nat :=
  (rest.takeWhile isWordPart).length

/-- How many digits `rest` begins with. -/
def digitCount (rest : List Char) : Nat :=
  (rest.takeWhile Char.isDigit).length

/-- How many characters of `rest` continue a number: digits, and then a point
with digits behind it. -/
def numberLength (rest : List Char) : Nat :=
  match rest.drop (digitCount rest) with
  | '.' :: d :: more =>
    if d.isDigit then digitCount rest + 2 + digitCount more else digitCount rest
  | _ => digitCount rest

/-- How many characters up to and with the quote that closes a string literal,
`n` of them already passed; a doubled quote stands for one and closes nothing. -/
def stringLength (n : Nat) : List Char → Option Nat
  | '"' :: '"' :: rest => stringLength (n + 2) rest
  | '"' :: _ => some (n + 1)
  | _ :: rest => stringLength (n + 1) rest
  | [] => none

/-- How many characters up to and with the apostrophe that closes a date literal,
which may not leave its line. -/
def dateLength (rest : List Char) : Option Nat :=
  let n := (rest.takeWhile fun c => c != '\'' && c != '\n').length
  match rest.drop n with
  | '\'' :: _ => some (n + 1)
  | _ => none

/-- The operator or punctuation sign at `c`, and how many characters of `rest`
belong to it. -/
def sign? (c : Char) (rest : List Char) : Option (TokenKind × Nat) :=
  match c with
  | '+' => some (.plus, 0)
  | '-' => some (.minus, 0)
  | '*' => some (.star, 0)
  | '/' => some (.slash, 0)
  | '%' => some (.percent, 0)
  | '=' => some (.eq, 0)
  | '<' => match rest with
    | '>' :: _ => some (.notEq, 1)
    | '=' :: _ => some (.lessEq, 1)
    | _ => some (.less, 0)
  | '>' => match rest with
    | '=' :: _ => some (.greaterEq, 1)
    | _ => some (.greater, 0)
  | '(' => some (.lParen, 0)
  | ')' => some (.rParen, 0)
  | '[' => some (.lBracket, 0)
  | ']' => some (.rBracket, 0)
  | ',' => some (.comma, 0)
  | ';' => some (.semicolon, 0)
  | ':' => some (.colon, 0)
  | '.' => some (.dot, 0)
  | '?' => some (.question, 0)
  | '&' => some (.ampersand, 0)
  | '~' => some (.tilde, 0)
  | _ => none

/-- The kind of a word: a reserved word or a plain name. -/
def wordKind (word : List Char) : TokenKind :=
  match Keyword.lookup word with
  | some keyword => .keyword keyword
  | none => .identifier

/-- **The piece that begins at `c`**: its kind, and how many characters of `rest`
it takes beyond `c`.  `touched` tells whether a token touches the current line. -/
def munch (touched : Bool) (c : Char) (rest : List Char) :
    Except LexicalFault (PieceKind × Nat) :=
  if isSeparator c then .ok (.blank, 0)
  else if c == '/' && rest.head? == some '/' then .ok (.trivia .comment, lineLength rest)
  else if c == '#' && !touched then .ok (.trivia .preprocessor, lineLength rest)
  else if isWordStart c then
    .ok (.token (wordKind (c :: rest.take (wordLength rest))), wordLength rest)
  else if c.isDigit then .ok (.token .number, numberLength rest)
  else if c == '"' then
    match stringLength 0 rest with
    | some n => .ok (.token .string, n)
    | none => .error .unterminatedString
  else if c == '\'' then
    match dateLength rest with
    | some n => .ok (.token .date, n)
    | none => .error .unterminatedDate
  else
    match sign? c rest with
    | some (kind, n) => .ok (.token kind, n)
    | none => .error (.unexpected c)

/-- Whether a token touches the line on which a piece ends, when `touched` tells
it for the line on which the piece begins. -/
def touches (touched : Bool) (kind : PieceKind) (c : Char) : Bool :=
  match kind with
  | .token _ => true
  | _ => if c == '\n' then false else touched

end Lexical

end ModuleLint
