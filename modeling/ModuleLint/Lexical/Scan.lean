/-
ModuleLint/Lexical/Scan.lean

A whole source text as pieces, and as tokens and trivia with their places.

`Scan.of` walks the text once.  Where a piece begins, `munch` says how far it
reaches, and that many characters are passed over before the next piece begins;
so the walk is by recursion on the text.  It ends at the end of the text or at
the first character where no piece begins.  `tokenize` then counts places along
the pieces and keeps the tokens and the trivia.
-/
import ModuleLint.Lexical.Piece
import ModuleLint.Lexical.Error

namespace ModuleLint

/-- The pieces found in a text, and the fault that ended the walk early, if any. -/
structure Scan where
  pieces : List Piece
  fault : Option LexicalFault
  deriving DecidableEq, Repr, Inhabited

namespace Scan

/-- The walk over the characters ahead, `skip` of which belong to a piece already
found.  `found` holds the pieces so far, the last one first. -/
def walk (found : List Piece) (touched : Bool) : Nat → List Char → Scan
  | _, [] => ⟨found.reverse, none⟩
  | skip + 1, _ :: rest => walk found touched skip rest
  | 0, c :: rest =>
    match Lexical.munch touched c rest with
    | .error fault => ⟨found.reverse, some fault⟩
    | .ok (kind, n) =>
      walk (⟨kind, c :: rest.take n⟩ :: found) (Lexical.touches touched kind c) n rest

/-- **The pieces of a source text.** -/
def of (source : List Char) : Scan :=
  walk [] false 0 source

end Scan

/-- The tokens and the trivia of a source text, each in source order. -/
structure Lexed where
  tokens : Array Token
  trivia : Array Trivia
  deriving DecidableEq, Repr, Inhabited

namespace Lexed

/-- Adds a piece that begins at `place.1`, and moves on to the place after it. -/
def add (place : Position × Lexed) (piece : Piece) : Position × Lexed :=
  let (position, lexed) := place
  (position.after piece.text,
    match piece.kind with
    | .blank => lexed
    | .trivia kind => { lexed with trivia := lexed.trivia.push ⟨kind, piece.text, position⟩ }
    | .token kind => { lexed with tokens := lexed.tokens.push ⟨kind, piece.text, position⟩ })

/-- The tokens and trivia among the pieces, and the place after the last piece. -/
def ofPieces (pieces : List Piece) : Position × Lexed :=
  pieces.foldl add (Position.start, ⟨#[], #[]⟩)

/-- The kinds of the tokens, all that the grammar looks at. -/
def kinds (lexed : Lexed) : List TokenKind :=
  lexed.tokens.toList.map Token.kind

end Lexed

/-- **The tokens and trivia of a source text**, or a report on the first place
where no piece begins. -/
def tokenize (source : List Char) : Except SourceError Lexed :=
  let scan := Scan.of source
  let (position, lexed) := Lexed.ofPieces scan.pieces
  match scan.fault with
  | some fault => .error ⟨fault.message, position.line, position.column⟩
  | none => .ok lexed

end ModuleLint
