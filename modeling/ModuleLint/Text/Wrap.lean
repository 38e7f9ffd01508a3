/-
ModuleLint/Text/Wrap.lean

Filling lines with words.  A word ends before blanks, after some signs, and after a
hyphen between letters; each line takes as many words as fit, and a word that is
longer than a line is cut.  Blanks at the end of a line are dropped.
-/
import ModuleLint.Text.Width

namespace ModuleLint

/-- A word and the blanks after it. -/
structure WrapWord where
  text : List Char
  blanks : List Char
  deriving DecidableEq, Repr, Inhabited

namespace WrapWord

/-- How many columns the word takes up, without the blanks after it. -/
def width (w : WrapWord) : Nat := columns w.text

/-- The word as it stands in a line. -/
def whole (w : WrapWord) : List Char := w.text ++ w.blanks

end WrapWord

namespace Wrap

/-- Whether a line may end between two characters that no blank separates. -/
def mayBreak (a b : Char) : Bool :=
  (a == '-' && isAlphanumeric b) ||
  (a == '/' && isAlphabetic b) ||
  (['!', '?', '|', '\x7d', '–', '—'].contains a && isAlphanumeric b)

/-- Whether a line may end after `a`, which follows `before`, and in front of `b`. -/
def endsWord (before : Option Char) (a b : Char) : Bool :=
  if a = '-' then (before.map isAlphanumeric).getD false && mayBreak a b else mayBreak a b

/-- The words of a line, given the word at hand and its blanks, both with the last character
first. -/
def wordsFrom : (text blanks : List Char) → List Char → List WrapWord
  | [], [], [] => []
  | text, blanks, [] => [⟨text.reverse, blanks.reverse⟩]
  | text, blanks, c :: rest =>
    if c = ' ' then wordsFrom text (c :: blanks) rest
    else
      let breaks := !blanks.isEmpty || (match text with
        | a :: before => endsWord before.head? a c
        | [] => false)
      if breaks then ⟨text.reverse, blanks.reverse⟩ :: wordsFrom [c] [] rest
      else wordsFrom (c :: text) [] rest

/-- The pieces of a text that is too long for a line, given the piece at hand with its last
character first. -/
def pieces (width : Nat) : (piece : List Char) → List Char → List (List Char)
  | piece, [] => [piece.reverse]
  | piece, c :: rest =>
    if 0 < columns piece ∧ width < columns piece + columnsOf c then
      piece.reverse :: pieces width [c] rest
    else pieces width (c :: piece) rest

/-- Cuts a word that is longer than a line. -/
def cut (width : Nat) (w : WrapWord) : List WrapWord :=
  if w.width ≤ width then [w]
  else
    match (pieces width [] w.text).reverse with
    | last :: before => before.reverse.map (fun text => ⟨text, []⟩) ++ [⟨last, w.blanks⟩]
    | [] => [w]

/-- Puts words into lines, given the line at hand with its last word first. -/
def fill (width : Nat) : (line : List WrapWord) → List WrapWord → List (List WrapWord)
  | line, [] => [line.reverse]
  | line, w :: rest =>
    let used := columns (line.reverse.flatMap WrapWord.whole)
    if !line.isEmpty && Nat.blt width (used + w.width) then line.reverse :: fill width [w] rest
    else fill width (w :: line) rest

/-- The text of a line of words. -/
def lineText (words : List WrapWord) : List Char :=
  match words.reverse with
  | [] => []
  | last :: before => before.reverse.flatMap WrapWord.whole ++ last.text

/-- One line as lines of at most `width` columns. -/
def line (width : Nat) (text : List Char) : List (List Char) :=
  (fill width [] ((wordsFrom [] [] text).flatMap (cut width))).map lineText

end Wrap

/-- **A text as lines of at most `width` columns**, the first behind `first`, all others
behind `rest`, which are as wide as each other. -/
def wrapped (width : Nat) (first rest : List Char) (text : List Char) : List (List Char) :=
  match (text.splitOn '\n').flatMap (Wrap.line (width - columns first)) with
  | [] => [first]
  | head :: tail => (first ++ head) :: tail.map fun line => rest ++ line

end ModuleLint
