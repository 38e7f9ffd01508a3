/-
ModuleLint/Text/Rests.lean

Matching by rests.  A piece of a pattern is the function that takes a text to all
that it can leave over: one rest for each way in which it matches at the start of
the text, and none if it does not match.  A sequence of pieces is run on a set of
rests, and it covers a text if nothing can be left over.
-/
namespace ModuleLint

namespace Rests

variable {α : Type} [BEq α]

/-- One element that satisfies `p`. -/
def one (p : α → Bool) : List α → List (List α)
  | [] => []
  | c :: rest => if p c then [rest] else []

/-- Any number of elements that satisfy `p`. -/
def run (p : α → Bool) : List α → List (List α)
  | [] => [[]]
  | c :: rest => (c :: rest) :: (if p c then run p rest else [])

/-- What follows each separator. -/
def afterSeparators (separator : α) : List α → List (List α)
  | [] => []
  | c :: rest =>
    if c == separator then rest :: afterSeparators separator rest
    else afterSeparators separator rest

/-- Any number of whole components, each up to its separator, or the whole text. -/
def components (separator : α) (text : List α) : List (List α) :=
  text :: (afterSeparators separator text ++ [[]])

/-- Whether nothing can be left over. -/
def anyEmpty (rests : List (List α)) : Bool := rests.any List.isEmpty

/-- The rests that one piece leaves of several texts. -/
def afterPiece (piece : List α → List (List α)) (texts : List (List α)) : List (List α) :=
  (texts.flatMap piece).eraseDups

/-- The rests that pieces leave one after the other. -/
def afterAll (pieces : List (List α → List (List α))) (texts : List (List α)) : List (List α) :=
  pieces.foldl (fun rests piece => afterPiece piece rests) texts

end Rests

end ModuleLint
