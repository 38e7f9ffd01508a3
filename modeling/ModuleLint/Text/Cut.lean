/-
ModuleLint/Text/Cut.lean

Cutting texts: at a given start, and at the first occurrence of a character.
-/
namespace ModuleLint

/-- The text after a given start, if a text begins with it. -/
def afterStart? : (start text : List Char) → Option (List Char)
  | [], text => some text
  | _ :: _, [] => none
  | a :: start, b :: text => if a = b then afterStart? start text else none

/-- The text before the first `c` and the text after it, if there is one. -/
def cutAt? (c : Char) : List Char → Option (List Char × List Char)
  | [] => none
  | d :: rest =>
    if d = c then some ([], rest)
    else (cutAt? c rest).map fun (before, after) => (d :: before, after)

end ModuleLint
