/-
ModuleLint/Text/Position.lean

Places in a text.  A position counts bytes from the start of the text, lines from
one and characters of the current line from one; only a line feed ends a line.
A position is moved by reading characters, so the place after a text is one fold
over it, `Position.after`, and places add up along a concatenation.
-/
namespace ModuleLint

/-- A place in a text: bytes before it, its line, its column in characters. -/
structure Position where
  offset : Nat
  line : Nat
  column : Nat
  deriving DecidableEq, Repr, Inhabited

namespace Position

/-- The start of a text. -/
def start : Position := ⟨0, 1, 1⟩

/-- The place one character further. -/
def next (p : Position) (c : Char) : Position :=
  if c = '\n' then ⟨p.offset + c.utf8Size, p.line + 1, 1⟩
  else ⟨p.offset + c.utf8Size, p.line, p.column + 1⟩

/-- **The place after a text** that begins at `p`. -/
def after (p : Position) (text : List Char) : Position :=
  text.foldl next p

@[simp] theorem after_nil (p : Position) : p.after [] = p := rfl

theorem after_cons (p : Position) (c : Char) (text : List Char) :
    p.after (c :: text) = (p.next c).after text := rfl

theorem after_append (p : Position) (s t : List Char) :
    p.after (s ++ t) = (p.after s).after t := by
  simp [after, List.foldl_append]

end Position

/-- The length of a text in bytes. -/
def byteLength (text : List Char) : Nat :=
  text.foldl (fun n c => n + c.utf8Size) 0

/-- The number of lines of a text; an end of line at the very end opens no further line. -/
def lineCount (text : List Char) : Nat :=
  text.count '\n' + (match text.getLast? with
    | none => 0
    | some c => if c = '\n' then 0 else 1)

end ModuleLint
