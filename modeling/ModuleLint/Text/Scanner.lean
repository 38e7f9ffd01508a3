/-
ModuleLint/Text/Scanner.lean

Scanners of texts.  A scanner takes something from the start of a text and leaves the
rest, or refuses the text; scanners are put together with `do`, `<|>` and `optional`.  A
repetition counts its turns along the characters that lay ahead at its start, which
are enough when each turn takes one.
-/
namespace ModuleLint

/-- A scanner takes a value from the start of a text, or refuses. -/
abbrev Scanner := StateT (List Char) Option

namespace Scanner

variable {α β : Type}

/-- Refuses. -/
def refuse : Scanner α := fun _ => none

/-- The characters ahead. -/
def ahead : Scanner (List Char) := fun text => some (text, text)

/-- The next character, left where it is. -/
def peek? : Scanner (Option Char) := fun text => some (text.head?, text)

/-- Takes the next character if it satisfies `p`. -/
def one (p : Char → Bool) : Scanner Char
  | c :: rest => if p c then some (c, rest) else none
  | [] => none

/-- Takes a given character. -/
def char (c : Char) : Scanner Unit := do
  let _ ← one (· == c)

/-- Takes a given text. -/
def text : List Char → Scanner Unit
  | [] => pure ()
  | c :: rest => do
    char c
    text rest

/-- Takes all characters that satisfy `p`. -/
def takeWhile (p : Char → Bool) : Scanner (List Char) := fun text =>
  some (text.takeWhile p, text.dropWhile p)

/-- Takes at least one character that satisfies `p`. -/
def takeSome (p : Char → Bool) : Scanner (List Char) := do
  let first ← one p
  let more ← takeWhile p
  return first :: more

/-- Takes exactly `n` characters that satisfy `p`. -/
def exactly (p : Char → Bool) : Nat → Scanner (List Char)
  | 0 => pure []
  | n + 1 => do
    let first ← one p
    let more ← exactly p n
    return first :: more

/-- Repeats a scanner for as long as it does not refuse; the first list bounds the turns. -/
def manyFrom (item : Scanner α) : List Char → List α → Scanner (List α)
  | [], found, text => some (found.reverse, text)
  | _ :: turns, found, text =>
    match item text with
    | some (a, rest) => manyFrom item turns (a :: found) rest
    | none => some (found.reverse, text)

/-- **Repeats a scanner** for as long as it does not refuse. -/
def many (item : Scanner α) : Scanner (List α) := fun text => manyFrom item text [] text

/-- One item or more, with a separator between them. -/
def separated (item : Scanner α) (separator : Scanner β) : Scanner (List α) := do
  let first ← item
  let more ← many (do
    let _ ← separator
    item)
  return first :: more

/-- Refuses unless the text is used up. -/
def done : Scanner Unit
  | [] => some ((), [])
  | _ :: _ => none

/-- Turns an optional value into a refusal if it is missing. -/
def require : Option α → Scanner α
  | some a => pure a
  | none => refuse

/-- The value of a whole text. -/
def run (item : Scanner α) (text : List Char) : Option α :=
  match item text with
  | some (a, []) => some a
  | _ => none

end Scanner

end ModuleLint
