/-
ModuleLint/Report/Snippet.lean

Findings shown in their source.  A finding is headed by what it says, then the lines
it covers are shown with one line around them, the covered part marked and labelled
with the rule, and at last its suggestion.  A part within one line is underlined; a
part of several lines has an arrow at its first and at its last line.
-/
import ModuleLint.Lint.Finding
import ModuleLint.Text.Wrap

namespace ModuleLint

namespace Snippet

/-- The width of what is shown. -/
def terminalWidth : Nat := 80

/-- The distance between the stops of a tabulator. -/
def tabWidth : Nat := 4

/-! ### Lines -/

/-- A line of a source: its number, where it begins and how long it is, in bytes and with its
end, and its text without the end. -/
structure Line where
  number : Nat
  offset : Nat
  size : Nat
  text : List Char
  deriving DecidableEq, Repr, Inhabited

namespace Line

/-- The offset after the line. -/
def stop (l : Line) : Nat := l.offset + l.size

end Line

/-- The offsets after all ends of lines in a text that begins at `offset`. -/
def lineStarts : Nat → List Char → List Nat
  | _, [] => []
  | offset, '\r' :: '\n' :: rest => (offset + 2) :: lineStarts (offset + 2) rest
  | offset, c :: rest =>
    let after := offset + c.utf8Size
    if c = '\n' ∨ c = '\r' then after :: lineStarts after rest else lineStarts after rest

/-- The lines of a text that begins at `offset` with line `number`, given the text of the line
at hand with its last character first, and where it began. -/
def linesFrom (number start : Nat) : Nat → List Char → List Char → List Line
  | offset, text, [] =>
    if text.isEmpty then [] else [⟨number, start, offset - start, text.reverse⟩]
  | offset, text, '\r' :: '\n' :: rest =>
    ⟨number, start, offset + 2 - start, text.reverse⟩ ::
      linesFrom (number + 1) (offset + 2) (offset + 2) [] rest
  | offset, text, c :: rest =>
    let after := offset + c.utf8Size
    if c = '\n' then
      ⟨number, start, after - start, text.reverse⟩ :: linesFrom (number + 1) after after [] rest
    else linesFrom number start after (c :: text) rest

/-- The part of a text between two byte offsets; the text begins at `offset`. -/
def between (start stop : Nat) : Nat → List Char → List Char
  | _, [] => []
  | offset, c :: rest =>
    let more := between start stop (offset + c.utf8Size) rest
    if start ≤ offset ∧ offset < stop then c :: more else more

/-- **The lines that a part of a source covers**, and one more on each side. -/
def context (source : List Char) (offset length : Nat) : List Line :=
  let starts := lineStarts 0 source
  let before := 0 :: starts.filter fun s => s ≤ offset
  let after := starts.filter fun s => offset + length < s
  let first := (before.reverse[1]?).getD 0
  let stop := (after[1]?).getD (byteLength source)
  linesFrom (before.length - 1 + (if before.length = 1 then 1 else 0)) first first []
    (between first stop 0 source)

/-! ### Columns -/

/-- The columns of a text that begins at `column`, each character with its own. -/
def widths : Nat → List Char → List (Char × Nat)
  | _, [] => []
  | column, c :: rest =>
    let w := if c = '\t' then tabWidth - column % tabWidth else columnsOf c
    (c, w) :: widths (column + w) rest

/-- A text with blanks in place of tabulators. -/
def expanded (text : List Char) : List Char :=
  (widths 0 text).flatMap fun (c, w) => if c = '\t' then List.replicate w ' ' else [c]

/-- The column that a byte offset has in a line; beyond the line's text, one column further. -/
def columnAt (l : Line) (offset : Nat) : Nat :=
  let text := between 0 (offset - l.offset) 0 l.text
  let column := (widths 0 text).foldl (fun n w => n + w.2) 0
  if byteLength l.text < offset - l.offset then column + 1 else column

/-! ### Drawing -/

/-- A character many times. -/
def times (n : Nat) (c : Char) : List Char := List.replicate n c

/-- A number, filled up with blanks in front. -/
def padded (width n : Nat) : List Char :=
  let digits := Nat.toDigits 10 n
  times (width - digits.length) ' ' ++ digits

/-- The margin of a row without a line number. -/
def margin (width : Nat) : List Char := times (width + 2) ' ' ++ ['·', ' ']

/-- The rows below a line that hold the mark of a part within it and the label. -/
def underline (width : Nat) (l : Line) (offset length : Nat) (label : List Char) :
    List (List Char) :=
  let start := columnAt l offset
  let stop := if length = 0 then start + 1 else max (columnAt l (offset + length)) (start + 1)
  let middle := (start + stop) / 2
  [margin width ++ times start ' ' ++ times (middle - start) '─' ++
      [if length = 0 then '▲' else '┬'] ++ times (stop - middle - 1) '─',
    margin width ++ times middle ' ' ++ "╰── ".toList ++ label]

/-- What stands before the text of a line if the marked part covers several lines. -/
def gutter (l : Line) (offset length : Nat) : List Char :=
  let stop := offset + length
  if l.offset ≤ offset ∧ offset < l.stop then "╭─▶ ".toList
  else if l.offset < stop ∧ stop ≤ l.stop then "├─▶ ".toList
  else if offset < l.offset ∧ l.stop < stop then "│   ".toList
  else "    ".toList

/-- Whether a part lies within a line. -/
def within (l : Line) (offset length : Nat) : Bool :=
  Nat.ble l.offset offset && Nat.ble (offset + length) l.stop

/-- The rows of a line. -/
def rows (width : Nat) (several : Bool) (label : List Char) (offset length : Nat) (l : Line) :
    List (List Char) :=
  let stop := offset + length
  let head := [' '] ++ padded width l.number ++ " │ ".toList
  let side := if several then gutter l offset length else []
  (head ++ side ++ expanded l.text) ::
    (if several then
      if l.offset < stop ∧ stop ≤ l.stop ∧ offset < l.offset then
        [margin width ++ "╰──── ".toList ++ label]
      else []
    else if within l offset length then underline width l offset length label
    else [])

/-- **A marked part of a source**, headed by its place. -/
def draw (file : String) (source : List Char) (label : List Char) (offset length : Nat) :
    List (List Char) :=
  let lines := context source offset length
  let width := (Nat.toDigits 10 ((lines.getLast?.map Line.number).getD 0)).length
  let several := !lines.any fun l => within l offset length
  let starts := (lineStarts 0 source).filter fun s => s ≤ offset
  let place := file ++ ":" ++ toString (starts.length + 1) ++ ":" ++
    toString (offset - starts.getLast?.getD 0 + 1)
  (times (width + 2) ' ' ++ "╭─[".toList ++ place.toList ++ [']']) ::
    (lines.flatMap (rows width several label offset length) ++
      [times (width + 2) ' ' ++ "╰────".toList])

end Snippet

namespace Finding

/-- **A finding in its source**, if that is at hand. -/
def snippet (f : Finding) (source : Option (List Char)) : String :=
  let width := Snippet.terminalWidth - 2
  let head := wrapped width "  × ".toList "  │ ".toList f.title.toList
  let body := match source with
    | some source => Snippet.draw f.location.file source f.rule.toList f.location.offset
        f.location.length
    | none => []
  let help := match f.suggestion with
    | some s => wrapped width "  help: ".toList "        ".toList s.toList
    | none => []
  String.ofList ((head ++ body ++ help).flatMap fun row => row ++ ['\n']) ++ "\n"

end Finding

end ModuleLint
