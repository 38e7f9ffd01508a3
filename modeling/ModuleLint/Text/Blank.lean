/-
ModuleLint/Text/Blank.lean

Blank characters, and the removal of blanks at the two ends of a text.
-/
import ModuleLint.Text.Letter

namespace ModuleLint

/-- Code points with the property *White_Space*. -/
def blankRanges : List (Nat × Nat) :=
  [(0x9, 0xD), (0x20, 0x20), (0x85, 0x85), (0xA0, 0xA0), (0x1680, 0x1680), (0x2000, 0x200A),
   (0x2028, 0x2029), (0x202F, 0x202F), (0x205F, 0x205F), (0x3000, 0x3000)]

/-- A blank of any script. -/
def isBlank (c : Char) : Bool :=
  inRanges blankRanges c.toNat

/-- The text without the blanks at its start. -/
def trimStart (text : List Char) : List Char :=
  text.dropWhile isBlank

/-- The text without the blanks at its end. -/
def trimEnd (text : List Char) : List Char :=
  (text.reverse.dropWhile isBlank).reverse

/-- **The text without the blanks at its two ends.** -/
def trim (text : List Char) : List Char :=
  trimEnd (trimStart text)

end ModuleLint
