/-
ModuleLint/Text/Quoted.lean

A text in quotes, with everything escaped that would not show or could be mistaken.
-/
namespace ModuleLint

/-- Characters that leave no mark of their own: control characters, marks that join the
character before them, and invisible signs. -/
def isInvisible (c : Char) : Bool :=
  let n := c.toNat
  let within := fun (low high : Nat) => Nat.ble low n && Nat.ble n high
  Nat.blt n 0x20 || within 0x7F 0x9F || n == 0xAD || within 0x300 0x36F || within 0x483 0x489 ||
    within 0x200B 0x200F || within 0x2028 0x202E || within 0x2060 0x206F || within 0xE000 0xF8FF ||
    within 0xFE00 0xFE0F || n == 0xFEFF

/-- A character inside quotes. -/
def escapedChar (c : Char) : List Char :=
  if c = '\x00' then ['\\', '0']
  else if c = '\t' then ['\\', 't']
  else if c = '\n' then ['\\', 'n']
  else if c = '\r' then ['\\', 'r']
  else if c = '"' ∨ c = '\'' ∨ c = '\\' then ['\\', c]
  else if isInvisible c then
    ['\\', 'u', '\x7b'] ++ Nat.toDigits 16 c.toNat ++ ['\x7d']
  else [c]

/-- **A text in quotes.** -/
def quotedText (text : List Char) : List Char :=
  '"' :: (text.flatMap escapedChar ++ ['"'])

end ModuleLint
