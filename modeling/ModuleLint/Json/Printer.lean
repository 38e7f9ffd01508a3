/-
ModuleLint/Json/Printer.lean

Writing JSON values.  The compact form has no blanks; the indented form puts every
element and entry on a line of its own, two blanks deeper than its surroundings.
The two differ in nothing but blanks, so they are one printer over a `Layout`.
-/
import ModuleLint.Json.Value

namespace ModuleLint

/-- Where a printer puts blanks. -/
structure JsonLayout where
  /-- What stands before an element or an entry, and before a closing bracket. -/
  newline : Nat → List Char
  /-- What stands after a colon. -/
  afterColon : List Char

namespace JsonLayout

/-- No blanks at all. -/
def compact : JsonLayout := ⟨fun _ => [], []⟩

/-- A line for each element and entry, indented by two blanks per level. -/
def indented : JsonLayout := ⟨fun depth => '\n' :: List.replicate (2 * depth) ' ', [' ']⟩

end JsonLayout

namespace JsonValue

/-- The digit of a value below sixteen. -/
def hexDigit (n : Nat) : Char :=
  if n < 10 then Char.ofNat (n + 0x30) else Char.ofNat (n + 0x57)

/-- A character inside a string: quotes, backslashes and control characters are escaped. -/
def escape (c : Char) : List Char :=
  if c = '"' then ['\\', '"']
  else if c = '\\' then ['\\', '\\']
  else if c = '\n' then ['\\', 'n']
  else if c = '\r' then ['\\', 'r']
  else if c = '\t' then ['\\', 't']
  else if c = '\x08' then ['\\', 'b']
  else if c = '\x0c' then ['\\', 'f']
  else if c.toNat < 0x20 then
    ['\\', 'u', '0', '0', hexDigit (c.toNat / 16), hexDigit (c.toNat % 16)]
  else [c]

/-- A text in quotes. -/
def quoted (s : String) : List Char :=
  '"' :: (s.toList.flatMap escape ++ ['"'])

/-- A whole number in decimal digits. -/
def decimal : Int → List Char
  | .ofNat n => Nat.toDigits 10 n
  | .negSucc n => '-' :: Nat.toDigits 10 (n + 1)

mutual

/-- **A value in the given layout**, with `depth` levels around it. -/
def print (layout : JsonLayout) (depth : Nat) : JsonValue → List Char
  | .null => "null".toList
  | .bool true => "true".toList
  | .bool false => "false".toList
  | .integer n => decimal n
  | .otherNumber => "0.0".toList
  | .string s => quoted s
  | .notText => "\"\\ud800\"".toList
  | .array [] => ['[', ']']
  | .array (v :: rest) =>
    '[' :: (layout.newline (depth + 1) ++ print layout (depth + 1) v ++
      printElements layout depth rest)
  | .object [] => ['\x7b', '\x7d']
  | .object ((name, v) :: rest) =>
    '\x7b' :: (layout.newline (depth + 1) ++ quoted name ++ ':' :: layout.afterColon ++
      print layout (depth + 1) v ++ printEntries layout depth rest)

/-- The further elements of an array, and its closing bracket. -/
def printElements (layout : JsonLayout) (depth : Nat) : List JsonValue → List Char
  | [] => layout.newline depth ++ [']']
  | v :: rest =>
    ',' :: (layout.newline (depth + 1) ++ print layout (depth + 1) v ++
      printElements layout depth rest)

/-- The further entries of an object, and its closing brace. -/
def printEntries (layout : JsonLayout) (depth : Nat) : List (String × JsonValue) → List Char
  | [] => layout.newline depth ++ ['\x7d']
  | (name, v) :: rest =>
    ',' :: (layout.newline (depth + 1) ++ quoted name ++ ':' :: layout.afterColon ++
      print layout (depth + 1) v ++ printEntries layout depth rest)

end

/-- **The compact form of a value.** -/
def compact (v : JsonValue) : String := String.ofList (v.print .compact 0)

/-- **The indented form of a value.** -/
def indented (v : JsonValue) : String := String.ofList (v.print .indented 0)

end JsonValue

end ModuleLint
