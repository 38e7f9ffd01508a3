/-
ModuleLint/Json/Reader.lean

Reading JSON values.  A value is read from the start of a text, with what follows it
left over; elements and entries are read up to their closing bracket.  All three
readers carry a bound on how often they call each other, and the length of the text
is enough, since each call takes at least one character.
-/
import ModuleLint.Json.Value
import ModuleLint.Text.Cut

namespace ModuleLint

namespace JsonValue

/-- A blank between the parts of a value. -/
def isJsonBlank (c : Char) : Bool :=
  c == ' ' || c == '\n' || c == '\t' || c == '\r'

/-- The text without the blanks at its start. -/
def skipBlanks (text : List Char) : List Char :=
  text.dropWhile isJsonBlank

/-- The value of a hexadecimal digit. -/
def hexValue? (c : Char) : Option Nat :=
  if '0' ≤ c ∧ c ≤ '9' then some (c.toNat - 0x30)
  else if 'a' ≤ c ∧ c ≤ 'f' then some (c.toNat - 0x57)
  else if 'A' ≤ c ∧ c ≤ 'F' then some (c.toNat - 0x37)
  else none

/-- The value of four hexadecimal digits. -/
def hex4? (a b c d : Char) : Option Nat := do
  return ((← hexValue? a) * 16 + (← hexValue? b)) * 256 + (← hexValue? c) * 16 + (← hexValue? d)

/-- What a letter after a backslash stands for. -/
def escaped? : Char → Option Char
  | '"' => some '"'
  | '\\' => some '\\'
  | '/' => some '/'
  | 'b' => some '\x08'
  | 'f' => some '\x0c'
  | 'n' => some '\n'
  | 'r' => some '\r'
  | 't' => some '\t'
  | _ => none

/-- The first half of a surrogate pair. -/
def isLeading (n : Nat) : Bool := Nat.ble 0xD800 n && Nat.ble n 0xDBFF

/-- The second half of a surrogate pair. -/
def isTrailing (n : Nat) : Bool := Nat.ble 0xDC00 n && Nat.ble n 0xDFFF

/-- The contents of a string as numbers, up to and with the closing quote: code points, and
surrogates where the text escapes them. -/
def readUnits : List Char → Option (List Nat × List Char)
  | '"' :: rest => some ([], rest)
  | '\\' :: 'u' :: a :: b :: c :: d :: rest => do
    let n ← hex4? a b c d
    let (more, after) ← readUnits rest
    return (n :: more, after)
  | '\\' :: e :: rest => do
    let c ← escaped? e
    let (more, after) ← readUnits rest
    return (c.toNat :: more, after)
  | c :: rest =>
    if c.toNat < 0x20 then none
    else do
      let (more, after) ← readUnits rest
      return (c.toNat :: more, after)
  | [] => none

/-- The text that the contents of a string stand for; pairs of surrogates are joined, and a
surrogate that stands alone is no text. -/
def textOf? : List Nat → Option (List Char)
  | [] => some []
  | a :: rest =>
    if isLeading a then
      match rest with
      | b :: more =>
        if isTrailing b then
          (textOf? more).map fun text =>
            Char.ofNat (0x10000 + (a - 0xD800) * 0x400 + (b - 0xDC00)) :: text
        else none
      | [] => none
    else if isTrailing a then none
    else (textOf? rest).map fun text => Char.ofNat a :: text

/-- The value of decimal digits. -/
def digitsValue (digits : List Char) : Nat :=
  digits.foldl (fun n d => n * 10 + (d.toNat - 0x30)) 0

/-- The digits at the start of a text, and what follows them. -/
def splitDigits (text : List Char) : List Char × List Char :=
  (text.takeWhile Char.isDigit, text.dropWhile Char.isDigit)

/-- Passes over a fraction, if one follows. -/
def skipFraction : List Char → Option (Bool × List Char)
  | '.' :: rest =>
    let (digits, after) := splitDigits rest
    if digits.isEmpty then none else some (true, after)
  | text => some (false, text)

/-- Passes over a sign. -/
def skipSign : List Char → List Char
  | '+' :: rest => rest
  | '-' :: rest => rest
  | text => text

/-- Passes over an exponent, if one follows. -/
def skipExponent : List Char → Option (Bool × List Char)
  | c :: rest =>
    if c = 'e' ∨ c = 'E' then
      let (digits, after) := splitDigits (skipSign rest)
      if digits.isEmpty then none else some (true, after)
    else some (false, c :: rest)
  | [] => some (false, [])

/-- A number without its sign. -/
def readNumber (negative : Bool) (text : List Char) : Option (JsonValue × List Char) := do
  let (digits, rest) := splitDigits text
  if digits.isEmpty then none
  else if digits.head? == some '0' && digits.length != 1 then none
  else
    let (fraction, rest) ← skipFraction rest
    let (exponent, rest) ← skipExponent rest
    let n := digitsValue digits
    if fraction || exponent || (negative && n == 0) then return (.otherNumber, rest)
    else return (.integer (if negative then -(n : Int) else n), rest)

/-- The name of an entry and the colon after it; a name that is no text is `none`. -/
def readName : List Char → Option (Option String × List Char)
  | '"' :: rest => do
    let (units, rest) ← readUnits rest
    match skipBlanks rest with
    | ':' :: rest => return ((textOf? units).map String.ofList, rest)
    | _ => none
  | _ => none

/-- An object of entries, of which one may have a name that is no text. -/
def ofEntries (entries : List (Option String × JsonValue)) : JsonValue :=
  match entries.mapM fun (name, v) => name.map fun s => (s, v) with
  | some entries => .object entries
  | none => .notText

mutual

/-- **A value at the start of a text**, and what follows it. -/
def readValue : Nat → List Char → Option (JsonValue × List Char)
  | 0, _ => none
  | n + 1, text =>
    match skipBlanks text with
    | '"' :: rest => do
      let (units, rest) ← readUnits rest
      match textOf? units with
      | some s => return (.string (String.ofList s), rest)
      | none => return (.notText, rest)
    | '[' :: rest =>
      match skipBlanks rest with
      | ']' :: rest => some (.array [], rest)
      | rest => do
        let (v, rest) ← readValue n rest
        let (more, rest) ← readElements n rest
        return (.array (v :: more), rest)
    | '\x7b' :: rest =>
      match skipBlanks rest with
      | '\x7d' :: rest => some (.object [], rest)
      | rest => do
        let (name, rest) ← readName rest
        let (v, rest) ← readValue n rest
        let (more, rest) ← readEntries n rest
        return (ofEntries ((name, v) :: more), rest)
    | 'n' :: rest => (afterStart? "ull".toList rest).map fun rest => (.null, rest)
    | 't' :: rest => (afterStart? "rue".toList rest).map fun rest => (.bool true, rest)
    | 'f' :: rest => (afterStart? "alse".toList rest).map fun rest => (.bool false, rest)
    | '-' :: rest => readNumber true rest
    | rest => readNumber false rest

/-- The further elements of an array, up to its closing bracket. -/
def readElements : Nat → List Char → Option (List JsonValue × List Char)
  | 0, _ => none
  | n + 1, text =>
    match skipBlanks text with
    | ']' :: rest => some ([], rest)
    | ',' :: rest => do
      let (v, rest) ← readValue n rest
      let (more, rest) ← readElements n rest
      return (v :: more, rest)
    | _ => none

/-- The further entries of an object, up to its closing brace. -/
def readEntries : Nat → List Char → Option (List (Option String × JsonValue) × List Char)
  | 0, _ => none
  | n + 1, text =>
    match skipBlanks text with
    | '\x7d' :: rest => some ([], rest)
    | ',' :: rest => do
      let (name, rest) ← readName (skipBlanks rest)
      let (v, rest) ← readValue n rest
      let (more, rest) ← readEntries n rest
      return ((name, v) :: more, rest)
    | _ => none

end

/-- **The value that a whole text is.** -/
def read? (text : String) : Option JsonValue :=
  let chars := text.toList
  match readValue (chars.length + 1) chars with
  | some (v, rest) => if (skipBlanks rest).isEmpty then some v else none
  | none => none

end JsonValue

end ModuleLint
