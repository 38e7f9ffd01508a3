/-
ModuleLint/Toml/Reader.lean

Reading TOML documents, version 1.0 of the format.  A document is a sequence of
lines, each a header, an entry or nothing, with an optional comment.  Arrays and
inline tables may be nested to a limited depth, along which values are read.
-/
import ModuleLint.Toml.Document
import ModuleLint.Text.Scanner

namespace ModuleLint

namespace Toml

open Scanner

/-! ### Blanks, comments and ends of lines -/

/-- A blank within a line. -/
def isSpace (c : Char) : Bool := c == ' ' || c == '\t'

/-- A character that may stand in a comment. -/
def isCommentChar (c : Char) : Bool :=
  c == '\t' || (Nat.ble 0x20 c.toNat && c.toNat != 0x7F)

/-- Blanks within a line. -/
def spaces : Scanner Unit := do
  let _ ← takeWhile isSpace

/-- An end of line. -/
def newline : Scanner Unit := char '\n' <|> text ['\r', '\n']

/-- A comment, up to the end of its line. -/
def comment : Scanner Unit := do
  char '#'
  let _ ← takeWhile isCommentChar

/-- The rest of a line after its contents. -/
def lineEnd : Scanner Unit := do
  spaces
  let _ ← optional comment
  newline <|> done

/-- Blanks, comments and ends of lines between the elements of an array. -/
def gap : Scanner Unit := do
  let _ ← many ((do let _ ← one isSpace) <|> newline <|> (do comment; newline))

/-! ### Strings -/

/-- A character that may stand for itself in a string, given the quote around it. -/
def isPlain (quote c : Char) : Bool :=
  c != quote && isCommentChar c

/-- The value of a hexadecimal digit. -/
def hexDigit? (c : Char) : Option Nat :=
  if c.isDigit then some (c.toNat - 0x30)
  else if 'a' ≤ c ∧ c ≤ 'f' then some (c.toNat - 0x57)
  else if 'A' ≤ c ∧ c ≤ 'F' then some (c.toNat - 0x37)
  else none

/-- Whether a character is a hexadecimal digit. -/
def isHexDigit (c : Char) : Bool := (hexDigit? c).isSome

/-- The value of digits to a base. -/
def valueOf (base : Nat) (digits : List Char) : Nat :=
  digits.foldl (fun n d => n * base + (hexDigit? d).getD 0) 0

/-- A code point of exactly `n` hexadecimal digits. -/
def codePoint (n : Nat) : Scanner Char := do
  let digits ← exactly isHexDigit n
  let value := valueOf 16 digits
  if value.isValidChar then return Char.ofNat value else refuse

/-- What follows a backslash in a string. -/
def escaped : Scanner Char := do
  match ← one fun _ => true with
  | 'b' => return '\x08'
  | 't' => return '\t'
  | 'n' => return '\n'
  | 'f' => return '\x0c'
  | 'r' => return '\r'
  | '"' => return '"'
  | '\\' => return '\\'
  | 'u' => codePoint 4
  | 'U' => codePoint 8
  | _ => refuse

/-- A character of a string on one line, plain or escaped. -/
def basicChar : Scanner Char :=
  one (fun c => isPlain '"' c && c != '\\') <|> (do
    char '\\'
    escaped)

/-- A string in double quotes. -/
def basicString : Scanner String := do
  char '"'
  let content ← many basicChar
  char '"'
  return String.ofList content

/-- A string in apostrophes, taken as it is. -/
def literalString : Scanner String := do
  char '\''
  let content ← takeWhile (isPlain '\'')
  char '\''
  return String.ofList content

/-- A backslash at the end of a line, with all blanks and ends of lines that follow. -/
def continuation : Scanner (List Char) := do
  char '\\'
  spaces
  newline
  let _ ← many ((do let _ ← one isSpace) <|> newline)
  return []

/-- One or two quotes that do not belong to the end of a string of several lines. -/
def fewQuotes (quote : Char) : Scanner (List Char) := do
  let quotes ← takeWhile (· == quote)
  if quotes.length < 3 && !quotes.isEmpty then return quotes else refuse

/-- The end of a string of several lines, with up to two quotes that belong to it. -/
def closingQuotes (quote : Char) : Scanner (List Char) := do
  let quotes ← takeWhile (· == quote)
  if 3 ≤ quotes.length && quotes.length ≤ 5 then return quotes.drop 3 else refuse

/-- A string of several lines, given its quote and what may stand in it besides plain
characters, ends of lines and single quotes. -/
def multiline (quote : Char) (plain : Char → Bool) (special : Scanner (List Char)) :
    Scanner String := do
  text [quote, quote, quote]
  let _ ← optional newline
  let content ← many ((do return [← one plain]) <|> (do newline; return ['\n']) <|>
    fewQuotes quote <|> special)
  let quotes ← closingQuotes quote
  return String.ofList (content.flatten ++ quotes)

/-- A string. -/
def string : Scanner String :=
  multiline '"' (fun c => isPlain '"' c && c != '\\')
      (continuation <|> (do char '\\'; return [← escaped])) <|>
    multiline '\'' (isPlain '\'') refuse <|> basicString <|> literalString

/-! ### Names -/

/-- A character of a name without quotes. -/
def isNameChar (c : Char) : Bool := c.isAlphanum || c == '_' || c == '-'

/-- A name. -/
def name : Scanner String :=
  (do return String.ofList (← takeSome isNameChar)) <|> basicString <|> literalString

/-- How many names a dotted name may consist of, and how deep values may be nested. -/
def depthLimit : Nat := 79

/-- A dotted name. -/
def dottedName : Scanner (List String) := do
  let names ← separated name (do spaces; char '.'; spaces)
  if names.length ≤ depthLimit then return names else refuse

/-! ### Numbers -/

/-- Digits with single underscores between them. -/
def digits (p : Char → Bool) : Scanner (List Char) := do
  let first ← one p
  let more ← many (one p <|> (do char '_'; one p))
  return first :: more

/-- A sign, if there is one: whether it is a minus. -/
def sign : Scanner Bool := do
  match ← optional (one fun c => c == '+' || c == '-') with
  | some '-' => return true
  | _ => return false

/-- The digits of a whole number, with no zero before others. -/
def wholeDigits : Scanner (List Char) := do
  let found ← digits Char.isDigit
  if found.head? == some '0' && found.length != 1 then refuse else return found

/-- The bound of whole numbers, which have 64 bits and a sign. -/
def integerBound : Int := Nat.pow 2 63

/-- Whole numbers that can be written. -/
def integerOf (n : Int) : Scanner TomlValue :=
  if -integerBound ≤ n ∧ n < integerBound then pure (.integer n) else refuse

/-- A whole number with a mark for its base. -/
def markedInteger (mark : Char) (base : Nat) (p : Char → Bool) : Scanner TomlValue := do
  text ['0', mark]
  integerOf (valueOf base (← digits p))

/-- A whole number. -/
def integer : Scanner TomlValue :=
  markedInteger 'x' 16 isHexDigit <|>
  markedInteger 'o' 8 (fun c => '0' ≤ c && c ≤ '7') <|>
  markedInteger 'b' 2 (fun c => c == '0' || c == '1') <|> (do
    let negative ← sign
    let n := valueOf 10 (← wholeDigits)
    integerOf (if negative then -(n : Int) else n))

/-- The floating-point number nearest to `m * 10 ^ e`; far out of range it is infinite or
zero. -/
def nearest (m : Nat) (e : Int) : Float :=
  let size := ((Nat.toDigits 10 m).length : Int) + e
  if m = 0 || size < -400 then 0
  else if 400 < size then 1 / 0
  else if e < 0 then Float.ofScientific m true (-e).toNat
  else Float.ofScientific m false e.toNat

/-- An exponent. -/
def exponent : Scanner Int := do
  let _ ← one fun c => c == 'e' || c == 'E'
  let negative ← sign
  let n := valueOf 10 (← digits Char.isDigit)
  return if negative then -(n : Int) else n

/-- A floating-point number in digits; one too large is refused. -/
def decimalFloat : Scanner TomlValue := do
  let negative ← sign
  let whole ← wholeDigits
  let fraction ← optional (do char '.'; digits Char.isDigit)
  let power ← optional exponent
  if fraction.isNone && power.isNone then refuse
  else
    let part := fraction.getD []
    let x := nearest (valueOf 10 (whole ++ part)) (power.getD 0 - part.length)
    if negative then return .float (-x)
    else if x.isInf then refuse
    else return .float x

/-- Infinity, or what is no number. -/
def specialFloat : Scanner TomlValue := do
  let negative ← sign
  (do
    text "inf".toList
    return .float (if negative then -(1 / 0) else 1 / 0)) <|> (do
    text "nan".toList
    return .float (0 / 0))

/-! ### Dates and times -/

/-- A number of exactly `n` digits within bounds, with its digits. -/
def twoDigits (low high : Nat) : Scanner (Nat × List Char) := do
  let found ← exactly Char.isDigit 2
  let n := valueOf 10 found
  if low ≤ n ∧ n ≤ high then return (n, found) else refuse

/-- The days of a month. -/
def daysIn (year month : Nat) : Nat :=
  if month = 2 then
    if year % 4 = 0 ∧ (year % 100 ≠ 0 ∨ year % 400 = 0) then 29 else 28
  else if month = 4 ∨ month = 6 ∨ month = 9 ∨ month = 11 then 30
  else 31

/-- A date. -/
def date : Scanner (List Char) := do
  let year ← exactly Char.isDigit 4
  char '-'
  let (month, monthText) ← twoDigits 1 12
  char '-'
  let (day, dayText) ← twoDigits 1 31
  if day ≤ daysIn (valueOf 10 year) month then
    return year ++ '-' :: monthText ++ '-' :: dayText
  else refuse

/-- The fraction of a second: nine digits at most, without zeros at its end. -/
def secondFraction : Scanner (List Char) := do
  char '.'
  let found ← takeSome Char.isDigit
  let kept := ((found.take 9).reverse.dropWhile (· == '0')).reverse
  return if kept.isEmpty then [] else '.' :: kept

/-- A time of day. -/
def time : Scanner (List Char) := do
  let (_, hour) ← twoDigits 0 23
  char ':'
  let (_, minute) ← twoDigits 0 59
  char ':'
  let (_, second) ← twoDigits 0 60
  let fraction ← optional secondFraction
  return hour ++ ':' :: minute ++ ':' :: second ++ fraction.getD []

/-- The offset of a time of day. -/
def offset : Scanner (List Char) :=
  (do
    let _ ← one fun c => c == 'Z' || c == 'z'
    return ['Z']) <|> (do
    let mark ← one fun c => c == '+' || c == '-'
    let (hours, hour) ← twoDigits 0 23
    char ':'
    let (minutes, minute) ← twoDigits 0 59
    let mark := if hours = 0 ∧ minutes = 0 then '+' else mark
    return mark :: hour ++ ':' :: minute)

/-- A date, a time, or both with or without an offset, in normal form. -/
def datetime : Scanner TomlValue :=
  (do
    let day ← date
    let rest ← optional (do
      let _ ← one fun c => c == 'T' || c == 't' || c == ' '
      let clock ← time
      let shift ← optional offset
      return 'T' :: clock ++ shift.getD [])
    return .datetime (String.ofList (day ++ rest.getD []))) <|> (do
    return .datetime (String.ofList (← time)))

/-! ### Values -/

/-- A value that holds no other values. -/
def scalar : Scanner TomlValue :=
  (do return .string (← string)) <|>
  (do text "true".toList; return .boolean true) <|>
  (do text "false".toList; return .boolean false) <|>
  datetime <|> decimalFloat <|> specialFloat <|> integer

/-- An array, given how its elements are read. -/
def array (element : Scanner TomlValue) : Scanner TomlValue := do
  char '['
  gap
  let elements ← optional (do
    let elements ← separated (do let v ← element; gap; return v) (do char ','; gap)
    let _ ← optional (do char ','; gap)
    return elements)
  char ']'
  return .array (elements.getD [])

/-- A table on one line, given how its values are read. -/
def inlineTable (element : Scanner TomlValue) : Scanner TomlValue := do
  char '\x7b'
  spaces
  let entries ← optional (separated (do
    let path ← dottedName
    spaces
    char '='
    spaces
    let v ← element
    spaces
    return (path, v)) (do char ','; spaces))
  char '\x7d'
  let built ← require ((entries.getD []).foldlM
    (fun built (path, v) => TomlEntries.assign v true path built) [])
  return .table (TomlEntry.finishedEntries built)

/-- **A value**, in which others are nested at most `n` deep. -/
def value : Nat → Scanner TomlValue
  | 0 => scalar
  | n + 1 => fun text =>
    match text.head? with
    | some '[' => array (value n) text
    | some '\x7b' => inlineTable (value n) text
    | _ => scalar text

/-! ### Lines and documents -/

/-- What a line does to a document. -/
inductive Line where
  | nothing
  | header (path : List String)
  | element (path : List String)
  | entry (path : List String) (v : TomlValue)

/-- A header. -/
def header : Scanner Line := do
  char '['
  match ← optional (char '[') with
  | some _ =>
    spaces
    let path ← dottedName
    spaces
    text [']', ']']
    return .element path
  | none =>
    spaces
    let path ← dottedName
    spaces
    char ']'
    return .header path

/-- An entry. -/
def entry : Scanner Line := do
  let path ← dottedName
  spaces
  char '='
  spaces
  return .entry path (← value depthLimit)

/-- A line, up to its end; at the end of the text there is none. -/
def line : Scanner Line := do
  let rest ← ahead
  if rest.isEmpty then refuse
  else
    spaces
    let found ← header <|> entry <|> pure .nothing
    lineEnd
    return found

/-- A document being read: the table that the last header opened, and all entries. -/
structure Progress where
  current : List String
  entries : TomlEntries

/-- The document after a further line. -/
def Progress.after (p : Progress) : Line → Option Progress
  | .nothing => some p
  | .header path => (TomlEntries.openTable path p.entries).map fun entries => ⟨path, entries⟩
  | .element path => (TomlEntries.openElement path p.entries).map fun entries => ⟨path, entries⟩
  | .entry path v =>
    (TomlEntries.change (TomlEntries.assign v true path) p.current p.entries).map fun entries =>
      { p with entries := entries }

/-- **The entries of a document**, if the text is one. -/
def read? (source : String) : Option (List (String × TomlValue)) := do
  let text := match source.toList with
    | '\ufeff' :: rest => rest
    | text => text
  let lines ← (many line).run text
  let progress ← lines.foldlM Progress.after ⟨[], []⟩
  return TomlEntry.finishedEntries progress.entries

end Toml

end ModuleLint
