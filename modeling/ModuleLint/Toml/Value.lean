/-
ModuleLint/Toml/Value.lean

TOML values, and the text of a floating-point number among them.
-/
import ModuleLint.Decimal.Shortest

namespace ModuleLint

/-- A TOML value.  A date or time is kept in its normal form. -/
inductive TomlValue where
  | string (s : String)
  | integer (n : Int)
  | float (x : Float)
  | boolean (b : Bool)
  | datetime (text : String)
  | array (elements : List TomlValue)
  | table (entries : List (String × TomlValue))
  deriving Repr, Inhabited

namespace TomlValue

/-- The text of a string. -/
def string? : TomlValue → Option String
  | .string s => some s
  | _ => none

/-- The value of a truth value. -/
def boolean? : TomlValue → Option Bool
  | .boolean b => some b
  | _ => none

/-- The elements of an array. -/
def elements? : TomlValue → Option (List TomlValue)
  | .array elements => some elements
  | _ => none

/-- The name under which a date or time can be read like the only entry of a table. -/
def datetimeKey : String := "$__toml_private_datetime"

/-- **The entries of a table.** -/
def entries? : TomlValue → Option (List (String × TomlValue))
  | .table entries => some entries
  | .datetime text => some [(datetimeKey, .string text)]
  | _ => none

end TomlValue

/-- The value under a name. -/
def valueUnder? {α : Type} (name : String) (entries : List (String × α)) : Option α :=
  (entries.find? fun entry => entry.1 == name).map Prod.snd

/-- **A way to read documents**: their entries by name, if a text is a document. -/
abbrev TomlReader := String → Option (List (String × TomlValue))

/-- How a floating-point number is written: with a point between digits while its decimal
exponent lies in the range, otherwise with an exponent. -/
structure FloatText where
  /-- The least number of zeros after the point for which an exponent is used. -/
  smallFrom : Nat
  /-- The least number of digits before the point for which an exponent is used. -/
  largeFrom : Nat

namespace FloatText

/-- Floating-point numbers are written out from `0.00001` up to sixteen digits before the
point, and always show a digit after it; beyond that, an exponent is used. -/
def standard : FloatText := ⟨5, 17⟩

/-- The digits `digits` with a point after the first `before` of them, zeros filled in. -/
def pointed (digits : List Char) (before : Int) : List Char :=
  if before ≤ 0 then
    ['0', '.'] ++ List.replicate (-before).toNat '0' ++ digits
  else
    let n := before.toNat
    let whole := digits.take n ++ List.replicate (n - digits.length) '0'
    let part := digits.drop n
    whole ++ '.' :: (if part.isEmpty then ['0'] else part)

/-- The digits with a point after the first, and the exponent that this leaves. -/
def scientific (digits : List Char) (before : Int) : List Char :=
  let mantissa := match digits with
    | d :: [] => [d]
    | d :: more => d :: '.' :: more
    | [] => []
  mantissa ++ 'e' :: (toString (before - 1)).toList

/-- **The text of a floating-point number.** -/
def write (format : FloatText) (x : Float) : String :=
  match FloatDecimal.of? x with
  | some ⟨negative, d, e⟩ =>
    let digits := Nat.toDigits 10 d
    let before := (digits.length : Int) + e
    let body :=
      if d = 0 then ['0', '.', '0']
      else if -before < format.smallFrom ∧ before < format.largeFrom then pointed digits before
      else scientific digits before
    String.ofList (if negative then '-' :: body else body)
  | none => if x.isNaN then "NaN" else if x < 0 then "-inf" else "inf"

end FloatText

end ModuleLint
