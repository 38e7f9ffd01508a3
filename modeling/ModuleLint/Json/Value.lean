/-
ModuleLint/Json/Value.lean

JSON values.  An object keeps its entries in order, with repeated names, because a
reader may have to refuse a repeated one.  Numbers that are not whole and strings
that are no text (half of a surrogate pair stands alone) are kept apart: nothing is
ever read from them, but they may stand where a value is ignored.
-/
namespace ModuleLint

/-- A JSON value. -/
inductive JsonValue where
  | null
  | bool (b : Bool)
  /-- A number written as a whole number. -/
  | integer (n : Int)
  /-- A number written in any other way. -/
  | otherNumber
  | string (s : String)
  /-- A string, or an object with a name, that is no text. -/
  | notText
  | array (elements : List JsonValue)
  | object (entries : List (String × JsonValue))
  deriving Repr, Inhabited

namespace JsonValue

/-- The elements of an array. -/
def elements? : JsonValue → Option (List JsonValue)
  | .array elements => some elements
  | _ => none

/-- The text of a string. -/
def string? : JsonValue → Option String
  | .string s => some s
  | _ => none

/-- A whole number from zero up to, not with, `bound`. -/
def natBelow? (bound : Nat) : JsonValue → Option Nat
  | .integer (.ofNat n) => if n < bound then some n else none
  | _ => none

end JsonValue

end ModuleLint
