/-
ModuleLint/Proofs/Json/Grammar.lean

Which texts spell a value.  `JsonValue.SpelledAs` follows the grammar of JSON: blanks may stand
around every bracket, comma and colon, a character of a string may be written in several ways,
and a whole number has one spelling, in decimal digits without zeros in front.  The elements of
an array are given together with their spellings, so that the relation is one inductive
predicate and its proofs are plain inductions.

`JsonFormat.Lawful` says what a format owes its callers in these terms: what it writes spells
the value, and from every text that spells a value it reads that value.  Both are asked for
plain values only, whose numbers fit in 64 bits and which are not nested too deep.
-/
import Mathlib.Data.List.Forall2
import ModuleLint.Json.Format

namespace ModuleLint

namespace JsonValue

/-! ### Blanks -/

/-- **A text of blanks.** -/
def AllBlank (text : List Char) : Prop := ∀ c ∈ text, c ∈ [' ', '\t', '\n', '\r']

/-! ### Strings -/

/-- The letters that may stand behind a backslash, and what each of them stands for. -/
def letterEscapes : List (Char × Char) :=
  [('"', '"'), ('\\', '\\'), ('/', '/'), ('b', '\x08'), ('f', '\x0c'), ('n', '\n'), ('r', '\r'),
    ('t', '\t')]

/-- A hexadecimal digit, small or capital, and its value. -/
def IsHexDigit (c : Char) (n : Nat) : Prop :=
  "0123456789abcdef".toList[n]? = some c ∨ "0123456789ABCDEF".toList[n]? = some c

/-- Four hexadecimal digits and their value. -/
inductive FourDigits : List Char → Nat → Prop
  | mk {a b c d : Char} {i j k l : Nat} (ha : IsHexDigit a i) (hb : IsHexDigit b j)
      (hc : IsHexDigit c k) (hd : IsHexDigit d l) :
    FourDigits [a, b, c, d] (((i * 16 + j) * 16 + k) * 16 + l)

/-- **What a character may be written as inside a string.** -/
inductive CharSpelledAs (c : Char) : List Char → Prop
  /-- As it is, unless it is a control character or ends or escapes something, -/
  | plain (hcontrol : 0x20 ≤ c.toNat) (hquote : c ≠ '"') (hslash : c ≠ '\\') : CharSpelledAs c [c]
  /-- by a letter of its own, -/
  | letter {e : Char} (h : (e, c) ∈ letterEscapes) : CharSpelledAs c ['\\', e]
  /-- by the number of the character, -/
  | unit {digits : List Char} (h : FourDigits digits c.toNat) :
    CharSpelledAs c ('\\' :: 'u' :: digits)
  /-- or by a pair of surrogates, if that has more than four digits. -/
  | pair {first second : List Char} {high low : Nat} (hfirst : FourDigits first (0xD800 + high))
      (hsecond : FourDigits second (0xDC00 + low)) (hhigh : high < 0x400) (hlow : low < 0x400)
      (hc : c.toNat = 0x10000 + high * 0x400 + low) :
    CharSpelledAs c ('\\' :: 'u' :: first ++ '\\' :: 'u' :: second)

/-- **What a text may be written as**: its characters between quotes. -/
def TextSpelledAs (s : String) (text : List Char) : Prop :=
  ∃ pieces : List (List Char), List.Forall₂ CharSpelledAs s.toList pieces ∧
    text = '"' :: (pieces.flatten ++ ['"'])

/-! ### Values -/

/-- What may stand behind the first of some pieces: further ones behind commas, and a bracket. -/
inductive Continued (closing : Char) : List (List Char) → List Char → Prop
  | closed {blanks : List Char} (h : AllBlank blanks) : Continued closing [] (blanks ++ [closing])
  | next {before behind piece rest : List Char} {pieces : List (List Char)}
      (hbefore : AllBlank before) (hbehind : AllBlank behind) (h : Continued closing pieces rest) :
    Continued closing (piece :: pieces) (before ++ ',' :: (behind ++ (piece ++ rest)))

/-- **Pieces between brackets**, with commas between them. -/
inductive Bracketed (opening closing : Char) : List (List Char) → List Char → Prop
  | none {blanks : List Char} (h : AllBlank blanks) :
    Bracketed opening closing [] (opening :: (blanks ++ [closing]))
  | some {blanks piece rest : List Char} {pieces : List (List Char)} (hblanks : AllBlank blanks)
      (h : Continued closing pieces rest) :
    Bracketed opening closing (piece :: pieces) (opening :: (blanks ++ (piece ++ rest)))

/-- An entry of an object, with what its name and its value are written as, and the blanks
around the colon. -/
structure SpelledEntry where
  name : String
  nameText : List Char
  before : List Char
  behind : List Char
  value : JsonValue
  valueText : List Char

namespace SpelledEntry

/-- What the entry is written as. -/
def text (e : SpelledEntry) : List Char :=
  e.nameText ++ (e.before ++ ':' :: (e.behind ++ e.valueText))

/-- The name is spelled, and there are blanks only around the colon. -/
structure Sound (e : SpelledEntry) : Prop where
  name : TextSpelledAs e.name e.nameText
  before : AllBlank e.before
  behind : AllBlank e.behind

end SpelledEntry

/-- **What a value may be written as.** -/
inductive SpelledAs : JsonValue → List Char → Prop
  | null : SpelledAs .null "null".toList
  | bool (b : Bool) : SpelledAs (.bool b) (toString b).toList
  | integer (n : Int) : SpelledAs (.integer n) (toString n).toList
  | string {s : String} {text : List Char} (h : TextSpelledAs s text) : SpelledAs (.string s) text
  | array {elements : List (JsonValue × List Char)} {text : List Char}
      (h : ∀ e ∈ elements, SpelledAs e.1 e.2)
      (htext : Bracketed '[' ']' (elements.map Prod.snd) text) :
    SpelledAs (.array (elements.map Prod.fst)) text
  | object {entries : List SpelledEntry} {text : List Char} (hentries : ∀ e ∈ entries, e.Sound)
      (h : ∀ e ∈ entries, SpelledAs e.value e.valueText)
      (htext : Bracketed '\x7b' '\x7d' (entries.map SpelledEntry.text) text) :
    SpelledAs (.object (entries.map fun e => (e.name, e.value))) text

/-- **A whole text that spells a value**: there may be blanks around it. -/
def TextOf (v : JsonValue) (text : String) : Prop :=
  ∃ before body behind, AllBlank before ∧ v.SpelledAs body ∧ AllBlank behind ∧
    text.toList = before ++ (body ++ behind)

/-! ### Plain values -/

/-- How deep arrays and objects may be nested in a text that every reader accepts. -/
def nestingLimit : Nat := 127

/-- **A plain value**: its numbers are whole and fit in 64 bits, with a sign or without, and no
more than `n` arrays and objects lie in one another. -/
inductive Plain : Nat → JsonValue → Prop
  | null {n : Nat} : Plain n .null
  | bool {n : Nat} (b : Bool) : Plain n (.bool b)
  | integer {n : Nat} {i : Int} (hlow : -Int.pow 2 63 ≤ i) (hhigh : i < Int.pow 2 64) :
    Plain n (.integer i)
  | string {n : Nat} (s : String) : Plain n (.string s)
  | array {n : Nat} {elements : List JsonValue} (h : ∀ v ∈ elements, Plain n v) :
    Plain (n + 1) (.array elements)
  | object {n : Nat} {entries : List (String × JsonValue)} (h : ∀ e ∈ entries, Plain n e.2) :
    Plain (n + 1) (.object entries)

/-- A value that is nested less deep is plain. -/
theorem Plain.mono {v : JsonValue} {n m : Nat} (h : v.Plain n) (hle : n ≤ m) : v.Plain m := by
  induction h generalizing m with
  | null => exact .null
  | bool b => exact .bool b
  | integer hlow hhigh => exact .integer hlow hhigh
  | string s => exact .string s
  | array _ ih =>
    obtain ⟨k, rfl⟩ : ∃ k, m = k + 1 := ⟨m - 1, by omega⟩
    exact .array fun v hv => ih v hv (by omega)
  | object _ ih =>
    obtain ⟨k, rfl⟩ : ∃ k, m = k + 1 := ⟨m - 1, by omega⟩
    exact .object fun e he => ih e he (by omega)

end JsonValue

open JsonValue

/-- **What a format owes its callers**, for plain values: what is written, in either way, is a
text of the value, and every text of a value is read as it. -/
structure JsonFormat.Lawful (format : JsonFormat) : Prop where
  compact : ∀ v : JsonValue, v.Plain nestingLimit → v.TextOf (format.compact v)
  indented : ∀ v : JsonValue, v.Plain nestingLimit → v.TextOf (format.indented v)
  reads : ∀ (v : JsonValue) (text : String), v.Plain nestingLimit → v.TextOf text →
    format.read? text = some v

end ModuleLint
