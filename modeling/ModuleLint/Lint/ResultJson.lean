/-
ModuleLint/Lint/ResultJson.lean

Results as JSON.  `LintResult.toJson` writes the fields of a result in a fixed order;
`LintResult.ofJson?` reads a result from an object with these fields in any order, or
from an array of their values.  Fields that may be absent are left out when there is
nothing to say, and unknown fields are passed over.  How values are spelled is up to a
format (`JsonFormat`).
-/
import ModuleLint.Lint.Finding
import ModuleLint.Json.Format

namespace ModuleLint

/-! ### Writing -/

/-- A number from zero up. -/
def JsonValue.ofNat (n : Nat) : JsonValue := .integer n

/-- A location as an object. -/
def Location.toJson (l : Location) : JsonValue :=
  .object [("file", .string l.file), ("line", .ofNat l.line), ("column", .ofNat l.column),
    ("offset", .ofNat l.offset), ("length", .ofNat l.length)]

/-- A finding as an object. -/
def Finding.toJson (f : Finding) : JsonValue :=
  .object ([("code", .string f.code), ("rule", .string f.rule),
      ("severity", .string f.severity.name), ("location", f.location.toJson),
      ("message", .string f.message),
      ("suggestion", match f.suggestion with
        | none => .null
        | some s => .object [("message", .string s)])] ++
    match f.minutesToFix with
    | none => []
    | some n => [("minutes_to_fix", .ofNat n)])

/-- **A result as an object.** -/
def LintResult.toJson (r : LintResult) : JsonValue :=
  .object ([("violations", .array (r.findings.map Finding.toJson)),
      ("files_checked", .ofNat r.filesChecked)] ++
    match r.filesSkipped with
    | [] => []
    | files => [("files_skipped", .array (files.map .string))])

/-! ### Reading -/

namespace JsonValue

/-- The number of values of a 64-bit count. -/
def countBound : Nat := Nat.pow 2 64

/-- The number of values of a 32-bit count. -/
def minutesBound : Nat := Nat.pow 2 32

/-- The only value under a name; a name that is repeated is refused. -/
def field (entries : List (String × JsonValue)) (name : String) : Option (Option JsonValue) :=
  match entries.filter fun entry => entry.1 == name with
  | [] => some none
  | [entry] => some (some entry.2)
  | _ => none

/-- **The values of named fields**, of an object or, in the given order, of an array.
A field that is missing is `none`; an array may not hold more values than there are fields. -/
def fields? (names : List String) : JsonValue → Option (List (Option JsonValue))
  | .object entries => names.mapM (field entries)
  | .array elements =>
    if elements.length ≤ names.length then
      some (elements.map some ++ List.replicate (names.length - elements.length) none)
    else none
  | _ => none

/-- A severity, by its name, which may also be the only name of an object over null. -/
def severity? : JsonValue → Option Severity
  | .string s => Severity.ofName? s
  | .object [(s, .null)] => Severity.ofName? s
  | _ => none

/-- What may be null. -/
def nullable? {α : Type} (read : JsonValue → Option α) : JsonValue → Option (Option α)
  | .null => some none
  | v => (read v).map some

end JsonValue

namespace Location

/-- The location that a value describes. -/
def ofJson? (v : JsonValue) : Option Location := do
  match ← v.fields? ["file", "line", "column", "offset", "length"] with
  | [some file, some line, some column, some offset, some length] =>
    return ⟨← file.string?, ← line.natBelow? JsonValue.countBound,
      ← column.natBelow? JsonValue.countBound, ← offset.natBelow? JsonValue.countBound,
      ← length.natBelow? JsonValue.countBound⟩
  | _ => none

end Location

/-- The message of a suggestion that a value describes. -/
def suggestionOfJson? (v : JsonValue) : Option String := do
  match ← v.fields? ["message"] with
  | [some message] => message.string?
  | _ => none

namespace Finding

/-- **The finding that a value describes.**  In an object, suggestion and minutes may be
missing; an array may leave out the minutes alone. -/
def ofJson? (v : JsonValue) : Option Finding := do
  let fields ← v.fields? ["code", "rule", "severity", "location", "message", "suggestion",
    "minutes_to_fix"]
  match fields with
  | [some code, some rule, some severity, some location, some message, suggestion, minutes] =>
    if v.elements?.isSome && suggestion.isNone then none
    else
      return {
        code := ← code.string?
        rule := ← rule.string?
        severity := ← severity.severity?
        location := ← Location.ofJson? location
        message := ← message.string?
        suggestion := ← match suggestion with
          | none => some none
          | some v => v.nullable? suggestionOfJson?
        minutesToFix := ← match minutes with
          | none => some none
          | some v => v.nullable? (·.natBelow? JsonValue.minutesBound) }
  | _ => none

end Finding

namespace LintResult

/-- **The result that a value describes.** -/
def ofJson? (v : JsonValue) : Option LintResult := do
  match ← v.fields? ["violations", "files_checked", "files_skipped"] with
  | [some findings, some checked, skipped] =>
    return ⟨← (← findings.elements?).mapM Finding.ofJson?,
      ← checked.natBelow? JsonValue.countBound,
      ← match skipped with
        | none => some []
        | some v => do (← v.elements?).mapM JsonValue.string?⟩
  | _ => none

/-- **The result that a text describes**, in some format. -/
def read? (text : String) (format : JsonFormat := .standard) : Option LintResult :=
  (format.read? text).bind ofJson?

end LintResult

end ModuleLint
