/-
ModuleLint/Json/Format.lean

The text format of JSON values.  What writes and reads results does not lay down how values are
spelled; it is given a format, and the standard one consists of the printer and the reader here.
-/
import ModuleLint.Json.Printer
import ModuleLint.Json.Reader

namespace ModuleLint

/-- **A text format for JSON values**: how a value is written, on one line or indented, and how
it is read. -/
structure JsonFormat where
  compact : JsonValue → String
  indented : JsonValue → String
  read? : String → Option JsonValue

/-- The format that is taken unless there is another one. -/
def JsonFormat.standard : JsonFormat := ⟨JsonValue.compact, JsonValue.indented, JsonValue.read?⟩

end ModuleLint
