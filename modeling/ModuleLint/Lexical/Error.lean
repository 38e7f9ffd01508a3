/-
ModuleLint/Lexical/Error.lean

A report that a text is not a module: what went wrong, and on which line and
column.  Both the scanner and the grammar report in this form.
-/
namespace ModuleLint

/-- What went wrong in a source text, and where. -/
structure SourceError where
  message : String
  line : Nat
  column : Nat
  deriving DecidableEq, Repr, Inhabited

/-- The report on one line. -/
def SourceError.display (e : SourceError) : String :=
  e.message ++ " at " ++ toString e.line ++ ":" ++ toString e.column

end ModuleLint
