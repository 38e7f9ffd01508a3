/-
ModuleLint/Toml/Document.lean

A TOML document while it is read.  A table can come about in three ways: under a
header of its own, as a step on the way of a deeper header, or by a dotted name.
These decide what may still be added to it: a header may take over a table that was
only a step, nothing may be defined twice, and dotted names extend only tables that
dotted names made.
-/
import ModuleLint.Toml.Value

namespace ModuleLint

/-- How a table came about. -/
inductive TableOrigin where
  | header
  | step
  | dotted
  deriving DecidableEq, Repr, Inhabited

/-- What stands under a name in a document that is being read. -/
inductive TomlEntry where
  | value (v : TomlValue)
  | table (origin : TableOrigin) (entries : List (String × TomlEntry))
  /-- Tables under a repeated header, in order. -/
  | tables (elements : List (List (String × TomlEntry)))
  deriving Repr, Inhabited

/-- Entries by name, in the order of their definition. -/
abbrev TomlEntries := List (String × TomlEntry)

namespace TomlEntries

/-- The entries with another one under a name that is there already. -/
def replace (entries : TomlEntries) (name : String) (entry : TomlEntry) : TomlEntries :=
  entries.map fun e => if e.1 == name then (name, entry) else e

/-- The entries with a further one. -/
def add (entries : TomlEntries) (name : String) (entry : TomlEntry) : TomlEntries :=
  entries ++ [(name, entry)]

/-- Changes the last of some tables. -/
def changeLast (change : TomlEntries → Option TomlEntries) :
    List TomlEntries → Option (List TomlEntries)
  | [] => none
  | [last] => (change last).map fun changed => [changed]
  | first :: rest => (changeLast change rest).map fun changed => first :: changed

/-- Opens the table of a header. -/
def openTable : List String → TomlEntries → Option TomlEntries
  | [], _ => none
  | [name], entries =>
    match valueUnder? name entries with
    | none => some (entries.add name (.table .header []))
    | some (.table .step inside) => some (entries.replace name (.table .header inside))
    | some _ => none
  | name :: path, entries =>
    match valueUnder? name entries with
    | none => (openTable path []).map fun inside => entries.add name (.table .step inside)
    | some (.table origin inside) =>
      (openTable path inside).map fun inside => entries.replace name (.table origin inside)
    | some (.tables elements) =>
      (changeLast (openTable path) elements).map fun elements =>
        entries.replace name (.tables elements)
    | some (.value _) => none

/-- Opens a further table of a repeated header. -/
def openElement : List String → TomlEntries → Option TomlEntries
  | [], _ => none
  | [name], entries =>
    match valueUnder? name entries with
    | none => some (entries.add name (.tables [[]]))
    | some (.tables elements) => some (entries.replace name (.tables (elements ++ [[]])))
    | some _ => none
  | name :: path, entries =>
    match valueUnder? name entries with
    | none => (openElement path []).map fun inside => entries.add name (.table .step inside)
    | some (.table origin inside) =>
      (openElement path inside).map fun inside => entries.replace name (.table origin inside)
    | some (.tables elements) =>
      (changeLast (openElement path) elements).map fun elements =>
        entries.replace name (.tables elements)
    | some (.value _) => none

/-- Puts a value under a dotted name.  `direct` tells whether a value may be put into the
table at hand itself. -/
def assign (v : TomlValue) : Bool → List String → TomlEntries → Option TomlEntries
  | _, [], _ => none
  | direct, [name], entries =>
    if direct && (valueUnder? name entries).isNone then some (entries.add name (.value v)) else none
  | _, name :: path, entries =>
    match valueUnder? name entries with
    | none => (assign v true path []).map fun inside => entries.add name (.table .dotted inside)
    | some (.table .header _) => none
    | some (.table origin inside) =>
      (assign v (origin == .dotted) path inside).map fun inside =>
        entries.replace name (.table origin inside)
    | some (.tables elements) =>
      (changeLast (assign v false path) elements).map fun elements =>
        entries.replace name (.tables elements)
    | some (.value _) => none

/-- Changes the table that a header has opened. -/
def change (f : TomlEntries → Option TomlEntries) : List String → TomlEntries → Option TomlEntries
  | [], entries => f entries
  | name :: path, entries =>
    match valueUnder? name entries with
    | some (.table origin inside) =>
      (change f path inside).map fun inside => entries.replace name (.table origin inside)
    | some (.tables elements) =>
      (changeLast (change f path) elements).map fun elements =>
        entries.replace name (.tables elements)
    | _ => none

end TomlEntries

mutual

/-- The value of a finished entry. -/
def TomlEntry.finished : TomlEntry → TomlValue
  | .value v => v
  | .table _ entries => .table (TomlEntry.finishedEntries entries)
  | .tables elements => .array (TomlEntry.finishedTables elements)

/-- The values of finished entries. -/
def TomlEntry.finishedEntries : List (String × TomlEntry) → List (String × TomlValue)
  | [] => []
  | (name, entry) :: rest => (name, entry.finished) :: TomlEntry.finishedEntries rest

/-- The values of finished tables. -/
def TomlEntry.finishedTables : List (List (String × TomlEntry)) → List TomlValue
  | [] => []
  | entries :: rest =>
    .table (TomlEntry.finishedEntries entries) :: TomlEntry.finishedTables rest

end

end ModuleLint
