/-
ModuleLint/Files/Path.lean

Paths.  A path is a text, and two paths that differ in repeated or closing slashes
or in `.` between them name the same place; what they share is their list of
*parts*.  Paths are compared, and one is taken relative to another, part by part,
while the text that remains is kept as it was written.
-/
import ModuleLint.Text.Position

namespace ModuleLint

/-- A part of a path. -/
inductive PathPart where
  | root
  | current
  | parent
  | name (text : List Char)
  deriving DecidableEq, Repr, Inhabited

namespace Path

/-- A path written with slashes. -/
abbrev Text := List Char

/-- The segments of a text between slashes. -/
def segments (text : List Char) : List (List Char) :=
  text.splitOn '/'

/-- Segments joined by slashes. -/
def joinSegments (segments : List (List Char)) : List Char :=
  List.intercalate ['/'] segments

/-- A segment that adds nothing to a path. -/
def isIdle (segment : List Char) : Bool :=
  segment == [] || segment == ['.']

/-- The part that a segment stands for. -/
def partOf (segment : List Char) : PathPart :=
  if segment == ['.', '.'] then .parent else .name segment

/-- Whether a path starts at the root. -/
def isAbsolute (text : Text) : Bool :=
  text.head? == some '/'

/-- **The parts of a path.**  A `.` counts only at the start of a relative path. -/
def parts (text : Text) : List PathPart :=
  match segments text with
  | [] => []
  | first :: rest =>
    let later := (rest.filter fun s => !isIdle s).map partOf
    if isAbsolute text then .root :: later
    else if first == ['.'] then .current :: later
    else if first == [] then later
    else partOf first :: later

/-- The order of parts: the root, `.`, `..`, then names by their characters. -/
def partBefore : PathPart → PathPart → Bool
  | .name a, .name b => decide (a < b)
  | a, b => rank a < rank b
where
  rank : PathPart → Nat
    | .root => 0
    | .current => 1
    | .parent => 2
    | .name _ => 3

/-- **The order of paths**, part by part: `a` comes no later than `b`. -/
def partsLe : List PathPart → List PathPart → Bool
  | [], _ => true
  | _ :: _, [] => false
  | a :: as, b :: bs => if a = b then partsLe as bs else partBefore a b

/-- Removes segments up to and with the first `n` that are parts. -/
def dropParts : Nat → List (List Char) → List (List Char)
  | 0, segments => segments
  | _, [] => []
  | n + 1, s :: rest => if isIdle s then dropParts (n + 1) rest else dropParts n rest

/-- Segments without those at the end that add nothing. -/
def trimIdleEnd (segments : List (List Char)) : List (List Char) :=
  (segments.reverse.dropWhile isIdle).reverse

/-- The text of a path without what adds nothing at its end. -/
def withoutIdleEnd (text : Text) : Text :=
  match segments text with
  | [] => []
  | first :: rest =>
    let rest := trimIdleEnd rest
    if rest.isEmpty && first.isEmpty then (if isAbsolute text then ['/'] else [])
    else joinSegments (first :: rest)

/-- **A path relative to a base**, if the parts of the base begin it. -/
def relativeTo? (base text : Text) : Option Text :=
  let baseParts := parts base
  if baseParts.isPrefixOf (parts text) then
    if baseParts.isEmpty then some (withoutIdleEnd text)
    else
      let left := match segments text with
        | [] => []
        | first :: rest =>
          if isAbsolute text || first == ['.'] then dropParts (baseParts.length - 1) rest
          else dropParts baseParts.length (first :: rest)
      some (joinSegments (trimIdleEnd (left.dropWhile isIdle)))
  else none

/-- A path as it is reported: relative to the root, or unchanged outside of it. -/
def relative (root text : Text) : Text :=
  (relativeTo? root text).getD text

/-- **A path below a directory**; an absolute path stands for itself. -/
def join (directory text : Text) : Text :=
  if isAbsolute text then text
  else if directory.isEmpty || directory.getLast? == some '/' then directory ++ text
  else directory ++ '/' :: text

/-- The name of the file that a path leads to. -/
def fileName? (text : Text) : Option (List Char) :=
  match (parts text).getLast? with
  | some (.name s) => some s
  | _ => none

/-- The extension of a file name: what follows its last dot, unless that dot is the
first character. -/
def extensionOf (name : List Char) : Option (List Char) :=
  let tail := (name.reverse.takeWhile fun c => c != '.').reverse
  if name.length ≤ tail.length + 1 then none else some tail

/-- The extension of the file that a path leads to. -/
def extension? (text : Text) : Option (List Char) :=
  (fileName? text).bind extensionOf

/-- **The path without its last part**; the root has none, and neither has the empty path. -/
def parent? (text : Text) : Option Text :=
  match segments text with
  | [] => none
  | first :: rest =>
    match trimIdleEnd rest with
    | [] => if first.isEmpty then none else some []
    | rest =>
      let kept := trimIdleEnd rest.dropLast
      if kept.isEmpty && first.isEmpty then some ['/'] else some (joinSegments (first :: kept))

/-- A path and those that are left of it, part by part, at most `n` of them. -/
def withParents : Nat → Text → List Text
  | 0, _ => []
  | n + 1, text =>
    text :: match parent? text with
      | none => []
      | some shorter => withParents n shorter

/-- **A path and all paths above it**, the longest first. -/
def ancestors (text : Text) : List Text :=
  withParents (text.length + 1) text

/-- The parts of a path as the text of an absolute path. -/
def ofNames (names : List (List Char)) : Text :=
  '/' :: joinSegments names

end Path

end ModuleLint
