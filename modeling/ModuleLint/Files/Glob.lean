/-
ModuleLint/Files/Glob.lean

Patterns that exclude files.  `?` stands for one character, `*` for any number of
them, a slash among them, and brackets for one character of a class.  `**` is a
component of its own and stands for any number of folders.  A pattern that breaks
these rules is refused with the place where it does.
-/
import ModuleLint.Text.Rests
import ModuleLint.Text.Cut

namespace ModuleLint

/-- A piece of a pattern. -/
inductive GlobToken where
  | literal (c : Char)
  /-- Any one character. -/
  | any
  /-- Any number of characters. -/
  | run
  /-- Any number of folders. -/
  | folders
  /-- One character of some ranges. -/
  | oneOf (ranges : List (Char × Char))
  /-- One character outside of some ranges. -/
  | noneOf (ranges : List (Char × Char))
  deriving DecidableEq, Repr, Inhabited

/-- **A pattern for paths.** -/
structure Glob where
  tokens : List GlobToken
  deriving DecidableEq, Repr, Inhabited

/-- What can be wrong with a pattern. -/
inductive GlobProblem where
  /-- More than two stars in a row. -/
  | stars
  /-- Two stars that are not a component of their own. -/
  | folders
  /-- A bracket that opens no class. -/
  | range
  deriving DecidableEq, Repr, Inhabited

/-- Why a pattern is refused, and near which character. -/
structure GlobError where
  position : Nat
  problem : GlobProblem
  deriving DecidableEq, Repr, Inhabited

namespace GlobError

/-- The wording of a problem. -/
def wording : GlobProblem → String
  | .stars => "wildcards are either regular `*` or recursive `**`"
  | .folders => "recursive wildcards must form a single path component"
  | .range => "invalid range pattern"

/-- **The report on a refused pattern.** -/
def message (e : GlobError) : String :=
  "Pattern syntax error near position " ++ toString e.position ++ ": " ++ wording e.problem

end GlobError

/-- **A way to read patterns**: which paths a pattern covers, if it is not refused. -/
abbrev PatternReader := List Char → Except GlobError (List Char → Bool)

namespace Glob

/-! ### Reading -/

/-- The ranges of a class: two characters with a dash between them, or one alone. -/
def ranges : List Char → List (Char × Char)
  | a :: '-' :: b :: rest => (a, b) :: ranges rest
  | a :: rest => (a, a) :: ranges rest
  | [] => []

/-- A class after its opening bracket, and what follows it.  Its first character may be a
closing bracket. -/
def readClass? : List Char → Option (GlobToken × List Char)
  | '!' :: first :: more => do
    let (inside, rest) ← cutAt? ']' more
    return (.noneOf (ranges (first :: inside)), rest)
  | first :: more => do
    if first = '!' then none
    else
      let (inside, rest) ← cutAt? ']' more
      return (.oneOf (ranges (first :: inside)), rest)
  | [] => none

/-- One star or two, and what follows them.  `place` is where they begin, and `opens`
tells whether a component begins there. -/
def readStars (place : Nat) (opens : Bool) (more : List Char) :
    Except GlobError (GlobToken × List Char) :=
  let rest := more.dropWhile (· == '*')
  match more.length - rest.length, rest with
  | 0, rest => .ok (.run, rest)
  | 1, rest =>
    if !opens then .error ⟨place - 1, .folders⟩
    else
      match rest with
      | [] => .ok (.folders, [])
      | '/' :: rest => .ok (.folders, rest)
      | _ => .error ⟨place + 2, .folders⟩
  | _, _ => .error ⟨place + 2, .stars⟩

/-- The first token of what is left of a pattern, and what follows it. -/
def readToken (place : Nat) (opens : Bool) :
    List Char → Except GlobError (Option GlobToken × List Char)
  | [] => .ok (none, [])
  | '?' :: rest => .ok (some .any, rest)
  | '*' :: rest => (readStars place opens rest).map fun (token, rest) => (some token, rest)
  | '[' :: rest =>
    match readClass? rest with
    | some (token, rest) => .ok (some token, rest)
    | none => .error ⟨place, .range⟩
  | c :: rest => .ok (some (.literal c), rest)

/-- The tokens of what is left of a pattern, at most `n` of them. -/
def readTokens (pattern : List Char) : Nat → List Char → Except GlobError (List GlobToken)
  | 0, _ => .ok []
  | n + 1, text => do
    let place := pattern.length - text.length
    let opens := place == 0 || pattern[place - 1]? == some '/'
    match ← readToken place opens text with
    | (none, _) => return []
    | (some token, rest) => return token :: (← readTokens pattern n rest)

/-- **The pattern that a text spells.** -/
def read (pattern : List Char) : Except GlobError Glob :=
  (readTokens pattern pattern.length pattern).map Glob.mk

/-! ### Matching -/

/-- Whether a character lies in one of some ranges. -/
def inRanges (ranges : List (Char × Char)) (c : Char) : Bool :=
  ranges.any fun (low, high) => low ≤ c && c ≤ high

/-- What a token leaves of a text. -/
def rests : GlobToken → List Char → List (List Char)
  | .literal c => Rests.one (· == c)
  | .any => Rests.one fun _ => true
  | .run => Rests.run fun _ => true
  | .folders => Rests.components '/'
  | .oneOf ranges => Rests.one (inRanges ranges)
  | .noneOf ranges => Rests.one fun c => !inRanges ranges c

/-- **Whether a pattern covers a path.** -/
def covers (g : Glob) (path : List Char) : Bool :=
  Rests.anyEmpty (Rests.afterAll (g.tokens.map rests) [path])

/-- Patterns with wildcards. -/
def reader : PatternReader := fun pattern => (read pattern).map covers

end Glob

end ModuleLint
