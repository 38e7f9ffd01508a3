/-
ModuleLint/Proofs/Files/PathOrder.lean

The orders of paths and of locations.  Both are lexicographic, and each is the order of
*keys*: a part of a path has a key in pairs of a number and a text, a path the list of the
keys of its parts, and a location the key of its file, its line and its column.  Keys are
in a linear order, so paths and locations are in a total preorder, in which two of them
are at one place if and only if their keys are equal.

Main results: `Path.partsLe_iff` and `Location.le_iff`.
-/
import Mathlib.Data.List.Lex
import Mathlib.Data.Prod.Lex
import Mathlib.Data.Char
import Mathlib.Order.Lex
import ModuleLint.Lint.Finding

namespace ModuleLint

/-! ### Lists of keys -/

section Lists

variable {α : Type} [LinearOrder α] {a b : α} {s t : List α}

theorem nil_le : ([] : List α) ≤ s := not_lt.mp (List.not_lt_nil s)

/-- Lists are compared by their first elements, and then by the others. -/
theorem cons_le_cons_iff : a :: s ≤ b :: t ↔ a < b ∨ a = b ∧ s ≤ t := by
  rw [← not_lt, List.cons_lt_cons_iff, not_or, not_and, not_lt, not_lt, le_iff_lt_or_eq]
  constructor
  · rintro ⟨hlt | rfl, hrest⟩
    · exact .inl hlt
    · exact .inr ⟨rfl, hrest rfl⟩
  · rintro (hlt | ⟨rfl, hrest⟩)
    · exact ⟨.inl hlt, fun heq => absurd heq hlt.ne'⟩
    · exact ⟨.inr rfl, fun _ => hrest⟩

end Lists

/-! ### Parts of paths -/

namespace PathPart

/-- **The key of a part**: the root, `.`, `..`, then names by their characters. -/
def key : PathPart → Nat ×ₗ List Char
  | .root => toLex (0, [])
  | .current => toLex (1, [])
  | .parent => toLex (2, [])
  | .name text => toLex (3, text)

theorem key_injective : Function.Injective key := by
  intro a b h
  cases a <;> cases b <;> simp_all [key]

/-- The order of parts is that of their keys. -/
theorem partBefore_iff {a b : PathPart} : Path.partBefore a b = true ↔ a.key < b.key := by
  cases a <;> cases b <;> simp [Path.partBefore, Path.partBefore.rank, key, Prod.Lex.toLex_lt_toLex]

end PathPart

/-! ### Paths -/

namespace Path

/-- **The key of a path**: the keys of its parts. -/
def key (path : Text) : List (Nat ×ₗ List Char) := (parts path).map PathPart.key

/-- The order of paths is that of their keys, part by part. -/
theorem partsLe_iff_map_key {as bs : List PathPart} :
    partsLe as bs = true ↔ as.map PathPart.key ≤ bs.map PathPart.key := by
  induction as generalizing bs with
  | nil => exact iff_of_true rfl nil_le
  | cons a as ih =>
    cases bs with
    | nil => exact iff_of_false Bool.false_ne_true (not_le.mpr (List.nil_lt_cons _ _))
    | cons b bs =>
      rw [partsLe, List.map_cons, List.map_cons, cons_le_cons_iff, PathPart.key_injective.eq_iff]
      by_cases hab : a = b
      · -- the first parts are the same, so the others decide
        subst hab
        rw [if_pos rfl, ih]
        simp
      · rw [if_neg hab, PathPart.partBefore_iff]
        simp [hab]

theorem partsLe_iff {a b : Text} : partsLe (parts a) (parts b) = true ↔ key a ≤ key b :=
  partsLe_iff_map_key

end Path

/-! ### Locations -/

namespace Location

/-- **The key of a location**: its file, its line and its column. -/
def key (l : Location) : List (Nat ×ₗ List Char) ×ₗ Nat ×ₗ Nat :=
  toLex (Path.key l.file.toList, toLex (l.line, l.column))

/-- The order of locations is that of their keys. -/
theorem le_iff {a b : Location} : a.le b = true ↔ a.key ≤ b.key := by
  have hfile : Path.key a.file.toList = Path.key b.file.toList ↔
      Path.parts a.file.toList = Path.parts b.file.toList :=
    (List.map_injective_iff.mpr PathPart.key_injective).eq_iff
  unfold le key
  rw [Prod.Lex.toLex_le_toLex, Prod.Lex.toLex_le_toLex]
  show (if _ then _ else _) = true ↔ Path.key _ < Path.key _ ∨ Path.key _ = Path.key _ ∧ _
  rw [hfile, lt_iff_le_and_ne, Ne, hfile, ← Path.partsLe_iff]
  by_cases hparts : Path.parts a.file.toList = Path.parts b.file.toList
  · simp only [hparts, if_true, not_true, and_false, false_or, true_and]
    by_cases hline : a.line = b.line
    · simp [hline]
    · rw [if_neg hline, Nat.ble_eq]
      show a.line ≤ b.line ↔ a.line < b.line ∨ a.line = b.line ∧ a.column ≤ b.column
      omega
  · simp [hparts]

end Location

end ModuleLint
