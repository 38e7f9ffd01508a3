/-
ModuleLint/Proofs/Grammar/Precedence.lean

Levels of precedence.  Each operator has one, from 1 for `Or` to 7 for a sign; a token
that is no operator has level zero.  The readers test for the operators of one level by
their tokens; here each of these tests is shown to ask for a level (`isWord_or` to
`isSign_eq`), so that what is proved of the readers is proved for a level.
-/
import ModuleLint.Grammar.Expression

namespace ModuleLint

/-- The level of an operator between two operands; zero for other tokens. -/
def binaryLevel : TokenKind → Nat
  | .keyword .Or => 1
  | .keyword .And => 2
  | .eq | .notEq | .less | .lessEq | .greater | .greaterEq => 4
  | .plus | .minus => 5
  | .star | .slash | .percent => 6
  | _ => 0

/-- The level of an operator before its operand; zero for other tokens. -/
def unaryLevel : TokenKind → Nat
  | .keyword .Not => 3
  | .plus | .minus | .keyword .Await => 7
  | _ => 0

theorem unaryLevel_le (kind : TokenKind) : unaryLevel kind ≤ 7 := by
  unfold unaryLevel
  split <;> decide

theorem binaryLevel_le (kind : TokenKind) : binaryLevel kind ≤ 6 := by
  unfold binaryLevel
  split <;> decide

namespace Grammar

/-- The operators of a level. -/
def ofLevel (n : Nat) (kind : TokenKind) : Bool := binaryLevel kind == n

/-- The operators of a level before their operand. -/
def ofPrefixLevel (n : Nat) (kind : TokenKind) : Bool := unaryLevel kind == n

/-- The levels of operators between two operands. -/
def IsBinary (n : Nat) : Prop := n = 1 ∨ n = 2 ∨ n = 4 ∨ n = 5 ∨ n = 6

theorem isBinary_binaryLevel {kind : TokenKind} (h : 0 < binaryLevel kind) :
    IsBinary (binaryLevel kind) := by
  unfold binaryLevel at h ⊢
  unfold IsBinary
  split at h <;> simp at h ⊢

theorem IsBinary.bounds {n : Nat} (h : IsBinary n) : 0 < n ∧ n < 8 := by
  unfold IsBinary at h
  omega

/-- The levels of operators before an operand. -/
def IsPrefix (n : Nat) : Prop := n = 3 ∨ n = 7

theorem isPrefix_unaryLevel {kind : TokenKind} (h : 0 < unaryLevel kind) :
    IsPrefix (unaryLevel kind) := by
  unfold unaryLevel at h ⊢
  unfold IsPrefix
  split at h <;> simp at h ⊢

theorem IsPrefix.bounds {n : Nat} (h : IsPrefix n) : 0 < n ∧ n < 8 := by
  unfold IsPrefix at h
  omega

/-! ### The tests of the readers -/

theorem isWord_or : isWord .Or = ofLevel 1 := by
  funext kind
  cases kind <;> first | rfl | (rename_i word; cases word <;> rfl)

theorem isWord_and : isWord .And = ofLevel 2 := by
  funext kind
  cases kind <;> first | rfl | (rename_i word; cases word <;> rfl)

theorem isWord_not : isWord .Not = ofPrefixLevel 3 := by
  funext kind
  cases kind <;> first | rfl | (rename_i word; cases word <;> rfl)

theorem isComparison_eq : isComparison = ofLevel 4 := by
  funext kind
  cases kind <;> first | rfl | (rename_i word; cases word <;> rfl)

theorem isAdditive_eq : isAdditive = ofLevel 5 := by
  funext kind
  cases kind <;> first | rfl | (rename_i word; cases word <;> rfl)

theorem isMultiplicative_eq : isMultiplicative = ofLevel 6 := by
  funext kind
  cases kind <;> first | rfl | (rename_i word; cases word <;> rfl)

theorem isSign_eq : isSign = ofPrefixLevel 7 := by
  funext kind
  cases kind <;> first | rfl | (rename_i word; cases word <;> rfl)

end Grammar

end ModuleLint
