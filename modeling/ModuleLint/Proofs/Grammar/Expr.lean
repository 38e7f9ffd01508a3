/-
ModuleLint/Proofs/Grammar/Expr.lean

Abstract expressions.  An `Expr` is built without a word on readers: it has tokens
(`print`), a derivation that shows its nodes (`derivation`), a level of precedence
(`level`), and the number of levels of nesting that are open at once while it is read
(`need`).

`Obeys` says that operands are as tight as their operators ask: the left operand of a
binary operator is of its level at least, the right one is tighter, and the operand of
an operator before it is of its level at least.  Parentheses are nodes of their own.
-/
import ModuleLint.Proofs.Grammar.Production

namespace ModuleLint

open Grammar

/-- **An expression.**  Arguments may be left out; a literal of several strings is made
of adjacent ones. -/
inductive Expr where
  | literal (kind : TokenKind)
  | strings (more : Nat)
  | identifier
  | paren (e : Expr)
  | ternary (condition yes no : Expr)
  | newType
  | newTypeArgs (args : List (Option Expr))
  | newArgs (args : List (Option Expr))
  | member (base : Expr) (name : TokenKind)
  | index (base position : Expr)
  | call (base : Expr) (args : List (Option Expr))
  | unary (operator : TokenKind) (operand : Expr)
  | binary (operator : TokenKind) (left right : Expr)

namespace Expr

/-- The level of precedence of an expression. -/
def level : Expr → Nat
  | .unary operator _ => unaryLevel operator
  | .binary operator _ _ => binaryLevel operator
  | _ => 8

/-- A `New` expression of a type without arguments. -/
def IsNewType : Expr → Prop
  | .newType => True
  | _ => False

mutual

/-- **Operands are as tight as their operators ask**, and the arguments of a call do not
belong to a `New` expression before it. -/
def Obeys : Expr → Prop
  | .literal kind => isLiteral kind = true
  | .strings _ | .identifier | .newType => True
  | .paren e => Obeys e
  | .ternary condition yes no => Obeys condition ∧ Obeys yes ∧ Obeys no
  | .newTypeArgs args | .newArgs args => ObeysAll args
  | .member base name => 8 ≤ base.level ∧ Obeys base ∧ name.isName = true
  | .index base position => 8 ≤ base.level ∧ Obeys base ∧ Obeys position
  | .call base args => 8 ≤ base.level ∧ ¬ base.IsNewType ∧ Obeys base ∧ ObeysAll args
  | .unary operator operand =>
    0 < unaryLevel operator ∧ unaryLevel operator ≤ operand.level ∧ Obeys operand
  | .binary operator left right =>
    0 < binaryLevel operator ∧ binaryLevel operator ≤ left.level ∧
      binaryLevel operator < right.level ∧ Obeys left ∧ Obeys right

/-- The same for arguments. -/
def ObeysAll : List (Option Expr) → Prop
  | [] => True
  | arg :: rest => ObeysArg arg ∧ ObeysAll rest

/-- The same for an argument. -/
def ObeysArg : Option Expr → Prop
  | none => True
  | some e => Obeys e

end

mutual

/-- **The tokens of an expression.** -/
def print : Expr → List TokenKind
  | .literal kind => [kind]
  | .strings more => List.replicate (more + 1) .string
  | .identifier => [.identifier]
  | .paren e => .lParen :: (print e ++ [.rParen])
  | .ternary condition yes no =>
    .question :: .lParen :: (print condition ++ .comma :: (print yes ++ .comma ::
      (print no ++ [.rParen])))
  | .newType => [.keyword .New, .identifier]
  | .newTypeArgs args => .keyword .New :: .identifier :: printArgs args
  | .newArgs args => .keyword .New :: printArgs args
  | .member base name => print base ++ [.dot, name]
  | .index base position => print base ++ .lBracket :: (print position ++ [.rBracket])
  | .call base args => print base ++ printArgs args
  | .unary operator operand => operator :: print operand
  | .binary operator left right => print left ++ operator :: print right

/-- Arguments in parentheses, with commas between them. -/
def printArgs : List (Option Expr) → List TokenKind
  | [] => [.lParen, .rParen]
  | arg :: more => .lParen :: (printArg arg ++ (printMore more ++ [.rParen]))

/-- Further arguments, with a comma before each. -/
def printMore : List (Option Expr) → List TokenKind
  | [] => []
  | arg :: more => .comma :: (printArg arg ++ printMore more)

/-- An argument, of which nothing is seen if it is left out. -/
def printArg : Option Expr → List TokenKind
  | none => []
  | some e => print e

end

mutual

/-- **The nodes of an expression.** -/
def derivation : Expr → Derivation
  | .literal kind => .node .literal [] [.token kind]
  | .strings more => .node .literal [] (List.replicate (more + 1) (.token .string))
  | .identifier => .node .identifier [] [.token .identifier]
  | .paren e => .node .parenExpression [] [.token .lParen, derivation e, .token .rParen]
  | .ternary condition yes no =>
    .node .ternaryExpression [] [.token .question, .token .lParen, derivation condition,
      .token .comma, derivation yes, .token .comma, derivation no, .token .rParen]
  | .newType =>
    .node .newExpression [] [.token (.keyword .New), .node .typeName [] [.token .identifier]]
  | .newTypeArgs args =>
    .node .newExpression [] [.token (.keyword .New), .node .typeName [] [.token .identifier],
      .node .argumentList [] (items args)]
  | .newArgs args =>
    .node .newExpression [] [.token (.keyword .New), .node .argumentList [] (items args)]
  | .member base name =>
    .node .memberAccess [derivation base] [.token .dot, .node .identifier [] [.token name]]
  | .index base position =>
    .node .indexAccess [derivation base]
      [.token .lBracket, derivation position, .token .rBracket]
  | .call base args => .node .callExpression [derivation base] [.node .argumentList [] (items args)]
  | .unary operator operand =>
    .node .unaryExpression [] [.token operator, derivation operand]
  | .binary operator left right =>
    .node .binaryExpression [derivation left] [.token operator, derivation right]

/-- What a list of arguments is made of. -/
def items : List (Option Expr) → List Derivation
  | [] => [.token .lParen, .token .rParen]
  | arg :: more => .token .lParen :: (item arg ++ (moreItems more ++ [.token .rParen]))

/-- What further arguments are made of. -/
def moreItems : List (Option Expr) → List Derivation
  | [] => []
  | arg :: more => .token .comma :: (item arg ++ moreItems more)

/-- The node of an argument, if it is not left out. -/
def item : Option Expr → List Derivation
  | none => []
  | some e => [derivation e]

end

mutual

/-- How many levels of nesting an expression opens at once, its own one not counted: each
operator before its operand opens one, and so does each expression inside it. -/
def inner : Expr → Nat
  | .literal _ | .strings _ | .identifier | .newType => 0
  | .paren e => inner e + 1
  | .ternary condition yes no =>
    max (inner condition + 1) (max (inner yes + 1) (inner no + 1))
  | .newTypeArgs args | .newArgs args => needAll args
  | .member base _ => inner base
  | .index base position => max (inner base) (inner position + 1)
  | .call base args => max (inner base) (needAll args)
  | .unary _ operand => inner operand + 1
  | .binary _ left right => max (inner left) (inner right)

/-- The same for arguments, each of which is an expression. -/
def needAll : List (Option Expr) → Nat
  | [] => 0
  | arg :: rest => max (needArg arg) (needAll rest)

/-- The same for an argument. -/
def needArg : Option Expr → Nat
  | none => 0
  | some e => inner e + 1

end

/-- **How many levels of nesting are open at once** while an expression is read. -/
def need (e : Expr) : Nat := e.inner + 1

/-- Induction on expressions: a property passes from the parts of an expression to it. -/
@[elab_as_elim, induction_eliminator]
theorem induct {P : Expr → Prop} (literal : ∀ kind, P (.literal kind))
    (strings : ∀ more, P (.strings more)) (identifier : P .identifier)
    (paren : ∀ e, P e → P (.paren e))
    (ternary : ∀ condition yes no, P condition → P yes → P no → P (.ternary condition yes no))
    (newType : P .newType)
    (newTypeArgs : ∀ args, (∀ e, some e ∈ args → P e) → P (.newTypeArgs args))
    (newArgs : ∀ args, (∀ e, some e ∈ args → P e) → P (.newArgs args))
    (member : ∀ base name, P base → P (.member base name))
    (index : ∀ base position, P base → P position → P (.index base position))
    (call : ∀ base args, P base → (∀ e, some e ∈ args → P e) → P (.call base args))
    (unary : ∀ operator operand, P operand → P (.unary operator operand))
    (binary : ∀ operator left right, P left → P right → P (.binary operator left right))
    (e : Expr) : P e := by
  refine @Expr.rec P (fun args => ∀ e, some e ∈ args → P e) (fun arg => ∀ e, arg = some e → P e)
    literal strings identifier paren ternary newType newTypeArgs newArgs member index call unary
    binary ?_ ?_ ?_ ?_ e
  · intro e he
    cases he
  · intro arg rest harg hrest e he
    rcases List.mem_cons.mp he with heq | he
    · exact harg e heq.symm
    · exact hrest e he
  · intro e he
    cases he
  · intro e he e' heq
    exact Option.some.inj heq ▸ he

theorem level_le (e : Expr) : e.level ≤ 8 := by
  cases e with
  | unary operator operand => exact (unaryLevel_le operator).trans (by decide)
  | binary operator left right => exact (binaryLevel_le operator).trans (by decide)
  | _ => exact Nat.le_refl 8

theorem Obeys.level_pos {e : Expr} (h : e.Obeys) : 1 ≤ e.level := by
  cases e with
  | unary operator operand => exact h.1
  | binary operator left right => exact h.1
  | _ => exact Nat.le_add_left 1 7

theorem ObeysAll.of_mem {args : List (Option Expr)} (h : ObeysAll args) {e : Expr}
    (he : some e ∈ args) : e.Obeys := by
  induction args with
  | nil => cases he
  | cons arg rest ih =>
    rcases List.mem_cons.mp he with rfl | he
    · exact h.1
    · exact ih h.2 he

/-! ### How an expression begins -/

/-- Tokens that begin as an expression of level `n` can: with no end of an argument, and
with an operator only if its operand may be of that level. -/
def Begins (n : Nat) (tokens : List TokenKind) : Prop :=
  ∃ kind more, tokens = kind :: more ∧ kind ≠ .comma ∧ kind ≠ .rParen ∧
    (unaryLevel kind = 0 ∨ n ≤ unaryLevel kind)

theorem Begins.append {m n : Nat} {tokens : List TokenKind} (h : Begins n tokens) (hle : m ≤ n)
    (behind : List TokenKind) : Begins m (tokens ++ behind) := by
  obtain ⟨kind, more, rfl, hcomma, hparen, hkind⟩ := h
  exact ⟨kind, more ++ behind, rfl, hcomma, hparen, hkind.imp_right hle.trans⟩

theorem begins_cons {n : Nat} {kind : TokenKind} (more : List TokenKind)
    (hcomma : kind ≠ .comma) (hparen : kind ≠ .rParen)
    (hkind : unaryLevel kind = 0 ∨ n ≤ unaryLevel kind) : Begins n (kind :: more) :=
  ⟨kind, more, rfl, hcomma, hparen, hkind⟩

theorem begins_print (e : Expr) (h : e.Obeys) : Begins e.level e.print := by
  induction e with
  | literal kind =>
    have h : isLiteral kind = true := h
    unfold isLiteral at h
    split at h
    all_goals first
      | exact begins_cons [] nofun nofun (.inl rfl)
      | cases h
  | strings more => exact begins_cons _ nofun nofun (.inl rfl)
  | identifier => exact begins_cons _ nofun nofun (.inl rfl)
  | paren e => exact begins_cons _ nofun nofun (.inl rfl)
  | ternary condition yes no => exact begins_cons _ nofun nofun (.inl rfl)
  | newType => exact begins_cons _ nofun nofun (.inl rfl)
  | newTypeArgs args => exact begins_cons _ nofun nofun (.inl rfl)
  | newArgs args => exact begins_cons _ nofun nofun (.inl rfl)
  | member base name ih => exact (ih h.2.1).append h.1 _
  | index base position ih => exact (ih h.2.1).append h.1 _
  | call base args ih => exact (ih h.2.2.1).append h.1 _
  | unary operator operand =>
    have hpos : 0 < unaryLevel operator := h.1
    refine begins_cons _ ?_ ?_ (.inr le_rfl)
    · rintro rfl
      cases hpos
    · rintro rfl
      cases hpos
  | binary operator left right ihleft => exact (ihleft h.2.2.2.1).append h.2.1 _

end Expr

end ModuleLint
