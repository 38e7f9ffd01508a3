/-
ModuleLint/Proofs/Grammar/Production.lean

The grammar as data.  `production` gives, for each kind of node, the language of
what such a node is made of: tokens, and the nodes below it as they look from above.
A node looks from above like its kind and, where it applies an operator, the token
of that operator; this decides its level of precedence, from 1 for `Or` to 8 for a
primary with what follows it.

The table is written with the operations on languages: products for what follows each
other, sums for choices, `∗` for repetitions.  It knows nothing of readers.

A derivation is *sound* if every node in it spells a word of its production
(`Derivation.Sound`).  Two facts follow from the table alone: each node except a module
or a block covers a token (`Derivation.Sound.tokens_ne_nil`), and the name of a type
covers exactly one (`Derivation.Sound.tokens_typeName`).
-/
import Mathlib
import ModuleLint.Proofs.Grammar.Precedence
import ModuleLint.Proofs.Tree.Layout

namespace ModuleLint

open scoped Computability

/-- **What a node looks like from above**: its kind, and the operator it applies. -/
structure Shape where
  kind : NodeKind
  operator : Option TokenKind := none
  deriving DecidableEq, Repr

/-! ### Levels of precedence -/

/-- **The level of an expression**; zero for what is no expression. -/
def Shape.level (s : Shape) : Nat :=
  match s.kind with
  | .binaryExpression => (s.operator.map binaryLevel).getD 0
  | .unaryExpression => (s.operator.map unaryLevel).getD 0
  | .identifier | .literal | .parenExpression | .ternaryExpression | .newExpression
  | .memberAccess | .indexAccess | .callExpression => 8
  | _ => 0

/-- The kinds of statements. -/
def NodeKind.isStatement : NodeKind → Bool
  | .varDeclaration | .ifStatement | .whileStatement | .forStatement | .forEachStatement
  | .tryStatement | .returnStatement | .raiseStatement | .executeStatement | .gotoStatement
  | .label | .breakStatement | .continueStatement | .addHandlerStatement
  | .removeHandlerStatement | .assignmentStatement | .callStatement => true
  | _ => false

/-- The tokens that can name a member: reserved words as well as plain names. -/
def TokenKind.isName : TokenKind → Bool
  | .identifier | .keyword _ => true
  | _ => false

/-! ### Words -/

/-- An item of a node: a token, or a node as it looks from above. -/
inductive Symbol where
  | token (kind : TokenKind)
  | node (shape : Shape)
  deriving DecidableEq, Repr

/-- The node among the items, if it is one. -/
def Symbol.shape? : Symbol → Option Shape
  | .token _ => none
  | .node shape => some shape

namespace Production

/-- A token of the given kind. -/
def tok (kind : TokenKind) : Language Symbol := {[.token kind]}

/-- A token that satisfies `p`. -/
def one (p : TokenKind → Bool) : Language Symbol := {w | ∃ kind, w = [.token kind] ∧ p kind}

/-- The given reserved word. -/
def reserved (word : Keyword) : Language Symbol := tok (.keyword word)

/-- A node of the given kind. -/
def sub (kind : NodeKind) : Language Symbol := {[.node ⟨kind, none⟩]}

/-- **An expression of at least the given level.** -/
def expr (level : Nat) : Language Symbol := {w | ∃ s : Shape, w = [.node s] ∧ level ≤ s.level}

/-- A statement. -/
def stmt : Language Symbol := {w | ∃ kind : NodeKind, w = [.node ⟨kind, none⟩] ∧ kind.isStatement}

/-- `Await` and its operand. -/
def await : Language Symbol := {[.node ⟨.unaryExpression, some (.keyword .Await)⟩]}

/-- What can be assigned to or called. -/
def target : Language Symbol := expr 8 + await

/-- What may be left out. -/
def opt {α : Type} (l : Language α) : Language α := 1 + l

/-- Items with commas between them. -/
def list (l : Language Symbol) : Language Symbol := l * (tok .comma * l)∗

/-- A condition and the block it guards. -/
def guarded (word : Keyword) : Language Symbol :=
  reserved word * expr 1 * reserved .Then * sub .codeBlock

/-- The body of a loop. -/
def body : Language Symbol := reserved .Do * sub .codeBlock * reserved .EndDo

/-- What a method is made of. -/
def method (begin_ end_ : Keyword) : Language Symbol :=
  (sub .directive)∗ * opt (reserved .Async) * (reserved begin_ * sub .identifier *
    sub .parameterList * opt (reserved .Export) * sub .codeBlock * reserved end_)

/-- What `AddHandler` and `RemoveHandler` are made of. -/
def handler (word : Keyword) : Language Symbol :=
  reserved word * expr 1 * tok .comma * expr 1

/-- Two operands of a level with their operator between them: the left one may be of
that level, the right one is tighter. -/
def infixed (operator : TokenKind) : Language Symbol :=
  if binaryLevel operator = 0 then 0
  else expr (binaryLevel operator) * (tok operator * expr (binaryLevel operator + 1))

/-- An operator before an operand that is at least as tight. -/
def signed (operator : TokenKind) : Language Symbol :=
  if unaryLevel operator = 0 then 0 else tok operator * expr (unaryLevel operator)

end Production

open Production

/-- **What a node is made of**, by its shape. -/
def production (s : Shape) : Language Symbol :=
  match s.kind with
  | .module => (sub .varDeclaration + sub .procedure + sub .function)∗ * sub .codeBlock
  | .varDeclaration =>
    reserved .Var * list (sub .identifier * opt (reserved .Export)) * opt (tok .semicolon)
  | .procedure => method .Procedure .EndProcedure
  | .function => method .Function .EndFunction
  | .parameterList => tok .lParen * (tok .rParen + list (sub .parameter) * tok .rParen)
  | .parameter =>
    (sub .directive)∗ * opt (reserved .Val) * sub .identifier * opt (tok .eq * expr 1)
  | .directive => tok .ampersand * sub .identifier * opt (sub .argumentList)
  | .codeBlock => (tok .semicolon + stmt)∗
  | .ifStatement =>
    sub .ifBranch * (sub .elsIfBranch)∗ * opt (sub .elseBranch) * reserved .EndIf
  | .ifBranch => guarded .If
  | .elsIfBranch => guarded .ElsIf
  | .elseBranch => reserved .Else * sub .codeBlock
  | .whileStatement => reserved .While * expr 1 * body
  | .forStatement =>
    reserved .For * sub .identifier * tok .eq * expr 1 * reserved .To * expr 1 * body
  | .forEachStatement =>
    reserved .For * reserved .Each * sub .identifier * reserved .In * expr 1 * body
  | .tryStatement => reserved .Try * sub .codeBlock * sub .exceptBranch * reserved .EndTry
  | .exceptBranch => reserved .Except * sub .codeBlock
  | .returnStatement => reserved .Return * opt (expr 1)
  | .raiseStatement => reserved .Raise * (sub .argumentList + opt (expr 1))
  | .executeStatement => reserved .Execute * expr 1
  | .gotoStatement => reserved .Goto * tok .tilde * sub .identifier
  | .label => tok .tilde * sub .identifier * tok .colon
  | .breakStatement => reserved .Break
  | .continueStatement => reserved .Continue
  | .addHandlerStatement => handler .AddHandler
  | .removeHandlerStatement => handler .RemoveHandler
  | .assignmentStatement => target * (tok .eq * expr 1)
  | .callStatement => target
  | .newExpression =>
    reserved .New * (sub .typeName * opt (sub .argumentList) + sub .argumentList)
  | .typeName => tok .identifier
  | .argumentList => tok .lParen * (tok .rParen + list (opt (expr 1)) * tok .rParen)
  | .binaryExpression => (s.operator.map infixed).getD 0
  | .unaryExpression => (s.operator.map signed).getD 0
  | .ternaryExpression =>
    tok .question * tok .lParen * expr 1 * tok .comma * expr 1 * tok .comma * expr 1 *
      tok .rParen
  | .memberAccess => expr 8 * (tok .dot * sub .identifier)
  | .indexAccess => expr 8 * (tok .lBracket * expr 1 * tok .rBracket)
  | .callExpression => expr 8 * sub .argumentList
  | .identifier => one TokenKind.isName
  | .literal => one Grammar.isLiteral + tok .string * (tok .string)∗
  | .parenExpression => tok .lParen * expr 1 * tok .rParen

/-! ### Sound derivations -/

namespace Derivation

/-- The operator that a node of some kind applies, given its items: the first of them. -/
def operator : NodeKind → List Derivation → Option TokenKind
  | .binaryExpression, .token kind :: _ => some kind
  | .unaryExpression, .token kind :: _ => some kind
  | _, _ => none

/-- A derivation as an item of the node above it. -/
def symbol : Derivation → Symbol
  | .token kind => .token kind
  | .node kind _ items => .node ⟨kind, operator kind items⟩

theorem eq_token_of_symbol {d : Derivation} {kind : TokenKind} (h : symbol d = .token kind) :
    d = .token kind := by
  cases d with
  | token kind => rw [Symbol.token.inj h]
  | node kind lead items => cases h

mutual

/-- **Every node spells a word of its production.** -/
def Sound : Derivation → Prop
  | .token _ => True
  | .node kind lead items =>
    (lead ++ items).map symbol ∈ production ⟨kind, operator kind items⟩ ∧
      SoundAll lead ∧ SoundAll items

/-- The same for several derivations. -/
def SoundAll : List Derivation → Prop
  | [] => True
  | d :: rest => Sound d ∧ SoundAll rest

end

@[simp] theorem soundAll_nil : SoundAll [] := trivial

@[simp] theorem soundAll_cons {d : Derivation} {rest : List Derivation} :
    SoundAll (d :: rest) ↔ Sound d ∧ SoundAll rest := Iff.rfl

@[simp] theorem soundAll_append {ds es : List Derivation} :
    SoundAll (ds ++ es) ↔ SoundAll ds ∧ SoundAll es := by
  induction ds with
  | nil => simp
  | cons d rest ih => simp [ih, and_assoc]

theorem SoundAll.of_mem {ds : List Derivation} (h : SoundAll ds) {d : Derivation} (hd : d ∈ ds) :
    Sound d := by
  induction ds with
  | nil => cases hd
  | cons e rest ih =>
    rcases List.mem_cons.mp hd with rfl | hd
    · exact h.1
    · exact ih h.2 hd

theorem mem_tokensAll_of_mem {ds : List Derivation} {d : Derivation} (hd : d ∈ ds)
    {kind : TokenKind} (hk : kind ∈ tokens d) : kind ∈ tokensAll ds := by
  induction ds with
  | nil => cases hd
  | cons e rest ih =>
    rw [tokensAll_cons, List.mem_append]
    rcases List.mem_cons.mp hd with rfl | hd
    · exact .inl hk
    · exact .inr (ih hd)

end Derivation

/-! ### What is never empty -/

namespace Symbol

/-- Whether an item shows that something was read: it is a token, or a node that is
neither a module nor a block. -/
def Visible : Symbol → Prop
  | .token _ => True
  | .node shape => shape.kind ≠ .module ∧ shape.kind ≠ .codeBlock

end Symbol

/-- A language without words of modules and blocks alone. -/
def Visible (l : Language Symbol) : Prop := ∀ w ∈ l, ∃ s ∈ w, s.Visible

namespace Visible

variable {l m : Language Symbol}

theorem tok (kind : TokenKind) : Visible (tok kind) := by
  rintro w rfl
  exact ⟨_, List.mem_singleton_self _, trivial⟩

theorem sub {kind : NodeKind} (h : kind ≠ .module ∧ kind ≠ .codeBlock) : Visible (sub kind) := by
  rintro w rfl
  exact ⟨_, List.mem_singleton_self _, h⟩

theorem left (h : Visible l) (m : Language Symbol) : Visible (l * m) := by
  intro w hw
  obtain ⟨u, hu, v, -, rfl⟩ := Language.mem_mul.mp hw
  obtain ⟨s, hs, hv⟩ := h u hu
  exact ⟨s, List.mem_append_left _ hs, hv⟩

theorem right (l : Language Symbol) (h : Visible m) : Visible (l * m) := by
  intro w hw
  obtain ⟨u, -, v, hv, rfl⟩ := Language.mem_mul.mp hw
  obtain ⟨s, hs, hvis⟩ := h v hv
  exact ⟨s, List.mem_append_right _ hs, hvis⟩

theorem add (hl : Visible l) (hm : Visible m) : Visible (l + m) := by
  intro w hw
  rcases (Language.mem_add _ _ _).mp hw with h | h
  · exact hl w h
  · exact hm w h

theorem zero : Visible 0 := fun w hw => absurd hw (Language.notMem_zero w)

theorem one (p : TokenKind → Bool) : Visible (one p) := by
  rintro w ⟨kind, rfl, -⟩
  exact ⟨_, List.mem_singleton_self _, trivial⟩

/-- An expression is visible. -/
theorem expr {level : Nat} (h : 0 < level) : Visible (expr level) := by
  rintro w ⟨s, rfl, hs⟩
  refine ⟨_, List.mem_singleton_self _, ?_, ?_⟩ <;> intro hk <;>
    simp only [Shape.level, hk] at hs <;> omega

theorem target : Visible target :=
  add (expr (by decide)) (by
    rintro w rfl
    exact ⟨_, List.mem_singleton_self _, by simp [Symbol.Visible]⟩)

end Visible

/-- **What a node other than a module or a block is made of is visible.** -/
theorem production_visible {s : Shape} (hm : s.kind ≠ .module) (hb : s.kind ≠ .codeBlock) :
    Visible (production s) := by
  obtain ⟨kind, operator⟩ := s
  cases kind <;> simp only [production, method, guarded, handler, body, reserved]
  case module => exact absurd rfl hm
  case codeBlock => exact absurd rfl hb
  case binaryExpression =>
    rcases operator with - | op
    · exact .zero
    · simp only [Option.map_some, Option.getD_some, infixed]
      split
      · exact .zero
      · exact .right _ (.left (.tok _) _)
  case unaryExpression =>
    rcases operator with - | op
    · exact .zero
    · simp only [Option.map_some, Option.getD_some, signed]
      split
      · exact .zero
      · exact .left (.tok _) _
  case callStatement => exact .target
  case callExpression => exact .right _ (.sub (by decide))
  case identifier => exact .one _
  case literal => exact .add (.one _) (.left (.tok _) _)
  case procedure => exact .right _ (.left (.left (.left (.left (.left (.tok _) _) _) _) _) _)
  case function => exact .right _ (.left (.left (.left (.left (.left (.tok _) _) _) _) _) _)
  case parameter => exact .left (.right _ (.sub (by decide))) _
  case ifStatement => exact .right _ (.tok _)
  case assignmentStatement => exact .left .target _
  case memberAccess => exact .right _ (.left (.tok _) _)
  case indexAccess => exact .right _ (.left (.left (.tok _) _) _)
  -- all other nodes begin with a token
  all_goals apply_rules [Visible.left, Visible.tok]

namespace Derivation

/-- Something visible among the items is read from a token, if each visible item is. -/
theorem tokensAll_ne_nil {ds : List Derivation} {l : Language Symbol} (hvisible : Visible l)
    (hword : ds.map symbol ∈ l) (h : ∀ d ∈ ds, (symbol d).Visible → tokens d ≠ []) :
    tokensAll ds ≠ [] := by
  obtain ⟨s, hs, hv⟩ := hvisible _ hword
  obtain ⟨d, hd, rfl⟩ := List.mem_map.mp hs
  obtain ⟨t, ht⟩ := List.exists_mem_of_ne_nil _ (h d hd hv)
  exact List.ne_nil_of_mem (mem_tokensAll_of_mem hd ht)

/-- **A sound derivation covers a token**, unless it is a module or a block. -/
theorem Sound.tokens_ne_nil {d : Derivation} (h : Sound d) (hv : (symbol d).Visible) :
    tokens d ≠ [] := by
  induction d with
  | token kind => exact List.cons_ne_nil _ _
  | node kind lead items ihlead ihitems =>
    obtain ⟨hword, hlead, hitems⟩ := h
    rw [tokens, ← tokensAll_append]
    refine tokensAll_ne_nil (production_visible hv.1 hv.2) hword fun d hd hvisible => ?_
    rcases List.mem_append.mp hd with hd | hd
    · exact ihlead d hd (hlead.of_mem hd) hvisible
    · exact ihitems d hd (hitems.of_mem hd) hvisible

/-- The name of a type is one plain name. -/
theorem Sound.tokens_typeName {lead items : List Derivation}
    (h : Sound (.node .typeName lead items)) :
    tokens (.node .typeName lead items) = [.identifier] := by
  have hword : (lead ++ items).map symbol = [.token .identifier] := h.1
  obtain ⟨d, hd, hsymbol⟩ := List.map_eq_singleton_iff.mp hword
  rw [tokens, ← tokensAll_append, hd, eq_token_of_symbol hsymbol]
  rfl

end Derivation

end ModuleLint
