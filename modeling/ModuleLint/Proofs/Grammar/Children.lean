/-
ModuleLint/Proofs/Grammar/Children.lean

The grammar without its tokens.  `production` tells what a node is made of with all
tokens; `childProduction` is the same table for the children alone, each of which shows
its kind and, if it applies an operator, its level of precedence.  Main result: a word
of the one becomes a word of the other when its tokens are erased
(`erases_production`).
-/
import ModuleLint.Proofs.Grammar.Production

namespace ModuleLint

open scoped Computability
open Production (opt)

namespace Children

/-- A child of the given kind. -/
def kid (kind : NodeKind) : Language Shape := {[⟨kind, none⟩]}

/-- **An expression of at least the given level.** -/
def expr (level : Nat) : Language Shape := {w | ∃ s : Shape, w = [s] ∧ level ≤ s.level}

/-- A statement. -/
def stmt : Language Shape := {w | ∃ kind : NodeKind, w = [⟨kind, none⟩] ∧ kind.isStatement}

/-- What can be assigned to or called. -/
def target : Language Shape := expr 8 + {[⟨.unaryExpression, some (.keyword .Await)⟩]}

/-- A procedure or a function. -/
def method : Language Shape :=
  (kid .directive)∗ * (kid .identifier * kid .parameterList * kid .codeBlock)

/-- Two operands of an operator, of which the right one is tighter. -/
def operands (operator : TokenKind) : Language Shape :=
  if binaryLevel operator = 0 then 0
  else expr (binaryLevel operator) * expr (binaryLevel operator + 1)

/-- The operand of an operator before it. -/
def operand (operator : TokenKind) : Language Shape :=
  if unaryLevel operator = 0 then 0 else expr (unaryLevel operator)

end Children

open Children in
/-- **The children of a node**, by its shape. -/
def childProduction (s : Shape) : Language Shape :=
  match s.kind with
  | .module => (kid .varDeclaration + kid .procedure + kid .function)∗ * kid .codeBlock
  | .varDeclaration => kid .identifier * (kid .identifier)∗
  | .procedure | .function => method
  | .parameterList => (kid .parameter)∗
  | .parameter => (kid .directive)∗ * kid .identifier * opt (expr 1)
  | .directive => kid .identifier * opt (kid .argumentList)
  | .codeBlock => stmt∗
  | .ifStatement => kid .ifBranch * (kid .elsIfBranch)∗ * opt (kid .elseBranch)
  | .ifBranch | .elsIfBranch | .whileStatement => expr 1 * kid .codeBlock
  | .elseBranch | .exceptBranch => kid .codeBlock
  | .forStatement => kid .identifier * expr 1 * expr 1 * kid .codeBlock
  | .forEachStatement => kid .identifier * expr 1 * kid .codeBlock
  | .tryStatement => kid .codeBlock * kid .exceptBranch
  | .returnStatement => opt (expr 1)
  | .raiseStatement => kid .argumentList + opt (expr 1)
  | .executeStatement => expr 1
  | .gotoStatement | .label => kid .identifier
  | .breakStatement | .continueStatement => 1
  | .addHandlerStatement | .removeHandlerStatement => expr 1 * expr 1
  | .assignmentStatement => target * expr 1
  | .callStatement => target
  | .newExpression => kid .typeName * opt (kid .argumentList) + kid .argumentList
  | .argumentList => (expr 1)∗
  | .binaryExpression => (s.operator.map operands).getD 0
  | .unaryExpression => (s.operator.map operand).getD 0
  | .ternaryExpression => expr 1 * expr 1 * expr 1
  | .memberAccess => expr 8 * kid .identifier
  | .indexAccess => expr 8 * expr 1
  | .callExpression => expr 8 * kid .argumentList
  | .parenExpression => expr 1
  | .typeName | .identifier | .literal => 1

/-! ### Erasing tokens -/

/-- Words of one language become words of the other when their tokens are erased. -/
def Erases (l : Language Symbol) (k : Language Shape) : Prop :=
  ∀ w ∈ l, w.filterMap Symbol.shape? ∈ k

namespace Erases

variable {l m : Language Symbol} {k j : Language Shape}

theorem mul (h : Erases l k) (h' : Erases m j) : Erases (l * m) (k * j) := by
  intro w hw
  obtain ⟨u, hu, v, hv, rfl⟩ := Language.mem_mul.mp hw
  rw [List.filterMap_append]
  exact Language.append_mem_mul (h u hu) (h' v hv)

theorem add (h : Erases l k) (h' : Erases m j) : Erases (l + m) (k + j) := by
  intro w hw
  rcases (Language.mem_add _ _ _).mp hw with hw | hw
  · exact (Language.mem_add _ _ _).mpr (.inl (h w hw))
  · exact (Language.mem_add _ _ _).mpr (.inr (h' w hw))

theorem kstar (h : Erases l k) : Erases l∗ k∗ := by
  intro w hw
  obtain ⟨words, rfl, hwords⟩ := Language.mem_kstar.mp hw
  rw [List.filterMap_flatten]
  refine Language.join_mem_kstar fun u hu => ?_
  obtain ⟨v, hv, rfl⟩ := List.mem_map.mp hu
  exact h v (hwords v hv)

theorem one : Erases 1 1 := by
  rintro w rfl
  rfl

theorem zero : Erases 0 k := fun w hw => absurd hw (Language.notMem_zero w)

theorem mono (h : Erases l k) (hle : k ≤ j) : Erases l j := fun w hw => hle (h w hw)

/-- Tokens leave nothing. -/
theorem tok (kind : TokenKind) : Erases (Production.tok kind) 1 := by
  rintro w rfl
  rfl

theorem some_token (p : TokenKind → Bool) : Erases (Production.one p) 1 := by
  rintro w ⟨kind, rfl, -⟩
  rfl

theorem sub (kind : NodeKind) : Erases (Production.sub kind) (Children.kid kind) := by
  rintro w rfl
  rfl

theorem expr (level : Nat) : Erases (Production.expr level) (Children.expr level) := by
  rintro w ⟨s, rfl, hs⟩
  exact ⟨s, rfl, hs⟩

theorem stmt : Erases Production.stmt Children.stmt := by
  rintro w ⟨kind, rfl, hkind⟩
  exact ⟨kind, rfl, hkind⟩

theorem target : Erases Production.target Children.target := by
  refine (expr 8).add ?_
  rintro w rfl
  rfl

theorem opt (h : Erases l k) : Erases (Production.opt l) (Production.opt k) := one.add h

/-- What leaves nothing may stand in front. -/
theorem skip_mul (h : Erases l 1) (h' : Erases m k) : Erases (l * m) k := by
  have := h.mul h'
  rwa [one_mul] at this

/-- What leaves nothing may stand behind. -/
theorem mul_skip (h : Erases l k) (h' : Erases m 1) : Erases (l * m) k := by
  have := h.mul h'
  rwa [mul_one] at this

/-- A token that may be missing leaves nothing. -/
theorem opt_tok (kind : TokenKind) : Erases (Production.opt (Production.tok kind)) 1 := by
  refine (one.add (tok kind)).mono ?_
  rw [Language.add_self]

theorem list (h : Erases l k) : Erases (Production.list l) (k * k∗) :=
  h.mul ((tok _).skip_mul h).kstar

theorem guarded (word : Keyword) :
    Erases (Production.guarded word) (Children.expr 1 * Children.kid .codeBlock) :=
  (((tok _).skip_mul (expr 1)).mul_skip (tok _)).mul (sub _)

theorem body : Erases Production.body (Children.kid .codeBlock) :=
  ((tok _).skip_mul (sub _)).mul_skip (tok _)

theorem method (begin_ end_ : Keyword) : Erases (Production.method begin_ end_) Children.method :=
  ((sub _).kstar.mul_skip (opt_tok _)).mul <|
    ((((tok _).skip_mul (sub _)).mul (sub _)).mul_skip (opt_tok _)).mul (sub _) |>.mul_skip (tok _)

theorem handler (word : Keyword) :
    Erases (Production.handler word) (Children.expr 1 * Children.expr 1) :=
  (((tok _).skip_mul (expr 1)).mul_skip (tok _)).mul (expr 1)

/-- Items of which some may be missing leave those that are there. -/
theorem list_opt (h : Erases l k) : Erases (Production.list (Production.opt l)) k∗ := by
  refine h.opt.list.mono ?_
  have hopt : Production.opt k ≤ k∗ := add_le one_le_kstar le_kstar
  calc Production.opt k * (Production.opt k)∗
      ≤ k∗ * (k∗)∗ := mul_le_mul' hopt (kstar_mono hopt)
    _ = k∗ := by rw [kstar_idem, kstar_mul_kstar]

theorem infixed (operator : TokenKind) :
    Erases (Production.infixed operator) (Children.operands operator) := by
  unfold Production.infixed Children.operands
  split
  · exact zero
  · exact (expr _).mul ((tok _).skip_mul (expr _))

theorem signed (operator : TokenKind) :
    Erases (Production.signed operator) (Children.operand operator) := by
  unfold Production.signed Children.operand
  split
  · exact zero
  · exact (tok _).skip_mul (expr _)

end Erases

open Erases in
/-- **Without its tokens, a node is made of what `childProduction` allows.** -/
theorem erases_production (s : Shape) : Erases (production s) (childProduction s) := by
  obtain ⟨kind, operator⟩ := s
  cases kind
  case module => exact (((sub _).add (sub _)).add (sub _)).kstar.mul (sub _)
  case varDeclaration =>
    exact ((tok _).skip_mul ((sub _).mul_skip (opt_tok _)).list).mul_skip (opt_tok _)
  case procedure => exact method _ _
  case function => exact method _ _
  case parameterList =>
    refine ((tok _).skip_mul ((tok _).add ((sub _).list.mul_skip (tok _)))).mono ?_
    exact (Language.one_add_self_mul_kstar_eq_kstar _).le
  case parameter =>
    exact (((sub _).kstar.mul_skip (opt_tok _)).mul (sub _)).mul ((tok _).skip_mul (expr 1)).opt
  case directive => exact ((tok _).skip_mul (sub _)).mul (sub _).opt
  case codeBlock =>
    -- a semicolon leaves nothing in its place
    refine ((tok _).add stmt).kstar.mono ?_
    have hle : 1 + Children.stmt ≤ Children.stmt∗ := add_le one_le_kstar le_kstar
    exact (kstar_mono hle).trans (kstar_idem _).le
  case ifStatement => exact (((sub _).mul (sub _).kstar).mul (sub _).opt).mul_skip (tok _)
  case ifBranch => exact guarded _
  case elsIfBranch => exact guarded _
  case elseBranch => exact (tok _).skip_mul (sub _)
  case whileStatement => exact ((tok _).skip_mul (expr 1)).mul body
  case forStatement =>
    exact ((((((tok _).skip_mul (sub _)).mul_skip (tok _)).mul (expr 1)).mul_skip (tok _)).mul
      (expr 1)).mul body
  case forEachStatement =>
    exact (((((tok _).mul_skip (tok _)).skip_mul (sub _)).mul_skip (tok _)).mul (expr 1)).mul body
  case tryStatement => exact (((tok _).skip_mul (sub _)).mul (sub _)).mul_skip (tok _)
  case exceptBranch => exact (tok _).skip_mul (sub _)
  case returnStatement => exact (tok _).skip_mul (expr 1).opt
  case raiseStatement => exact (tok _).skip_mul ((sub _).add (expr 1).opt)
  case executeStatement => exact (tok _).skip_mul (expr 1)
  case gotoStatement => exact ((tok _).mul_skip (tok _)).skip_mul (sub _)
  case label => exact ((tok _).skip_mul (sub _)).mul_skip (tok _)
  case breakStatement => exact tok _
  case continueStatement => exact tok _
  case addHandlerStatement => exact handler _
  case removeHandlerStatement => exact handler _
  case assignmentStatement => exact target.mul ((tok _).skip_mul (expr 1))
  case callStatement => exact target
  case newExpression => exact (tok _).skip_mul (((sub _).mul (sub _).opt).add (sub _))
  case typeName => exact tok _
  case argumentList =>
    -- no arguments at all are a list of none
    refine ((tok _).skip_mul ((tok _).add ((expr 1).list_opt.mul_skip (tok _)))).mono ?_
    exact add_le one_le_kstar le_rfl
  case binaryExpression =>
    rcases operator with - | op
    · exact zero
    · exact infixed op
  case unaryExpression =>
    rcases operator with - | op
    · exact zero
    · exact signed op
  case ternaryExpression =>
    have hopen := (tok .question).mul_skip (tok .lParen)
    exact (((((hopen.skip_mul (expr 1)).mul_skip (tok _)).mul (expr 1)).mul_skip (tok _)).mul
      (expr 1)).mul_skip (tok _)
  case memberAccess => exact (expr 8).mul ((tok _).skip_mul (sub _))
  case indexAccess => exact (expr 8).mul (((tok _).skip_mul (expr 1)).mul_skip (tok _))
  case callExpression => exact (expr 8).mul (sub _)
  case identifier => exact some_token _
  case literal =>
    refine ((some_token _).add ((tok _).mul_skip ((tok _).kstar.mono ?_))).mono ?_
    · rw [kstar_one]
    · rw [Language.add_self]
      exact le_rfl
  case parenExpression => exact ((tok _).skip_mul (expr 1)).mul_skip (tok _)

end ModuleLint
