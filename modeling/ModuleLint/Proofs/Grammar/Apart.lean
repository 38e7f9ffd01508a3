/-
ModuleLint/Proofs/Grammar/Apart.lean

Items of a node that stand apart.  The text of a node is the texts of its tokens with
nothing between them, so a word can be read across the seam between two tokens that
neither of them holds.  `TokenKind.isFront` and `TokenKind.isBack` tell what can stand
before and behind such a seam; both leave out signs, strings and dates, and all but three
reserved words.

An item is shut at one end if no word runs on over that end, and two items stand apart if
the first is shut behind or the second in front.  Main result: `production_tight`, in all
but four kinds of nodes any two items that follow each other stand apart.  The calculus
follows the operations that productions are written with.
-/
import ModuleLint.Proofs.Grammar.Production

namespace ModuleLint

open scoped Computability

/-! ### Tokens around a seam -/

namespace TokenKind

/-- Tokens in which a word can begin that the next token goes on with. -/
def isFront : TokenKind → Bool
  | .identifier | .number | .keyword .Val | .keyword .Null | .keyword .In => true
  | _ => false

/-- Tokens that can go on with a word that began in the token before. -/
def isBack : TokenKind → Bool
  | .identifier | .number | .keyword .In => true
  | _ => false

/-- No word runs on over the operator between two operands. -/
theorem shut_of_binaryLevel {op : TokenKind} (h : binaryLevel op ≠ 0) :
    op.isFront = false ∧ op.isBack = false := by
  cases op with
  | keyword word => cases word <;> first | exact ⟨rfl, rfl⟩ | exact absurd rfl h
  | _ => first | exact ⟨rfl, rfl⟩ | exact absurd rfl h

/-- No word runs on over the operator before an operand. -/
theorem shut_of_unaryLevel {op : TokenKind} (h : unaryLevel op ≠ 0) : op.isFront = false := by
  cases op with
  | keyword word => cases word <;> first | rfl | exact absurd rfl h
  | _ => first | rfl | exact absurd rfl h

end TokenKind

/-! ### Items that stand apart -/

namespace Symbol

/-- No word runs on over the end of the item. -/
def endsShut : Symbol → Bool
  | .token kind => !kind.isFront
  | .node shape => shape.kind matches .argumentList | .parameterList

/-- No word runs on into the item. -/
def beginsShut : Symbol → Bool
  | .token kind => !kind.isBack
  | .node shape => shape.kind matches .argumentList | .parameterList | .directive | .elsIfBranch
    | .elseBranch | .exceptBranch

/-- **Two items stand apart**: no word runs on from one to the other. -/
def Apart (s s' : Symbol) : Prop := s.endsShut = true ∨ s'.beginsShut = true

end Symbol

/-- The last item of each word is shut. -/
def Ended (l : Language Symbol) : Prop := ∀ w ∈ l, ∃ s ∈ w.getLast?, s.endsShut = true

/-- The first item of each word is shut. -/
def Headed (l : Language Symbol) : Prop := ∀ w ∈ l, ∃ s ∈ w.head?, s.beginsShut = true

/-- The first item of each word is shut, if there is one. -/
def Begun (l : Language Symbol) : Prop := ∀ w ∈ l, ∀ s ∈ w.head?, s.beginsShut = true

/-- **In each word, items that follow each other stand apart.** -/
def Tight (l : Language Symbol) : Prop := ∀ w ∈ l, w.IsChain Symbol.Apart

variable {l m : Language Symbol}

theorem Ended.tok {kind : TokenKind} (h : kind.isFront = false) : Ended (Production.tok kind) := by
  rintro w rfl
  exact ⟨_, rfl, by simp [Symbol.endsShut, h]⟩

theorem Ended.sub {kind : NodeKind} (h : (Symbol.node ⟨kind, none⟩).endsShut = true) :
    Ended (Production.sub kind) := by
  rintro w rfl
  exact ⟨_, rfl, h⟩

theorem Ended.right (l : Language Symbol) (h : Ended m) : Ended (l * m) := by
  intro w hw
  obtain ⟨u, -, v, hv, rfl⟩ := Language.mem_mul.mp hw
  obtain ⟨s, hs, hshut⟩ := h v hv
  exact ⟨s, List.mem_getLast?_append_of_mem_getLast? hs, hshut⟩

theorem Ended.right_opt (hl : Ended l) (hm : Ended m) : Ended (l * Production.opt m) := by
  intro w hw
  obtain ⟨u, hu, v, hv, rfl⟩ := Language.mem_mul.mp hw
  rcases (Language.mem_add _ _ _).mp hv with rfl | hv
  · rw [List.append_nil]
    exact hl u hu
  · obtain ⟨s, hs, hshut⟩ := hm v hv
    exact ⟨s, List.mem_getLast?_append_of_mem_getLast? hs, hshut⟩

theorem Ended.add (hl : Ended l) (hm : Ended m) : Ended (l + m) := by
  intro w hw
  rcases (Language.mem_add _ _ _).mp hw with h | h
  · exact hl w h
  · exact hm w h

theorem Headed.tok {kind : TokenKind} (h : kind.isBack = false) : Headed (Production.tok kind) := by
  rintro w rfl
  exact ⟨_, rfl, by simp [Symbol.beginsShut, h]⟩

theorem Headed.sub {kind : NodeKind} (h : (Symbol.node ⟨kind, none⟩).beginsShut = true) :
    Headed (Production.sub kind) := by
  rintro w rfl
  exact ⟨_, rfl, h⟩

theorem Headed.left (h : Headed l) (m : Language Symbol) : Headed (l * m) := by
  intro w hw
  obtain ⟨u, hu, v, -, rfl⟩ := Language.mem_mul.mp hw
  obtain ⟨s, hs, hshut⟩ := h u hu
  exact ⟨s, List.mem_head?_append_of_mem_head? hs, hshut⟩

theorem Headed.begun (h : Headed l) : Begun l := by
  intro w hw s hs
  obtain ⟨s', hs', hshut⟩ := h w hw
  obtain rfl := Option.mem_unique hs hs'
  exact hshut

theorem Headed.opt (h : Headed l) : Begun (Production.opt l) := by
  intro w hw
  rcases (Language.mem_add _ _ _).mp hw with rfl | hw
  · rintro s ⟨⟩
  · exact h.begun w hw

theorem Headed.kstar (h : Headed l) : Begun l∗ := by
  intro w hw s hs
  obtain ⟨words, rfl, hwords⟩ := Language.mem_kstar.mp hw
  -- the first item of all is that of the first word
  cases words with
  | nil => cases hs
  | cons u rest =>
    obtain ⟨s', hs', hshut⟩ := h u (hwords u List.mem_cons_self)
    obtain rfl := Option.mem_unique hs (List.mem_head?_append_of_mem_head? hs')
    exact hshut

namespace Tight

theorem tok (kind : TokenKind) : Tight (Production.tok kind) := by
  rintro w rfl
  exact List.isChain_singleton _

theorem some_token (p : TokenKind → Bool) : Tight (Production.one p) := by
  rintro w ⟨kind, rfl, -⟩
  exact List.isChain_singleton _

theorem sub (kind : NodeKind) : Tight (Production.sub kind) := by
  rintro w rfl
  exact List.isChain_singleton _

theorem expr (level : Nat) : Tight (Production.expr level) := by
  rintro w ⟨s, rfl, -⟩
  exact List.isChain_singleton _

theorem add (hl : Tight l) (hm : Tight m) : Tight (l + m) := by
  intro w hw
  rcases (Language.mem_add _ _ _).mp hw with h | h
  · exact hl w h
  · exact hm w h

theorem zero : Tight 0 := fun w hw => absurd hw (Language.notMem_zero w)

theorem target : Tight Production.target :=
  (expr 8).add (by rintro w rfl; exact List.isChain_singleton _)

theorem opt (h : Tight l) : Tight (Production.opt l) := by
  refine add ?_ h
  rintro w rfl
  exact List.isChain_nil

/-- What follows a shut end stands apart from it. -/
theorem after (hl : Tight l) (hend : Ended l) (hm : Tight m) : Tight (l * m) := by
  intro w hw
  obtain ⟨u, hu, v, hv, rfl⟩ := Language.mem_mul.mp hw
  obtain ⟨s, hs, hshut⟩ := hend u hu
  refine List.isChain_append.mpr ⟨hl u hu, hm v hv, fun x hx y _ => .inl ?_⟩
  obtain rfl := Option.mem_unique hx hs
  exact hshut

/-- What stands before a shut beginning stands apart from it. -/
theorem before (hl : Tight l) (hm : Tight m) (hbegin : Begun m) : Tight (l * m) := by
  intro w hw
  obtain ⟨u, hu, v, hv, rfl⟩ := Language.mem_mul.mp hw
  exact List.isChain_append.mpr ⟨hl u hu, hm v hv, fun x _ y hy => .inr (hbegin v hv y hy)⟩

theorem kstar (h : Tight l) (hhead : Headed l) : Tight l∗ := by
  intro w hw
  obtain ⟨words, rfl, hwords⟩ := Language.mem_kstar.mp hw
  clear hw
  induction words with
  | nil => exact List.isChain_nil
  | cons u rest ih =>
    have hrest : ∀ v ∈ rest, v ∈ l := fun v hv => hwords v (List.mem_cons_of_mem _ hv)
    have hflat := Language.join_mem_kstar hrest
    exact List.isChain_append.mpr ⟨h u (hwords u List.mem_cons_self), ih hrest,
      fun x _ y hy => .inr (hhead.kstar _ hflat y hy)⟩

/-- A sign or reserved word in front, and what follows it. -/
theorem tok_mul {kind : TokenKind} (hm : Tight m) (h : kind.isFront = false) :
    Tight (Production.tok kind * m) :=
  (tok kind).after (.tok h) hm

/-- A sign or reserved word behind what is there. -/
theorem mul_tok {kind : TokenKind} (hl : Tight l) (h : kind.isBack = false) :
    Tight (l * Production.tok kind) :=
  hl.before (tok kind) (Headed.tok h).begun

/-- Something after a sign or reserved word. -/
theorem mul_tok_mul {kind : TokenKind} (hl : Tight (l * Production.tok kind))
    (hm : Tight m) (h : kind.isFront = false) : Tight (l * Production.tok kind * m) :=
  hl.after (.right l (.tok h)) hm

theorem list (h : Tight l) : Tight (Production.list l) :=
  h.before ((h.tok_mul rfl).kstar ((Headed.tok rfl).left _)) ((Headed.tok rfl).left _).kstar

theorem guarded {word : Keyword} (h : (TokenKind.keyword word).isFront = false) :
    Tight (Production.guarded word) :=
  (((expr 1).tok_mul h).mul_tok rfl).mul_tok_mul (sub _) rfl

theorem body : Tight Production.body := ((sub _).tok_mul rfl).mul_tok rfl

theorem headed_body : Headed Production.body := ((Headed.tok rfl).left _).left _

theorem method {begin_ end_ : Keyword} (hfront : (TokenKind.keyword begin_).isFront = false)
    (hback : (TokenKind.keyword begin_).isBack = false)
    (hend : (TokenKind.keyword end_).isBack = false) : Tight (Production.method begin_ end_) := by
  have hdirectives :
      Tight ((Production.sub .directive)∗ * Production.opt (Production.reserved .Async)) :=
    ((sub _).kstar (.sub rfl)).before (tok _).opt (Headed.tok rfl).opt
  have hname : Tight (Production.reserved begin_ * Production.sub .identifier *
      Production.sub .parameterList * Production.opt (Production.reserved .Export)) :=
    (((sub _).tok_mul hfront).before (sub _) (Headed.sub rfl).begun).before (tok _).opt
      (Headed.tok rfl).opt
  have hblock := (hname.after (.right_opt (.right _ (.sub rfl)) (.tok rfl)) (sub .codeBlock))
  refine hdirectives.before (hblock.mul_tok hend) (Headed.begun ?_)
  exact (((((Headed.tok hback).left _).left _).left _).left _).left _

theorem handler {word : Keyword} (h : (TokenKind.keyword word).isFront = false) :
    Tight (Production.handler word) :=
  (((expr 1).tok_mul h).mul_tok rfl).mul_tok_mul (expr 1) rfl

theorem infixed (operator : TokenKind) : Tight (Production.infixed operator) := by
  unfold Production.infixed
  split
  · exact zero
  · rename_i hlevel
    obtain ⟨hfront, hback⟩ := TokenKind.shut_of_binaryLevel hlevel
    exact (expr _).before ((expr _).tok_mul hfront) ((Headed.tok hback).left _).begun

theorem signed (operator : TokenKind) : Tight (Production.signed operator) := by
  unfold Production.signed
  split
  · exact zero
  · rename_i hlevel
    exact (expr _).tok_mul (TokenKind.shut_of_unaryLevel hlevel)

end Tight

/-- The kinds of nodes in which a word can run on from one item to the next. -/
def NodeKind.hasGaps : NodeKind → Bool
  | .module | .parameter | .codeBlock | .forEachStatement => true
  | _ => false

open Tight in
/-- **In most nodes, items that follow each other stand apart.** -/
theorem production_tight {s : Shape} (h : s.kind.hasGaps = false) : Tight (production s) := by
  obtain ⟨kind, operator⟩ := s
  cases kind
  case module | parameter | codeBlock | forEachStatement => cases h
  case varDeclaration =>
    exact (((sub _).before (tok _).opt (Headed.tok rfl).opt).list.tok_mul rfl).before (tok _).opt
      (Headed.tok rfl).opt
  case procedure => exact method rfl rfl rfl
  case function => exact method rfl rfl rfl
  case parameterList => exact ((tok _).add ((sub _).list.mul_tok rfl)).tok_mul rfl
  case directive => exact ((sub _).tok_mul rfl).before (sub _).opt (Headed.sub rfl).opt
  case ifStatement =>
    exact (((sub _).before ((sub _).kstar (.sub rfl)) (Headed.sub rfl).kstar).before (sub _).opt
      (Headed.sub rfl).opt).mul_tok rfl
  case ifBranch => exact guarded rfl
  case elsIfBranch => exact guarded rfl
  case elseBranch => exact (sub _).tok_mul rfl
  case whileStatement => exact ((expr 1).tok_mul rfl).before body headed_body.begun
  case forStatement =>
    exact ((((((sub _).tok_mul rfl).mul_tok rfl).mul_tok_mul (expr 1) rfl).mul_tok rfl).mul_tok_mul
      (expr 1) rfl).before body headed_body.begun
  case tryStatement =>
    exact (((sub _).tok_mul rfl).before (sub _) (Headed.sub rfl).begun).mul_tok rfl
  case exceptBranch => exact (sub _).tok_mul rfl
  case returnStatement => exact (expr 1).opt.tok_mul rfl
  case raiseStatement => exact ((sub _).add (expr 1).opt).tok_mul rfl
  case executeStatement => exact (expr 1).tok_mul rfl
  case gotoStatement => exact ((tok _).tok_mul rfl).mul_tok_mul (sub _) rfl
  case label => exact ((sub _).tok_mul rfl).mul_tok rfl
  case breakStatement => exact tok _
  case continueStatement => exact tok _
  case addHandlerStatement => exact handler rfl
  case removeHandlerStatement => exact handler rfl
  case assignmentStatement =>
    exact target.before ((expr 1).tok_mul rfl) ((Headed.tok rfl).left _).begun
  case callStatement => exact target
  case newExpression =>
    exact (((sub _).before (sub _).opt (Headed.sub rfl).opt).add (sub _)).tok_mul rfl
  case typeName => exact tok _
  case argumentList => exact ((tok _).add ((expr 1).opt.list.mul_tok rfl)).tok_mul rfl
  case binaryExpression =>
    rcases operator with - | op
    · exact zero
    · exact infixed op
  case unaryExpression =>
    rcases operator with - | op
    · exact zero
    · exact signed op
  case ternaryExpression =>
    exact (((((((tok _).mul_tok rfl).mul_tok_mul (expr 1) rfl).mul_tok rfl).mul_tok_mul
      (expr 1) rfl).mul_tok rfl).mul_tok_mul (expr 1) rfl).mul_tok rfl
  case memberAccess => exact (expr 8).before ((sub _).tok_mul rfl) ((Headed.tok rfl).left _).begun
  case indexAccess =>
    exact (expr 8).before (((expr 1).tok_mul rfl).mul_tok rfl)
      (((Headed.tok rfl).left _).left _).begun
  case callExpression => exact (expr 8).before (sub _) (Headed.sub rfl).begun
  case identifier => exact some_token _
  case literal =>
    exact (some_token _).add ((tok _).before ((tok _).kstar (.tok rfl)) (Headed.tok rfl).kstar)
  case parenExpression => exact ((expr 1).tok_mul rfl).mul_tok rfl

end ModuleLint
