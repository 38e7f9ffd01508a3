/-
ModuleLint/Proofs/Grammar/Blocks.lean

Where a block stands in the node around it.  A block can be empty, and then it lies at the
token that follows it; so it matters whether that token belongs to the node around the block.
In methods, loops and `Try` it does: something is read behind the block
(`Sound.behind_empty`).  In a branch of `If` and in an `Except` branch it does not: the block
ends the branch, and the word that closes the branch belongs to the statement around it
(`Sound.behind_branch`).  In a module the block comes last of all.

`Without` and `Followed` are read off the productions with one rule for each operation on
languages.
-/
import ModuleLint.Proofs.Grammar.Production

namespace ModuleLint

open scoped Computability

/-! ### Kinds -/

namespace NodeKind

/-- The kinds of nodes that can be empty. -/
def canBeEmpty : NodeKind → Bool
  | .module | .codeBlock => true
  | _ => false

/-- The kinds of nodes that end with a block. -/
def isBranch : NodeKind → Bool
  | .ifBranch | .elsIfBranch | .elseBranch | .exceptBranch => true
  | _ => false

/-- The kinds of nodes that hold a block. -/
def holdsBlock : NodeKind → Bool
  | .module | .procedure | .function | .ifBranch | .elsIfBranch | .elseBranch
  | .whileStatement | .forStatement | .forEachStatement | .tryStatement | .exceptBranch => true
  | _ => false

/-- Whether nodes of one kind can hold nodes of another; this is of interest for modules,
blocks and branches only. -/
def holds (outer : NodeKind) : NodeKind → Bool
  | .module => false
  | .codeBlock => outer.holdsBlock
  | .ifBranch | .elsIfBranch | .elseBranch => outer == .ifStatement
  | .exceptBranch => outer == .tryStatement
  | _ => true

end NodeKind

namespace Symbol

/-- Whether an item begins with a reserved word. -/
def beginsReserved : Symbol → Bool
  | .token kind => (kind matches .keyword _)
  | .node shape => (shape.kind matches .elsIfBranch | .elseBranch | .exceptBranch)

end Symbol

/-! ### What stands behind an item -/

/-- No word has a node of one of the given kinds. -/
def Without (special : NodeKind → Bool) (l : Language Symbol) : Prop :=
  ∀ w ∈ l, ∀ s, Symbol.node s ∈ w → special s.kind = false

/-- **Behind a node of one of the given kinds** a word goes on as `q` says. -/
def Followed (special : NodeKind → Bool) (q : List Symbol → Prop) (l : Language Symbol) : Prop :=
  ∀ w ∈ l, ∀ before s behind, w = before ++ .node s :: behind → special s.kind = true → q behind

/-- Neither expressions nor statements are of one of the given kinds. -/
structure NodeKind.Outer (special : NodeKind → Bool) : Prop where
  expr : ∀ s : Shape, 0 < s.level → special s.kind = false
  stmt : ∀ kind : NodeKind, kind.isStatement = true → special kind = false

theorem NodeKind.outer_canBeEmpty : Outer canBeEmpty := by
  constructor
  · rintro ⟨kind, operator⟩ h
    cases kind <;> first | rfl | exact absurd h (Nat.lt_irrefl 0)
  · intro kind h
    cases kind <;> first | rfl | cases h

theorem NodeKind.outer_holds (outer : NodeKind) : Outer fun kind => !outer.holds kind := by
  constructor
  · rintro ⟨kind, operator⟩ h
    cases kind <;> first | rfl | exact absurd h (Nat.lt_irrefl 0)
  · intro kind h
    cases kind <;> first | rfl | cases h

variable {special : NodeKind → Bool} {q : List Symbol → Prop} {l m : Language Symbol}

namespace Without

theorem mul (hl : Without special l) (hm : Without special m) : Without special (l * m) := by
  intro w hw s hs
  obtain ⟨u, hu, v, hv, rfl⟩ := Language.mem_mul.mp hw
  rcases List.mem_append.mp hs with hs | hs
  · exact hl u hu s hs
  · exact hm v hv s hs

theorem add (hl : Without special l) (hm : Without special m) : Without special (l + m) := by
  intro w hw
  rcases (Language.mem_add _ _ _).mp hw with h | h
  · exact hl w h
  · exact hm w h

theorem kstar (h : Without special l) : Without special l∗ := by
  intro w hw s hs
  obtain ⟨words, rfl, hwords⟩ := Language.mem_kstar.mp hw
  obtain ⟨u, hu, hsu⟩ := List.mem_flatten.mp hs
  exact h u (hwords u hu) s hsu

theorem one : Without special 1 := by
  rintro w rfl s hs
  cases hs

theorem zero : Without special 0 := fun w hw => absurd hw (Language.notMem_zero w)

theorem opt (h : Without special l) : Without special (Production.opt l) := one.add h

theorem tok (kind : TokenKind) : Without special (Production.tok kind) := by
  rintro w rfl s hs
  cases List.mem_singleton.mp hs

theorem some_token (p : TokenKind → Bool) : Without special (Production.one p) := by
  rintro w ⟨kind, rfl, -⟩ s hs
  cases List.mem_singleton.mp hs

theorem sub {kind : NodeKind} (h : special kind = false) :
    Without special (Production.sub kind) := by
  rintro w rfl s hs
  obtain rfl := Symbol.node.inj (List.mem_singleton.mp hs)
  exact h

theorem expr (h : NodeKind.Outer special) {level : Nat} (hlevel : 0 < level) :
    Without special (Production.expr level) := by
  rintro w ⟨s, rfl, hs⟩ s' hs'
  obtain rfl := Symbol.node.inj (List.mem_singleton.mp hs')
  exact h.expr s' (hlevel.trans_le hs)

theorem stmt (h : NodeKind.Outer special) : Without special Production.stmt := by
  rintro w ⟨kind, rfl, hkind⟩ s hs
  obtain rfl := Symbol.node.inj (List.mem_singleton.mp hs)
  exact h.stmt kind hkind

theorem target (h : NodeKind.Outer special) : Without special Production.target := by
  refine (expr h (by decide)).add ?_
  rintro w rfl s hs
  obtain rfl := Symbol.node.inj (List.mem_singleton.mp hs)
  exact h.expr _ (by decide)

theorem infixed (h : NodeKind.Outer special) (operator : TokenKind) :
    Without special (Production.infixed operator) := by
  unfold Production.infixed
  split
  · exact zero
  · exact (expr h (Nat.pos_of_ne_zero ‹_›)).mul ((tok _).mul (expr h (Nat.succ_pos _)))

theorem signed (h : NodeKind.Outer special) (operator : TokenKind) :
    Without special (Production.signed operator) := by
  unfold Production.signed
  split
  · exact zero
  · exact (tok _).mul (expr h (Nat.pos_of_ne_zero ‹_›))

theorem operation (h : NodeKind.Outer special) {s : Shape}
    (hs : s.kind = .binaryExpression ∨ s.kind = .unaryExpression) :
    Without special (production s) := by
  obtain ⟨kind, - | op⟩ := s
  · rcases hs with rfl | rfl
    · exact zero
    · exact zero
  · rcases hs with rfl | rfl
    · exact infixed h op
    · exact signed h op

end Without

/-- An item of two words that follow each other is one of the first word or of the second. -/
theorem split_append {α : Type} {u v before behind : List α} {e : α}
    (h : u ++ v = before ++ e :: behind) :
    (∃ more, u = before ++ e :: more ∧ behind = more ++ v) ∨
      ∃ more, before = u ++ more ∧ v = more ++ e :: behind := by
  rcases List.append_eq_append_iff.mp h with ⟨more, hbefore, hv⟩ | ⟨more, hu, hmore⟩
  · exact .inr ⟨more, hbefore, hv⟩
  · cases more with
    | nil => exact .inr ⟨[], by rw [hu, List.append_nil, List.append_nil], hmore.symm⟩
    | cons f more =>
      obtain ⟨rfl, rfl⟩ := List.cons.inj hmore
      exact .inl ⟨more, hu, rfl⟩

theorem Without.not_special (h : Without special l) {before behind : List Symbol} {s : Shape}
    (hw : before ++ .node s :: behind ∈ l) : ¬ special s.kind = true :=
  Bool.eq_false_iff.mp (h _ hw s (List.mem_append_right _ List.mem_cons_self))

namespace Followed

theorem of_without (h : Without special l) : Followed special q l := by
  rintro w hw before s behind rfl hs
  exact absurd hs (h.not_special hw)

theorem mul (hl : Without special l) (hm : Followed special q m) : Followed special q (l * m) := by
  intro w hw before s behind hsplit hs
  obtain ⟨u, hu, v, hv, rfl⟩ := Language.mem_mul.mp hw
  rcases split_append hsplit with ⟨more, rfl, -⟩ | ⟨more, -, rfl⟩
  · exact absurd hs (hl.not_special hu)
  · exact hm _ hv more s behind rfl hs

/-- The last item has nothing behind it. -/
theorem last (kind : NodeKind) : Followed special (· = []) (Production.sub kind) := by
  rintro w rfl before s behind hsplit -
  cases before with
  | nil => exact (List.cons.inj hsplit).2.symm
  | cons e before => cases before <;> cases hsplit

/-- An item of one language at the end of a word is followed by a word of the next one. -/
theorem mul_right (hl : Followed special (· = []) l) (hm : Without special m)
    (hq : ∀ v ∈ m, q v) : Followed special q (l * m) := by
  intro w hw before s behind hsplit hs
  obtain ⟨u, hu, v, hv, rfl⟩ := Language.mem_mul.mp hw
  rcases split_append hsplit with ⟨more, rfl, rfl⟩ | ⟨more, -, rfl⟩
  · obtain rfl := hl _ hu before s more rfl hs
    exact hq v hv
  · exact absurd hs (hm.not_special hv)

/-- Behind an item of the first language something visible comes, if it does in the second. -/
theorem mul_visible (hm : Without special m) (hvisible : Visible m) :
    Followed special (fun behind => ∃ e ∈ behind, e.Visible) (l * m) := by
  intro w hw before s behind hsplit hs
  obtain ⟨u, hu, v, hv, rfl⟩ := Language.mem_mul.mp hw
  rcases split_append hsplit with ⟨more, -, rfl⟩ | ⟨more, -, rfl⟩
  · obtain ⟨e, he, hshown⟩ := hvisible v hv
    exact ⟨e, List.mem_append_right _ he, hshown⟩
  · exact absurd hs (hm.not_special hv)

end Followed

/-! ### What holds what -/

open Without in
/-- **Blocks and branches** are held by certain nodes only, and a module by none. -/
theorem without_production (s : Shape) :
    Without (fun kind => !s.kind.holds kind) (production s) := by
  obtain ⟨kind, operator⟩ := s
  have houter := NodeKind.outer_holds kind
  have hexpr : ∀ level, 0 < level → Without _ (Production.expr level) := fun _ => expr houter
  have hstmt := stmt houter
  have htarget := target houter
  cases kind
  case binaryExpression => exact operation houter (.inl rfl)
  case unaryExpression => exact operation houter (.inr rfl)
  all_goals
    simp only [production, Production.list, Production.handler, Production.reserved,
      Production.method, Production.guarded, Production.body]
    apply_rules [Without.mul, add, kstar, one, tok, some_token, sub, hexpr, hstmt, htarget] <;>
      decide

theorem holds_of_mem_production {s s' : Shape} {w : List Symbol} (hw : w ∈ production s)
    (hs : .node s' ∈ w) : s.kind.holds s'.kind = true := by
  simpa using without_production s w hw s' hs

/-! ### What stands behind a block -/

open Without Followed in
/-- **Behind what can be empty something is read**, in all nodes but modules and branches. -/
theorem followed_production {s : Shape} (hmodule : s.kind ≠ .module)
    (hbranch : s.kind.isBranch = false) :
    Followed NodeKind.canBeEmpty (fun behind => ∃ e ∈ behind, e.Visible) (production s) := by
  have hbody : Followed NodeKind.canBeEmpty (fun behind => ∃ e ∈ behind, e.Visible)
      Production.body := mul_visible (tok _) (.tok _)
  have hexpr : Without NodeKind.canBeEmpty (Production.expr 1) :=
    expr NodeKind.outer_canBeEmpty (by decide)
  by_cases hblock : s.kind.holdsBlock = true
  · obtain ⟨kind, operator⟩ := s
    cases kind
    case module => exact absurd rfl hmodule
    case ifBranch | elsIfBranch | elseBranch | exceptBranch => cases hbranch
    case procedure | function =>
      refine mul ?_ (mul_visible (tok _) (.tok _))
      exact (kstar (sub rfl)).mul (opt (tok _))
    case whileStatement => exact mul ((tok _).mul hexpr) hbody
    case forStatement =>
      exact mul ((((((tok _).mul (sub rfl)).mul (tok _)).mul hexpr).mul (tok _)).mul hexpr) hbody
    case forEachStatement =>
      exact mul (((((tok _).mul (tok _)).mul (sub rfl)).mul (tok _)).mul hexpr) hbody
    case tryStatement => exact mul_visible (tok _) (.tok _)
    all_goals cases hblock
  · -- in all other nodes there is no block
    refine of_without fun w hw s' hs => ?_
    have hholds := holds_of_mem_production hw hs
    obtain ⟨kind, operator⟩ := s'
    cases kind
    case module => cases hholds
    case codeBlock => exact absurd hholds hblock
    all_goals rfl

open Without Followed in
/-- **A module and a branch end with what can be empty.** -/
theorem followed_nil {s : Shape} (h : s.kind = .module ∨ s.kind.isBranch = true) :
    Followed NodeKind.canBeEmpty (· = []) (production s) := by
  have hexpr : Without NodeKind.canBeEmpty (Production.expr 1) :=
    expr NodeKind.outer_canBeEmpty (by decide)
  obtain ⟨kind, operator⟩ := s
  cases kind
  case module => exact mul ((((sub rfl).add (sub rfl)).add (sub rfl)).kstar) (last .codeBlock)
  case ifBranch | elsIfBranch => exact mul (((tok _).mul hexpr).mul (tok _)) (last .codeBlock)
  case elseBranch | exceptBranch => exact mul (tok _) (last .codeBlock)
  all_goals rcases h with h | h <;> cases h

/-- **In front of the block of a branch** stands a reserved word. -/
theorem exists_front_of_isBranch {s : Shape} (hs : s.kind.isBranch = true) {w : List Symbol}
    (hw : w ∈ production s) :
    ∃ front word, w = front ++ [.token (.keyword word), .node ⟨.codeBlock, none⟩] := by
  have hguarded : ∀ word, w ∈ Production.guarded word →
      ∃ front word, w = front ++ [.token (.keyword word), .node ⟨.codeBlock, none⟩] := by
    intro word hw
    obtain ⟨u, hu, v, rfl, rfl⟩ := Language.mem_mul.mp hw
    obtain ⟨front, -, v, rfl, rfl⟩ := Language.mem_mul.mp hu
    exact ⟨front, .Then, List.append_assoc _ _ _⟩
  have hplain : ∀ word : Keyword, w ∈ Production.reserved word * Production.sub .codeBlock →
      ∃ front word, w = front ++ [.token (.keyword word), .node ⟨.codeBlock, none⟩] := by
    intro word hw
    obtain ⟨u, rfl, v, rfl, rfl⟩ := Language.mem_mul.mp hw
    exact ⟨[], word, rfl⟩
  obtain ⟨kind, operator⟩ := s
  cases kind
  case ifBranch | elsIfBranch => exact hguarded _ hw
  case elseBranch | exceptBranch => exact hplain _ hw
  all_goals cases hs

/-! ### What stands behind a branch -/

/-- A word begins with an item that begins with a reserved word. -/
def Reserved (w : List Symbol) : Prop := ∃ e ∈ w.head?, e.beginsReserved = true

/-- The branches behind the first one, and the word that closes them. -/
theorem reserved_append {more : List Symbol} (word : Keyword)
    (h : ∀ e ∈ more, e.beginsReserved = true) :
    Reserved (more ++ [.token (.keyword word)]) := by
  cases more with
  | nil => exact ⟨_, rfl, rfl⟩
  | cons e more => exact ⟨e, rfl, h e List.mem_cons_self⟩

/-- The branches of `If` are followed by others or by the end. -/
theorem followed_ifStatement {operator : Option TokenKind} :
    Followed NodeKind.isBranch Reserved (production ⟨.ifStatement, operator⟩) := by
  intro w hw before s behind hsplit hs
  obtain ⟨u₁, hu₁, v, rfl, rfl⟩ := Language.mem_mul.mp hw
  obtain ⟨u₂, hu₂, others, hothers, rfl⟩ := Language.mem_mul.mp hu₁
  obtain ⟨first, rfl, elsIfs, helsIfs, rfl⟩ := Language.mem_mul.mp hu₂
  have hreserved : ∀ e ∈ elsIfs ++ others, e.beginsReserved = true := by
    intro e he
    rcases List.mem_append.mp he with he | he
    · obtain ⟨words, rfl, hwords⟩ := Language.mem_kstar.mp helsIfs
      obtain ⟨word, hword, he⟩ := List.mem_flatten.mp he
      obtain rfl := hwords word hword
      rw [List.mem_singleton.mp he]
      rfl
    · rcases (Language.mem_add _ _ _).mp hothers with rfl | rfl
      · cases he
      · rw [List.mem_singleton.mp he]
        rfl
  rw [List.append_assoc [_] elsIfs] at hsplit
  rcases split_append hsplit with ⟨more, hmore, rfl⟩ | ⟨more, -, hmore⟩
  · refine reserved_append .EndIf fun e he => hreserved e ?_
    cases before with
    | nil =>
      obtain ⟨-, rfl⟩ := List.cons.inj hmore
      exact he
    | cons b before =>
      have hrest : elsIfs ++ others = before ++ .node s :: more := (List.cons.inj hmore).2
      rw [hrest]
      exact List.mem_append_right _ (List.mem_cons_of_mem _ he)
  · -- the word at the end is no branch
    cases more with
    | nil => cases hmore
    | cons b more => cases more <;> cases hmore

open Without Followed in
theorem followed_tryStatement {operator : Option TokenKind} :
    Followed NodeKind.isBranch Reserved (production ⟨.tryStatement, operator⟩) := by
  refine mul_right (mul ((tok _).mul (sub rfl)) (last .exceptBranch)) (tok _) ?_
  rintro v rfl
  exact ⟨_, rfl, rfl⟩

/-- **Behind a branch stands a reserved word**, in whatever node it is. -/
theorem followed_branch (s : Shape) : Followed NodeKind.isBranch Reserved (production s) := by
  by_cases hif : s.kind = .ifStatement
  · obtain ⟨kind, operator⟩ := s
    obtain rfl := hif
    exact followed_ifStatement
  by_cases htry : s.kind = .tryStatement
  · obtain ⟨kind, operator⟩ := s
    obtain rfl := htry
    exact followed_tryStatement
  -- in all other nodes there is no branch
  refine .of_without fun w hw s' hs => ?_
  have hholds := holds_of_mem_production hw hs
  obtain ⟨kind, operator⟩ := s'
  cases kind
  case ifBranch | elsIfBranch | elseBranch => exact absurd (beq_iff_eq.mp hholds) hif
  case exceptBranch => exact absurd (beq_iff_eq.mp hholds) htry
  all_goals rfl

/-- The later branches begin with their own word. -/
theorem exists_word_of_beginsReserved {s : Shape} (hs : (Symbol.node s).beginsReserved = true)
    {w : List Symbol} (hw : w ∈ production s) :
    ∃ word more, w = .token (.keyword word) :: more := by
  obtain ⟨kind, operator⟩ := s
  cases kind
  case elsIfBranch =>
    obtain ⟨u₁, hu₁, v₁, -, rfl⟩ := Language.mem_mul.mp hw
    obtain ⟨u₂, hu₂, v₂, -, rfl⟩ := Language.mem_mul.mp hu₁
    obtain ⟨u₃, rfl, v₃, -, rfl⟩ := Language.mem_mul.mp hu₂
    exact ⟨.ElsIf, _, rfl⟩
  case elseBranch | exceptBranch =>
    obtain ⟨u, rfl, v, -, rfl⟩ := Language.mem_mul.mp hw
    exact ⟨_, _, rfl⟩
  all_goals cases hs

namespace Derivation

variable {kind : NodeKind} {lead items before behind : List Derivation} {e : Derivation}

/-- What begins with a reserved word reads one first. -/
theorem Sound.head?_of_beginsReserved (h : Sound e) (he : (symbol e).beginsReserved = true) :
    ∃ word, (tokens e).head? = some (.keyword word) := by
  cases e with
  | token kind =>
    cases kind
    case keyword word => exact ⟨word, rfl⟩
    all_goals cases he
  | node kind lead items =>
    obtain ⟨word, more, hword⟩ : ∃ word more,
        (lead ++ items).map symbol = .token (.keyword word) :: more :=
      exists_word_of_beginsReserved he h.1
    obtain ⟨d, rest, hitems, hd, -⟩ := List.map_eq_cons_iff.mp hword
    rw [tokens, ← tokensAll_append, hitems, eq_token_of_symbol hd]
    exact ⟨word, rfl⟩

/-- What reads nothing is a node that can be empty. -/
theorem Sound.exists_shape_of_tokens_nil (h : Sound e) (he : tokens e = []) :
    ∃ s, symbol e = .node s ∧ s.kind.canBeEmpty = true := by
  have hvisible : ¬ (symbol e).Visible := fun hv => h.tokens_ne_nil hv he
  cases e with
  | token kind => cases he
  | node kind lead items =>
    refine ⟨_, rfl, ?_⟩
    by_contra hkind
    refine hvisible ⟨?_, ?_⟩
    · rintro rfl
      exact hkind rfl
    · rintro rfl
      exact hkind rfl

variable (h : Sound (.node kind lead items)) (hsplit : lead ++ items = before ++ e :: behind)
include h hsplit

theorem Sound.of_split {d : Derivation} (hd : d ∈ before ++ e :: behind) : Sound d := by
  have hall : SoundAll (lead ++ items) := soundAll_append.mpr h.2
  rw [hsplit] at hall
  exact hall.of_mem hd

theorem Sound.map_split : before.map symbol ++ symbol e :: behind.map symbol ∈
    production ⟨kind, operator kind items⟩ := by
  have hword := h.1
  rwa [hsplit, List.map_append, List.map_cons] at hword

/-- **Behind an empty item** of a node something is read, unless the node is a module or a
branch. -/
theorem Sound.behind_empty (he : tokens e = []) (hmodule : kind ≠ .module)
    (hbranch : kind.isBranch = false) : tokensAll behind ≠ [] := by
  have hsound := h.of_split hsplit (List.mem_append_right _ List.mem_cons_self)
  obtain ⟨s, hs, hempty⟩ := hsound.exists_shape_of_tokens_nil he
  have hword := h.map_split hsplit
  rw [hs] at hword
  obtain ⟨v, hv, hvisible⟩ := followed_production hmodule hbranch _ hword _ s _ rfl hempty
  obtain ⟨d, hd, rfl⟩ := List.mem_map.mp hv
  have hshown := h.of_split hsplit (List.mem_append_right _ (List.mem_cons_of_mem _ hd))
  obtain ⟨k, hk⟩ := List.exists_mem_of_ne_nil _ (hshown.tokens_ne_nil hvisible)
  exact List.ne_nil_of_mem (mem_tokensAll_of_mem hd hk)

/-- **An empty item of a module or a branch** is the last one. -/
theorem Sound.behind_eq_nil (he : tokens e = []) (hkind : kind = .module ∨ kind.isBranch = true) :
    behind = [] := by
  have hsound := h.of_split hsplit (List.mem_append_right _ List.mem_cons_self)
  obtain ⟨s, hs, hempty⟩ := hsound.exists_shape_of_tokens_nil he
  have hword := h.map_split hsplit
  rw [hs] at hword
  exact List.map_eq_nil_iff.mp
    (followed_nil (s := ⟨kind, operator kind items⟩) hkind _ hword _ s _ rfl hempty)

/-- In a branch it follows a reserved word. -/
theorem Sound.getLast?_before (he : tokens e = []) (hkind : kind.isBranch = true) :
    ∃ word, (tokensAll before).getLast? = some (.keyword word) := by
  obtain rfl := h.behind_eq_nil hsplit he (.inr hkind)
  obtain ⟨front, word, hfront⟩ := exists_front_of_isBranch
    (s := ⟨kind, operator kind items⟩) hkind (h.map_split hsplit)
  rw [List.map_nil, List.append_cons front] at hfront
  obtain ⟨hbefore, -⟩ := List.append_inj' hfront rfl
  obtain ⟨front, last, rfl, -, hlast⟩ := List.map_eq_append_iff.mp hbefore
  obtain ⟨d, rfl, hd⟩ := List.map_eq_singleton_iff.mp hlast
  obtain rfl := eq_token_of_symbol hd
  rw [tokensAll_append]
  exact ⟨word, List.getLast?_concat⟩

/-- No item is a module. -/
theorem Sound.kind_ne_module {s : Shape} (he : symbol e = .node s) : s.kind ≠ .module := by
  intro hmodule
  have hword := h.map_split hsplit
  rw [he] at hword
  have hholds := holds_of_mem_production hword (List.mem_append_right _ List.mem_cons_self)
  rw [hmodule] at hholds
  cases hholds

/-- **Behind a branch** a reserved word is read. -/
theorem Sound.behind_branch {s : Shape} (he : symbol e = .node s) (hs : s.kind.isBranch = true) :
    ∃ word, (tokensAll behind).head? = some (.keyword word) := by
  have hword := h.map_split hsplit
  rw [he] at hword
  obtain ⟨v, hv, hreserved⟩ := followed_branch _ _ hword _ s _ rfl hs
  cases behind with
  | nil => cases hv
  | cons d behind =>
    obtain rfl := Option.some.inj hv
    have hsound := h.of_split hsplit
      (List.mem_append_right _ (List.mem_cons_of_mem _ List.mem_cons_self))
    obtain ⟨word, hword⟩ := hsound.head?_of_beginsReserved hreserved
    exact ⟨word, by rw [tokensAll_cons, List.head?_append, hword, Option.some_or]⟩

end Derivation

end ModuleLint
