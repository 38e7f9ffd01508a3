/-
ModuleLint/Proofs/Tree/Gaps.lean

Where in a tree two names can stand side by side.  What `Seams` says of derivations is said
here of the nodes of a tree: a word can run on from one token to the next where two
statements of a block meet without a semicolon between them, and in the header of a loop
over a collection (`Derived.exists_gap`).

Nodes come in three layers: expressions, statements with their blocks, and the methods
around them.  Nothing lies below a node of a lower layer (`Derived.layer_le_of_above`), so
parameters and declarations of a module, which have gaps as well, are out of the way below
a statement, and in an expression there is no gap at all.
-/
import ModuleLint.Proofs.Grammar.Conformance
import ModuleLint.Proofs.Grammar.Seams
import ModuleLint.Proofs.Tree.WellFormed

namespace ModuleLint

open scoped Computability
open Outline

/-! ### Layers -/

/-- **The layer of a node**: expressions, statements and blocks, and what is around them. -/
def NodeKind.layer : NodeKind → Nat
  | .module | .procedure | .function | .parameterList | .parameter | .directive => 2
  | .newExpression | .typeName | .argumentList | .binaryExpression | .unaryExpression
  | .ternaryExpression | .memberAccess | .indexAccess | .callExpression | .identifier
  | .literal | .parenExpression => 0
  | _ => 1

/-- What has a level of precedence is an expression. -/
theorem layer_of_level {s : Shape} (h : 0 < s.level) : s.kind.layer = 0 := by
  obtain ⟨kind, operator⟩ := s
  cases kind <;> first | rfl | exact absurd h (Nat.lt_irrefl 0)

/-- Each word is made of nodes of a layer and of those inside it. -/
def Confined (n : Nat) (l : Language Shape) : Prop := ∀ w ∈ l, ∀ s ∈ w, s.kind.layer ≤ n

namespace Confined

variable {n : Nat} {l m : Language Shape}

theorem mul (hl : Confined n l) (hm : Confined n m) : Confined n (l * m) := by
  intro w hw s hs
  obtain ⟨u, hu, v, hv, rfl⟩ := Language.mem_mul.mp hw
  rcases List.mem_append.mp hs with hs | hs
  · exact hl u hu s hs
  · exact hm v hv s hs

theorem add (hl : Confined n l) (hm : Confined n m) : Confined n (l + m) := by
  intro w hw
  rcases (Language.mem_add _ _ _).mp hw with h | h
  · exact hl w h
  · exact hm w h

theorem kstar (h : Confined n l) : Confined n l∗ := by
  intro w hw s hs
  obtain ⟨words, rfl, hwords⟩ := Language.mem_kstar.mp hw
  obtain ⟨u, hu, hsu⟩ := List.mem_flatten.mp hs
  exact h u (hwords u hu) s hsu

theorem one : Confined n 1 := by
  rintro w rfl s hs
  cases hs

theorem zero : Confined n 0 := fun w hw => absurd hw (Language.notMem_zero w)

theorem opt (h : Confined n l) : Confined n (Production.opt l) := one.add h

theorem kid {kind : NodeKind} (h : kind.layer ≤ n) : Confined n (Children.kid kind) := by
  rintro w rfl s hs
  rw [List.mem_singleton.mp hs]
  exact h

theorem expr {level : Nat} (h : 0 < level) : Confined n (Children.expr level) := by
  rintro w ⟨s, rfl, hlevel⟩ s' hs
  rw [List.mem_singleton.mp hs, layer_of_level (h.trans_le hlevel)]
  exact Nat.zero_le n

theorem stmt (h : 1 ≤ n) : Confined n Children.stmt := by
  rintro w ⟨kind, rfl, hkind⟩ s hs
  rw [List.mem_singleton.mp hs]
  cases kind <;> first | exact h | cases hkind

theorem target : Confined n Children.target :=
  (expr (by decide)).add (by rintro w rfl s hs; rw [List.mem_singleton.mp hs]; exact Nat.zero_le n)

end Confined

open Confined in
/-- **Below a node lies nothing of an outer layer.** -/
theorem confined_childProduction (s : Shape) : Confined s.kind.layer (childProduction s) := by
  obtain ⟨kind, operator⟩ := s
  cases kind
  case codeBlock => exact (stmt (Nat.le_refl 1)).kstar
  case binaryExpression =>
    rcases operator with - | op
    · exact zero
    · change Confined 0 (Children.operands op)
      unfold Children.operands
      split
      · exact zero
      · exact (expr (Nat.pos_of_ne_zero ‹_›)).mul (expr (Nat.succ_pos _))
  case unaryExpression =>
    rcases operator with - | op
    · exact zero
    · change Confined 0 (Children.operand op)
      unfold Children.operand
      split
      · exact zero
      · exact expr (Nat.pos_of_ne_zero ‹_›)
  -- all other productions are put together from kinds and expressions
  all_goals
    simp only [childProduction, Children.method]
    apply_rules [mul, kstar, one, opt, kid, expr, target, add] <;> decide

namespace Tree

/-- **Two statements of a block meet at a token**: one ends before it, and another one
begins with it. -/
def StatementsMeet (t : Tree) (block i : Nat) : Prop :=
  t.kind? block = some .codeBlock ∧ ∃ a ∈ t.children block, ∃ b ∈ t.children block,
    t.endToken a = i ∧ t.firstToken b = i

theorem kind?_of_shape? {t : Tree} {id : Nat} {s : Shape} (h : t.shape? id = some s) :
    t.kind? id = some s.kind := by
  obtain ⟨kind, hkind, rfl⟩ := Option.map_eq_some_iff.mp h
  exact hkind

namespace Derived

variable {t : Tree} {source : List Char} {content : List Derivation} {id : Nat} {kind : NodeKind}

/-- A child belongs to the layer of its parent, or to one inside it. -/
theorem layer_le_of_child (h : t.Derived source content) {parent : Nat}
    (hchild : id ∈ t.children parent) {kind' : NodeKind} (hparent : t.kind? parent = some kind')
    (hid : t.kind? id = some kind) : kind.layer ≤ kind'.layer := by
  obtain ⟨shape, hconforms⟩ := h.conforms (lt_size_of_kind? hparent)
  obtain rfl := Option.some.inj (hparent.symm.trans (kind?_of_shape? hconforms.looks))
  obtain ⟨word, hword, hchildren⟩ := hconforms.children
  have hmem : t.shape? id ∈ (t.children parent).map t.shape? := List.mem_map_of_mem hchild
  rw [hchildren] at hmem
  obtain ⟨s, hs, hshape⟩ := List.mem_map.mp hmem
  obtain rfl := Option.some.inj (hid.symm.trans (kind?_of_shape? hshape.symm))
  exact confined_childProduction shape word hword s hs

/-- **What lies below a node** belongs to its layer, or to one inside it. -/
theorem layer_le_of_above (h : t.Derived source content) {above : Nat} (ha : t.Above above id)
    {kind' : NodeKind} (habove : t.kind? above = some kind') (hid : t.kind? id = some kind) :
    kind.layer ≤ kind'.layer := by
  induction ha generalizing kind with
  | single hp => exact h.layer_le_of_child (h.outlined.mem_children_of_parent? hp) habove hid
  | tail _ hp ih =>
    have hchild := h.outlined.mem_children_of_parent? hp
    obtain ⟨x, hx, _, _, rfl, -⟩ := h.outlined.exists_child hp
    have hmiddle := h.outlined.kind?_eq hx
    exact (h.layer_le_of_child hchild hmiddle hid).trans (ih hmiddle)

/-! ### Gaps -/

/-- **A word can run on inside a node** of the layer of statements only where two statements
meet, or in the header of a loop. -/
theorem exists_gap (h : t.Derived source content) (hkind : t.kind? id = some kind)
    (hlayer : kind.layer ≤ 1) {i : Nat} (hfirst : t.firstToken id < i) (hend : i < t.endToken id)
    (hopen : OpenAt t.lexed.kinds i) :
    ∃ gap, (gap = id ∨ t.Above id gap) ∧ (t.StatementsMeet gap i ∨
      t.kind? gap = some .forEachStatement ∧
        (i = t.firstToken gap + 3 ∨ i = t.firstToken gap + 4)) := by
  obtain ⟨x, hx, rfl, d, fresh, hd, hsound, htokens⟩ := h.exists_node (lt_size_of_kind? hkind)
  obtain ⟨_, _, -, -, hstop, -⟩ := Derivation.outline_eq_singleton hd
  rw [h.outlined.firstToken_eq hx] at hfirst
  rw [h.outlined.endToken_eq hx] at hend
  obtain ⟨j, rfl⟩ := Nat.exists_eq_add_of_lt hfirst
  rw [Nat.add_assoc] at hopen hend ⊢
  obtain ⟨y, hy, hgap⟩ := Derivation.exists_gap hd hsound
    ((openAt_iff_openAt htokens (by omega) (by omega)).mpr hopen)
  have hyo := mem_preorder_trans hy hx
  have hywhere : y.number = x.number ∨ t.Above x.number y.number :=
    (h.outlined.above_of_mem_preorder hx hy).imp_left (congrArg number)
  have hykind := h.outlined.kind?_eq hyo
  refine ⟨y.number, hywhere, ?_⟩
  cases hgap with
  | statements hblock ha hb hstop hfirst =>
    rw [hblock] at hykind
    rw [StatementsMeet, h.outlined.children_eq hyo]
    refine .inl ⟨hykind, _, List.mem_map_of_mem ha, _, List.mem_map_of_mem hb, ?_, ?_⟩
    · rw [h.outlined.endToken_eq (child_mem_preorder hyo ha), hstop]
    · rw [h.outlined.firstToken_eq (child_mem_preorder hyo hb), hfirst]
  | header hloop hi =>
    rw [hloop] at hykind
    rw [h.outlined.firstToken_eq hyo]
    exact .inr ⟨hykind, hi⟩
  | declaration hdeclaration =>
    -- those lie around the statements, not below them
    have hle : y.kind.layer ≤ kind.layer := by
      rcases hywhere with heq | habove
      · rw [heq, hkind] at hykind
        rw [Option.some.inj hykind]
      · exact h.layer_le_of_above habove hkind hykind
    rcases hdeclaration with hdeclaration | hdeclaration
    all_goals
      rw [hdeclaration] at hle
      exact absurd (hle.trans hlayer) (by decide)

/-- **In an expression no word runs on** from one token to the next. -/
theorem not_openAt_of_layer (h : t.Derived source content) (hkind : t.kind? id = some kind)
    (hlayer : kind.layer = 0) {i : Nat} (hfirst : t.firstToken id < i)
    (hend : i < t.endToken id) : ¬ OpenAt t.lexed.kinds i := by
  intro hopen
  obtain ⟨gap, hwhere, hgap⟩ := h.exists_gap hkind (by omega) hfirst hend hopen
  have hlayer : ∀ kind', t.kind? gap = some kind' → kind'.layer = 0 := by
    intro kind' hkind'
    rcases hwhere with rfl | habove
    · rw [← Option.some.inj (hkind.symm.trans hkind'), hlayer]
    · have hle := h.layer_le_of_above habove hkind hkind'
      omega
  rcases hgap with ⟨hblock, -⟩ | ⟨hloop, -⟩
  · exact absurd (hlayer _ hblock) (by decide)
  · exact absurd (hlayer _ hloop) (by decide)

/-! ### The header of a loop -/

/-- **The header of a loop over a collection**: `In` follows the variable, and no word runs on
over the first token of the collection. -/
theorem header (h : t.Derived source content) (hkind : t.kind? id = some .forEachStatement) :
    t.lexed.kinds[t.firstToken id + 3]? = some (.keyword .In) ∧
      ¬ OpenAt t.lexed.kinds (t.firstToken id + 5) := by
  obtain ⟨x, hx, rfl, d, fresh, hd, hsound, more, hmore⟩ :=
    h.exists_node (lt_size_of_kind? hkind)
  obtain ⟨lead, items, rfl, hfirst, -⟩ := Derivation.outline_eq_singleton hd
  rw [h.outlined.kind?_eq hx] at hkind
  rw [Option.some.inj hkind] at hd hsound hmore
  obtain ⟨name, collection, block, hitems, hname, ⟨word, hword⟩, ⟨s, hs, hlevel⟩, -⟩ :=
    hsound.items_forEachStatement
  have hall : Derivation.SoundAll (lead ++ items) := Derivation.soundAll_append.mpr hsound.2
  rw [Derivation.tokens, ← Derivation.tokensAll_append, hitems] at hmore
  simp only [Derivation.tokensAll_cons, Derivation.tokens, hword] at hmore
  rw [h.outlined.firstToken_eq hx]
  have hentry : ∀ n, t.lexed.kinds[x.first + n]? = (t.lexed.kinds.drop x.first)[n]? := fun n =>
    (List.getElem?_drop).symm
  refine ⟨?_, fun hopen => ?_⟩
  · rw [hentry, ← hmore]
    rfl
  · -- the collection is an expression, and `Do` stands behind it
    have hvisible : (Derivation.symbol collection).Visible := by
      rw [hs]
      refine ⟨fun hk => ?_, fun hk => ?_⟩ <;>
        simp only [Shape.level, hk] at hlevel <;> omega
    have hsound' : Derivation.Sound collection := hall.of_mem (by simp [hitems])
    obtain ⟨k, rest, hk⟩ := List.exists_cons_of_ne_nil (hsound'.tokens_ne_nil hvisible)
    have hsplit : lead ++ items = [.token (.keyword .For), .token (.keyword .Each), name,
        .token (.keyword .In)] ++ collection :: [.token (.keyword .Do), block,
        .token (.keyword .EndDo)] := hitems
    obtain ⟨y, hy, fresh', hout⟩ := Derivation.exists_child hd hsplit hs
    obtain ⟨lead', items', hcollection, hyfirst, hystop, -⟩ := Derivation.outline_eq_singleton hout
    have hyo := child_mem_preorder hx hy
    rw [hcollection] at hs
    have hylayer : y.kind.layer = 0 := by
      have hshape := congrArg Shape.kind (Symbol.node.inj hs)
      exact (congrArg NodeKind.layer hshape).trans (layer_of_level hlevel)
    simp only [Derivation.tokensAll_cons, Derivation.tokensAll_nil, Derivation.tokens, hword,
      List.length_append, List.length_singleton, List.length_nil] at hyfirst hystop
    cases rest with
    | nil =>
      rw [hk] at hmore
      obtain ⟨b, hb, hback⟩ := hopen.back
      rw [hentry, ← hmore] at hb
      obtain rfl := Option.some.inj hb
      cases hback
    | cons k' rest =>
      refine h.not_openAt_of_layer (h.outlined.kind?_eq hyo) hylayer ?_ ?_ hopen
      · rw [h.outlined.firstToken_eq hyo]
        omega
      · rw [h.outlined.endToken_eq hyo, hystop, hk, List.length_cons, List.length_cons]
        omega

end Derived

end Tree

end ModuleLint
