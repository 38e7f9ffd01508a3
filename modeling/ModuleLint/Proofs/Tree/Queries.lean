/-
ModuleLint/Proofs/Tree/Queries.lean

Questions about a tree, answered by its outline.  `Tree.OutlinedBy t o` says that the
nodes of `t` are those of `o` and no others.  From it follow, for a node `x` of `o`,

    t.children x.number    = x.children.map Outline.number     (`children_eq`)
    t.descendants x.number = x.preorder.map Outline.number     (`descendants_eq`)
    t.ancestors x.number   holds what lies above it            (`mem_ancestors_iff`),
                           innermost first                     (`pairwise_ancestors`)
    x.preorder             holds what lies below x             (`above_of_mem_preorder`,
                                                                `mem_preorder_of_above`)

and that a visitor whose hooks act on a node and then go on to its children is a
fold over the list of nodes (`Visitor.visit_eq_foldl`).

The traversals of a tree count down from the number of its nodes.  That is enough:
what is still to be met never has more nodes than that, a path downwards meets ever
smaller outlines, and a path upwards meets ever larger ones.
-/
import Mathlib.Logic.Relation
import ModuleLint.Proofs.Tree.Outline
import ModuleLint.Tree.Visitor

namespace ModuleLint

open Outline

namespace Tree

/-- **The nodes of a tree are those of an outline**, and there are no others. -/
structure OutlinedBy (t : Tree) (o : Outline) : Prop where
  stored : Stored t.nodes none o
  numbers : (o.preorder.map number).Perm (List.range t.size)

/-- The first token that a node covers. -/
def firstToken (t : Tree) (id : Nat) : Nat :=
  ((t.nodes[id]?).map Node.firstToken).getD 0

/-- The token after the last one that a node covers. -/
def endToken (t : Tree) (id : Nat) : Nat :=
  ((t.nodes[id]?).map Node.endToken).getD 0

/-- What has a kind is a node. -/
theorem lt_size_of_kind? {t : Tree} {id : Nat} {kind : NodeKind}
    (hkind : t.kind? id = some kind) : id < t.size := by
  by_contra hge
  rw [kind?, Array.getElem?_eq_none (Nat.le_of_not_lt hge)] at hkind
  cases hkind

/-- One node is the parent of the other. -/
def ParentOf (t : Tree) (above id : Nat) : Prop := t.parent? id = some above

/-- **One node lies above the other**: it is its parent, or lies above its parent. -/
def Above (t : Tree) : Nat → Nat → Prop := Relation.TransGen t.ParentOf

/-- What lies above a node is its parent or lies above that. -/
theorem above_iff {t : Tree} {above id : Nat} :
    t.Above above id ↔ ∃ p, t.parent? id = some p ∧ (above = p ∨ t.Above above p) := by
  constructor
  · intro h
    rcases Relation.TransGen.tail'_iff.mp h with ⟨p, hab, hp⟩
    rcases Relation.reflTransGen_iff_eq_or_transGen.mp hab with rfl | h'
    · exact ⟨p, hp, .inl rfl⟩
    · exact ⟨p, hp, .inr h'⟩
  · rintro ⟨p, hp, rfl | h⟩
    · exact .single hp
    · exact .tail h hp

/-- The chain of parents goes upwards. -/
theorem above_of_mem_chain {t : Tree} (n : Nat) {above id : Nat}
    (h : above ∈ t.chain n (t.parent? id)) : t.Above above id := by
  induction n generalizing id with
  | zero => cases h
  | succ n ih =>
    rcases hp : t.parent? id with - | p
    · rw [hp] at h
      cases h
    · rw [hp] at h
      rcases List.mem_cons.mp h with rfl | h
      · exact above_iff.mpr ⟨_, hp, .inl rfl⟩
      · exact above_iff.mpr ⟨p, hp, .inr (ih h)⟩

/-- **The ancestors of a node come innermost first.** -/
theorem pairwise_ancestors (t : Tree) (id : Nat) :
    (t.ancestors id).Pairwise fun inner outer => t.Above outer inner := by
  rw [ancestors]
  generalize t.size = n
  generalize t.parent? id = start
  induction n generalizing start with
  | zero => exact List.Pairwise.nil
  | succ n ih =>
    cases start with
    | none => exact List.Pairwise.nil
    | some p => exact List.pairwise_cons.mpr ⟨fun b hb => above_of_mem_chain n hb, ih _⟩

namespace OutlinedBy

variable {t : Tree} {o x y c : Outline}

/-! ### Numbers and entries -/

theorem length_preorder (h : t.OutlinedBy o) : o.preorder.length = t.size := by
  have := h.numbers.length_eq
  rwa [List.length_map, List.length_range] at this

theorem number_lt (h : t.OutlinedBy o) (hx : x ∈ o.preorder) : x.number < t.size :=
  List.mem_range.mp (h.numbers.mem_iff.mp (List.mem_map_of_mem hx))

/-- Each number of a node occurs in the outline. -/
theorem exists_number (h : t.OutlinedBy o) {id : Nat} (hid : id < t.size) :
    ∃ x ∈ o.preorder, x.number = id :=
  List.mem_map.mp (h.numbers.mem_iff.mpr (List.mem_range.mpr hid))

theorem nodup (h : t.OutlinedBy o) : (o.preorder.map number).Nodup :=
  h.numbers.nodup_iff.mpr List.nodup_range

/-- A node is known by its number. -/
theorem eq_of_number (h : t.OutlinedBy o) (hx : x ∈ o.preorder) (hy : y ∈ o.preorder)
    (hnumber : x.number = y.number) : x = y :=
  List.inj_on_of_nodup_map h.nodup hx hy hnumber

theorem kind?_eq (h : t.OutlinedBy o) (hx : x ∈ o.preorder) : t.kind? x.number = some x.kind := by
  obtain ⟨above, hentry⟩ := h.stored.entry hx
  rw [kind?, hentry]
  rfl

theorem children_eq (h : t.OutlinedBy o) (hx : x ∈ o.preorder) :
    t.children x.number = x.children.map number := by
  obtain ⟨above, hentry⟩ := h.stored.entry hx
  rw [Tree.children, hentry]
  rfl

theorem firstToken_eq (h : t.OutlinedBy o) (hx : x ∈ o.preorder) :
    t.firstToken x.number = x.first := by
  obtain ⟨above, hentry⟩ := h.stored.entry hx
  rw [firstToken, hentry]
  rfl

theorem endToken_eq (h : t.OutlinedBy o) (hx : x ∈ o.preorder) :
    t.endToken x.number = x.stop := by
  obtain ⟨above, hentry⟩ := h.stored.entry hx
  rw [endToken, hentry]
  rfl

theorem parent?_root (h : t.OutlinedBy o) : t.parent? o.number = none := by
  rw [parent?, (stored_iff.mp h.stored).1]
  rfl

theorem parent?_child (h : t.OutlinedBy o) (hx : x ∈ o.preorder) (hc : c ∈ x.children) :
    t.parent? c.number = some x.number := by
  rw [parent?, h.stored.entry_child hx hc]
  rfl

/-- A number with a parent is the number of a child. -/
theorem exists_child (h : t.OutlinedBy o) {id p : Nat} (hp : t.parent? id = some p) :
    ∃ x ∈ o.preorder, ∃ c ∈ x.children, x.number = p ∧ c.number = id := by
  have hid : id < t.size := by
    by_contra hge
    have hnone : t.nodes[id]? = none := Array.getElem?_eq_none (Nat.le_of_not_lt hge)
    rw [parent?, hnone] at hp
    cases hp
  obtain ⟨c, hc, rfl⟩ := h.exists_number hid
  by_cases hroot : c = o
  · rw [hroot, h.parent?_root] at hp
    cases hp
  · obtain ⟨x, hx, hcx⟩ := exists_parent hc hroot
    rw [h.parent?_child hx hcx] at hp
    exact ⟨x, hx, c, hcx, Option.some.inj hp, rfl⟩

/-! ### Downwards -/

/-- Meeting nodes from a stack lists the outlines on it. -/
theorem meet_eq (h : t.OutlinedBy o) (n : Nat) (stack : List Outline)
    (hstack : ∀ x ∈ stack, x ∈ o.preorder) :
    t.meet n (stack.map number) = ((preorderAll stack).map number).take n := by
  induction n generalizing stack with
  | zero => rw [meet, List.take_zero]
  | succ n ih =>
    rcases stack with - | ⟨x, rest⟩
    · rfl
    · -- the next stack has the children of the first node on top
      have hx : x ∈ o.preorder := hstack x List.mem_cons_self
      have hnext : ∀ y ∈ x.children ++ rest, y ∈ o.preorder := by
        intro y hy
        rcases List.mem_append.mp hy with hy | hy
        · exact child_mem_preorder hx hy
        · exact hstack y (List.mem_cons_of_mem _ hy)
      rw [List.map_cons, meet, h.children_eq hx, ← List.map_append, ih _ hnext,
        preorderAll_append, preorderAll_cons, preorder_eq x, List.cons_append, List.map_cons,
        List.take_succ_cons]

/-- **The descendants of a node** are the nodes of its outline. -/
theorem descendants_eq (h : t.OutlinedBy o) (hx : x ∈ o.preorder) :
    t.descendants x.number = x.preorder.map number := by
  have hmeet := h.meet_eq t.size [x] (by simpa using hx)
  rw [List.map_singleton, preorderAll_cons, preorderAll_nil, List.append_nil] at hmeet
  rw [descendants, hmeet, List.take_of_length_le]
  have hle := (preorder_contiguous hx).length_le
  rwa [List.length_map, ← h.length_preorder]

/-! ### Upwards -/

theorem mem_chain_iff (h : t.OutlinedBy o) (n : Nat) (hx : x ∈ o.preorder)
    (hn : t.size ≤ n + x.preorder.length) {above : Nat} :
    above ∈ chain t n (t.parent? x.number) ↔ t.Above above x.number := by
  induction n generalizing x with
  | zero =>
    -- an outline with all nodes is the whole one
    have hroot : x = o := by
      by_contra hne
      obtain ⟨y, hy, hxy⟩ := exists_parent hx hne
      have hlt := length_preorder_child hxy
      have hle := (preorder_contiguous hy).length_le
      have hlen := h.length_preorder
      omega
    rw [above_iff, hroot, h.parent?_root]
    simp [chain]
  | succ n ih =>
    rw [above_iff]
    by_cases hroot : x = o
    · rw [hroot, h.parent?_root]
      simp [chain]
    · -- the outline of the parent is larger, so fewer steps are enough from there
      obtain ⟨y, hy, hxy⟩ := exists_parent hx hroot
      have hlt := length_preorder_child hxy
      rw [h.parent?_child hy hxy, chain, List.mem_cons, ih hy (by omega)]
      simp

/-- **The ancestors of a node** are what lies above it. -/
theorem mem_ancestors_iff (h : t.OutlinedBy o) {above id : Nat} :
    above ∈ t.ancestors id ↔ t.Above above id := by
  by_cases hid : id < t.size
  · obtain ⟨x, hx, rfl⟩ := h.exists_number hid
    exact h.mem_chain_iff t.size hx (Nat.le_add_right _ _)
  · have hnone : t.parent? id = none := by
      rw [parent?, Array.getElem?_eq_none (Nat.le_of_not_lt hid)]
      rfl
    rw [ancestors, above_iff, hnone]
    cases t.size <;> simp [chain]

/-- The way up to the root is the same, however many more steps are left. -/
theorem chain_eq_chain (h : t.OutlinedBy o) (m n : Nat) (hx : x ∈ o.preorder)
    (hm : t.size ≤ m + x.preorder.length) (hn : t.size ≤ n + x.preorder.length) :
    t.chain m (t.parent? x.number) = t.chain n (t.parent? x.number) := by
  induction m generalizing n x with
  | zero =>
    -- an outline with all nodes is the whole one
    have hroot : x = o := by
      by_contra hne
      obtain ⟨y, hy, hxy⟩ := exists_parent hx hne
      have hlt := length_preorder_child hxy
      have hle := (preorder_contiguous hy).length_le
      have hlength := h.length_preorder
      omega
    rw [hroot, h.parent?_root]
    cases n <;> rfl
  | succ m ih =>
    by_cases hroot : x = o
    · rw [hroot, h.parent?_root]
      cases n <;> rfl
    · obtain ⟨y, hy, hxy⟩ := exists_parent hx hroot
      have hlt := length_preorder_child hxy
      have hle := (preorder_contiguous hy).length_le
      have hlength := h.length_preorder
      cases n with
      | zero => omega
      | succ n => rw [h.parent?_child hy hxy, chain, chain, ih n hy (by omega) (by omega)]

/-- **The ancestors of a node** are its parent and the ancestors of that. -/
theorem ancestors_eq_cons (h : t.OutlinedBy o) {id p : Nat} (hp : t.parent? id = some p) :
    t.ancestors id = p :: t.ancestors p := by
  obtain ⟨y, hy, x, hxy, rfl, rfl⟩ := h.exists_child hp
  have hlt := length_preorder_child hxy
  have hlength := h.length_preorder
  have hle := (preorder_contiguous hy).length_le
  rw [ancestors, hp]
  obtain ⟨k, hk⟩ : ∃ k, t.size = k + 1 := ⟨t.size - 1, by omega⟩
  rw [ancestors, hk, chain, h.chain_eq_chain k (k + 1) hy (by omega) (by omega)]

/-- What has a parent is listed by it. -/
theorem mem_children_of_parent? (h : t.OutlinedBy o) {id p : Nat} (hp : t.parent? id = some p) :
    id ∈ t.children p := by
  obtain ⟨x, hx, c, hc, rfl, rfl⟩ := h.exists_child hp
  rw [h.children_eq hx]
  exact List.mem_map_of_mem hc

/-- What an outline holds lies below its top. -/
theorem above_of_mem_preorder (h : t.OutlinedBy o) (hx : x ∈ o.preorder) (hy : y ∈ x.preorder) :
    y = x ∨ t.Above x.number y.number := by
  induction x with
  | node id kind first stop children ih =>
    rcases mem_preorder_iff.mp hy with rfl | ⟨c, hc, hyc⟩
    · exact .inl rfl
    · have hparent := h.parent?_child hx hc
      rcases ih c hc (child_mem_preorder hx hc) hyc with rfl | habove
      · exact .inr (.single hparent)
      · exact .inr (.head hparent habove)

/-- What lies below a node is held by its outline. -/
theorem mem_preorder_of_above (h : t.OutlinedBy o) (hx : x ∈ o.preorder) (hy : y ∈ o.preorder)
    (ha : t.Above x.number y.number) : y ∈ x.preorder := by
  generalize hnumber : y.number = id at ha
  induction ha generalizing y with
  | single hp =>
    obtain ⟨x', hx', c, hc, hparent, hchild⟩ := h.exists_child hp
    rw [← h.eq_of_number hx' hx hparent, ← h.eq_of_number (child_mem_preorder hx' hc) hy
      (hchild.trans hnumber.symm)]
    exact child_mem_preorder (self_mem_preorder x') hc
  | tail _ hp ih =>
    obtain ⟨z, hz, c, hc, hparent, hchild⟩ := h.exists_child hp
    rw [← h.eq_of_number (child_mem_preorder hz hc) hy (hchild.trans hnumber.symm)]
    exact child_mem_preorder (ih hz hparent) hc

/-- What lies above a node has fewer nodes above it. -/
theorem length_ancestors_lt (h : t.OutlinedBy o) {above id : Nat} (ha : t.Above above id) :
    (t.ancestors above).length < (t.ancestors id).length := by
  induction ha with
  | single hp => rw [h.ancestors_eq_cons hp, List.length_cons]; exact Nat.lt_succ_self _
  | tail _ hp ih => rw [h.ancestors_eq_cons hp, List.length_cons]; exact Nat.lt_succ_of_lt ih

/-- **No node lies above itself.** -/
theorem not_above_self (h : t.OutlinedBy o) (id : Nat) : ¬ t.Above id id := fun ha =>
  Nat.lt_irrefl _ (h.length_ancestors_lt ha)

end OutlinedBy

end Tree

/-! ### Visitors -/

namespace Visitor

open ModuleLint.Tree

variable {σ : Type} {t : Tree} {o x : Outline}

/-- Steps that each fold over one outline fold over all of them. -/
theorem foldl_preorderAll {step : σ → Nat → σ} {act : σ → Outline → σ} (os : List Outline)
    (hstep : ∀ c ∈ os, ∀ s, step s c.number = c.preorder.foldl act s) (s : σ) :
    (os.map number).foldl step s = (preorderAll os).foldl act s := by
  induction os generalizing s with
  | nil => rfl
  | cons c rest ih =>
    rw [List.map_cons, List.foldl_cons, preorderAll_cons, List.foldl_append,
      hstep c List.mem_cons_self]
    exact ih (fun d hd => hstep d (List.mem_cons_of_mem _ hd)) _

/-- A visitor that acts on each node before it goes on to its children folds its actions
over the nodes. -/
theorem visitNode_eq_foldl (v : Visitor σ) (act : NodeKind → Nat → σ → σ)
    (hact : ∀ kind id children s, v.hook kind id children s = children (act kind id s))
    (h : t.OutlinedBy o) (n : Nat) (hx : x ∈ o.preorder) (hn : x.preorder.length ≤ n) (s : σ) :
    v.visitNode t n x.number s = x.preorder.foldl (fun s y => act y.kind y.number s) s := by
  induction n generalizing x s with
  | zero =>
    rw [preorder_eq] at hn
    cases hn
  | succ n ih =>
    rw [visitNode, h.kind?_eq hx, h.children_eq hx, preorder_eq, List.foldl_cons]
    simp only [hact]
    refine foldl_preorderAll x.children (fun c hc s => ih (child_mem_preorder hx hc) ?_ s) _
    have := length_preorder_child hc
    omega

/-- **A visitor that acts and goes on** folds its actions over all nodes. -/
theorem visit_eq_foldl (v : Visitor σ) (act : NodeKind → Nat → σ → σ)
    (hact : ∀ kind id children s, v.hook kind id children s = children (act kind id s))
    (h : t.OutlinedBy o) (hroot : o.number = root) (s : σ) :
    v.visit t s = o.preorder.foldl (fun s y => act y.kind y.number s) s := by
  rw [visit, ← hroot]
  exact visitNode_eq_foldl v act hact h t.size (self_mem_preorder o)
    (Nat.le_of_eq h.length_preorder) s

end Visitor

end ModuleLint
