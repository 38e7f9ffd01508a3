/-
ModuleLint/Proofs/Tree/Duality.lean

Going up and going down a tree.  `Tree.ancestors` follows the parents of a node, and
`Tree.descendants` follows the children with a stack; nothing ties the two together but
what the array of nodes holds.  `Tree.Dual` says that they agree: what is met on the way
up from a node is what has that node below it, and the way down is the preorder of the
subtree, written as the recursion that the stack replaces (`Tree.PreorderOf`).

Main result: `parse_dual`, for every source that parses.  Both ways are told by the
outline of the tree.  Going down lists it (`OutlinedBy.descendants_eq`), so the subtree of
a node stands in one piece in the list of all nodes; and each step up leads to the top of
an outline that holds the present one.
-/
import ModuleLint.Proofs.Tree.WellFormed

namespace ModuleLint

open Outline

namespace Tree

/-- **The preorder of a subtree**: the node at its top, and then the preorders of the
subtrees of its children, one after the other. -/
inductive PreorderOf (t : Tree) : Nat → List Nat → Prop
  | node {id : Nat} {below : List (List Nat)}
      (h : List.Forall₂ (PreorderOf t) (t.children id) below) :
      PreorderOf t id (id :: below.flatten)

/-- **Ancestors and descendants are two views of one tree.** -/
structure Dual (t : Tree) : Prop where
  /-- A node is met on the way up from another one that lies below it. -/
  mem_ancestors_iff : ∀ a < t.size, ∀ d < t.size,
    a ∈ t.ancestors d ↔ d ∈ t.descendants a ∧ d ≠ a
  /-- All that lies above a node is met on the way up, and nothing else. -/
  ancestors_above : ∀ a, ∀ d < t.size, a ∈ t.ancestors d ↔ t.Above a d
  /-- Nothing is met twice. -/
  ancestors_nodup : ∀ d < t.size, (t.ancestors d).Nodup
  /-- Each step of the way leads to the parent. -/
  ancestors_chain : ∀ d < t.size,
    (d :: t.ancestors d).IsChain fun inner outer => t.parent? inner = some outer
  /-- The way ends at the root. -/
  ancestors_end : ∀ d < t.size, (d :: t.ancestors d).getLast? = some root
  /-- The way down is the preorder of the subtree. -/
  descendants_preorder : ∀ a < t.size, t.PreorderOf a (t.descendants a)
  /-- It is not cut short: with more steps to go nothing more is met. -/
  descendants_complete : ∀ a < t.size, ∀ n, t.size ≤ n → t.meet n [a] = t.descendants a
  /-- It stands in one piece on the way down from the root. -/
  descendants_contiguous : ∀ a < t.size, t.descendants a <:+: t.descendants root

namespace OutlinedBy

variable {t : Tree} {o x : Outline} {a d : Nat}

/-! ### The way up -/

theorem ancestors_root (h : t.OutlinedBy o) : t.ancestors o.number = [] := by
  rw [ancestors, h.parent?_root]
  cases t.size <;> rfl

theorem nodup_ancestors (h : t.OutlinedBy o) (d : Nat) : (t.ancestors d).Nodup := by
  refine (t.pairwise_ancestors d).imp ?_
  intro inner outer habove heq
  rw [heq] at habove
  exact h.not_above_self outer habove

/-- The way up is a chain of parents. -/
theorem isChain_ancestors (h : t.OutlinedBy o) (d : Nat) :
    (d :: t.ancestors d).IsChain fun inner outer => t.parent? inner = some outer := by
  -- by induction on the ancestors, because the node below them changes with each step
  generalize hlist : t.ancestors d = list
  induction list generalizing d with
  | nil => exact List.isChain_singleton d
  | cons p rest ih =>
    rcases hparent : t.parent? d with - | q
    · have hnil : t.ancestors d = [] := by
        rw [ancestors, hparent]
        cases t.size <;> rfl
      rw [hnil] at hlist
      cases hlist
    · rw [h.ancestors_eq_cons hparent] at hlist
      injection hlist with hq hrest
      subst hq
      exact List.isChain_cons_cons.mpr ⟨hparent, ih q hrest⟩

/-- **The way up ends at the root.** -/
theorem getLast?_ancestors (h : t.OutlinedBy o) (hd : d < t.size) :
    (d :: t.ancestors d).getLast? = some o.number := by
  generalize hlist : t.ancestors d = list
  induction list generalizing d with
  | nil =>
    have hnone : t.parent? d = none := by
      rcases hparent : t.parent? d with - | p
      · rfl
      · rw [h.ancestors_eq_cons hparent] at hlist
        cases hlist
    rw [(h.parent?_eq_none_iff hd).mp hnone]
    rfl
  | cons p rest ih =>
    have hchain := h.isChain_ancestors d
    rw [hlist] at hchain
    have hparent := (List.isChain_cons_cons.mp hchain).1
    rw [h.ancestors_eq_cons hparent] at hlist
    injection hlist with _ hrest
    have hp : p < t.size := by
      obtain ⟨y, hy, _, _, rfl, _⟩ := h.exists_child hparent
      exact h.number_lt hy
    rw [List.getLast?_cons_cons]
    exact ih hp hrest

/-! ### The way down -/

/-- **What is met on the way down** is the node and what lies below it. -/
theorem mem_descendants_iff (h : t.OutlinedBy o) (ha : a < t.size) :
    d ∈ t.descendants a ↔ d = a ∨ t.Above a d := by
  obtain ⟨x, hx, rfl⟩ := h.exists_number ha
  rw [h.descendants_eq hx]
  constructor
  · intro hd
    obtain ⟨y, hy, rfl⟩ := List.mem_map.mp hd
    exact (h.above_of_mem_preorder hx hy).imp_left (congrArg number)
  · rintro (rfl | habove)
    · exact List.mem_map_of_mem (self_mem_preorder x)
    · obtain ⟨p, hparent, -⟩ := above_iff.mp habove
      obtain ⟨z, hz, y, hy, -, rfl⟩ := h.exists_child hparent
      exact List.mem_map_of_mem (h.mem_preorder_of_above hx (child_mem_preorder hz hy) habove)

/-- The preorder of an outline is that of its top. -/
theorem preorderOf (h : t.OutlinedBy o) (hx : x ∈ o.preorder) :
    t.PreorderOf x.number (x.preorder.map number) := by
  induction x using Outline.children_induct with
  | step x ih =>
    have hbelow : List.Forall₂ t.PreorderOf (t.children x.number)
        (x.children.map fun c => c.preorder.map number) := by
      rw [h.children_eq hx, List.forall₂_map_left_iff, List.forall₂_map_right_iff,
        List.forall₂_same]
      intro c hc
      exact ih c hc (child_mem_preorder hx hc)
    have hall : (preorderAll x.children).map number =
        (x.children.map fun c => c.preorder.map number).flatten := by
      rw [preorderAll_eq_flatMap, List.map_flatMap, List.flatMap_def]
    rw [preorder_eq, List.map_cons, hall]
    exact .node hbelow

theorem meet_eq_descendants (h : t.OutlinedBy o) (ha : a < t.size) {n : Nat} (hn : t.size ≤ n) :
    t.meet n [a] = t.descendants a := by
  obtain ⟨x, hx, rfl⟩ := h.exists_number ha
  have hmeet := h.meet_eq n [x] (by simpa using hx)
  have hle := (preorder_contiguous hx).length_le
  rw [h.length_preorder] at hle
  rw [List.map_singleton, preorderAll_cons, preorderAll_nil, List.append_nil,
    List.take_of_length_le (by rw [List.length_map]; omega)] at hmeet
  rw [hmeet, h.descendants_eq hx]

theorem descendants_infix (h : t.OutlinedBy o) (ha : a < t.size) :
    t.descendants a <:+: t.descendants o.number := by
  obtain ⟨x, hx, rfl⟩ := h.exists_number ha
  rw [h.descendants_eq hx, h.descendants_eq (self_mem_preorder o)]
  exact (preorder_contiguous hx).map number

/-! ### Both ways -/

/-- **A tree with an outline** is the same tree upwards and downwards. -/
theorem dual (h : t.OutlinedBy o) (hroot : o.number = root) : t.Dual where
  mem_ancestors_iff a ha d _ := by
    rw [h.mem_ancestors_iff, h.mem_descendants_iff ha]
    constructor
    · intro habove
      refine ⟨.inr habove, ?_⟩
      rintro rfl
      exact h.not_above_self d habove
    · rintro ⟨rfl | habove, hne⟩
      · exact absurd rfl hne
      · exact habove
  ancestors_above a d _ := h.mem_ancestors_iff
  ancestors_nodup d _ := h.nodup_ancestors d
  ancestors_chain d _ := h.isChain_ancestors d
  ancestors_end d hd := by
    rw [← hroot]
    exact h.getLast?_ancestors hd
  descendants_preorder a ha := by
    obtain ⟨x, hx, rfl⟩ := h.exists_number ha
    rw [h.descendants_eq hx]
    exact h.preorderOf hx
  descendants_complete a ha n hn := h.meet_eq_descendants ha hn
  descendants_contiguous a ha := by
    rw [← hroot]
    exact h.descendants_infix ha

end OutlinedBy

end Tree

/-- **Ancestors and descendants agree** in every tree that parsing returns. -/
theorem parse_dual {source : List Char} {t : Tree} (h : parse source = .ok t) : t.Dual := by
  obtain ⟨content, hcontent⟩ := parse_derived h
  exact hcontent.outlined.dual rfl

/-- An operator and a member, each of them wrapped around what was read before. -/
def wrappedTwice : List Char := "a = b.c + New Mail(-d);".toList

/-- What was wrapped later lies above, and comes first on the way down. -/
theorem parse_wrappedTwice : ∃ t, parse wrappedTwice = .ok t ∧ t.Dual ∧
    t.ancestors 4 = [5, 7, 3, 1, 0] ∧ t.descendants 7 = [7, 5, 4, 6, 8, 9, 10, 11, 12] := by
  have hrun : (parse wrappedTwice).toOption.map (fun t => (t.ancestors 4, t.descendants 7)) =
      some ([5, 7, 3, 1, 0], [7, 5, 4, 6, 8, 9, 10, 11, 12]) := by decide +kernel
  obtain ⟨t, ht, hways⟩ := exists_parse_of_map hrun
  injection hways with hup hdown
  exact ⟨t, ht, parse_dual ht, hup, hdown⟩

end ModuleLint
