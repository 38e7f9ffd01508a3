/-
ModuleLint/Proofs/Tree/Skeleton.lean

The skeleton of a node: its kind, and the skeletons of its children.  A skeleton says
nothing about numbers, tokens and places, so nodes of different trees can be compared by it.

A tree that stands for a derivation has the skeleton of the derivation
(`Tree.Holds.shaped`), in which the tokens are left out.
-/
import ModuleLint.Proofs.Tree.Items

namespace ModuleLint

/-- **The kind of a node and the skeletons of its children.** -/
inductive Skeleton where
  | node (kind : NodeKind) (children : List Skeleton)
  deriving Repr, Inhabited

namespace Derivation

mutual

/-- The skeleton of a derivation, of which there is one for a node and none for a token. -/
def skeletons : Derivation → List Skeleton
  | .token _ => []
  | .node kind lead items => [.node kind (skeletonsAll lead ++ skeletonsAll items)]

/-- The skeletons of derivations that follow each other. -/
def skeletonsAll : List Derivation → List Skeleton
  | [] => []
  | d :: rest => skeletons d ++ skeletonsAll rest

end

@[simp] theorem skeletonsAll_nil : skeletonsAll [] = [] := rfl

@[simp] theorem skeletonsAll_cons (d : Derivation) (rest : List Derivation) :
    skeletonsAll (d :: rest) = skeletons d ++ skeletonsAll rest := rfl

@[simp] theorem skeletons_token (kind : TokenKind) : skeletons (.token kind) = [] := rfl

@[simp] theorem skeletons_node (kind : NodeKind) (lead items : List Derivation) :
    skeletons (.node kind lead items) = [.node kind (skeletonsAll lead ++ skeletonsAll items)] :=
  rfl

@[simp] theorem skeletonsAll_append (ds es : List Derivation) :
    skeletonsAll (ds ++ es) = skeletonsAll ds ++ skeletonsAll es := by
  induction ds with
  | nil => rfl
  | cons d rest ih => simp [ih]

end Derivation

namespace Tree

open ModuleLint.Derivation

/-- **A node has a skeleton**: the kinds agree, and so do the children one by one. -/
inductive Shaped (t : Tree) : Nat → Skeleton → Prop
  | node {id : Nat} {kind : NodeKind} {children : List Skeleton} (hkind : t.kind? id = some kind)
      (hchildren : List.Forall₂ (Shaped t) (t.children id) children) :
      Shaped t id (.node kind children)

variable {t : Tree} {id : Nat}

/-- The kind and the children of a node with a skeleton. -/
theorem shaped_iff {kind : NodeKind} {children : List Skeleton} :
    t.Shaped id (.node kind children) ↔
      t.kind? id = some kind ∧ List.Forall₂ t.Shaped (t.children id) children := by
  constructor
  · rintro (⟨hkind, hchildren⟩)
    exact ⟨hkind, hchildren⟩
  · rintro ⟨hkind, hchildren⟩
    exact .node hkind hchildren

/-- Items that stand for derivations have their skeletons, as far as they are children. -/
theorem forall₂_shaped {found : List Item} {ds : List Derivation}
    (h : List.Forall₂ t.Holds found ds)
    (hds : ∀ d ∈ ds, ∀ item, t.Holds item d →
      List.Forall₂ t.Shaped ([item].filterMap Item.child?) (skeletons d)) :
    List.Forall₂ t.Shaped (found.filterMap Item.child?) (skeletonsAll ds) := by
  induction h with
  | nil => exact .nil
  | @cons item d found ds hitem _ ih =>
    have hrest := ih fun e he => hds e (List.mem_cons_of_mem _ he)
    rw [show item :: found = [item] ++ found from rfl, List.filterMap_append]
    exact List.rel_append (hds d List.mem_cons_self item hitem) hrest

/-- **An item that stands for a derivation has its skeleton**, if it is a child. -/
theorem Holds.skeletons {item : Item} {d : Derivation} (h : t.Holds item d) :
    List.Forall₂ t.Shaped ([item].filterMap Item.child?) d.skeletons := by
  induction d generalizing item with
  | token kind =>
    cases h
    exact .nil
  | node kind lead items ihlead ihitems =>
    obtain ⟨id, rfl, hkind, hitems⟩ := h.exists_child
    refine .cons (.node hkind ?_) .nil
    rw [children_eq_filterMap, ← skeletonsAll_append]
    refine forall₂_shaped hitems fun d hd item hitem => ?_
    rcases List.mem_append.mp hd with hd | hd
    · exact ihlead d hd hitem
    · exact ihitems d hd hitem

/-- **A node that stands for a derivation has its skeleton.** -/
theorem Holds.shaped {kind : NodeKind} {lead items : List Derivation}
    (h : t.Holds (.child id) (.node kind lead items)) :
    t.Shaped id (.node kind (skeletonsAll (lead ++ items))) := by
  have hall := h.skeletons
  rw [skeletons_node, ← skeletonsAll_append] at hall
  cases hall with
  | cons hnode _ => exact hnode

end Tree

end ModuleLint
