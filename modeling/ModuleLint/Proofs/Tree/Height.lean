/-
ModuleLint/Proofs/Tree/Height.lean

How many nodes lie above each other.  A *link* is a node that is put around what was read
before it: an operator with two operands, or one of the steps from a primary on, to a
member, an item or a result.  Links follow each other without end, since no level of nesting
is opened for them; so they are left out where nodes are counted, and `Outline.height` is the
largest number of other nodes on a way downwards.

Main result: `OutlinedBy.countP_ancestors_le`.  Of the ancestors of a node no more than the
height of the outline are no links.
-/
import ModuleLint.Proofs.Tree.Items

namespace ModuleLint

namespace NodeKind

/-- **A link**: a node that is put around what was read before it, and may in turn be what
was read before another one. -/
def isLink : NodeKind → Bool
  | .binaryExpression | .memberAccess | .indexAccess | .callExpression => true
  | _ => false

/-- What a node counts for. -/
def weight (kind : NodeKind) : Nat := if kind.isLink then 0 else 1

theorem weight_le_one (kind : NodeKind) : kind.weight ≤ 1 := by
  unfold weight
  split <;> decide

end NodeKind

/-! ### Heights of outlines -/

namespace Outline

mutual

/-- **The largest number of nodes on a way downwards**, links not counted. -/
def height : Outline → Nat
  | .node _ kind _ _ children => kind.weight + heightAll children

/-- The largest of the heights of outlines. -/
def heightAll : List Outline → Nat
  | [] => 0
  | o :: rest => max (height o) (heightAll rest)

end

@[simp] theorem heightAll_append (os os' : List Outline) :
    heightAll (os ++ os') = max (heightAll os) (heightAll os') := by
  induction os with
  | nil => exact (Nat.zero_max _).symm
  | cons o rest ih => rw [List.cons_append, heightAll, heightAll, ih, Nat.max_assoc]

theorem height_le_heightAll {o : Outline} {os : List Outline} (ho : o ∈ os) :
    o.height ≤ heightAll os := by
  induction os with
  | nil => cases ho
  | cons a rest ih =>
    rw [heightAll]
    rcases List.mem_cons.mp ho with rfl | ho
    · exact Nat.le_max_left _ _
    · exact Nat.le_trans (ih ho) (Nat.le_max_right _ _)

/-- A node counts on top of each of its children. -/
theorem height_child {x c : Outline} (hc : c ∈ x.children) :
    x.kind.weight + c.height ≤ x.height := by
  obtain ⟨id, kind, first, stop, children⟩ := x
  have hle := height_le_heightAll hc
  rw [height]
  exact Nat.add_le_add_left hle _

/-- What lies below is no higher. -/
theorem height_le_of_mem_preorder {x o : Outline} (hx : x ∈ o.preorder) : x.height ≤ o.height := by
  induction o with
  | node id kind first stop children ih =>
    rcases mem_preorder_iff.mp hx with rfl | ⟨c, hc, hxc⟩
    · exact Nat.le_refl _
    · have hle := ih c hc hxc
      have hchild := height_child hc
      omega

end Outline

/-! ### Heights of derivations -/

namespace Derivation

open Outline

mutual

/-- The height of what comes of a derivation. -/
def height : Derivation → Nat
  | .token _ => 0
  | .node kind lead items => kind.weight + max (heightAll lead) (heightAll items)

/-- The height of what comes of derivations. -/
def heightAll : List Derivation → Nat
  | [] => 0
  | d :: rest => max (height d) (heightAll rest)

end

@[simp] theorem heightAll_append (ds ds' : List Derivation) :
    heightAll (ds ++ ds') = max (heightAll ds) (heightAll ds') := by
  induction ds with
  | nil => exact (Nat.zero_max _).symm
  | cons d rest ih => rw [List.cons_append, heightAll, heightAll, ih, Nat.max_assoc]

theorem heightAll_singleton (d : Derivation) : heightAll [d] = d.height := by
  rw [heightAll, heightAll, Nat.max_zero]

theorem heightAll_le_iff {ds : List Derivation} {n : Nat} :
    heightAll ds ≤ n ↔ ∀ d ∈ ds, d.height ≤ n := by
  induction ds with
  | nil => simp [heightAll]
  | cons d rest ih => rw [heightAll, Nat.max_le, ih, List.forall_mem_cons]

/-- The outlines of derivations are as high as they are, if this holds of each. -/
theorem heightAll_outlineAll_of (ds : List Derivation)
    (h : ∀ d ∈ ds, ∀ fresh first, Outline.heightAll (outline d fresh first) = height d)
    (fresh first : Nat) : Outline.heightAll (outlineAll ds fresh first) = heightAll ds := by
  induction ds generalizing fresh first with
  | nil => rfl
  | cons d rest ih =>
    rw [outlineAll, Outline.heightAll_append, h d List.mem_cons_self,
      ih fun e he => h e (List.mem_cons_of_mem _ he)]
    rfl

/-- **The outline of a derivation is as high as the derivation.** -/
theorem heightAll_outline (d : Derivation) (fresh first : Nat) :
    Outline.heightAll (outline d fresh first) = height d := by
  induction d generalizing fresh first with
  | token kind => rfl
  | node kind lead items ihlead ihitems =>
    rw [outline, Outline.heightAll, Outline.heightAll, Nat.max_zero, Outline.height,
      Outline.heightAll_append, heightAll_outlineAll_of lead ihlead,
      heightAll_outlineAll_of items ihitems, height]

end Derivation

/-! ### Ancestors -/

namespace Tree

open Outline

/-- Whether a node of a tree is a link. -/
def isLink (t : Tree) (id : Nat) : Bool := (t.kind? id).any NodeKind.isLink

namespace OutlinedBy

variable {t : Tree} {o x : Outline}

theorem isLink_eq (h : t.OutlinedBy o) (hx : x ∈ o.preorder) :
    t.isLink x.number = x.kind.isLink := by
  rw [isLink, h.kind?_eq hx]
  rfl

/-- On the way from a node up to the root, the nodes that are no links and the height of the
node are no more than the height of the whole. -/
theorem countP_chain_le (h : t.OutlinedBy o) (n : Nat) (hx : x ∈ o.preorder) :
    (t.chain n (t.parent? x.number)).countP (fun id => !t.isLink id) + x.height ≤ o.height := by
  induction n generalizing x with
  | zero =>
    rw [chain, List.countP_nil, Nat.zero_add]
    exact height_le_of_mem_preorder hx
  | succ n ih =>
    by_cases hroot : x = o
    · rw [hroot, h.parent?_root]
      simp [chain]
    · -- the parent counts for itself, and is at least so much higher
      obtain ⟨y, hy, hxy⟩ := exists_parent hx hroot
      have hstep := height_child hxy
      have hrest := ih hy
      rw [h.parent?_child hy hxy, chain, List.countP_cons, h.isLink_eq hy]
      have hweight : (if (!y.kind.isLink) = true then 1 else 0) = y.kind.weight := by
        rw [NodeKind.weight]
        cases y.kind.isLink <;> rfl
      omega

/-- **Of the ancestors of a node** no more than the height of the outline are no links. -/
theorem countP_ancestors_le (h : t.OutlinedBy o) {id : Nat} (hid : id < t.size) :
    (t.ancestors id).countP (fun id => !t.isLink id) ≤ o.height := by
  obtain ⟨x, hx, rfl⟩ := h.exists_number hid
  have hle := h.countP_chain_le t.size hx
  rw [ancestors]
  omega

end OutlinedBy

end Tree

end ModuleLint
