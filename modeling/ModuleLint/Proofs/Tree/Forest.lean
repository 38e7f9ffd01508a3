/-
ModuleLint/Proofs/Tree/Forest.lean

Whatever calls are made on a forest under construction, it is a forest.  Nodes may be opened
and closed in any order, and a checkpoint may be used long after it was taken, for a node that
is closed by then or that lies elsewhere: as long as it names a node that is there and has
enough children, the new node only slips in between that node and some of its children.

Two views of parents and children carry the proof.  They are `Linked` if they say the same and
some rank grows from each parent to its children, so that there is no cycle; slipping a node in
keeps that (`Linked.slip`), and every call that makes a node below another one does just that.

Main result: `run_forest`, after every call and once the forest is finished.
-/
import Mathlib.Data.List.Perm.Subperm
import ModuleLint.Proofs.Tree.Layout
import ModuleLint.Proofs.Tree.Queries

namespace ModuleLint

/-! ### Forests -/

namespace Tree

/-- **The way up from a node**: its parent, the parent of that, and so on to a node that has
none. -/
inductive Climbs (t : Tree) : Nat → List Nat → Prop
  | root {id : Nat} (h : t.parent? id = none) : Climbs t id []
  | up {id p : Nat} {more : List Nat} (h : t.parent? id = some p) (hmore : Climbs t p more) :
      Climbs t id (p :: more)

/-- **The nodes of a tree form a forest.** -/
structure Forest (t : Tree) : Prop where
  /-- A node with a parent is listed once, by its parent, and by no other node. -/
  listed_once : ∀ id p, t.parent? id = some p →
    (t.children p).count id = 1 ∧ ∀ q, q ≠ p → id ∉ t.children q
  /-- A node without a parent is listed by no node. -/
  unlisted : ∀ id, t.parent? id = none → ∀ q, id ∉ t.children q
  /-- No node lies above itself. -/
  acyclic : ∀ id, ¬ t.Above id id
  /-- The ancestors of a node are the whole way up from it, which has fewer steps than there
  are nodes. -/
  climbs : ∀ id < t.size, t.Climbs id (t.ancestors id) ∧ (t.ancestors id).length < t.size

end Tree

/-! ### Parents and children -/

/-- **Parents and children say the same**, and there is no way back to a node. -/
structure Linked (parent : Nat → Option Nat) (children : Nat → List Nat) : Prop where
  mem_iff : ∀ c p, c ∈ children p ↔ parent c = some p
  nodup : ∀ p, (children p).Nodup
  ranked : ∃ rank : Nat → Nat, ∀ c p, parent c = some p → rank p < rank c

namespace Linked

variable {parent : Nat → Option Nat} {children : Nat → List Nat} {id p k : Nat}

/-- A node without a parent and without children may be left as it is. -/
theorem empty : Linked (fun _ => none) (fun _ => []) where
  mem_iff := by simp
  nodup := by simp
  ranked := ⟨fun _ => 0, by simp⟩

/-- A node without a parent is listed by none. -/
theorem notMem_children (h : Linked parent children) (hparent : parent id = none) (q : Nat) :
    id ∉ children q := by
  rw [h.mem_iff, hparent]
  exact nofun

/-- A node without children is the parent of none. -/
theorem parent_ne (h : Linked parent children) (hchildren : children id = []) (c : Nat) :
    parent c ≠ some id := by
  rw [Ne, ← h.mem_iff, hchildren]
  exact List.not_mem_nil

/-- **A new node slips in** between a node and the children that it has after the first `k`. -/
theorem slip (h : Linked parent children) (hparent : parent id = none)
    (hchildren : children id = []) (hne : p ≠ id) :
    Linked
      (fun c => if c = id then some p else if c ∈ (children p).drop k then some id else parent c)
      (fun q => if q = id then (children p).drop k
        else if q = p then (children p).take k ++ [id] else children q) where
  mem_iff := by
    have hfresh := h.notMem_children hparent
    intro c q
    by_cases hc : c = id
    · -- the new node is listed by `p` alone
      by_cases hq : q = id
      · simpa [hc, hq, hne] using fun hmem => hfresh p (List.mem_of_mem_drop hmem)
      · by_cases hqp : q = p
        · simp [hc, hqp, hne]
        · simp [hc, hq, hqp, hfresh, Ne.symm hqp]
    · by_cases hdrop : c ∈ (children p).drop k
      · -- a child that it takes over is listed by it alone
        have hown := (h.mem_iff c p).mp (List.mem_of_mem_drop hdrop)
        have htake : c ∉ (children p).take k := fun htake =>
          List.disjoint_take_drop (h.nodup p) (Nat.le_refl k) htake hdrop
        by_cases hq : q = id
        · simp [hc, hq, hdrop]
        · by_cases hqp : q = p
          · simp [hc, hqp, hne, hdrop, htake, Ne.symm hne]
          · simp [hc, hq, hqp, hdrop, h.mem_iff, hown, Ne.symm hq, Ne.symm hqp]
      · -- all others are listed as before
        have htake : c ∈ (children p).take k ↔ c ∈ children p := by
          rw [← List.take_append_drop k (children p), List.mem_append, or_iff_left hdrop,
            List.take_append_drop]
        by_cases hq : q = id
        · simp [hc, hq, hdrop, h.parent_ne hchildren c]
        · by_cases hqp : q = p
          · simp [hc, hqp, hne, hdrop, htake, h.mem_iff]
          · simp [hc, hq, hqp, hdrop, h.mem_iff]
  nodup := by
    intro q
    have hp := h.nodup p
    by_cases hq : q = id
    · simp only [hq, if_true]
      exact hp.sublist (List.drop_sublist _ _)
    · by_cases hqp : q = p
      · simp only [hqp, if_false, if_true, hne]
        refine (hp.sublist (List.take_sublist _ _)).append (List.nodup_singleton id) ?_
        rw [List.disjoint_singleton]
        exact fun hmem => h.notMem_children hparent p (List.mem_of_mem_take hmem)
      · simp only [hq, hqp, if_false]
        exact h.nodup q
  ranked := by
    obtain ⟨rank, hrank⟩ := h.ranked
    -- old ranks are doubled, so that there is room for the new node
    refine ⟨fun c => if c = id then 2 * rank p + 1 else 2 * rank c, fun c q hcq => ?_⟩
    by_cases hc : c = id
    · simp only [hc, if_true, Option.some.injEq] at hcq ⊢
      subst hcq
      simp [hne]
    · by_cases hdrop : c ∈ (children p).drop k
      · simp only [hc, hdrop, if_false, if_true, Option.some.injEq] at hcq ⊢
        subst hcq
        have := hrank c p ((h.mem_iff c p).mp (List.mem_of_mem_drop hdrop))
        simp only [if_true]
        omega
      · simp only [hc, hdrop, if_false] at hcq ⊢
        have hq : q ≠ id := fun hq => h.parent_ne hchildren c (hq ▸ hcq)
        have := hrank c q hcq
        simp only [hq, if_false]
        omega

/-- A new node may be added apart from all others. -/
theorem apart (h : Linked parent children) (hparent : parent id = none) :
    Linked (fun c => if c = id then none else parent c) children where
  mem_iff := by
    intro c p
    by_cases hc : c = id
    · rw [h.mem_iff, hc, hparent]
      simp
    · rw [h.mem_iff, if_neg hc]
  nodup := h.nodup
  ranked := by
    obtain ⟨rank, hrank⟩ := h.ranked
    refine ⟨rank, fun c p hcp => ?_⟩
    split at hcp
    · cases hcp
    · exact hrank c p hcp

end Linked

/-! ### The way up -/

namespace Tree

variable {t : Tree} {id : Nat}

/-- The chain of parents is the way up, as far as it goes. -/
theorem climbs_chain (t : Tree) (n id : Nat) :
    t.Climbs id (t.chain n (t.parent? id)) ∨ (t.chain n (t.parent? id)).length = n := by
  induction n generalizing id with
  | zero => exact .inr rfl
  | succ n ih =>
    cases hp : t.parent? id with
    | none => exact .inl (.root hp)
    | some p =>
      rw [chain, List.length_cons]
      exact (ih p).imp (.up hp) (congrArg (· + 1))

/-- Ranks fall along the chain of parents. -/
theorem rank_lt_of_mem_chain {rank : Nat → Nat}
    (hrank : ∀ c p, t.parent? c = some p → rank p < rank c) (n id : Nat) :
    (t.chain n (t.parent? id)).Pairwise (fun a b => rank b < rank a) ∧
      ∀ a ∈ t.chain n (t.parent? id), rank a < rank id := by
  induction n generalizing id with
  | zero => exact ⟨.nil, fun a ha => absurd ha List.not_mem_nil⟩
  | succ n ih =>
    cases hp : t.parent? id with
    | none => exact ⟨.nil, fun a ha => absurd ha List.not_mem_nil⟩
    | some p =>
      obtain ⟨hpairwise, hbelow⟩ := ih p
      have hlt := hrank id p hp
      refine ⟨.cons hbelow hpairwise, fun a ha => ?_⟩
      rcases List.mem_cons.mp ha with rfl | ha
      · exact hlt
      · exact Nat.lt_trans (hbelow a ha) hlt

/-- What stands in a chain of parents is a parent. -/
theorem exists_parent?_of_mem_chain {n a : Nat} (h : a ∈ t.chain n (t.parent? id)) :
    ∃ c, t.parent? c = some a := by
  induction n generalizing id with
  | zero => cases h
  | succ n ih =>
    cases hp : t.parent? id with
    | none =>
      rw [hp] at h
      cases h
    | some p =>
      rw [hp, chain] at h
      rcases List.mem_cons.mp h with rfl | h
      · exact ⟨id, hp⟩
      · exact ih h

/-- What has a child is a node. -/
theorem lt_size_of_mem_children {p c : Nat} (h : c ∈ t.children p) : p < t.size := by
  by_contra hge
  rw [children, Array.getElem?_eq_none (Nat.le_of_not_lt hge)] at h
  cases h

/-- **Where parents and children say the same, the nodes form a forest.** -/
theorem forest_of_linked (h : Linked t.parent? t.children) : t.Forest where
  listed_once := by
    intro id p hp
    refine ⟨List.count_eq_one_of_mem (h.nodup p) ((h.mem_iff id p).mpr hp), fun q hq hmem => ?_⟩
    rw [h.mem_iff, hp] at hmem
    exact hq (Option.some.inj hmem).symm
  unlisted := by
    intro id hnone q hmem
    rw [h.mem_iff, hnone] at hmem
    cases hmem
  acyclic := by
    obtain ⟨rank, hrank⟩ := h.ranked
    have hlt : ∀ {a b}, t.Above a b → rank a < rank b := by
      intro a b hab
      induction hab with
      | single hp => exact hrank _ _ hp
      | tail _ hp ih => exact Nat.lt_trans ih (hrank _ _ hp)
    exact fun id hself => Nat.lt_irrefl _ (hlt hself)
  climbs := by
    intro id hid
    obtain ⟨rank, hrank⟩ := h.ranked
    obtain ⟨hpairwise, hbelow⟩ := rank_lt_of_mem_chain hrank t.size id
    -- the node and its ancestors are distinct nodes, so there are no more of them than nodes
    have hnodup : (id :: t.ancestors id).Nodup :=
      (List.Pairwise.cons hbelow hpairwise).imp fun hlt heq => by
        rw [heq] at hlt
        exact Nat.lt_irrefl _ hlt
    have hnodes : id :: t.ancestors id ⊆ List.range t.size := by
      intro a ha
      rcases List.mem_cons.mp ha with rfl | ha
      · exact List.mem_range.mpr hid
      · obtain ⟨c, hc⟩ := exists_parent?_of_mem_chain ha
        exact List.mem_range.mpr (lt_size_of_mem_children ((h.mem_iff c a).mpr hc))
    have hlength := (hnodup.subperm hnodes).length_le
    rw [List.length_cons, List.length_range] at hlength
    refine ⟨(climbs_chain t t.size id).resolve_right fun heq => ?_, hlength⟩
    rw [ancestors, heq] at hlength
    exact Nat.lt_irrefl _ hlength

end Tree

/-! ### Calls -/

namespace Builder

variable {b : Builder} {mark : Checkpoint} {kind : NodeKind} {id p : Nat}

/-- The parent of a node so far. -/
def parentOf (b : Builder) (id : Nat) : Option Nat := (b.nodes[id]?).bind Node.parent

/-- The children of a node so far. -/
def childrenOf (b : Builder) (id : Nat) : List Nat := ((b.nodes[id]?).map Node.children).getD []

theorem parentOf_of_le (h : b.nodes.size ≤ id) : b.parentOf id = none := by
  rw [parentOf, Array.getElem?_eq_none h]
  rfl

theorem childrenOf_of_le (h : b.nodes.size ≤ id) : b.childrenOf id = [] := by
  rw [childrenOf, Array.getElem?_eq_none h]
  rfl

/-- **A forest under construction is sound**: parents and children say the same, and what is
open is there. -/
structure Sound (b : Builder) : Prop where
  linked : Linked b.parentOf b.childrenOf
  opened : ∀ id ∈ b.opened, id < b.nodes.size

theorem sound_empty : empty.Sound where
  linked := Linked.empty
  opened := by simp [empty]

/-- Closing a node changes no parent and no child. -/
theorem getElem?_finish (b : Builder) (i : Nat) :
    ∃ stop : Node → Nat, b.finish.nodes[i]? =
      (b.nodes[i]?).map fun n => { n with endToken := stop n } := by
  cases hopen : b.opened with
  | nil =>
    refine ⟨Node.endToken, ?_⟩
    rw [finish, hopen]
    simp
  | cons id rest =>
    rw [finish, hopen]
    simp only [Array.getElem?_modify]
    split
    · exact ⟨fun _ => b.tokens, rfl⟩
    · exact ⟨Node.endToken, by simp⟩

theorem parentOf_finish (b : Builder) : b.finish.parentOf = b.parentOf := by
  funext i
  obtain ⟨stop, hstop⟩ := b.getElem?_finish i
  rw [parentOf, parentOf, hstop, Option.bind_map]
  rfl

theorem childrenOf_finish (b : Builder) : b.finish.childrenOf = b.childrenOf := by
  funext i
  obtain ⟨stop, hstop⟩ := b.getElem?_finish i
  rw [childrenOf, childrenOf, hstop, Option.map_map]
  rfl

theorem opened_finish (b : Builder) : b.finish.opened = b.opened.tail := by
  cases hopen : b.opened <;> simp [finish, hopen]

theorem size_finish (b : Builder) : b.finish.nodes.size = b.nodes.size := by
  cases hopen : b.opened <;> simp [finish, hopen]

theorem Sound.finish (h : b.Sound) : b.finish.Sound where
  linked := by
    rw [parentOf_finish, childrenOf_finish]
    exact h.linked
  opened := by
    intro id hid
    rw [size_finish]
    rw [opened_finish] at hid
    exact h.opened id (List.mem_of_mem_tail hid)

/-- A checkpoint can be used if its node is there and has that many children. -/
def Holds (b : Builder) (mark : Checkpoint) : Prop :=
  mark.parent < b.nodes.size ∧ mark.childCount ≤ (b.childrenOf mark.parent).length

instance (b : Builder) (mark : Checkpoint) : Decidable (b.Holds mark) :=
  inferInstanceAs (Decidable (_ ∧ _))

/-- Only nodes that are there are listed. -/
theorem Sound.lt_of_mem (h : b.Sound) {c : Nat} (hc : c ∈ b.childrenOf p) : c < b.nodes.size := by
  by_contra hge
  rw [h.linked.mem_iff, parentOf_of_le (Nat.le_of_not_lt hge)] at hc
  cases hc

/-- A node opened at a checkpoint, entry by entry. -/
theorem getElem?_startAt (hp : mark.parent < b.nodes.size)
    (hfresh : b.nodes.size ∉ b.childrenOf mark.parent) (kind : NodeKind) (i : Nat) :
    (b.startAt mark kind).nodes[i]? =
      if i = b.nodes.size then
        some ⟨kind, some mark.parent, (b.childrenOf mark.parent).drop mark.childCount,
          mark.tokens, mark.tokens⟩
      else (b.nodes[i]?).map fun n =>
        { n with
          parent := if i ∈ (b.childrenOf mark.parent).drop mark.childCount then some b.nodes.size
            else n.parent
          children := if i = mark.parent then
              (b.childrenOf mark.parent).take mark.childCount ++ [b.nodes.size]
            else n.children } := by
  have hdrop : b.nodes.size ∉ (b.childrenOf mark.parent).drop mark.childCount := fun hmem =>
    hfresh (List.mem_of_mem_drop hmem)
  have hnodes : (b.startAt mark kind).nodes =
      (reparent (b.nodes.push ⟨kind, some mark.parent,
          (b.childrenOf mark.parent).drop mark.childCount, mark.tokens, mark.tokens⟩)
        ((b.childrenOf mark.parent).drop mark.childCount) b.nodes.size).modify mark.parent
        fun n => { n with
          children := (b.childrenOf mark.parent).take mark.childCount ++ [b.nodes.size] } := rfl
  rw [hnodes, Array.getElem?_modify, getElem?_reparent, Array.getElem?_push]
  by_cases hi : i = b.nodes.size
  · simp [hi, Nat.ne_of_lt hp, hdrop]
  · rw [if_neg hi, if_neg hi]
    by_cases hip : i = mark.parent
    · rw [if_pos hip.symm, Option.map_map]
      congr 1
      funext n
      by_cases hmem : i ∈ (b.childrenOf mark.parent).drop mark.childCount
      · simp [hip, hip ▸ hmem]
      · simp [hip, hip ▸ hmem]
    · rw [if_neg (Ne.symm hip)]
      congr 1
      funext n
      by_cases hmem : i ∈ (b.childrenOf mark.parent).drop mark.childCount
      · simp [hip, hmem]
      · simp [hip, hmem]

/-- **A node opened at a checkpoint** slips in below the node of that checkpoint. -/
theorem Sound.startAt (h : b.Sound) (hmark : b.Holds mark) (kind : NodeKind) :
    (b.startAt mark kind).Sound := by
  have hp := hmark.1
  have hfresh : b.nodes.size ∉ b.childrenOf mark.parent := fun hmem =>
    Nat.lt_irrefl _ (h.lt_of_mem hmem)
  have hnode := getElem?_startAt hp hfresh kind
  have hparent : ∀ c, (b.startAt mark kind).parentOf c = if c = b.nodes.size then some mark.parent
      else if c ∈ (b.childrenOf mark.parent).drop mark.childCount then some b.nodes.size
      else b.parentOf c := by
    intro c
    rw [parentOf, hnode]
    by_cases hc : c = b.nodes.size
    · simp [hc]
    · by_cases hdrop : c ∈ (b.childrenOf mark.parent).drop mark.childCount
      · -- what is adopted is there
        have hlt := h.lt_of_mem (List.mem_of_mem_drop hdrop)
        simp [hc, hdrop, hlt]
      · cases hfound : b.nodes[c]? <;> simp [hc, hdrop, parentOf, hfound]
  have hchildren : ∀ q, (b.startAt mark kind).childrenOf q = if q = b.nodes.size
      then (b.childrenOf mark.parent).drop mark.childCount
      else if q = mark.parent then (b.childrenOf mark.parent).take mark.childCount ++ [b.nodes.size]
      else b.childrenOf q := by
    intro q
    rw [childrenOf, hnode]
    by_cases hq : q = b.nodes.size
    · simp [hq]
    · by_cases hqp : q = mark.parent
      · simp [hqp, Nat.ne_of_lt hp, hp]
      · cases hfound : b.nodes[q]? <;> simp [hq, hqp, childrenOf, hfound]
  constructor
  case linked =>
    rw [funext hparent, funext hchildren]
    exact h.linked.slip (parentOf_of_le (Nat.le_refl _)) (childrenOf_of_le (Nat.le_refl _))
      (Nat.ne_of_lt hp)
  case opened =>
    intro id hid
    have hsize : (b.startAt mark kind).nodes.size = b.nodes.size + 1 := by
      simp [Builder.startAt, size_reparent]
    rw [hsize]
    rcases List.mem_cons.mp hid with rfl | hid
    · exact Nat.lt_succ_self _
    · exact Nat.lt_succ_of_lt (h.opened id hid)

/-- A checkpoint that is taken while a node is open can be used at once. -/
theorem Sound.holds_checkpoint (h : b.Sound) (hopen : b.opened ≠ []) : b.Holds b.checkpoint := by
  obtain ⟨p, rest, hcons⟩ := List.exists_cons_of_ne_nil hopen
  have hp : p < b.nodes.size := h.opened p (by rw [hcons]; exact List.mem_cons_self)
  simp [Holds, checkpoint, childrenOf, hcons, hp]

/-- A node opened while none is open stands apart from all others. -/
theorem Sound.start_apart (h : b.Sound) (hopen : b.opened = []) (kind : NodeKind) :
    (b.start kind).Sound := by
  have hnode : ∀ i, (b.start kind).nodes[i]? =
      if i = b.nodes.size then some ⟨kind, none, [], b.tokens, b.tokens⟩ else b.nodes[i]? := by
    intro i
    simp [start, hopen, Array.getElem?_push]
  have hparent : ∀ c, (b.start kind).parentOf c =
      if c = b.nodes.size then none else b.parentOf c := by
    intro c
    rw [parentOf, hnode]
    split <;> rfl
  have hchildren : ∀ q, (b.start kind).childrenOf q = b.childrenOf q := by
    intro q
    rw [childrenOf, hnode]
    split
    · rename_i hq
      rw [hq, childrenOf_of_le (Nat.le_refl _)]
      rfl
    · rfl
  constructor
  case linked =>
    rw [funext hparent, funext hchildren]
    exact h.linked.apart (parentOf_of_le (Nat.le_refl _))
  case opened =>
    intro id hid
    simp only [start, hopen, List.mem_singleton, Array.size_push] at hid ⊢
    omega

theorem Sound.start (h : b.Sound) (kind : NodeKind) : (b.start kind).Sound := by
  by_cases hopen : b.opened = []
  · exact h.start_apart hopen kind
  · -- a node opened below another one is opened at the present moment
    have hready : b.Ready := fun p hp => h.opened p (List.mem_of_mem_head? hp)
    rw [← startAt_checkpoint hready hopen]
    exact h.startAt (h.holds_checkpoint hopen) kind

/-- Closing all that is open keeps a forest sound. -/
theorem Sound.finishAll (h : b.Sound) : b.finishAll.Sound := by
  have hall : ∀ (open_ : List Nat) (b : Builder), b.Sound →
      (open_.foldl (fun b _ => b.finish) b).Sound := by
    intro open_
    induction open_ with
    | nil => exact fun b hb => hb
    | cons id rest ih => exact fun b hb => ih b.finish hb.finish
  exact hall b.opened b h

/-- **A call on a forest under construction.**  A node may be opened at any checkpoint, be it
the last one that was taken or one that was kept for long. -/
inductive Call where
  | start (kind : NodeKind)
  | finish
  | token
  | checkpoint
  | startAt (mark : Checkpoint) (kind : NodeKind)
  deriving DecidableEq, Repr

/-- The forest after a call.  Taking a checkpoint leaves it as it is. -/
def apply (b : Builder) : Call → Builder
  | .start kind => b.start kind
  | .finish => b.finish
  | .token => b.token
  | .checkpoint => b
  | .startAt mark kind => b.startAt mark kind

/-- **The forest after some calls**, from the first one on. -/
def run (calls : List Call) : Builder := calls.foldl apply empty

/-- What a call asks for: the checkpoint that a node is opened at can be used. -/
def Permits (b : Builder) : Call → Prop
  | .startAt mark _ => b.Holds mark
  | _ => True

instance (b : Builder) : DecidablePred b.Permits := fun call =>
  match call with
  | .start _ | .finish | .token | .checkpoint => isTrue trivial
  | .startAt mark _ => inferInstanceAs (Decidable (b.Holds mark))

/-- **Calls can be made one after the other.** -/
def PermitsAll : Builder → List Call → Prop
  | _, [] => True
  | b, call :: rest => b.Permits call ∧ PermitsAll (b.apply call) rest

instance decidablePermitsAll : (b : Builder) → (calls : List Call) → Decidable (b.PermitsAll calls)
  | _, [] => isTrue trivial
  | b, call :: rest =>
    have := decidablePermitsAll (b.apply call) rest
    inferInstanceAs (Decidable (b.Permits call ∧ PermitsAll (b.apply call) rest))

/-- Every call keeps a forest sound. -/
theorem Sound.apply (h : b.Sound) {call : Call} (hcall : b.Permits call) :
    (b.apply call).Sound := by
  cases call with
  | start kind => exact h.start kind
  | finish => exact h.finish
  | token => exact ⟨h.linked, h.opened⟩
  | checkpoint => exact h
  | startAt mark kind => exact h.startAt hcall kind

theorem Sound.foldl_apply (h : b.Sound) {calls : List Call} (hcalls : b.PermitsAll calls) :
    (calls.foldl Builder.apply b).Sound := by
  induction calls generalizing b with
  | nil => exact h
  | cons call rest ih => exact ih (h.apply hcalls.1) hcalls.2

theorem PermitsAll.of_append {calls more : List Call} (h : b.PermitsAll (calls ++ more)) :
    b.PermitsAll calls := by
  induction calls generalizing b with
  | nil => trivial
  | cons call rest ih => exact ⟨h.1, ih h.2⟩

/-- **Whatever calls are made, there is a forest**: after each of them, and once all that is
still open is closed. -/
theorem run_forest {calls : List Call} (h : empty.PermitsAll calls) {made : List Call}
    (hmade : made <+: calls) (source : List Char) (lexed : Lexed) :
    (Tree.mk source lexed (run made).nodes).Forest ∧ ((run made).toTree source lexed).Forest := by
  obtain ⟨more, rfl⟩ := hmade
  have hsound : (run made).Sound := sound_empty.foldl_apply h.of_append
  exact ⟨Tree.forest_of_linked hsound.linked, Tree.forest_of_linked hsound.finishAll.linked⟩

/-- A checkpoint that is taken once and used three times: around a node that is still open,
around what was put around it, and for a node that is closed. -/
def staleCalls : List Call :=
  [.start .module, .checkpoint, .start .codeBlock, .token, .start .identifier,
    .startAt ⟨0, 0, 0⟩ .ifStatement, .finish, .finish, .startAt ⟨0, 0, 0⟩ .ifBranch, .finish,
    .finish, .finish, .startAt ⟨0, 0, 0⟩ .tryStatement]

theorem run_forest_staleCalls : (run [.start .module, .checkpoint]).checkpoint = ⟨0, 0, 0⟩ ∧
    empty.PermitsAll staleCalls ∧ staleCalls <+: staleCalls ∧
    (Tree.mk [] ⟨#[], #[]⟩ (run staleCalls).nodes).Forest ∧
    ((run staleCalls).toTree [] ⟨#[], #[]⟩).Forest := by
  have hcalls : empty.PermitsAll staleCalls := by decide
  exact ⟨by decide, hcalls, List.prefix_refl _, run_forest hcalls (List.prefix_refl _) _ _⟩

end Builder

end ModuleLint
