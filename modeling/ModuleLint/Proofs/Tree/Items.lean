/-
ModuleLint/Proofs/Tree/Items.lean

What a node of a tree is made of.  A node covers a range of tokens, and so does each
of its children; the tokens between the children are its own.  `Tree.items` lists both
in order, the tokens by their kind and the children by their number.

`Tree.Holds t item d` says that an item of the tree stands for a derivation, node for
node: the kinds agree, and the items of the node stand one by one for the items that
were read.  Main result: a tree holds every derivation whose outline it has
(`OutlinedBy.holds`).
-/
import Mathlib.Data.List.Forall2
import ModuleLint.Proofs.Tree.Layout
import ModuleLint.Proofs.Tree.Queries

namespace ModuleLint

open Outline

namespace Derivation

/-- The derivation behind an outline is a node, and the outline shows its parts. -/
theorem outline_eq_singleton {d : Derivation} {fresh first : Nat} {x : Outline}
    (h : outline d fresh first = [x]) :
    ∃ lead items, d = .node x.kind lead items ∧ x.first = first ∧
      x.stop = first + (tokens d).length ∧
      x.children = outlineAll lead fresh first ++
        outlineAll items (x.number + 1) (first + (tokensAll lead).length) := by
  cases d with
  | token kind => cases h
  | node kind lead items =>
    obtain rfl := (List.cons.inj h).1
    refine ⟨lead, items, rfl, rfl, ?_, rfl⟩
    rw [tokens, List.length_append, ← Nat.add_assoc]
    rfl

/-- Each outline of some derivations comes from one of them, which begins where those
before it end. -/
theorem mem_outlineAll {ds : List Derivation} {fresh first : Nat} {x : Outline}
    (h : x ∈ outlineAll ds fresh first) :
    ∃ before d behind fresh', ds = before ++ d :: behind ∧
      outline d fresh' (first + (tokensAll before).length) = [x] := by
  induction ds generalizing fresh first with
  | nil => cases h
  | cons d rest ih =>
    rcases List.mem_append.mp h with h | h
    · refine ⟨[], d, rest, fresh, rfl, ?_⟩
      cases d with
      | token kind => cases h
      | node kind lead items => rw [List.mem_singleton.mp h]; rfl
    · obtain ⟨before, e, behind, fresh', rfl, he⟩ := ih h
      refine ⟨d :: before, e, behind, fresh', rfl, ?_⟩
      rw [tokensAll_cons, List.length_append, ← Nat.add_assoc]
      exact he

/-- The outlines of derivations lie between the first token and the last one. -/
theorem range_outlineAll {ds : List Derivation} {fresh first : Nat} {x : Outline}
    (h : x ∈ outlineAll ds fresh first) :
    first ≤ x.first ∧ x.stop ≤ first + (tokensAll ds).length := by
  obtain ⟨before, d, behind, fresh', rfl, hd⟩ := mem_outlineAll h
  obtain ⟨lead, items, -, hfirst, hstop, -⟩ := outline_eq_singleton hd
  rw [hfirst, hstop, tokensAll_append, tokensAll_cons, List.length_append, List.length_append]
  omega

/-- Outlines that follow each other do not overlap. -/
theorem pairwise_outlineAll (ds : List Derivation) (fresh first : Nat) :
    (outlineAll ds fresh first).Pairwise fun x y => x.stop ≤ y.first := by
  induction ds generalizing fresh first with
  | nil => exact List.Pairwise.nil
  | cons d rest ih =>
    rw [outlineAll]
    refine List.pairwise_append.mpr ⟨?_, ih _ _, fun x hx y hy => ?_⟩
    · cases d with
      | token kind => exact List.Pairwise.nil
      | node kind lead items => exact List.pairwise_singleton _ _
    · have hle := (range_outlineAll hy).1
      have hx' : x ∈ outlineAll [d] fresh first := by
        rw [outlineAll, List.mem_append]
        exact .inl hx
      have hstop := (range_outlineAll hx').2
      rw [tokensAll_cons, tokensAll_nil, List.append_nil] at hstop
      omega

/-- **The children of a node** lie inside it, in order and without overlaps. -/
theorem ranges_children {d : Derivation} {fresh first : Nat} {x : Outline}
    (h : outline d fresh first = [x]) :
    (∀ c ∈ x.children, x.first ≤ c.first ∧ c.stop ≤ x.stop) ∧
      x.children.Pairwise fun a b => a.stop ≤ b.first := by
  obtain ⟨lead, items, rfl, hfirst, hstop, hchildren⟩ := outline_eq_singleton h
  rw [tokens, List.length_append] at hstop
  rw [hchildren]
  refine ⟨fun c hc => ?_, List.pairwise_append.mpr
    ⟨pairwise_outlineAll lead _ _, pairwise_outlineAll items _ _, fun a ha b hb => ?_⟩⟩
  · rcases List.mem_append.mp hc with hc | hc
    · have := range_outlineAll hc
      omega
    · have := range_outlineAll hc
      omega
  · exact Nat.le_trans (range_outlineAll ha).2 (range_outlineAll hb).1

end Derivation

/-- An item of a node: a token of its own, or a child. -/
inductive Item where
  | token (kind : TokenKind)
  | child (id : Nat)
  deriving DecidableEq, Repr

/-- The child, if the item is one. -/
def Item.child? : Item → Option Nat
  | .token _ => none
  | .child id => some id

namespace Tree

/-- The kinds of the tokens in a range. -/
def kindsOver (t : Tree) (first stop : Nat) : List TokenKind :=
  (t.lexed.kinds.drop first).take (stop - first)

/-- What lies in a range of tokens with the given children in it. -/
def itemsOver (t : Tree) (stop : Nat) : Nat → List Nat → List Item
  | first, [] => (t.kindsOver first stop).map .token
  | first, id :: rest =>
    (t.kindsOver first (t.firstToken id)).map .token ++
      .child id :: itemsOver t stop (t.endToken id) rest

/-- **The items of a node**: its children, and between them its own tokens. -/
def items (t : Tree) (id : Nat) : List Item :=
  t.itemsOver (t.endToken id) (t.firstToken id) (t.children id)

/-- **An item of a tree stands for a derivation**, node for node. -/
inductive Holds (t : Tree) : Item → Derivation → Prop
  | token (kind : TokenKind) : Holds t (.token kind) (.token kind)
  | node {id : Nat} {kind : NodeKind} {lead items : List Derivation}
      (hkind : t.kind? id = some kind)
      (hitems : List.Forall₂ (Holds t) (t.items id) (lead ++ items)) :
      Holds t (.child id) (.node kind lead items)

variable {t : Tree}

/-! ### Scanning a range -/

/-- What follows a part of a list begins where the part ends. -/
theorem prefix_drop_append {front behind all : List TokenKind} {first : Nat}
    (h : front ++ behind <+: all.drop first) : behind <+: all.drop (first + front.length) := by
  obtain ⟨more, hmore⟩ := h
  refine ⟨more, ?_⟩
  rw [← List.drop_drop, ← hmore, List.append_assoc, List.drop_left]

/-- Where the next child begins, or the range ends. -/
def nextChild (t : Tree) (stop : Nat) : List Nat → Nat
  | [] => stop
  | id :: _ => t.firstToken id

theorem kindsOver_self (t : Tree) (first : Nat) : t.kindsOver first first = [] := by
  rw [kindsOver, Nat.sub_self, List.take_zero]

theorem kindsOver_of_lt {first stop : Nat} {kind : TokenKind} {more : List TokenKind}
    (hlt : first < stop) (hkind : t.lexed.kinds.drop first = kind :: more) :
    t.kindsOver first stop = kind :: t.kindsOver (first + 1) stop := by
  have hmore : t.lexed.kinds.drop (first + 1) = more := by
    rw [← List.drop_drop, hkind]
    rfl
  rw [kindsOver, kindsOver, hkind, hmore, show stop - first = stop - (first + 1) + 1 by omega,
    List.take_succ_cons]

/-- A token before the next child is an item. -/
theorem itemsOver_token (stop : Nat) {first : Nat} {ids : List Nat} {kind : TokenKind}
    {more : List TokenKind} (hlt : first < t.nextChild stop ids)
    (hkind : t.lexed.kinds.drop first = kind :: more) :
    t.itemsOver stop first ids = .token kind :: t.itemsOver stop (first + 1) ids := by
  cases ids with
  | nil =>
    have hlt : first < stop := hlt
    rw [itemsOver, kindsOver_of_lt hlt hkind, List.map_cons, itemsOver]
  | cons id rest =>
    have hlt : first < t.firstToken id := hlt
    rw [itemsOver, kindsOver_of_lt hlt hkind, List.map_cons, itemsOver]
    rfl

/-- A child that begins here is an item. -/
theorem itemsOver_child (t : Tree) (stop id : Nat) (rest : List Nat) :
    t.itemsOver stop (t.firstToken id) (id :: rest) =
      .child id :: t.itemsOver stop (t.endToken id) rest := by
  rw [itemsOver, kindsOver_self]
  rfl

/-- The children among the items of a range are those that it was scanned with. -/
theorem filterMap_itemsOver (t : Tree) (stop first : Nat) (ids : List Nat) :
    (t.itemsOver stop first ids).filterMap Item.child? = ids := by
  have htokens : ∀ kinds : List TokenKind,
      (kinds.map Item.token).filterMap Item.child? = [] := by
    intro kinds
    induction kinds with
    | nil => rfl
    | cons kind rest ih => exact ih
  induction ids generalizing first with
  | nil => rw [itemsOver, htokens]
  | cons id rest ih =>
    rw [itemsOver, List.filterMap_append, htokens, List.nil_append]
    exact congrArg (id :: ·) (ih _)

/-- The children of a node are among its items. -/
theorem children_eq_filterMap (t : Tree) (id : Nat) :
    t.children id = (t.items id).filterMap Item.child? := by
  rw [items, filterMap_itemsOver]

/-- What stands for a node is a child. -/
theorem Holds.exists_child {item : Item} {kind : NodeKind} {lead items : List Derivation}
    (h : t.Holds item (.node kind lead items)) :
    ∃ id, item = .child id ∧ t.kind? id = some kind ∧
      List.Forall₂ t.Holds (t.items id) (lead ++ items) := by
  cases h with
  | node hkind hitems => exact ⟨_, rfl, hkind, hitems⟩

namespace OutlinedBy

open ModuleLint.Derivation

variable {o : Outline}

/-- Nothing is skipped before the outlines of derivations that begin here. -/
theorem le_nextChild (h : t.OutlinedBy o) {ds : List Derivation} {fresh first : Nat}
    (stop : Nat) (ids : List Nat) (hin : ∀ x ∈ outlineAll ds fresh first, x ∈ o.preorder)
    (hids : first + (tokensAll ds).length ≤ t.nextChild stop ids) :
    first ≤ t.nextChild stop ((outlineAll ds fresh first).map number ++ ids) := by
  rcases hall : outlineAll ds fresh first with - | ⟨x, rest⟩
  · exact Nat.le_trans (Nat.le_add_right _ _) hids
  · have hx : x ∈ outlineAll ds fresh first := by
      rw [hall]
      exact List.mem_cons_self
    change first ≤ t.firstToken x.number
    rw [h.firstToken_eq (hin x hx)]
    exact (range_outlineAll hx).1

/-- Scanning over derivations finds an item for each, if each node among them is held. -/
theorem itemsOver_outlineAll (h : t.OutlinedBy o) (ds : List Derivation) (stop : Nat)
    (ids : List Nat) {fresh first : Nat}
    (hds : ∀ d ∈ ds, ∀ fresh first x, outline d fresh first = [x] → x ∈ o.preorder →
      tokens d <+: t.lexed.kinds.drop first → t.Holds (.child x.number) d)
    (hin : ∀ x ∈ outlineAll ds fresh first, x ∈ o.preorder)
    (htokens : tokensAll ds <+: t.lexed.kinds.drop first)
    (hids : first + (tokensAll ds).length ≤ t.nextChild stop ids) :
    ∃ found, List.Forall₂ t.Holds found ds ∧
      t.itemsOver stop first ((outlineAll ds fresh first).map number ++ ids) =
        found ++ t.itemsOver stop (first + (tokensAll ds).length) ids := by
  induction ds generalizing fresh first with
  | nil => exact ⟨[], .nil, rfl⟩
  | cons d rest ih =>
    rw [tokensAll_cons, List.length_append, ← Nat.add_assoc] at hids
    rw [tokensAll_cons] at htokens
    have hrest := prefix_drop_append htokens
    rw [outlineAll] at hin
    have hin' : ∀ x ∈ outlineAll rest (fresh + (preorderAll (outline d fresh first)).length)
        (first + (tokens d).length), x ∈ o.preorder := fun x hx =>
      hin x (List.mem_append_right _ hx)
    obtain ⟨found, hfound, hscan⟩ :=
      ih (fun e he => hds e (List.mem_cons_of_mem _ he)) hin' hrest hids
    rw [outlineAll, List.map_append, List.append_assoc, tokensAll_cons, List.length_append,
      ← Nat.add_assoc]
    cases d with
    | token kind =>
      -- the token lies before the next child, wherever that is
      refine ⟨.token kind :: found, .cons (.token kind) hfound, ?_⟩
      have hlt := h.le_nextChild stop ids hin' hids
      obtain ⟨behind, hbehind⟩ := htokens
      have hscan' := itemsOver_token stop hlt hbehind.symm
      exact hscan'.trans (congrArg _ hscan)
    | node kind lead items =>
      obtain ⟨x, hx⟩ : ∃ x, outline (.node kind lead items) fresh first = [x] := ⟨_, rfl⟩
      obtain ⟨-, -, -, hfirst, hstop, -⟩ := outline_eq_singleton hx
      have hmem : x ∈ o.preorder := hin x (List.mem_append_left _ (by simp [hx]))
      have hheld := hds _ List.mem_cons_self fresh first x hx hmem
        ((List.prefix_append _ _).trans htokens)
      refine ⟨.child x.number :: found, .cons hheld hfound, ?_⟩
      -- the child begins here, and scanning goes on where it ends
      rw [hx] at hscan ⊢
      have hchild := t.itemsOver_child stop x.number
        ((outlineAll rest (fresh + (preorderAll [x]).length)
          (first + (tokens (.node kind lead items)).length)).map number ++ ids)
      rw [h.firstToken_eq hmem, h.endToken_eq hmem, hfirst, hstop, hscan] at hchild
      exact hchild

/-- **A tree holds the derivation of each of its outlines.** -/
theorem holds (h : t.OutlinedBy o) (d : Derivation) {fresh first : Nat} {x : Outline}
    (hx : outline d fresh first = [x]) (hmem : x ∈ o.preorder)
    (htokens : tokens d <+: t.lexed.kinds.drop first) : t.Holds (.child x.number) d := by
  induction d generalizing fresh first x with
  | token kind => cases hx
  | node kind lead items ihlead ihitems =>
    obtain ⟨lead', items', heq, hfirst, hstop, hchildren⟩ := outline_eq_singleton hx
    injection heq with hkind hlead hitems
    subst hlead hitems
    refine .node (by rw [h.kind?_eq hmem, hkind]) ?_
    have hbelow : ∀ c ∈ x.children, c ∈ o.preorder := fun c hc => child_mem_preorder hmem hc
    rw [hchildren] at hbelow
    rw [tokens] at htokens hstop
    rw [List.length_append, ← Nat.add_assoc] at hstop
    have hend : first + (tokensAll lead).length + (tokensAll items).length ≤ x.stop :=
      Nat.le_of_eq hstop.symm
    -- first what follows the lead, then the lead in front of it
    obtain ⟨found, hfound, hscan⟩ := h.itemsOver_outlineAll items x.stop []
      (fun d hd _ _ _ => ihitems d hd) (fun c hc => hbelow c (List.mem_append_right _ hc))
      (prefix_drop_append htokens) hend
    obtain ⟨found', hfound', hscan'⟩ := h.itemsOver_outlineAll lead x.stop
      ((outlineAll items (x.number + 1) (first + (tokensAll lead).length)).map number)
      (fun d hd _ _ _ => ihlead d hd) (fun c hc => hbelow c (List.mem_append_left _ hc))
      ((List.prefix_append _ _).trans htokens) (by
        have := h.le_nextChild x.stop []
          (fun c hc => hbelow c (List.mem_append_right _ hc)) hend
        rwa [List.append_nil] at this)
    rw [List.append_nil, ← hstop, itemsOver, kindsOver_self, List.map_nil, List.append_nil] at hscan
    rw [Tree.items, h.endToken_eq hmem, h.firstToken_eq hmem, h.children_eq hmem, hchildren,
      List.map_append, hfirst, hscan', hscan]
    exact List.rel_append hfound' hfound

end OutlinedBy

end Tree

end ModuleLint
