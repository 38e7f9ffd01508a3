/-
ModuleLint/Proofs/Tree/Spans.lean

Nodes as ranges of tokens.  The tokens of a node are those from its first one up to its
end, and its span reaches over their bytes (`Derived.exists_span`).  Ranges are nested and
siblings follow each other, so on the way down from the root they begin later and later;
and behind a node that begins with a token of its own they begin strictly later
(`Derived.pairwise_firstToken`).
-/
import ModuleLint.Proofs.Lexical.Places
import ModuleLint.Proofs.Tree.WellFormed

namespace ModuleLint

open Outline

namespace Tree

variable {t : Tree} {id : Nat}

/-! ### The tokens of a node -/

/-- The tokens in a range. -/
def tokensOver (t : Tree) (first stop : Nat) : List Token :=
  (t.lexed.tokens.toList.drop first).take (stop - first)

/-- The tokens that a node covers are those between its first and its last one. -/
theorem tokensOf_eq (t : Tree) (id : Nat) :
    t.tokensOf id = t.tokensOver (t.firstToken id) (t.endToken id) := by
  rw [tokensOf, firstToken, endToken]
  rcases t.nodes[id]? with - | node
  · rfl
  · exact Array.toList_extract

/-- A range falls into two at any token in it. -/
theorem tokensOver_append (t : Tree) {first middle stop : Nat} (hfirst : first ≤ middle)
    (hstop : middle ≤ stop) :
    t.tokensOver first middle ++ t.tokensOver middle stop = t.tokensOver first stop := by
  have hdrop : t.lexed.tokens.toList.drop middle =
      (t.lexed.tokens.toList.drop first).drop (middle - first) := by
    rw [List.drop_drop, Nat.add_sub_cancel' hfirst]
  have hlength : stop - first = (middle - first) + (stop - middle) := by omega
  rw [tokensOver, tokensOver, tokensOver, hdrop, hlength, List.take_add]

/-- The tokens of a source are those before a range, in it and behind it. -/
theorem tokens_split (t : Tree) {first stop : Nat} (h : first ≤ stop) :
    t.lexed.tokens.toList = t.lexed.tokens.toList.take first ++
      (t.tokensOver first stop ++ t.lexed.tokens.toList.drop stop) := by
  have hdrop : t.lexed.tokens.toList.drop stop =
      (t.lexed.tokens.toList.drop first).drop (stop - first) := by
    rw [List.drop_drop, Nat.add_sub_cancel' h]
  rw [hdrop, tokensOver, List.take_append_drop, List.take_append_drop]

theorem head?_tokensOver (t : Tree) {first stop : Nat} (h : first < stop) :
    (t.tokensOver first stop).head? = t.lexed.tokens[first]? := by
  rw [tokensOver, List.head?_take, if_neg (by omega), List.head?_drop, Array.getElem?_toList]

theorem getLast?_tokensOver {first stop : Nat} {z : Token} (h : first < stop)
    (hz : t.lexed.tokens[stop - 1]? = some z) : (t.tokensOver first stop).getLast? = some z := by
  have hlast : first + (stop - first - 1) = stop - 1 := by omega
  rw [tokensOver, List.getLast?_take, if_neg (by omega), List.getElem?_drop, hlast,
    Array.getElem?_toList, hz]
  rfl

/-! ### Spans -/

/-- The span of a node is the one over its range. -/
theorem span_eq_spanOver (hid : id < t.size) :
    t.span id = t.spanOver (t.firstToken id) (t.endToken id) := by
  have hnode : t.nodes[id]? = some t.nodes[id] := Array.getElem?_eq_getElem hid
  unfold span firstToken endToken
  rw [hnode]
  rfl

namespace Derived

variable {source : List Char} {content : List Derivation}

/-- **The span of a node that covers tokens** reaches from the first of them to the last. -/
theorem exists_span (h : t.Derived source content) (hid : id < t.size)
    (hcovers : t.firstToken id < t.endToken id) :
    ∃ a z, t.lexed.tokens[t.firstToken id]? = some a ∧
      t.lexed.tokens[t.endToken id - 1]? = some z ∧
      t.span id =
        ⟨a.position.offset, z.stop - a.position.offset, a.position.line, a.position.column⟩ := by
  have hend := h.endToken_le hid
  have ha := Array.getElem?_eq_getElem (show t.firstToken id < t.lexed.tokens.size by omega)
  have hz := Array.getElem?_eq_getElem (show t.endToken id - 1 < t.lexed.tokens.size by omega)
  refine ⟨_, _, ha, hz, ?_⟩
  rw [span_eq_spanOver hid, spanOver, ha, hz]
  exact if_pos hcovers

end Derived

/-! ### Where nodes begin -/

/-- **A node begins with a token of its own**, before all that lies below it. -/
def Leads (t : Tree) (id : Nat) : Prop :=
  t.firstToken id < t.endToken id ∧ ∀ c ∈ t.children id, t.firstToken id < t.firstToken c

end Tree

namespace Derivation

/-- Each child of a node is the outline of one of its items, and begins where the items
before that end. -/
theorem exists_item {d : Derivation} {fresh first : Nat} {x c : Outline}
    (h : outline d fresh first = [x]) (hc : c ∈ x.children) :
    ∃ lead items before e behind fresh', d = .node x.kind lead items ∧
      lead ++ items = before ++ e :: behind ∧
      outline e fresh' (first + (tokensAll before).length) = [c] := by
  obtain ⟨lead, items, heq, -, -, hchildren⟩ := outline_eq_singleton h
  rw [hchildren] at hc
  rcases List.mem_append.mp hc with hc | hc
  · obtain ⟨before, e, behind, fresh', rfl, he⟩ := mem_outlineAll hc
    exact ⟨_, items, before, e, behind ++ items, fresh', heq, by simp, he⟩
  · obtain ⟨before, e, behind, fresh', rfl, he⟩ := mem_outlineAll hc
    refine ⟨lead, _, lead ++ before, e, behind, fresh', heq, by simp, ?_⟩
    rwa [tokensAll_append, List.length_append, ← Nat.add_assoc]

/-- What comes below a node whose first item is a token begins behind that. -/
theorem first_lt_of_token {d : Derivation} {fresh first : Nat} {x c : Outline}
    (h : outline d fresh first = [x]) {kind : TokenKind}
    (htoken : ∀ lead items, d = .node x.kind lead items →
      (lead ++ items).head? = some (.token kind)) (hc : c ∈ x.children) :
    first < c.first := by
  obtain ⟨lead, items, before, e, behind, fresh', heq, hsplit, he⟩ := exists_item h hc
  have hhead := htoken lead items heq
  obtain ⟨-, -, -, hfirst, -⟩ := outline_eq_singleton he
  rw [hsplit] at hhead
  rw [hfirst]
  cases before with
  | nil =>
    -- the token has no outline
    obtain rfl := Option.some.inj hhead
    cases he
  | cons b before =>
    obtain rfl := Option.some.inj hhead
    rw [tokensAll_cons, List.length_append]
    show first < first + (1 + _)
    omega

end Derivation

namespace Tree.Derived

variable {t : Tree} {source : List Char} {content : List Derivation} {id : Nat}

/-- **A `New` expression begins with its own word.** -/
theorem leads_newExpression (h : t.Derived source content)
    (hkind : t.kind? id = some .newExpression) : t.Leads id := by
  have hid := lt_size_of_kind? hkind
  refine ⟨h.firstToken_lt hid (by rw [hkind]; simp) (by rw [hkind]; simp), ?_⟩
  obtain ⟨x, hx, rfl, d, fresh, hd, hsound, -⟩ := h.exists_node hid
  rw [h.outlined.kind?_eq hx] at hkind
  rw [h.outlined.children_eq hx, h.outlined.firstToken_eq hx]
  intro c hc
  obtain ⟨y, hy, rfl⟩ := List.mem_map.mp hc
  rw [h.outlined.firstToken_eq (child_mem_preorder hx hy)]
  suffices htoken : ∀ lead items, d = .node x.kind lead items →
      (lead ++ items).head? = some (.token (.keyword .New)) from
    Derivation.first_lt_of_token hd htoken hy
  rintro lead items rfl
  -- the first symbol of the production is that word
  have hword := hsound.1
  rw [Option.some.inj hkind] at hword
  obtain ⟨u, rfl, v, -, hsymbols⟩ := Language.mem_mul.mp hword
  obtain ⟨e, rest, hitems, hsymbol, -⟩ := List.map_eq_cons_iff.mp hsymbols.symm
  rw [hitems]
  cases e with
  | token kind =>
    injection hsymbol with hkind
    rw [hkind]
    rfl
  | node => cases hsymbol

/-- The range of a node lies in that of any node above it. -/
theorem range_of_above (h : t.Derived source content) {above id : Nat} (ha : t.Above above id) :
    t.firstToken above ≤ t.firstToken id ∧ t.endToken id ≤ t.endToken above := by
  have hnested := h.wellFormed.nested
  induction ha with
  | single hp => exact hnested _ _ (h.outlined.mem_children_of_parent? hp)
  | tail _ hp ih =>
    have hle := hnested _ _ (h.outlined.mem_children_of_parent? hp)
    exact ⟨ih.1.trans hle.1, hle.2.trans ih.2⟩

/-- The same for all that an outline holds. -/
theorem range_of_mem_preorder (h : t.Derived source content) {x y : Outline}
    (hx : x ∈ (moduleOutline content).preorder) (hy : y ∈ x.preorder) :
    t.firstToken x.number ≤ t.firstToken y.number ∧ t.endToken y.number ≤ t.endToken x.number := by
  rcases h.outlined.above_of_mem_preorder hx hy with rfl | habove
  · exact ⟨Nat.le_refl _, Nat.le_refl _⟩
  · exact h.range_of_above habove

/-- On the way down through an outline the nodes begin later and later. -/
theorem pairwise_preorder (h : t.Derived source content) {x : Outline}
    (hx : x ∈ (moduleOutline content).preorder) :
    (x.preorder.map number).Pairwise fun a b =>
      t.firstToken a ≤ t.firstToken b ∧ (t.Leads a → t.firstToken a < t.firstToken b) := by
  induction x using Outline.children_induct with
  | step x ih =>
    have hwell := h.wellFormed
    have hchild : ∀ c ∈ x.children, c ∈ (moduleOutline content).preorder := fun c hc =>
      child_mem_preorder hx hc
    rw [List.pairwise_map, preorder_eq, List.pairwise_cons, preorderAll_eq_flatMap,
      List.pairwise_flatMap]
    refine ⟨?_, ?_, ?_⟩
    · -- the node itself, and what lies below one of its children
      intro y hy
      obtain ⟨c, hc, hy⟩ := List.mem_flatMap.mp hy
      have hmem : c.number ∈ t.children x.number := by
        rw [h.outlined.children_eq hx]
        exact List.mem_map_of_mem hc
      have hbelow := (h.range_of_mem_preorder (hchild c hc) hy).1
      refine ⟨(hwell.nested _ _ hmem).1.trans hbelow, ?_⟩
      intro hleads
      exact (hleads.2 _ hmem).trans_le hbelow
    · intro c hc
      exact List.pairwise_map.mp (ih c hc (hchild c hc))
    · -- what lies below one child ends before what lies below the next begins
      have hsiblings := hwell.siblings x.number
      rw [h.outlined.children_eq hx, List.pairwise_map] at hsiblings
      refine hsiblings.imp_of_mem ?_
      intro c d hc hd hcd a ha b hb
      have ha' := mem_preorder_trans ha (hchild c hc)
      have hordered := hwell.ordered _ (h.outlined.number_lt ha')
      have hend := (h.range_of_mem_preorder (hchild c hc) ha).2
      have hstart := (h.range_of_mem_preorder (hchild d hd) hb).1
      refine ⟨by omega, ?_⟩
      intro hleads
      have hcovers := hleads.1
      omega

/-- **From the root on, nodes begin later and later**, and strictly later behind a node that
begins with a token of its own. -/
theorem pairwise_firstToken (h : t.Derived source content) :
    (t.descendants root).Pairwise fun a b =>
      t.firstToken a ≤ t.firstToken b ∧ (t.Leads a → t.firstToken a < t.firstToken b) := by
  have hself := self_mem_preorder (moduleOutline content)
  have hdescendants := h.outlined.descendants_eq hself
  rw [show (moduleOutline content).number = root from rfl] at hdescendants
  rw [hdescendants]
  exact h.pairwise_preorder hself

end Tree.Derived

end ModuleLint
