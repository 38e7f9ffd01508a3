/-
ModuleLint/Proofs/Tree/WellFormed.lean

The tree of a module is one ordered tree over nested ranges of tokens.
`Tree.WellFormed` says so of the array of nodes, without a word on how it was made.

Main result: `parse_wellFormed`, for every source that parses.  The shape of the tree
comes from its outline alone, and so does the order of the ranges; that no node is
empty, except a module or a block, comes from the grammar.
-/
import ModuleLint.Proofs.Grammar.Parsed

namespace ModuleLint

open Outline

namespace Tree

/-- **One ordered tree over nested ranges of tokens.** -/
structure WellFormed (t : Tree) : Prop where
  /-- Node zero is a module. -/
  root_module : t.kind? root = some .module
  /-- Only the root has no parent. -/
  parent?_eq_none : ∀ id < t.size, t.parent? id = none ↔ id = root
  /-- Any other node is listed once, by its parent, and by no other node. -/
  listed : ∀ id < t.size, id ≠ root → ∃ p < t.size, t.parent? id = some p ∧
    (t.children p).count id = 1 ∧ ∀ q, q ≠ p → id ∉ t.children q
  /-- What a node lists is a node, and has it as its parent. -/
  child : ∀ p, ∀ c ∈ t.children p, c < t.size ∧ t.parent? c = some p
  /-- From the root each node is met once. -/
  descendants_perm : (t.descendants root).Perm (List.range t.size)
  /-- A range does not end before it begins. -/
  ordered : ∀ id < t.size, t.firstToken id ≤ t.endToken id
  /-- The range of a child lies in that of its parent. -/
  nested : ∀ p, ∀ c ∈ t.children p,
    t.firstToken p ≤ t.firstToken c ∧ t.endToken c ≤ t.endToken p
  /-- Siblings are in order and do not overlap. -/
  siblings : ∀ p, (t.children p).Pairwise fun a b => t.endToken a ≤ t.firstToken b
  /-- The root covers all tokens. -/
  root_range : t.firstToken root = 0 ∧ t.endToken root = t.lexed.tokens.size
  /-- Only a module or a block can be empty. -/
  covers : ∀ id < t.size, t.kind? id ≠ some .module → t.kind? id ≠ some .codeBlock →
    t.firstToken id < t.endToken id

/-- What is no node has no children. -/
theorem children_eq_nil {t : Tree} {id : Nat} (h : t.size ≤ id) : t.children id = [] := by
  rw [children, Array.getElem?_eq_none h]
  rfl

namespace OutlinedBy

variable {t : Tree} {o : Outline}

/-- What a node lists is a node, and has it as its parent. -/
theorem parent?_of_mem (h : t.OutlinedBy o) {p c : Nat} (hc : c ∈ t.children p) :
    c < t.size ∧ t.parent? c = some p := by
  by_cases hp : p < t.size
  · obtain ⟨x, hx, rfl⟩ := h.exists_number hp
    rw [h.children_eq hx] at hc
    obtain ⟨y, hy, rfl⟩ := List.mem_map.mp hc
    exact ⟨h.number_lt (child_mem_preorder hx hy), h.parent?_child hx hy⟩
  · rw [children_eq_nil (Nat.le_of_not_lt hp)] at hc
    cases hc

theorem parent?_eq_none_iff (h : t.OutlinedBy o) {id : Nat} (hid : id < t.size) :
    t.parent? id = none ↔ id = o.number := by
  constructor
  · intro hnone
    obtain ⟨x, hx, rfl⟩ := h.exists_number hid
    by_contra hne
    obtain ⟨y, hy, hxy⟩ := exists_parent hx fun heq => hne (congrArg number heq)
    rw [h.parent?_child hy hxy] at hnone
    cases hnone
  · rintro rfl
    exact h.parent?_root

/-- A node other than the root is listed once, by its parent. -/
theorem count_children (h : t.OutlinedBy o) {id : Nat} (hid : id < t.size) (hne : id ≠ o.number) :
    ∃ p < t.size, t.parent? id = some p ∧ (t.children p).count id = 1 ∧
      ∀ q, q ≠ p → id ∉ t.children q := by
  obtain ⟨x, hx, rfl⟩ := h.exists_number hid
  obtain ⟨y, hy, hxy⟩ := exists_parent hx fun heq => hne (congrArg number heq)
  have hparent := h.parent?_child hy hxy
  refine ⟨y.number, h.number_lt hy, hparent, ?_, fun q hq hmem => ?_⟩
  · -- the children are spread through a list without repetitions
    rw [h.children_eq hy]
    refine List.count_eq_one_of_mem ?_ (List.mem_map_of_mem hxy)
    have hsub : y.children.Sublist o.preorder := by
      refine (sublist_preorderAll y.children).trans ?_
      have hbelow : (preorderAll y.children).Sublist y.preorder := by
        rw [preorder_eq y]
        exact List.sublist_cons_self _ _
      exact hbelow.trans (preorder_contiguous hy).sublist
    exact h.nodup.sublist (hsub.map number)
  · rw [(h.parent?_of_mem hmem).2] at hparent
    exact hq (Option.some.inj hparent)

end OutlinedBy

namespace Derived

variable {t : Tree} {source : List Char} {content : List Derivation}

/-- The ranges of a node and of its children, as its outline has them. -/
theorem ranges (h : t.Derived source content) {p : Nat} (hp : p < t.size) :
    t.firstToken p ≤ t.endToken p ∧
      (∀ c ∈ t.children p, t.firstToken p ≤ t.firstToken c ∧ t.endToken c ≤ t.endToken p) ∧
      (t.children p).Pairwise fun a b => t.endToken a ≤ t.firstToken b := by
  obtain ⟨x, hx, rfl, d, fresh, hd, -, -⟩ := h.exists_node hp
  obtain ⟨-, -, -, -, hstop, -⟩ := Derivation.outline_eq_singleton hd
  obtain ⟨hnested, hpairwise⟩ := Derivation.ranges_children hd
  have hchild : ∀ c ∈ x.children, c ∈ (moduleOutline content).preorder := fun c hc =>
    child_mem_preorder hx hc
  rw [h.outlined.firstToken_eq hx, h.outlined.endToken_eq hx, h.outlined.children_eq hx]
  refine ⟨by omega, fun c hc => ?_, List.pairwise_map.mpr ?_⟩
  · obtain ⟨y, hy, rfl⟩ := List.mem_map.mp hc
    rw [h.outlined.firstToken_eq (hchild y hy), h.outlined.endToken_eq (hchild y hy)]
    exact hnested y hy
  · refine hpairwise.imp_of_mem fun {a b} ha hb hab => ?_
    rw [h.outlined.endToken_eq (hchild a ha), h.outlined.firstToken_eq (hchild b hb)]
    exact hab

/-- No node ends behind the last token. -/
theorem endToken_le (h : t.Derived source content) {id : Nat} (hid : id < t.size) :
    t.endToken id ≤ t.lexed.tokens.size := by
  obtain ⟨x, hx, rfl⟩ := h.outlined.exists_number hid
  have hroot : (moduleOutline content).stop = t.lexed.tokens.size := by
    rw [← Lexed.length_kinds, ← h.kinds]
    rfl
  rw [h.outlined.endToken_eq hx, ← hroot]
  refine stop_le_of_mem_preorder (fun y hy c hc => ?_) hx
  obtain ⟨d, fresh, hd, -⟩ := Derivation.shows_of_mem_preorder (outline_module content) hy h.sound
    h.tokens_prefix
  exact ((Derivation.ranges_children hd).1 c hc).2

/-- A node that is neither a module nor a block covers a token. -/
theorem firstToken_lt (h : t.Derived source content) {id : Nat} (hid : id < t.size)
    (hmodule : t.kind? id ≠ some .module) (hblock : t.kind? id ≠ some .codeBlock) :
    t.firstToken id < t.endToken id := by
  obtain ⟨x, hx, rfl, d, fresh, hd, hsound, -⟩ := h.exists_node hid
  rw [h.outlined.kind?_eq hx] at hmodule hblock
  obtain ⟨lead, items, heq, -, hstop, -⟩ := Derivation.outline_eq_singleton hd
  have hvisible : (Derivation.symbol d).Visible := by
    rw [heq]
    exact ⟨fun hk => hmodule (congrArg some hk), fun hk => hblock (congrArg some hk)⟩
  have hpos := List.length_pos_of_ne_nil (hsound.tokens_ne_nil hvisible)
  rw [h.outlined.firstToken_eq hx, h.outlined.endToken_eq hx]
  omega

theorem wellFormed (h : t.Derived source content) : t.WellFormed := by
  have hroot : moduleOutline content ∈ (moduleOutline content).preorder := self_mem_preorder _
  -- a number that is no node has no children, so nothing is asked of it
  have hranges : ∀ p, (∀ c ∈ t.children p,
        t.firstToken p ≤ t.firstToken c ∧ t.endToken c ≤ t.endToken p) ∧
      (t.children p).Pairwise fun a b => t.endToken a ≤ t.firstToken b := by
    intro p
    by_cases hp : p < t.size
    · exact (h.ranges hp).2
    · rw [children_eq_nil (Nat.le_of_not_lt hp)]
      exact ⟨fun c hc => absurd hc List.not_mem_nil, List.Pairwise.nil⟩
  constructor
  case root_module => exact h.outlined.kind?_eq hroot
  case parent?_eq_none => exact fun id hid => h.outlined.parent?_eq_none_iff hid
  case listed => exact fun id hid hne => h.outlined.count_children hid hne
  case child => exact fun p c hc => h.outlined.parent?_of_mem hc
  case descendants_perm =>
    have hall := h.outlined.descendants_eq hroot
    change t.descendants root = _ at hall
    rw [hall]
    exact h.outlined.numbers
  case ordered => exact fun id hid => (h.ranges hid).1
  case nested => exact fun p => (hranges p).1
  case siblings => exact fun p => (hranges p).2
  case root_range =>
    refine ⟨h.outlined.firstToken_eq hroot, ?_⟩
    have hend := h.outlined.endToken_eq hroot
    change t.endToken root = (Derivation.tokensAll content).length at hend
    rw [hend, h.kinds, Lexed.length_kinds]
  case covers => exact fun id hid => h.firstToken_lt hid

end Derived

end Tree

/-- **Every tree that parsing returns is well-formed.** -/
theorem parse_wellFormed {source : List Char} {t : Tree} (h : parse source = .ok t) :
    t.WellFormed := by
  obtain ⟨content, hcontent⟩ := parse_derived h
  exact hcontent.wellFormed

theorem wellFormed_sample : ∃ t, parse sample = .ok t ∧ t.WellFormed := by
  obtain ⟨t, ht⟩ := parse_sample
  exact ⟨t, ht, parse_wellFormed ht⟩

end ModuleLint
