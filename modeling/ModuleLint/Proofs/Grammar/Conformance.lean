/-
ModuleLint/Proofs/Grammar/Conformance.lean

Every node of a tree is made of what its kind allows: its items spell a word of its
production, and its children a word of what that leaves without tokens.

The tree is asked, not the derivation: the operator of a node is the first of its own
tokens, and what it is made of are the items between its first token and its last one.
Main result: `parse_conforms`.
-/
import ModuleLint.Proofs.Grammar.Children
import ModuleLint.Proofs.Grammar.Parsed

namespace ModuleLint

/-- The token, if the item is one. -/
def Item.token? : Item → Option TokenKind
  | .token kind => some kind
  | .child _ => none

namespace Tree

/-- **The operator that a node applies**: the first of its own tokens. -/
def operator? (t : Tree) (id : Nat) : NodeKind → Option TokenKind
  | .binaryExpression | .unaryExpression => (t.items id).findSome? Item.token?
  | _ => none

/-- What a node looks like from above. -/
def shape? (t : Tree) (id : Nat) : Option Shape :=
  (t.kind? id).map fun kind => ⟨kind, t.operator? id kind⟩

/-- An item of a node as it looks from above. -/
def symbol? (t : Tree) : Item → Option Symbol
  | .token kind => some (.token kind)
  | .child id => (t.shape? id).map .node

/-- **A node is made of what its kind allows**: its items spell a word of its production,
and its children a word of what that leaves without tokens. -/
structure Conforms (t : Tree) (id : Nat) (shape : Shape) : Prop where
  looks : t.shape? id = some shape
  items : ∃ word ∈ production shape, (t.items id).map t.symbol? = word.map some
  children : ∃ word ∈ childProduction shape, (t.children id).map t.shape? = word.map some

end Tree

namespace Derivation

/-- The token, if the derivation is one. -/
def token? : Derivation → Option TokenKind
  | .token kind => some kind
  | .node _ _ _ => none

/-- The first token among the items of a sound node is the operator it applies. -/
theorem Sound.findSome?_token? {kind : NodeKind} {lead items : List Derivation}
    (h : Sound (.node kind lead items))
    (hkind : kind = .binaryExpression ∨ kind = .unaryExpression) :
    (lead ++ items).findSome? token? = operator kind items := by
  -- the tokens of the items can be seen from above
  have hsymbol : ∀ ds : List Derivation, ds.findSome? token? =
      (ds.map symbol).findSome? fun s => match s with | .token kind => some kind | _ => none := by
    intro ds
    rw [List.findSome?_map]
    congr 1
    funext d
    cases d <;> rfl
  have hword := h.1
  rw [hsymbol]
  rcases hkind with rfl | rfl
  · rcases hop : operator .binaryExpression items with - | op
    · rw [hop] at hword
      exact absurd hword (Language.notMem_zero _)
    · rw [hop] at hword
      change _ ∈ Production.infixed op at hword
      unfold Production.infixed at hword
      split at hword
      · exact absurd hword (Language.notMem_zero _)
      · obtain ⟨u, ⟨s, rfl, -⟩, v, hv, hwords⟩ := Language.mem_mul.mp hword
        obtain ⟨a, rfl, b, -, rfl⟩ := Language.mem_mul.mp hv
        rw [← hwords]
        rfl
  · rcases hop : operator .unaryExpression items with - | op
    · rw [hop] at hword
      exact absurd hword (Language.notMem_zero _)
    · rw [hop] at hword
      change _ ∈ Production.signed op at hword
      unfold Production.signed at hword
      split at hword
      · exact absurd hword (Language.notMem_zero _)
      · obtain ⟨a, rfl, b, -, hwords⟩ := Language.mem_mul.mp hword
        rw [← hwords]
        rfl

end Derivation

namespace Tree

open ModuleLint.Derivation

variable {t : Tree}

/-- Tokens stand for tokens. -/
theorem findSome?_token?_eq {items : List Item} {ds : List Derivation}
    (h : List.Forall₂ t.Holds items ds) :
    items.findSome? Item.token? = ds.findSome? Derivation.token? := by
  induction h with
  | nil => rfl
  | cons hd _ ih =>
    cases hd with
    | token kind => rfl
    | node hkind hitems => exact ih

/-- A node that stands for a sound derivation looks like it. -/
theorem Holds.shape?_eq {id : Nat} {kind : NodeKind} {lead items : List Derivation}
    (h : t.Holds (.child id) (.node kind lead items)) (hd : Sound (.node kind lead items)) :
    t.shape? id = some ⟨kind, operator kind items⟩ := by
  cases h with
  | node hkind hitems =>
    -- the own tokens of the node are those among the items
    have hop : t.operator? id kind = operator kind items := by
      have hfirst := findSome?_token?_eq hitems
      cases kind
      case binaryExpression => exact hfirst.trans (hd.findSome?_token? (.inl rfl))
      case unaryExpression => exact hfirst.trans (hd.findSome?_token? (.inr rfl))
      all_goals rfl
    rw [shape?, hkind, Option.map_some, hop]

/-- Items that stand for sound derivations look like them. -/
theorem map_symbol?_eq {items : List Item} {ds : List Derivation}
    (h : List.Forall₂ t.Holds items ds) (hds : SoundAll ds) :
    items.map t.symbol? = (ds.map symbol).map some := by
  induction h with
  | nil => rfl
  | @cons item d _ _ hd _ ih =>
    have hsymbol : t.symbol? item = some (symbol d) := by
      cases d with
      | token kind => cases hd with | token => rfl
      | node kind lead items =>
        cases item with
        | token kind => cases hd
        | child id =>
          rw [symbol?, hd.shape?_eq hds.1]
          rfl
    rw [List.map_cons, hsymbol, ih hds.2]
    rfl

/-- The children among them look like the nodes. -/
theorem map_shape?_eq {items : List Item} {ds : List Derivation}
    (h : List.Forall₂ t.Holds items ds) (hds : SoundAll ds) :
    (items.filterMap Item.child?).map t.shape? =
      ((ds.map symbol).filterMap Symbol.shape?).map some := by
  induction h with
  | nil => rfl
  | @cons item d _ _ hd _ ih =>
    cases d with
    | token kind =>
      cases hd with
      | token => exact ih hds.2
    | node kind lead items =>
      cases item with
      | token kind => cases hd
      | child id =>
        change t.shape? id :: _ = some _ :: _
        rw [hd.shape?_eq hds.1, ih hds.2]

/-- **A node that stands for a sound derivation** is made of what its kind allows. -/
theorem Holds.conforms {id : Nat} {kind : NodeKind} {lead items : List Derivation}
    (h : t.Holds (.child id) (.node kind lead items)) (hd : Sound (.node kind lead items)) :
    t.Conforms id ⟨kind, operator kind items⟩ := by
  have hlooks := h.shape?_eq hd
  obtain ⟨hword, hlead, hmore⟩ := hd
  have hsound : SoundAll (lead ++ items) := soundAll_append.mpr ⟨hlead, hmore⟩
  cases h with
  | node hkind hitems =>
    refine ⟨hlooks, ⟨_, hword, map_symbol?_eq hitems hsound⟩,
      ⟨_, erases_production _ _ hword, ?_⟩⟩
    rw [← map_shape?_eq hitems hsound, Tree.items, filterMap_itemsOver]

/-- **Each node of a tree laid out from a derivation** is made of what its kind allows. -/
theorem Derived.conforms {source : List Char} {content : List Derivation}
    (h : t.Derived source content) {id : Nat} (hid : id < t.size) :
    ∃ shape, t.Conforms id shape := by
  obtain ⟨x, hx, rfl, d, fresh, hd, hsound, htokens⟩ := h.exists_node hid
  have hholds := h.outlined.holds d hd hx htokens
  obtain ⟨lead, items, rfl, -⟩ := outline_eq_singleton hd
  exact ⟨_, hholds.conforms hsound⟩

end Tree

/-- **In every tree that parsing returns, each node is made of what its kind allows.** -/
theorem parse_conforms {source : List Char} {t : Tree} (h : parse source = .ok t) (id : Nat)
    (hid : id < t.size) : ∃ shape, t.Conforms id shape := by
  obtain ⟨content, hcontent⟩ := parse_derived h
  exact hcontent.conforms hid

theorem conforms_sample : ∃ t, parse sample = .ok t ∧ 0 < t.size ∧ ∃ shape, t.Conforms 0 shape := by
  obtain ⟨t, ht⟩ := parse_sample
  obtain ⟨content, hcontent⟩ := parse_derived ht
  have hsize : 0 < t.size := hcontent.outlined.number_lt (Outline.self_mem_preorder _)
  exact ⟨t, ht, hsize, parse_conforms ht 0 hsize⟩

end ModuleLint
