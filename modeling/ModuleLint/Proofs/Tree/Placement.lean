/-
ModuleLint/Proofs/Tree/Placement.lean

Where the spans of nodes lie, those of empty nodes included.  A span begins at the first
token of its node, and if the node is empty at the token that follows; its line and column
are those of that token.  So spans are nested as the ranges of tokens are, except where an
empty block ends its parent: it then lies at a token that does not belong to the parent.
That is so in the branches of `If` and in `Except` branches, where the token that follows is
a reserved word and something must stand between it and the reserved word at the end of the
branch; and in a module with text behind its last token.  Everywhere else something is read
behind the block (`Slot.endToken_lt`).

Main result: `parse_placed`.
-/
import ModuleLint.Proofs.Grammar.Blocks
import ModuleLint.Proofs.Lexical.Excerpt
import ModuleLint.Proofs.Tree.Spans

namespace ModuleLint

open Outline Lexical PlacedPiece

namespace Span

/-- The byte behind a span. -/
def stop (s : Span) : Nat := s.offset + s.length

/-- **One span lies within another.** -/
structure Within (inner outer : Span) : Prop where
  begins : outer.offset ≤ inner.offset
  ends : inner.stop ≤ outer.stop

/-- **A span knows its place**: it begins between two characters of the source, on the line
and at the column of that byte. -/
structure Located (s : Span) (source : List Char) : Prop where
  boundary : IsBoundary source s.offset
  line : s.line = 1 + (beforeByte s.offset source).count '\n'
  column : s.column = 1 + (Position.lastLine (beforeByte s.offset source)).length

end Span

namespace Tree

/-- The offset of a token, by its number; behind the last token that is the end of the
source. -/
def offsetAt (t : Tree) (i : Nat) : Nat :=
  match t.lexed.tokens[i]? with
  | some token => token.position.offset
  | none => byteLength t.source

/-- **A node overhangs its parent**: it is an empty block at the end of a branch, or at the end
of a module whose last token has text behind it. -/
def Overhangs (t : Tree) (id p : Nat) : Prop :=
  t.firstToken id = t.endToken id ∧
    ((∃ kind, t.kind? p = some kind ∧ kind.isBranch = true) ∨
      t.kind? p = some .module ∧ (t.span p).stop < byteLength t.source)

/-- **The spans of a tree are in place.** -/
structure Placed (t : Tree) : Prop where
  /-- Only modules and blocks can be empty, and their spans then have no length. -/
  empty : ∀ id < t.size, t.firstToken id = t.endToken id →
    (t.kind? id = some .module ∨ t.kind? id = some .codeBlock) ∧ (t.span id).length = 0
  /-- A node begins at its first token, and if it is empty at the token that follows. -/
  offset : ∀ id < t.size, (t.span id).offset = t.offsetAt (t.firstToken id)
  /-- Where there is such a token, or no text at all, the line and the column are right. -/
  located : ∀ id < t.size, t.firstToken id < t.lexed.tokens.size ∨ t.source = [] →
    (t.span id).Located t.source
  /-- No node begins before its parent. -/
  begins : ∀ id p, t.parent? id = some p → (t.span p).offset ≤ (t.span id).offset
  /-- A node lies within its parent unless it overhangs. -/
  within_iff : ∀ id p, t.parent? id = some p →
    ((t.span id).Within (t.span p) ↔ ¬ t.Overhangs id p)

end Tree

variable {source : List Char} {lexed : Lexed} {t : Tree} {content : List Derivation}
  {id p i j : Nat} {kind : NodeKind} {before behind : List Derivation} {e : Derivation}
  {a b : Token} {token : TokenKind}

/-! ### Reserved words -/

/-- A reserved word is no piece in front of another one, which would prolong it. -/
theorem Scans.not_keyword_behind {touched : Bool} {text : List Char} {ps qs : List Piece}
    {x y : Piece} (h : Scans touched text ⟨ps ++ x :: y :: qs, none⟩) {v w : Keyword}
    (hx : x.kind = .token (.keyword v)) : y.kind ≠ .token (.keyword w) := by
  intro hy
  obtain ⟨rest, -, hrest⟩ := h.behind
  obtain ⟨c, word, more, -, -, hmunch, hmore⟩ := scans_cons_iff.mp hrest
  obtain ⟨d, word', more', hd, rfl, hmunch', -⟩ := scans_cons_iff.mp hmore
  have hprolongs := (munch_append_iff.mp hmunch).2
  rw [hy] at hmunch'
  have hpart : isWordPart d = true := isWordPart_of_isWordStart (munch_keyword hmunch')
  rw [hx, hd] at hprolongs
  exact absurd (hpart.symm.trans hprolongs) Bool.noConfusion

/-- Entries side by side split a list. -/
theorem exists_split_of_getElem? {α : Type} {l : List α} {a b : α} {i : Nat}
    (ha : l[i]? = some a) (hb : l[i + 1]? = some b) :
    ∃ front behind, l = front ++ a :: b :: behind := by
  obtain ⟨hi, rfl⟩ := List.getElem?_eq_some_iff.mp ha
  obtain ⟨hj, rfl⟩ := List.getElem?_eq_some_iff.mp hb
  refine ⟨l.take i, l.drop (i + 1 + 1), ?_⟩
  rw [List.getElem_cons_drop, List.getElem_cons_drop, List.take_append_drop]

/-- **Two reserved words do not touch**: something stands between them. -/
theorem stop_lt_offset_of_keywords (h : tokenize source = .ok lexed)
    (ha : lexed.tokens[i]? = some a) (hb : lexed.tokens[i + 1]? = some b) {v w : Keyword}
    (hv : a.kind = .keyword v) (hw : b.kind = .keyword w) : a.stop < b.position.offset := by
  obtain ⟨pieces, hscan, rfl⟩ := tokenize_eq_ok_iff.mp h
  rw [← Array.getElem?_toList] at ha hb
  obtain ⟨front, behind, hsplit⟩ := exists_split_of_getElem? ha hb
  obtain ⟨first, x, after, hplaced, -, hx, hafter⟩ := exists_split_at_token hsplit
  obtain ⟨others, y, more, rfl, -, hy, -⟩ := List.filterMap_eq_cons_iff.mp hafter
  have hx' := congrArg ByteRange.stop (range_of_token? hx).2.2
  have hy' := congrArg ByteRange.start (range_of_token? hy).2.2
  have hpairwise := pairwise_placed Position.start pieces
  rw [hplaced, List.pairwise_append] at hpairwise
  have hbehind := List.pairwise_cons.mp hpairwise.2.1
  cases others with
  | nil =>
    -- the pieces of the two words would stand side by side
    have hpieces : pieces = first.map piece ++ x.piece :: y.piece :: more.map piece := by
      rw [← map_piece_placed Position.start pieces, hplaced, List.map_append]
      rfl
    rw [hpieces] at hscan
    have hxkind := kind_of_token? hx
    have hykind := kind_of_token? hy
    rw [hv] at hxkind
    rw [hw] at hykind
    exact absurd hykind (hscan.not_keyword_behind hxkind)
  | cons z others =>
    have hz : z ∈ Piece.placed Position.start pieces := by
      rw [hplaced]
      exact List.mem_append_right _ (List.mem_cons_of_mem _ List.mem_cons_self)
    have hxz := hbehind.1 z List.mem_cons_self
    have hnonempty := range_nonempty hscan hz
    have hzy := (List.pairwise_cons.mp hbehind.2).1 y
      (List.mem_append_right _ List.mem_cons_self)
    change a.stop = x.range.stop at hx'
    change b.position.offset = y.range.start at hy'
    omega

/-! ### Places of tokens -/

theorem located_of_token (h : tokenize source = .ok lexed) (ha : a ∈ lexed.tokens) (n : Nat) :
    Span.Located ⟨a.position.offset, n, a.position.line, a.position.column⟩ source := by
  obtain ⟨pieces, hscan, rfl⟩ := tokenize_eq_ok_iff.mp h
  obtain ⟨x, hx, ha⟩ := mem_tokens_ofPlaced.mp ha
  have hposition := position_eq hscan hx
  have hline := congrArg Position.line hposition
  have hcolumn := congrArg Position.column hposition
  rw [Position.line_after] at hline
  rw [Position.column_start_after] at hcolumn
  rw [(range_of_token? ha).1]
  exact ⟨(isBoundary_range hscan hx).1, hline, hcolumn⟩

/-- What a token holds lies in the source. -/
theorem stop_le_byteLength (h : tokenize source = .ok lexed) (ha : a ∈ lexed.tokens) :
    a.stop ≤ byteLength source := by
  obtain ⟨pieces, hscan, rfl⟩ := tokenize_eq_ok_iff.mp h
  obtain ⟨x, hx, ha⟩ := mem_tokens_ofPlaced.mp ha
  obtain ⟨before, behind, rfl, hoffset⟩ := exists_text hscan hx
  have hstop := congrArg ByteRange.stop (range_of_token? ha).2.2
  change a.stop = x.position.offset + byteLength x.piece.text at hstop
  rw [hstop, ← hoffset, byteLength_append, byteLength_append]
  exact Nat.le_add_right _ _

namespace Tree

/-! ### Spans and offsets -/

/-- A span begins at the first token of its node, or at the one that follows. -/
theorem offset_span (hid : id < t.size) : (t.span id).offset = t.offsetAt (t.firstToken id) := by
  rw [span_eq_spanOver hid, spanOver, offsetAt]
  cases t.lexed.tokens[t.firstToken id]? with
  | none => rfl
  | some a =>
    cases t.lexed.tokens[t.endToken id - 1]? with
    | none => rfl
    | some z => exact apply_ite Span.offset _ _ _ |>.trans (ite_self _)

/-- An empty node has a span of no length. -/
theorem length_span_of_empty (hid : id < t.size) (hempty : t.firstToken id = t.endToken id) :
    (t.span id).length = 0 := by
  rw [span_eq_spanOver hid, spanOver, hempty]
  cases t.lexed.tokens[t.endToken id]? with
  | none => rfl
  | some a =>
    cases t.lexed.tokens[t.endToken id - 1]? with
    | none => rfl
    | some z =>
      simp only [Nat.lt_irrefl, if_false]

/-- The line and the column of a span are those of the token at which it begins. -/
theorem span_of_getElem? (hid : id < t.size) (ha : t.lexed.tokens[t.firstToken id]? = some a) :
    ∃ n, t.span id = ⟨a.position.offset, n, a.position.line, a.position.column⟩ := by
  rw [span_eq_spanOver hid, spanOver, ha]
  cases t.lexed.tokens[t.endToken id - 1]? with
  | none => exact ⟨0, rfl⟩
  | some z =>
    simp only
    split
    · exact ⟨_, rfl⟩
    · exact ⟨0, rfl⟩

namespace Derived

/-- Offsets go up from token to token. -/
theorem offsetAt_mono (h : t.Derived source content) (hsource : t.source = source)
    (hij : i ≤ j) : t.offsetAt i ≤ t.offsetAt j := by
  rw [offsetAt, offsetAt]
  cases ha : t.lexed.tokens[i]? with
  | none =>
    rw [Array.getElem?_eq_none ((Array.getElem?_eq_none_iff.mp ha).trans hij)]
  | some a =>
    cases hb : t.lexed.tokens[j]? with
    | none =>
      have hstop := stop_le_byteLength h.lexed (Array.mem_of_getElem? ha)
      rw [hsource]
      exact a.offset_le_stop.trans hstop
    | some b =>
      rcases Nat.lt_or_eq_of_le hij with hlt | rfl
      · exact a.offset_le_stop.trans (stop_le_offset h.lexed hlt ha hb)
      · obtain rfl := Option.some.inj (ha.symm.trans hb)
        exact Nat.le_refl _

/-- The span of a node that covers tokens ends with the last of them. -/
theorem exists_stop_span (h : t.Derived source content) (hid : id < t.size)
    (hcovers : t.firstToken id < t.endToken id) :
    ∃ z, t.lexed.tokens[t.endToken id - 1]? = some z ∧ (t.span id).stop = z.stop := by
  obtain ⟨a, z, ha, hz, hspan⟩ := h.exists_span hid hcovers
  refine ⟨z, hz, ?_⟩
  rw [hspan, Span.stop]
  exact Nat.add_sub_cancel' (offset_le_stop h.lexed (Nat.le_sub_one_of_lt hcovers) ha hz)

/-- **A span with a token to begin at knows its place**, and so does every span over no text. -/
theorem located_span (h : t.Derived source content) (hsource : t.source = source)
    (hid : id < t.size) (hplace : t.firstToken id < t.lexed.tokens.size ∨ t.source = []) :
    (t.span id).Located t.source := by
  rw [hsource] at hplace ⊢
  rcases hplace with hlt | rfl
  · obtain ⟨n, hspan⟩ := span_of_getElem? hid (Array.getElem?_eq_getElem hlt)
    rw [hspan]
    exact located_of_token h.lexed (Array.getElem_mem hlt) n
  · have htokens : t.lexed = ⟨#[], #[]⟩ := (Except.ok.inj h.lexed).symm
    rw [span_eq_spanOver hid, spanOver, htokens, endSpan, hsource]
    exact ⟨isBoundary_append [] [], rfl, rfl⟩

end Derived

/-! ### Children among the items of their parents -/

/-- **A node among the items of its parent**: the parent has a sound derivation, in which the
node is read between the items before it and those behind it. -/
structure Slot (t : Tree) (id p : Nat) (kind : NodeKind) (before : List Derivation)
    (e : Derivation) (behind : List Derivation) : Prop where
  parent_kind : t.kind? p = some kind
  sound : ∃ lead items, Derivation.Sound (.node kind lead items) ∧
    lead ++ items = before ++ e :: behind
  child_kind : ∃ s, Derivation.symbol e = .node s ∧ t.kind? id = some s.kind
  first : t.firstToken id = t.firstToken p + (Derivation.tokensAll before).length
  stop : t.endToken id = t.firstToken id + (Derivation.tokens e).length
  parent_stop : t.endToken p = t.endToken id + (Derivation.tokensAll behind).length
  kinds : Derivation.tokensAll (before ++ e :: behind) <+: t.lexed.kinds.drop (t.firstToken p)

/-- Every node but the root is among the items of its parent. -/
theorem Derived.exists_slot (h : t.Derived source content) (hp : t.parent? id = some p) :
    ∃ kind before e behind, t.Slot id p kind before e behind := by
  obtain ⟨x, hx, c, hc, rfl, rfl⟩ := h.outlined.exists_child hp
  obtain ⟨x', hx', hnumber, d, fresh, hd, hsound, hkinds⟩ :=
    h.exists_node (h.outlined.number_lt hx)
  obtain rfl := h.outlined.eq_of_number hx' hx hnumber
  have hco := child_mem_preorder hx hc
  obtain ⟨lead, items, before, e, behind, fresh', rfl, hsplit, he⟩ :=
    Derivation.exists_item hd hc
  obtain ⟨lead', items', rfl, hfirst, hstop, -⟩ := Derivation.outline_eq_singleton he
  obtain ⟨_, _, heq, -, hparent, -⟩ := Derivation.outline_eq_singleton hd
  rw [Derivation.tokens, ← Derivation.tokensAll_append, hsplit] at hkinds hparent
  refine ⟨_, before, _, behind, h.outlined.kind?_eq hx, ⟨lead, items, hsound, hsplit⟩,
    ⟨_, rfl, h.outlined.kind?_eq hco⟩, ?_, ?_, ?_, ?_⟩
  · rw [h.outlined.firstToken_eq hco, h.outlined.firstToken_eq hx, hfirst]
  · rw [h.outlined.endToken_eq hco, h.outlined.firstToken_eq hco, hstop, hfirst]
  · rw [h.outlined.endToken_eq hx, h.outlined.endToken_eq hco, hparent, hstop,
      Derivation.tokensAll_append, Derivation.tokensAll_cons, List.length_append,
      List.length_append]
    omega
  · rw [h.outlined.firstToken_eq hx]
    exact hkinds

namespace Slot

variable (h : t.Slot id p kind before e behind)
include h

theorem tokens_eq_nil (hempty : t.firstToken id = t.endToken id) : Derivation.tokens e = [] := by
  have hstop := h.stop
  exact List.eq_nil_of_length_eq_zero (by omega)

/-- **Behind an empty node** its parent goes on, unless that is a module or a branch. -/
theorem endToken_lt (hempty : t.firstToken id = t.endToken id) (hmodule : kind ≠ .module)
    (hbranch : kind.isBranch = false) : t.endToken id < t.endToken p := by
  obtain ⟨lead, items, hsound, hsplit⟩ := h.sound
  have hbehind := hsound.behind_empty hsplit (h.tokens_eq_nil hempty) hmodule hbranch
  have hpos := List.length_pos_of_ne_nil hbehind
  have hstop := h.parent_stop
  omega

/-- An empty node ends a module and a branch. -/
theorem endToken_eq (hempty : t.firstToken id = t.endToken id)
    (hkind : kind = .module ∨ kind.isBranch = true) : t.endToken p = t.endToken id := by
  obtain ⟨lead, items, hsound, hsplit⟩ := h.sound
  obtain rfl := hsound.behind_eq_nil hsplit (h.tokens_eq_nil hempty) hkind
  exact h.parent_stop

/-- In a branch it follows a reserved word of that branch. -/
theorem keyword_before (hempty : t.firstToken id = t.endToken id)
    (hbranch : kind.isBranch = true) : t.firstToken p < t.endToken p ∧
      ∃ word, t.lexed.kinds[t.endToken p - 1]? = some (.keyword word) := by
  obtain ⟨lead, items, hsound, hsplit⟩ := h.sound
  obtain ⟨word, hword⟩ := hsound.getLast?_before hsplit (h.tokens_eq_nil hempty) hbranch
  obtain ⟨front, hfront⟩ := List.getLast?_eq_some_iff.mp hword
  obtain ⟨more, hmore⟩ := h.kinds
  have hend := h.endToken_eq hempty (.inr hbranch)
  have hfirst := h.first
  have hlength := congrArg List.length hfront
  rw [List.length_append, List.length_singleton] at hlength
  refine ⟨by omega, word, ?_⟩
  have hplace : t.endToken p - 1 = t.firstToken p + front.length := by omega
  rw [hplace, ← List.getElem?_drop, ← hmore, Derivation.tokensAll_append, hfront]
  simp

/-- No node is a module but the root. -/
theorem kind?_ne_module : t.kind? id ≠ some .module := by
  obtain ⟨lead, items, hsound, hsplit⟩ := h.sound
  obtain ⟨s, hs, hkind⟩ := h.child_kind
  rw [hkind]
  exact fun hmodule => hsound.kind_ne_module hsplit hs (Option.some.inj hmodule)

/-- **Behind a branch** stands a reserved word. -/
theorem keyword_behind (hbranch : ∃ kind, t.kind? id = some kind ∧ kind.isBranch = true) :
    ∃ word, t.lexed.kinds[t.endToken id]? = some (.keyword word) := by
  obtain ⟨lead, items, hsound, hsplit⟩ := h.sound
  obtain ⟨s, hs, hkind⟩ := h.child_kind
  obtain ⟨kind', hkind', hbranch⟩ := hbranch
  obtain rfl := Option.some.inj (hkind.symm.trans hkind')
  obtain ⟨word, hword⟩ := hsound.behind_branch hsplit hs hbranch
  obtain ⟨rest, hrest⟩ := List.head?_eq_some_iff.mp hword
  obtain ⟨more, hmore⟩ := h.kinds
  have hfirst := h.first
  have hstop := h.stop
  refine ⟨word, ?_⟩
  have hplace : t.endToken id = t.firstToken p +
      (Derivation.tokensAll before ++ Derivation.tokens e).length := by
    rw [List.length_append]
    omega
  rw [hplace, ← List.getElem?_drop, ← hmore, Derivation.tokensAll_append,
    Derivation.tokensAll_cons, hrest]
  simp

end Slot

/-! ### Nodes and their parents -/

theorem exists_token_of_kinds (hkind : t.lexed.kinds[i]? = some token) :
    ∃ a, t.lexed.tokens[i]? = some a ∧ a.kind = token := by
  rw [Lexed.kinds, List.getElem?_map, Array.getElem?_toList] at hkind
  exact Option.map_eq_some_iff.mp hkind

namespace Derived

variable (h : t.Derived source content) (hsource : t.source = source)
  (hp : t.parent? id = some p)
include h hp

theorem lt_size_of_parent? : id < t.size ∧ p < t.size := by
  obtain ⟨x, hx, c, hc, rfl, rfl⟩ := h.outlined.exists_child hp
  exact ⟨h.outlined.number_lt (child_mem_preorder hx hc), h.outlined.number_lt hx⟩

include hsource in
/-- **No node begins before its parent.** -/
theorem offset_span_le : (t.span p).offset ≤ (t.span id).offset := by
  obtain ⟨hid, hpid⟩ := h.lt_size_of_parent? hp
  rw [offset_span hid, offset_span hpid]
  exact h.offsetAt_mono hsource
    (h.wellFormed.nested p id (h.outlined.mem_children_of_parent? hp)).1

/-- A node that covers tokens ends no later than its parent. -/
theorem stop_span_le_of_covers (hcovers : t.firstToken id < t.endToken id) :
    (t.span id).stop ≤ (t.span p).stop := by
  obtain ⟨hid, hpid⟩ := h.lt_size_of_parent? hp
  obtain ⟨hfirst, hend⟩ := h.wellFormed.nested p id (h.outlined.mem_children_of_parent? hp)
  obtain ⟨y, hy, hstop⟩ := h.exists_stop_span hid hcovers
  obtain ⟨z, hz, hpstop⟩ := h.exists_stop_span hpid (by omega)
  rw [hstop, hpstop]
  exact stop_le_stop h.lexed (by omega) hy hz

/-- Nor does an empty node behind which its parent goes on. -/
theorem stop_span_le_of_lt (hempty : t.firstToken id = t.endToken id)
    (hlt : t.endToken id < t.endToken p) : (t.span id).stop ≤ (t.span p).stop := by
  obtain ⟨hid, hpid⟩ := h.lt_size_of_parent? hp
  have hfirst := (h.wellFormed.nested p id (h.outlined.mem_children_of_parent? hp)).1
  have hend := h.endToken_le hpid
  obtain ⟨z, hz, hpstop⟩ := h.exists_stop_span hpid (by omega)
  have ha := Array.getElem?_eq_getElem (show t.firstToken id < t.lexed.tokens.size by omega)
  rw [hpstop, Span.stop, length_span_of_empty hid hempty, offset_span hid, offsetAt, ha]
  exact offset_le_stop h.lexed (by omega) ha hz

/-- **An empty block at the end of a branch** lies behind the branch. -/
theorem stop_span_lt_of_branch (hempty : t.firstToken id = t.endToken id)
    (hbranch : kind.isBranch = true) (hkind : t.kind? p = some kind) :
    (t.span p).stop < (t.span id).stop := by
  obtain ⟨hid, hpid⟩ := h.lt_size_of_parent? hp
  obtain ⟨kind', before, e, behind, hslot⟩ := h.exists_slot hp
  obtain rfl := Option.some.inj (hkind.symm.trans hslot.parent_kind)
  obtain ⟨hcovers, v, hv⟩ := hslot.keyword_before hempty hbranch
  have hend := hslot.endToken_eq hempty (.inr hbranch)
  -- the branch has a parent of its own, because the root is a module
  obtain ⟨q, hq⟩ : ∃ q, t.parent? p = some q := by
    rw [← Option.ne_none_iff_exists', ne_eq, h.wellFormed.parent?_eq_none p hpid]
    rintro rfl
    rw [h.wellFormed.root_module] at hkind
    cases hkind
    cases hbranch
  obtain ⟨_, _, _, _, houter⟩ := h.exists_slot hq
  obtain ⟨w, hw⟩ := houter.keyword_behind ⟨kind, hkind, hbranch⟩
  obtain ⟨a, ha, hakind⟩ := exists_token_of_kinds hv
  obtain ⟨b, hb, hbkind⟩ := exists_token_of_kinds hw
  obtain ⟨z, hz, hstop⟩ := h.exists_stop_span hpid hcovers
  obtain rfl := Option.some.inj (ha.symm.trans hz)
  have hnext : t.endToken p = t.endToken p - 1 + 1 := by omega
  rw [hstop, Span.stop, length_span_of_empty hid hempty, offset_span hid, offsetAt, hempty,
    ← hend, hb]
  rw [hnext] at hb
  exact stop_lt_offset_of_keywords h.lexed ha hb hakind hbkind

/-- An empty block at the end of a module lies at the end of the source. -/
theorem stop_span_of_module (hempty : t.firstToken id = t.endToken id)
    (hkind : t.kind? p = some .module) : (t.span id).stop = byteLength t.source := by
  obtain ⟨hid, hpid⟩ := h.lt_size_of_parent? hp
  obtain ⟨kind', before, e, behind, hslot⟩ := h.exists_slot hp
  obtain rfl := Option.some.inj (hkind.symm.trans hslot.parent_kind)
  have hend := hslot.endToken_eq hempty (.inl rfl)
  have hroot : p = root := by
    rw [← h.wellFormed.parent?_eq_none p hpid]
    by_contra hparent
    obtain ⟨q, hq⟩ := Option.ne_none_iff_exists'.mp hparent
    obtain ⟨_, _, _, _, houter⟩ := h.exists_slot hq
    exact houter.kind?_ne_module hkind
  rw [hroot, h.wellFormed.root_range.2] at hend
  rw [Span.stop, length_span_of_empty hid hempty, offset_span hid, offsetAt, hempty, ← hend,
    Array.getElem?_eq_none (Nat.le_refl _), Nat.add_zero]

include hsource in
/-- **A node lies within its parent unless it overhangs.** -/
theorem within_iff : (t.span id).Within (t.span p) ↔ ¬ t.Overhangs id p := by
  have hbegins := h.offset_span_le hsource hp
  obtain ⟨hid, hpid⟩ := h.lt_size_of_parent? hp
  by_cases hempty : t.firstToken id = t.endToken id
  · obtain ⟨kind, before, e, behind, hslot⟩ := h.exists_slot hp
    have hkind := hslot.parent_kind
    by_cases hbranch : kind.isBranch = true
    · have hlt := h.stop_span_lt_of_branch hp hempty hbranch hkind
      refine iff_of_false (fun hwithin => Nat.not_le_of_gt hlt hwithin.ends) (not_not_intro ?_)
      exact ⟨hempty, .inl ⟨kind, hkind, hbranch⟩⟩
    have hplain : ¬ ∃ kind, t.kind? p = some kind ∧ kind.isBranch = true := by
      rintro ⟨kind', hkind', hbranch'⟩
      obtain rfl := Option.some.inj (hkind.symm.trans hkind')
      exact hbranch hbranch'
    by_cases hmodule : kind = .module
    · rw [hmodule] at hkind
      have hstop := h.stop_span_of_module hp hempty hkind
      constructor
      · rintro hwithin ⟨-, hover | ⟨-, hover⟩⟩
        · exact hplain hover
        · exact Nat.not_le_of_gt hover (hstop ▸ hwithin.ends)
      · intro hover
        refine ⟨hbegins, hstop ▸ Nat.le_of_not_lt fun hlt => ?_⟩
        exact hover ⟨hempty, .inr ⟨hkind, hlt⟩⟩
    · have hlt := hslot.endToken_lt hempty hmodule (Bool.eq_false_iff.mpr hbranch)
      refine iff_of_true ⟨hbegins, h.stop_span_le_of_lt hp hempty hlt⟩ ?_
      rintro ⟨-, hover | ⟨hover, -⟩⟩
      · exact hplain hover
      · exact hmodule (Option.some.inj (hkind.symm.trans hover))
  · have hle := h.wellFormed.ordered id hid
    refine iff_of_true ⟨hbegins, h.stop_span_le_of_covers hp (by omega)⟩ ?_
    exact fun hover => hempty hover.1

end Derived

end Tree

/-- A branch with an empty block, and behind it the word that closes it. -/
def emptyBranch : List Char := "If a Then EndIf;".toList

theorem parse_emptyBranch : ∃ t, parse emptyBranch = .ok t ∧
    (t.size, t.parent? 5, t.span 5, t.span 3) = (6, some 3, ⟨10, 0, 1, 11⟩, ⟨0, 9, 1, 1⟩) :=
  exists_parse_of_map (by decide +kernel)

/-- **The spans of every tree that parsing returns are in place.** -/
theorem parse_placed (h : parse source = .ok t) : t.Placed := by
  have hsource := source_of_parse h
  obtain ⟨content, hcontent⟩ := parse_derived h
  constructor
  case empty =>
    intro id hid hempty
    refine ⟨?_, Tree.length_span_of_empty hid hempty⟩
    by_contra hkind
    rw [not_or] at hkind
    exact absurd hempty (Nat.ne_of_lt (hcontent.firstToken_lt hid hkind.1 hkind.2))
  case offset => exact fun id hid => Tree.offset_span hid
  case located => exact fun id hid hplace => hcontent.located_span hsource hid hplace
  case begins => exact fun id p hp => hcontent.offset_span_le hsource hp
  case within_iff => exact fun id p hp => hcontent.within_iff hsource hp

theorem placed_emptyBranch : ∃ t, parse emptyBranch = .ok t ∧ t.Placed := by
  obtain ⟨t, ht, -⟩ := parse_emptyBranch
  exact ⟨t, ht, parse_placed ht⟩

/-- **A node need not lie within its parent**: the empty block of a branch lies behind it. -/
theorem not_forall_within : ¬ ∀ (source : List Char) (t : Tree), parse source = .ok t →
    ∀ id < t.size, (t.span id).Located t.source ∧
      ∀ p, t.parent? id = some p → (t.span id).Within (t.span p) := by
  intro h
  obtain ⟨t, ht, hnodes⟩ := parse_emptyBranch
  simp only [Prod.mk.injEq] at hnodes
  obtain ⟨hsize, hparent, hblock, hbranch⟩ := hnodes
  have hwithin := (h emptyBranch t ht 5 (by omega)).2 3 hparent
  rw [hblock, hbranch] at hwithin
  exact absurd hwithin.ends (by decide)

end ModuleLint
