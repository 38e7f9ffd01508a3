/-
ModuleLint/Proofs/Checked/Tree.lean

Questions about a tree with every operation checked.  An answer has no value (`none`) where a
node is looked up that is not there, where a range of tokens ends before it begins or behind
the last token, where a text is sliced out of the source between bytes that are no boundaries
of its characters, where a length would be negative, or where nodes are still to be met after
as many turns as there are nodes.

Main result: `Checked.parse_safe`.  On every source tokenizing and parsing have a value, and on
every tree that parsing returns each question about a node or a line has one; all are those of
the unchecked functions.

Lookups are in range because what a node lists, and its parent, are nodes again
(`OutlinedBy.parent?_of_mem`, `OutlinedBy.exists_child`); slices are, because a token has the
text of the source between its bytes (`slice?_token`).
-/
import ModuleLint.Proofs.Checked.Grammar
import ModuleLint.Proofs.Tree.WellFormed

namespace ModuleLint

open Outline

namespace Checked

section

variable (t : Tree)

/-! ### Questions -/

/-- The parent of a node, which has to be there. -/
def parent (id : Nat) : Option (Option Nat) := (t.nodes[id]?).map Node.parent

/-- The children of a node, which has to be there. -/
def children (id : Nat) : Option (List Nat) := (t.nodes[id]?).map Node.children

/-- The first of some nodes that is of the given kind; each of them is looked up until then. -/
def firstOfKind (kind : NodeKind) : List Nat → Option (Option Nat)
  | [] => some none
  | id :: rest => do
    let found ← t.kind? id
    if found == kind then return some id else firstOfKind kind rest

/-- The first child of the given kind. -/
def childOfKind (id : Nat) (kind : NodeKind) : Option (Option Nat) := do
  let ids ← children t id
  firstOfKind t kind ids

/-- The chain of parents from a given start; each of them is looked up. -/
def chain : Nat → Option Nat → Option (List Nat)
  | 0, _ => some []
  | _, none => some []
  | n + 1, some id => do
    let next ← parent t id
    let rest ← chain n next
    return id :: rest

/-- The strict ancestors of a node. -/
def ancestors (id : Nat) : Option (List Nat) := do
  let next ← parent t id
  chain t t.size next

/-- The nodes met from a stack; the stack has to be empty behind the last turn. -/
def meet : Nat → List Nat → Option (List Nat)
  | _, [] => some []
  | 0, _ :: _ => none
  | n + 1, id :: stack => do
    let ids ← children t id
    let rest ← meet n (ids ++ stack)
    return id :: rest

/-- A node and all nodes below it. -/
def descendants (id : Nat) : Option (List Nat) := meet t t.size [id]

/-- The tokens from `first` up to, not with, `stop`. -/
def tokensBetween (first stop : Nat) : Option (List Token) :=
  if first ≤ stop ∧ stop ≤ t.lexed.tokens.size then
    some (t.lexed.tokens.extract first stop).toList
  else none

/-- Slices a text for each range out of the source. -/
def slices : List ByteRange → Option (List (List Char))
  | [] => some []
  | r :: rest => do
    let text ← slice? t.source r.start r.stop
    let texts ← slices rest
    return text :: texts

/-- **The text of a node**, sliced out of the source token by token. -/
def text (id : Nat) : Option (List Char) := do
  let node ← t.nodes[id]?
  let tokens ← tokensBetween t node.firstToken node.endToken
  let texts ← slices t (tokens.map Token.range)
  return texts.flatten

/-- A difference that must not be negative. -/
def difference (m n : Nat) : Option Nat := if n ≤ m then some (m - n) else none

/-- **The part of the source that a node covers.** -/
def span (id : Nat) : Option Span := do
  let node ← t.nodes[id]?
  let last := (difference node.endToken 1).bind (t.lexed.tokens[·]?)
  match t.lexed.tokens[node.firstToken]?, last with
  | some a, some z =>
    if node.firstToken < node.endToken then
      let length ← difference z.stop a.position.offset
      return ⟨a.position.offset, length, a.position.line, a.position.column⟩
    else return ⟨a.position.offset, 0, a.position.line, a.position.column⟩
  | some a, none => return ⟨a.position.offset, 0, a.position.line, a.position.column⟩
  | none, _ => return t.endSpan

/-- The comments that begin on a line, sliced out of the source. -/
def commentsOnLine (line : Nat) : Option (List (List Char)) :=
  let comments := t.lexed.trivia.toList.filter fun c =>
    c.kind == .comment && c.position.line == line
  slices t (comments.map Trivia.range)

/-- **Every question has an answer**, for each node and each line, which is the unchecked one. -/
structure Answers : Prop where
  kind : ∀ id < t.size, ∃ kind, t.kind? id = some kind
  parent : ∀ id < t.size, parent t id = some (t.parent? id)
  children : ∀ id < t.size, children t id = some (t.children id)
  childOfKind : ∀ id < t.size, ∀ kind, childOfKind t id kind = some (t.childOfKind? id kind)
  ancestors : ∀ id < t.size, ancestors t id = some (t.ancestors id)
  descendants : ∀ id < t.size, descendants t id = some (t.descendants id)
  text : ∀ id < t.size, text t id = some (t.text id)
  span : ∀ id < t.size, span t id = some (t.span id)
  commentsOnLine : ∀ line, commentsOnLine t line = some (t.commentsOnLine line)

end

variable {t : Tree} {o : Outline} {id : Nat}

/-! ### Nodes -/

theorem exists_node (hid : id < t.size) : ∃ node, t.nodes[id]? = some node :=
  ⟨_, Array.getElem?_eq_getElem hid⟩

theorem parent_eq (hid : id < t.size) : parent t id = some (t.parent? id) := by
  obtain ⟨node, hnode⟩ := exists_node hid
  rw [parent, Tree.parent?, hnode]
  rfl

theorem children_eq (hid : id < t.size) : children t id = some (t.children id) := by
  obtain ⟨node, hnode⟩ := exists_node hid
  rw [children, Tree.children, hnode]
  rfl

/-- Looking for a kind among nodes finds what is found without checks. -/
theorem firstOfKind_eq {kind : NodeKind} {ids : List Nat} (h : ∀ id ∈ ids, id < t.size) :
    firstOfKind t kind ids = some (ids.find? (t.hasKind kind)) := by
  induction ids with
  | nil => rfl
  | cons id rest ih =>
    obtain ⟨node, hnode⟩ := exists_node (h id List.mem_cons_self)
    have hkind : t.kind? id = some node.kind := by rw [Tree.kind?, hnode, Option.map_some]
    have hrest := ih fun c hc => h c (List.mem_cons_of_mem _ hc)
    have htest : t.hasKind kind id = (node.kind == kind) := by
      rw [Tree.hasKind, hkind]
      rfl
    rw [firstOfKind, hkind, hrest, List.find?_cons, htest, Option.bind_eq_bind, Option.bind_some]
    cases node.kind == kind with
    | true => rfl
    | false => rfl

/-- A parent is a node. -/
theorem lt_of_parent? (h : t.OutlinedBy o) {p : Nat} (hp : t.parent? id = some p) : p < t.size := by
  obtain ⟨x, hx, c, -, rfl, -⟩ := h.exists_child hp
  exact h.number_lt hx

/-- All parents on a chain are looked up where they are. -/
theorem chain_eq (h : t.OutlinedBy o) (n : Nat) {next : Option Nat}
    (hnext : ∀ p, next = some p → p < t.size) : chain t n next = some (t.chain n next) := by
  induction n generalizing next with
  | zero => rfl
  | succ n ih =>
    cases next with
    | none => rfl
    | some p =>
      rw [chain, parent_eq (hnext p rfl), Option.bind_eq_bind, Option.bind_some,
        ih fun q hq => lt_of_parent? h hq]
      rfl

/-- **No more nodes are met than there are**, and each of them is there: the stack is empty
after as many turns as there are nodes below it. -/
theorem meet_eq (h : t.OutlinedBy o) (n : Nat) (stack : List Outline)
    (hstack : ∀ x ∈ stack, x ∈ o.preorder) (hn : (preorderAll stack).length ≤ n) :
    meet t n (stack.map number) = some (t.meet n (stack.map number)) := by
  induction n generalizing stack with
  | zero =>
    cases stack with
    | nil => rfl
    | cons x rest =>
      rw [preorderAll_cons, preorder_eq] at hn
      exact absurd hn (Nat.not_succ_le_zero _)
  | succ n ih =>
    cases stack with
    | nil => rfl
    | cons x rest =>
      have hx : x ∈ o.preorder := hstack x List.mem_cons_self
      have hnext : ∀ y ∈ x.children ++ rest, y ∈ o.preorder := by
        intro y hy
        rcases List.mem_append.mp hy with hy | hy
        · exact child_mem_preorder hx hy
        · exact hstack y (List.mem_cons_of_mem _ hy)
      have hless : (preorderAll (x.children ++ rest)).length ≤ n := by
        rw [preorderAll_cons, preorder_eq, List.cons_append, List.length_cons] at hn
        rw [preorderAll_append]
        exact Nat.le_of_succ_le_succ hn
      rw [List.map_cons, meet, children_eq (h.number_lt hx), h.children_eq hx, Tree.meet,
        h.children_eq hx, Option.bind_eq_bind, Option.bind_some, ← List.map_append,
        ih _ hnext hless]
      rfl

theorem descendants_eq (h : t.OutlinedBy o) (hid : id < t.size) :
    descendants t id = some (t.descendants id) := by
  obtain ⟨x, hx, rfl⟩ := h.exists_number hid
  have hlength : (preorderAll [x]).length ≤ t.size := by
    rw [preorderAll_cons, preorderAll_nil, List.append_nil, ← h.length_preorder]
    exact (preorder_contiguous hx).length_le
  exact meet_eq h t.size [x] (by simpa using hx) hlength

/-! ### Texts and places -/

theorem slices_eq {α : Type} {range : α → ByteRange} {text : α → List Char} {items : List α}
    (h : ∀ a ∈ items, slice? t.source (range a).start (range a).stop = some (text a)) :
    slices t (items.map range) = some (items.map text) := by
  induction items with
  | nil => rfl
  | cons a items ih =>
    rw [List.map_cons, slices, h a List.mem_cons_self,
      ih fun b hb => h b (List.mem_cons_of_mem _ hb)]
    rfl

/-- A difference that is not negative is what truncated subtraction gives. -/
theorem difference_eq {m n : Nat} (h : n ≤ m) : difference m n = some (m - n) := if_pos h

/-- **The ranges of tokens are in order and in bounds**, and the source has their texts. -/
theorem text_eq (hlexed : ModuleLint.tokenize t.source = .ok t.lexed) (hid : id < t.size)
    (hordered : t.firstToken id ≤ t.endToken id) (hend : t.endToken id ≤ t.lexed.tokens.size) :
    text t id = some (t.text id) := by
  obtain ⟨node, hnode⟩ := exists_node hid
  rw [Tree.firstToken, Tree.endToken, hnode, Option.map_some, Option.getD_some] at hordered
  rw [Tree.endToken, hnode, Option.map_some, Option.getD_some] at hend
  have htokens : tokensBetween t node.firstToken node.endToken = some (t.tokensOf id) := by
    rw [tokensBetween, if_pos ⟨hordered, hend⟩, Tree.tokensOf, hnode]
  have htexts : slices t ((t.tokensOf id).map Token.range) =
      some ((t.tokensOf id).map Token.text) := by
    refine slices_eq fun token htoken => slice?_token hlexed ?_
    simp only [Tree.tokensOf, hnode, Array.toList_extract, List.extract_eq_take_drop] at htoken
    exact Array.mem_toList_iff.mp (List.mem_of_mem_drop (List.mem_of_mem_take htoken))
  rw [text, hnode, Option.bind_eq_bind, Option.bind_some, htokens]
  simp only [Option.bind_eq_bind, Option.bind_some, htexts]
  rfl

/-- **The last token of a node ends no earlier than the first one begins.** -/
theorem span_eq (hlexed : ModuleLint.tokenize t.source = .ok t.lexed) (hid : id < t.size) :
    span t id = some (t.span id) := by
  obtain ⟨node, hnode⟩ := exists_node hid
  rw [span, Tree.span, hnode, Option.bind_eq_bind, Option.bind_some]
  simp only [Tree.spanOver]
  cases ha : t.lexed.tokens[node.firstToken]? with
  | none => rfl
  | some a =>
    by_cases hlt : node.firstToken < node.endToken
    · rw [difference_eq (Nat.lt_of_le_of_lt (Nat.zero_le _) hlt), Option.bind_some]
      cases hz : t.lexed.tokens[node.endToken - 1]? with
      | none => rfl
      | some z =>
        have hle := offset_le_stop hlexed (Nat.le_sub_one_of_lt hlt) ha hz
        simp only [if_pos hlt, difference_eq hle]
        rfl
    · -- an empty range has no length, whatever is looked up as its last token
      simp only [if_neg hlt]
      generalize (difference node.endToken 1).bind (t.lexed.tokens[·]?) = last
      generalize t.lexed.tokens[node.endToken - 1]? = last'
      cases last with
      | none =>
        cases last' with
        | none => rfl
        | some z => rfl
      | some z =>
        cases last' with
        | none => rfl
        | some z => rfl

theorem commentsOnLine_eq (hlexed : ModuleLint.tokenize t.source = .ok t.lexed) (line : Nat) :
    commentsOnLine t line = some (t.commentsOnLine line) :=
  slices_eq fun _ hc =>
    slice?_trivia hlexed (Array.mem_toList_iff.mp (List.mem_filter.mp hc).1)

/-! ### Trees that parsing returns -/

/-- **Every question about a parsed tree has an answer.** -/
theorem answers_of_parse {source : List Char} (h : ModuleLint.parse source = .ok t) :
    Answers t := by
  obtain ⟨content, hcontent⟩ := parse_derived h
  have hlexed : ModuleLint.tokenize t.source = .ok t.lexed := by
    rw [source_of_parse h]
    exact hcontent.lexed
  have houtlined := hcontent.outlined
  constructor
  case kind =>
    intro id hid
    obtain ⟨node, hnode⟩ := exists_node hid
    exact ⟨node.kind, by rw [Tree.kind?, hnode, Option.map_some]⟩
  case parent => exact fun id hid => parent_eq hid
  case children => exact fun id hid => children_eq hid
  case childOfKind =>
    intro id hid kind
    rw [childOfKind, children_eq hid, Option.bind_eq_bind, Option.bind_some]
    exact firstOfKind_eq fun c hc => (houtlined.parent?_of_mem hc).1
  case ancestors =>
    intro id hid
    rw [ancestors, parent_eq hid, Option.bind_eq_bind, Option.bind_some]
    exact chain_eq houtlined _ fun p hp => lt_of_parent? houtlined hp
  case descendants => exact fun id hid => descendants_eq houtlined hid
  case text =>
    exact fun id hid => text_eq hlexed hid (hcontent.ranges hid).1 (hcontent.endToken_le hid)
  case span => exact fun id hid => span_eq hlexed hid
  case commentsOnLine => exact commentsOnLine_eq hlexed

/-- **Nothing fails on any source**: tokenizing it, parsing it, and asking about the nodes and
lines of its tree. -/
theorem parse_safe (source : List Char) :
    tokenize source = some (ModuleLint.tokenize source) ∧
      parse source = some (ModuleLint.parse source) ∧
      ∀ t, ModuleLint.parse source = .ok t → Answers t :=
  ⟨tokenize_eq source, parse_eq source, fun _ ht => answers_of_parse ht⟩

theorem parse_safe_sample : ∃ t, ModuleLint.parse sample = .ok t ∧ Answers t := by
  obtain ⟨t, ht⟩ := parse_sample
  exact ⟨t, ht, (parse_safe sample).2.2 t ht⟩

end Checked

end ModuleLint
