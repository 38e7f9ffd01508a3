/-
ModuleLint/Proofs/Tree/Layout.lean

Laying derivations out in a forest.  `Derivation.outlineAll` says which outlines
come of some derivations when numbering goes on at `fresh` and reading at token
`first`: a node is numbered after its lead, whose nodes it adopts, and before its
further items.

Two relations between forests under construction carry the proof.

    Gains b b' width os       b' is b after `width` tokens, with the outlines `os`
                              below the innermost open node
    Opens b b' kind width os  b' is b with a node of some kind opened around the
                              outlines `os` of its lead

A node opened where it begins has an empty lead (`opens_start`); a node opened at a
checkpoint takes over what was laid out since (`Gains.opens_startAt`).  Closing it
turns `Opens` into `Gains` (`Opens.close`), and the main statement `gains_emitAll`
follows by induction on derivations.
-/
import ModuleLint.Proofs.Tree.Outline
import ModuleLint.Tree.Derivation

namespace ModuleLint

open Outline

/-! ### The outlines of derivations -/

namespace Derivation

/-- Induction on derivations: a property passes from the lead and the items of a node
to the node. -/
@[elab_as_elim, induction_eliminator]
theorem induct {P : Derivation → Prop} (token : ∀ kind, P (.token kind))
    (node : ∀ kind lead items, (∀ d ∈ lead, P d) → (∀ d ∈ items, P d) →
      P (.node kind lead items)) (d : Derivation) : P d := by
  refine @Derivation.rec P (fun ds => ∀ d ∈ ds, P d) token node ?_ ?_ d
  · simp
  · intro d rest hd hrest e he
    rcases List.mem_cons.mp he with rfl | he
    · exact hd
    · exact hrest e he

mutual

/-- **The outlines of a derivation**, of which there is one for a node and none for a
token. -/
def outline : Derivation → Nat → Nat → List Outline
  | .token _, _, _ => []
  | .node kind lead items, fresh, first =>
    let adopted := outlineAll lead fresh first
    let number := fresh + (preorderAll adopted).length
    let middle := first + (tokensAll lead).length
    [.node number kind first (middle + (tokensAll items).length)
      (adopted ++ outlineAll items (number + 1) middle)]

/-- The outlines of derivations that follow each other. -/
def outlineAll : List Derivation → Nat → Nat → List Outline
  | [], _, _ => []
  | d :: rest, fresh, first =>
    let own := outline d fresh first
    own ++ outlineAll rest (fresh + (preorderAll own).length) (first + (tokens d).length)

end

@[simp] theorem tokensAll_nil : tokensAll [] = [] := rfl

@[simp] theorem tokensAll_cons (d : Derivation) (rest : List Derivation) :
    tokensAll (d :: rest) = tokens d ++ tokensAll rest := rfl

@[simp] theorem tokensAll_append (ds es : List Derivation) :
    tokensAll (ds ++ es) = tokensAll ds ++ tokensAll es := by
  induction ds with
  | nil => rfl
  | cons d rest ih => simp [ih]

end Derivation

/-! ### What one step does to a forest -/

/-- A node with further children behind its own. -/
def Node.adopt (n : Node) (ids : List Nat) : Node :=
  { n with children := n.children ++ ids }

@[simp] theorem Node.adopt_nil (n : Node) : n.adopt [] = n := by
  simp [Node.adopt]

@[simp] theorem Node.adopt_adopt (n : Node) (ids more : List Nat) :
    (n.adopt ids).adopt more = n.adopt (ids ++ more) := by
  simp [Node.adopt]

namespace Builder

/-- The innermost open node is one of the nodes. -/
def Ready (b : Builder) : Prop :=
  ∀ p, b.opened.head? = some p → p < b.nodes.size

/-- What becomes of the entry under `i` when the innermost open node receives children. -/
def receive (b : Builder) (i : Nat) (ids : List Nat) (n : Node) : Node :=
  if b.opened.head? = some i then n.adopt ids else n

/-- **`b'` is `b` with outlines laid out** below its innermost open node, `width` tokens
further. -/
structure Gains (b b' : Builder) (width : Nat) (os : List Outline) : Prop where
  opened : b'.opened = b.opened
  tokens : b'.tokens = b.tokens + width
  size : b'.nodes.size = b.nodes.size + (preorderAll os).length
  numbers : ((preorderAll os).map number).Perm
    (List.range' b.nodes.size (preorderAll os).length)
  kept : ∀ i n, b.nodes[i]? = some n →
    b'.nodes[i]? = some (b.receive i (os.map number) n)
  stored : ∀ o ∈ os, Stored b'.nodes b.opened.head? o

/-- **`b'` is `b` with one more node open**, which holds the outlines of its lead. -/
structure Opens (b b' : Builder) (id : Nat) (kind : NodeKind) (width : Nat)
    (os : List Outline) : Prop where
  id_eq : id = b.nodes.size + (preorderAll os).length
  opened : b'.opened = id :: b.opened
  tokens : b'.tokens = b.tokens + width
  size : b'.nodes.size = id + 1
  numbers : ((preorderAll os).map number).Perm
    (List.range' b.nodes.size (preorderAll os).length)
  own : b'.nodes[id]? = some ⟨kind, b.opened.head?, os.map number, b.tokens, b.tokens⟩
  kept : ∀ i n, b.nodes[i]? = some n → b'.nodes[i]? = some (b.receive i [id] n)
  stored : ∀ o ∈ os, Stored b'.nodes (some id) o

/-! ### Gains add up -/

theorem Gains.refl (b : Builder) : Gains b b 0 [] where
  opened := rfl
  tokens := rfl
  size := rfl
  numbers := List.Perm.refl _
  kept := by
    intro i n hn
    simp [receive, hn]
  stored := by simp

theorem gains_token (b : Builder) : Gains b b.token 1 [] where
  opened := rfl
  tokens := rfl
  size := rfl
  numbers := List.Perm.refl _
  kept := by
    intro i n hn
    simp [receive, token, hn]
  stored := by simp

variable {b b₁ b₂ : Builder} {kind : NodeKind} {w₁ w₂ : Nat} {os₁ os₂ : List Outline}

/-- The numbers of nodes laid out lie behind those that were there. -/
theorem Gains.le_number (h : Gains b b₁ w₁ os₁) {o x : Outline} (ho : o ∈ os₁)
    (hx : x ∈ o.preorder) : b.nodes.size ≤ x.number := by
  have hmem : x.number ∈ (preorderAll os₁).map number :=
    List.mem_map_of_mem (mem_preorderAll.mpr ⟨o, ho, hx⟩)
  have := h.numbers.mem_iff.mp hmem
  exact (List.mem_range'_1.mp this).1

/-- The numbers of nodes laid out lie before those still to come. -/
theorem Gains.number_lt (h : Gains b b₁ w₁ os₁) {o x : Outline} (ho : o ∈ os₁)
    (hx : x ∈ o.preorder) : x.number < b₁.nodes.size := by
  have hmem : x.number ∈ (preorderAll os₁).map number :=
    List.mem_map_of_mem (mem_preorderAll.mpr ⟨o, ho, hx⟩)
  rw [h.size]
  exact (List.mem_range'_1.mp (h.numbers.mem_iff.mp hmem)).2

theorem Gains.size_notMem (h : Gains b b₁ w₁ os₁) : b₁.nodes.size ∉ os₁.map number := by
  intro hmem
  obtain ⟨o, ho, heq⟩ := List.mem_map.mp hmem
  have := h.number_lt ho (self_mem_preorder o)
  omega

theorem Gains.nodup (h : Gains b b₁ w₁ os₁) : ((preorderAll os₁).map number).Nodup :=
  h.numbers.nodup_iff.mpr List.nodup_range'

theorem Gains.ready (h : Gains b b₁ w₁ os₁) (hb : b.Ready) : b₁.Ready := by
  intro p hp
  rw [h.opened] at hp
  have := hb p hp
  rw [h.size]
  omega

/-- Only the innermost open node changes. -/
theorem receive_of_le (hb : b.Ready) {i : Nat} (hi : b.nodes.size ≤ i) (ids : List Nat)
    (n : Node) : b.receive i ids n = n := by
  unfold receive
  rw [if_neg]
  intro hp
  have := hb i hp
  omega

theorem Gains.trans (hb : b.Ready) (h₁ : Gains b b₁ w₁ os₁) (h₂ : Gains b₁ b₂ w₂ os₂) :
    Gains b b₂ (w₁ + w₂) (os₁ ++ os₂) where
  opened := by rw [h₂.opened, h₁.opened]
  tokens := by rw [h₂.tokens, h₁.tokens, Nat.add_assoc]
  size := by
    rw [h₂.size, h₁.size, preorderAll_append, List.length_append, Nat.add_assoc]
  numbers := by
    have h := h₂.numbers
    rw [h₁.size] at h
    rw [preorderAll_append, List.map_append, List.length_append, ← List.range'_append_1]
    exact h₁.numbers.append h
  kept := by
    intro i n hn
    rw [h₂.kept i _ (h₁.kept i n hn)]
    by_cases hp : b.opened.head? = some i <;> simp [receive, h₁.opened, hp]
  stored := by
    intro o ho
    -- what comes later changes no entry of the outlines that are there
    rcases List.mem_append.mp ho with ho | ho
    · refine (h₁.stored o ho).mono fun x hx n hn => ?_
      have hreceive : b₁.receive x.number (os₂.map number) n = n := by
        rw [receive, h₁.opened]
        exact receive_of_le hb (h₁.le_number ho hx) _ n
      rw [h₂.kept _ _ hn, hreceive]
    · rw [← h₁.opened]
      exact h₂.stored o ho

/-! ### Opening and closing a node -/

/-- A node that begins here has nothing to adopt. -/
theorem opens_start (hb : b.Ready) (kind : NodeKind) :
    Opens b (b.start kind) b.nodes.size kind 0 [] := by
  have hpushed : ∀ (i : Nat) (n : Node), b.nodes[i]? = some n →
      ∀ x, (b.nodes.push x)[i]? = some n := by
    intro i n hn x
    have hi : i < b.nodes.size := (Array.getElem?_eq_some_iff.mp hn).1
    rw [Array.getElem?_push, if_neg (by omega), hn]
  rcases hop : b.opened with - | ⟨p, rest⟩
  · refine ⟨rfl, ?_, ?_, ?_, List.Perm.refl _, ?_, ?_, by simp⟩
    · simp [start, hop]
    · simp [start, hop]
    · simp [start, hop]
    · simp [start, hop]
    · intro i n hn
      simp [start, hop, receive, hpushed i n hn]
  · have hp : p < b.nodes.size := hb p (by simp [hop])
    refine ⟨rfl, ?_, ?_, ?_, List.Perm.refl _, ?_, ?_, by simp⟩
    · simp [start, hop]
    · simp [start, hop]
    · simp [start, hop]
    · have hne : p ≠ b.nodes.size := by omega
      simp only [start, hop]
      rw [Array.getElem?_modify, if_neg hne, Array.getElem?_push, if_pos rfl]
      rfl
    · intro i n hn
      by_cases hip : p = i
      · simp [start, hop, receive, Array.getElem?_modify, hip, hpushed i n hn, Node.adopt]
      · simp [start, hop, receive, Array.getElem?_modify, hip, hpushed i n hn]

/-- Only the given nodes get a new parent. -/
theorem getElem?_reparent (nodes : Array Node) (ids : List Nat) (id i : Nat) :
    (reparent nodes ids id)[i]? =
      (nodes[i]?).map fun n => if i ∈ ids then { n with parent := some id } else n := by
  induction ids generalizing nodes with
  | nil => simp [reparent]
  | cons c rest ih =>
    have hstep : reparent nodes (c :: rest) id =
        reparent (nodes.modify c fun n => { n with parent := some id }) rest id := rfl
    rw [hstep, ih, Array.getElem?_modify]
    by_cases hci : c = i
    · subst hci
      rcases nodes[c]? with - | n <;> simp
    · have hic : ¬ i = c := fun h => hci h.symm
      simp [hci, hic]

theorem size_reparent (nodes : Array Node) (ids : List Nat) (id : Nat) :
    (reparent nodes ids id).size = nodes.size := by
  induction ids generalizing nodes with
  | nil => rfl
  | cons c rest ih =>
    have hstep : reparent nodes (c :: rest) id =
        reparent (nodes.modify c fun n => { n with parent := some id }) rest id := rfl
    rw [hstep, ih, Array.size_modify]

/-- The nodes after a node was opened at an earlier checkpoint, entry by entry: the
parent keeps the children it had then, and the new node holds the others. -/
theorem Gains.startAt_eq {p : Nat} {n : Node} {rest : List Nat} (hopen : b.opened = p :: rest)
    (hn : b.nodes[p]? = some n) (h : Gains b b₁ w₁ os₁) (kind : NodeKind) :
    b₁.startAt b.checkpoint kind =
      ⟨(reparent (b₁.nodes.push
          ⟨kind, some p, os₁.map number, b.tokens, b.tokens⟩) (os₁.map number) b₁.nodes.size).modify
          p fun q => { q with children := n.children ++ [b₁.nodes.size] },
        b₁.nodes.size :: b₁.opened, b₁.tokens⟩ := by
  have hmark : b.checkpoint = ⟨p, n.children.length, b.tokens⟩ := by
    simp [checkpoint, hopen, hn]
  have hsiblings : b₁.nodes[p]? = some (n.adopt (os₁.map number)) := by
    rw [h.kept p n hn]
    simp [receive, hopen]
  simp [startAt, hmark, hsiblings, Node.adopt]

/-- A node opened at the present moment is opened here. -/
theorem startAt_checkpoint (hb : b.Ready) (hopen : b.opened ≠ []) (kind : NodeKind) :
    b.startAt b.checkpoint kind = b.start kind := by
  obtain ⟨p, rest, hop⟩ := List.exists_cons_of_ne_nil hopen
  have hp : p < b.nodes.size := hb p (by rw [hop, List.head?_cons])
  have hn := Array.getElem?_eq_getElem hp
  rw [(Gains.refl b).startAt_eq hop hn kind, start, hop]
  simp only [List.map_nil, reparent, List.foldl_nil, List.head?_cons, Builder.mk.injEq, and_true]
  -- the parent is the only entry that changes, and it is there
  refine Array.ext_getElem? fun i => ?_
  rw [Array.getElem?_modify, Array.getElem?_modify]
  split
  · rename_i hi
    subst hi
    rw [Array.getElem?_push, if_neg (Nat.ne_of_lt hp), hn]
    rfl
  · rfl

/-- **A node opened at a checkpoint** adopts what was laid out since. -/
theorem Gains.opens_startAt (hb : b.Ready) (hopen : b.opened ≠ []) (h : Gains b b₁ w₁ os₁)
    (kind : NodeKind) :
    Opens b (b₁.startAt b.checkpoint kind) b₁.nodes.size kind w₁ os₁ := by
  obtain ⟨p, rest, hop⟩ := List.exists_cons_of_ne_nil hopen
  have hp : p < b.nodes.size := hb p (by simp [hop])
  obtain ⟨n, hn⟩ : ∃ n, b.nodes[p]? = some n := ⟨_, Array.getElem?_eq_getElem hp⟩
  have hle : ∀ {o x : Outline}, o ∈ os₁ → x ∈ o.preorder → b.nodes.size ≤ x.number :=
    fun ho hx => h.le_number ho hx
  have htop : ∀ i ∈ os₁.map number, b.nodes.size ≤ i := by
    intro i hi
    obtain ⟨o, ho, rfl⟩ := List.mem_map.mp hi
    exact hle ho (self_mem_preorder o)
  rw [h.startAt_eq hop hn kind]
  -- an entry that was there before the new node, other than the parent's
  have hentry : ∀ (i : Nat) (m : Node), b₁.nodes[i]? = some m → p ≠ i → ∀ x f,
      ((reparent (b₁.nodes.push x) (os₁.map number) b₁.nodes.size).modify p f)[i]? =
        some (if i ∈ os₁.map number then { m with parent := some b₁.nodes.size } else m) := by
    intro i m hm hpi x f
    have hi : i < b₁.nodes.size := (Array.getElem?_eq_some_iff.mp hm).1
    rw [Array.getElem?_modify, if_neg hpi, getElem?_reparent, Array.getElem?_push,
      if_neg (by omega), hm]
    rfl
  constructor
  case id_eq => exact h.size
  case opened => rw [h.opened]
  case tokens => exact h.tokens
  case size => rw [Array.size_modify, size_reparent, Array.size_push]
  case numbers => exact h.numbers
  case own =>
    have hpi : p ≠ b₁.nodes.size := by
      rw [h.size]
      omega
    rw [Array.getElem?_modify, if_neg hpi, getElem?_reparent, Array.getElem?_push,
      if_pos rfl, Option.map_some, if_neg h.size_notMem, hop]
    rfl
  case kept =>
    intro i m hm
    have hi : i < b.nodes.size := (Array.getElem?_eq_some_iff.mp hm).1
    have hnot : i ∉ os₁.map number := fun hmem => by
      have := htop i hmem
      omega
    -- the parent trades what was laid out since for the new node
    by_cases hpi : p = i
    · subst hpi
      obtain rfl : n = m := Option.some.inj (hn.symm.trans hm)
      have hi₁ : p ≠ b₁.nodes.size := by
        rw [h.size]
        omega
      rw [Array.getElem?_modify, if_pos rfl, getElem?_reparent, Array.getElem?_push, if_neg hi₁,
        h.kept p n hn]
      simp [receive, hop, hnot, Node.adopt]
    · have hkeep : b.receive i (os₁.map number) m = m := by
        simp [receive, hop, hpi]
      rw [hentry i m (by rw [h.kept i m hm, hkeep]) hpi, if_neg hnot]
      simp [receive, hop, hpi]
  case stored =>
    intro o ho
    have hne : ∀ {x : Outline}, b.nodes.size ≤ x.number → p ≠ x.number := by
      intro x hx
      omega
    refine (h.stored o ho).reparent (fun m hm => ?_) fun c hc x hx m hm => ?_
    · rw [hentry _ m hm (hne (hle ho (self_mem_preorder o))),
        if_pos (List.mem_map_of_mem ho)]
    · have hxo : x ∈ o.preorder := mem_preorder_iff.mpr (.inr ⟨c, hc, hx⟩)
      have hnot : x.number ∉ os₁.map number := by
        intro hmem
        obtain ⟨r, hr, heq⟩ := List.mem_map.mp hmem
        exact number_ne_of_below h.nodup ho hc hx hr heq.symm
      rw [hentry _ m hm (hne (hle ho hxo)), if_neg hnot]

variable {id : Nat}

theorem Opens.ready (h : Opens b b₁ id kind w₁ os₁) : b₁.Ready := by
  intro p hp
  rw [h.opened, List.head?_cons] at hp
  obtain rfl := Option.some.inj hp
  rw [h.size]
  exact Nat.lt_succ_self id

/-- The nodes of the lead are numbered before the node that holds them. -/
theorem Opens.number_lt (h : Opens b b₁ id kind w₁ os₁) {o x : Outline} (ho : o ∈ os₁)
    (hx : x ∈ o.preorder) : x.number < id := by
  have hmem : x.number ∈ (preorderAll os₁).map number :=
    List.mem_map_of_mem (mem_preorderAll.mpr ⟨o, ho, hx⟩)
  rw [h.id_eq]
  exact (List.mem_range'_1.mp (h.numbers.mem_iff.mp hmem)).2

/-- **Closing an open node** leaves an outline of it behind. -/
theorem Opens.close (h : Opens b b₁ id kind w₁ os₁) (h₂ : Gains b₁ b₂ w₂ os₂) :
    Gains b b₂.finish (w₁ + w₂)
      [.node id kind b.tokens (b.tokens + w₁ + w₂) (os₁ ++ os₂)] := by
  have hfinish : b₂.finish =
      ⟨b₂.nodes.modify id fun n => { n with endToken := b₂.tokens }, b.opened, b₂.tokens⟩ := by
    simp [finish, h₂.opened, h.opened]
  have hhead : b₁.opened.head? = some id := by rw [h.opened, List.head?_cons]
  -- no other entry changes when the node is closed
  have hentry : ∀ (i : Nat) (m : Node), b₁.nodes[i]? = some m → id ≠ i →
      b₂.finish.nodes[i]? = some m := by
    intro i m hm hi
    rw [hfinish]
    simp only
    rw [Array.getElem?_modify, if_neg hi, h₂.kept i m hm]
    simp [receive, hhead, hi]
  rw [hfinish] at hentry ⊢
  have hsize := h.id_eq
  constructor
  case opened => rfl
  case tokens =>
    simp only
    rw [h₂.tokens, h.tokens, Nat.add_assoc]
  case size =>
    simp only [Array.size_modify, preorderAll_cons, preorderAll_nil, preorder, List.append_nil,
      List.length_cons, preorderAll_append, List.length_append]
    rw [h₂.size, h.size]
    omega
  case numbers =>
    have hboth : ((preorderAll (os₁ ++ os₂)).map number).Perm
        (List.range' b.nodes.size (preorderAll os₁).length ++
          List.range' (id + 1) (preorderAll os₂).length) := by
      have h₂ := h₂.numbers
      rw [h.size] at h₂
      rw [preorderAll_append, List.map_append]
      exact h.numbers.append h₂
    have hrange : List.range' b.nodes.size ((preorderAll os₁).length + (preorderAll os₂).length + 1)
        = List.range' b.nodes.size (preorderAll os₁).length ++
          id :: List.range' (id + 1) (preorderAll os₂).length := by
      rw [Nat.add_assoc, ← List.range'_append_1, ← h.id_eq]
      rfl
    simp only [preorderAll_cons, preorderAll_nil, preorder, List.append_nil, List.map_cons,
      List.length_cons, number]
    rw [show (preorderAll (os₁ ++ os₂)).length = _ by rw [preorderAll_append, List.length_append],
      hrange]
    exact (hboth.cons id).trans List.perm_middle.symm
  case kept =>
    intro i m hm
    have hi : i < b.nodes.size := (Array.getElem?_eq_some_iff.mp hm).1
    exact hentry i _ (h.kept i m hm) (by omega)
  case stored =>
    intro o ho
    obtain rfl := List.mem_singleton.mp ho
    refine stored_iff.mpr ⟨?_, ?_⟩
    · simp only [number]
      rw [Array.getElem?_modify, if_pos rfl, h₂.kept id _ h.own]
      simp [receive, hhead, Node.adopt, h₂.tokens, h.tokens, Outline.kind, first, stop, children]
    · intro c hc
      rcases List.mem_append.mp hc with hc | hc
      · refine (h.stored c hc).mono fun x hx m hm => hentry _ m hm ?_
        have := h.number_lt hc hx
        omega
      · have hstored := h₂.stored c hc
        rw [hhead] at hstored
        refine hstored.mono fun x hx m hm => ?_
        have hle := h₂.le_number hc hx
        rw [h.size] at hle
        simp only
        rw [Array.getElem?_modify, if_neg (by omega), hm]

end Builder

/-! ### Laying out -/

namespace Derivation

open Builder

/-- Derivations are laid out one after the other, if each of them can be. -/
theorem gains_emitAll_of (ds : List Derivation)
    (hds : ∀ d ∈ ds, ∀ b : Builder, b.Ready → b.opened ≠ [] →
      Gains b (emit d b) (tokens d).length (outline d b.nodes.size b.tokens))
    (b : Builder) (hb : b.Ready) (hopen : b.opened ≠ []) :
    Gains b (emitAll ds b) (tokensAll ds).length (outlineAll ds b.nodes.size b.tokens) := by
  induction ds generalizing b with
  | nil => exact Gains.refl b
  | cons d rest ih =>
    have h₁ := hds d List.mem_cons_self b hb hopen
    have h₂ := ih (fun e he => hds e (List.mem_cons_of_mem _ he)) (emit d b) (h₁.ready hb)
      (by rw [h₁.opened]; exact hopen)
    rw [h₁.size, h₁.tokens] at h₂
    rw [tokensAll_cons, List.length_append]
    exact h₁.trans hb h₂

theorem gains_emit (d : Derivation) (b : Builder) (hb : b.Ready) (hopen : b.opened ≠ []) :
    Gains b (emit d b) (tokens d).length (outline d b.nodes.size b.tokens) := by
  induction d generalizing b with
  | token kind => exact gains_token b
  | node kind lead items ihlead ihitems =>
    have hlead := gains_emitAll_of lead ihlead b hb hopen
    -- the node is opened, in one way or the other
    obtain ⟨opened, hemit, hopened⟩ : ∃ opened,
        emit (.node kind lead items) b = (emitAll items opened).finish ∧
          Opens b opened (emitAll lead b).nodes.size kind (tokensAll lead).length
            (outlineAll lead b.nodes.size b.tokens) := by
      rcases lead with - | ⟨d, rest⟩
      · exact ⟨b.start kind, rfl, opens_start hb kind⟩
      · exact ⟨(emitAll (d :: rest) b).startAt b.checkpoint kind, rfl,
          hlead.opens_startAt hb hopen kind⟩
    have hitems := gains_emitAll_of items ihitems opened hopened.ready (by simp [hopened.opened])
    have h := hopened.close hitems
    rw [hopened.size, hopened.tokens, hlead.size] at h
    rw [hemit]
    simpa [outline, tokens] using h

/-- **Laying out derivations** leaves their outlines below the node that is open. -/
theorem gains_emitAll (ds : List Derivation) (b : Builder) (hb : b.Ready)
    (hopen : b.opened ≠ []) :
    Gains b (emitAll ds b) (tokensAll ds).length (outlineAll ds b.nodes.size b.tokens) :=
  gains_emitAll_of ds (fun d _ => gains_emit d) b hb hopen

end Derivation

end ModuleLint
