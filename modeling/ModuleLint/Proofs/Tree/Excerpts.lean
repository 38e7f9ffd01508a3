/-
ModuleLint/Proofs/Tree/Excerpts.lean

Nodes as excerpts of the source.  The span of a node reaches from its first token to its
last one, so what it slices out of the source, blanks and comments and preprocessor lines
included, is an excerpt from one token to another (`tokenize_excerpt`).  Inside a node the
ranges of its children follow each other, so their tokens, and their texts with them, occur
there in order (`occurInOrder_tokensOver`).

Main result: `parse_excerpted`, for every source that parses.
-/
import ModuleLint.Proofs.Lexical.Excerpt
import ModuleLint.Proofs.Tree.Spans

namespace ModuleLint

/-! ### Parts of a list -/

section Parts

variable {α β : Type}

/-- **Parts occur in a list one after the other**, with gaps between them and behind the last
one. -/
inductive OccurInOrder : List (List α) → List α → Prop
  | nil (rest : List α) : OccurInOrder [] rest
  | cons (gap part : List α) {parts : List (List α)} {rest : List α}
      (h : OccurInOrder parts rest) : OccurInOrder (part :: parts) (gap ++ (part ++ rest))

/-- Parts still occur in order when each element is spelled out. -/
theorem OccurInOrder.flatMap {parts : List (List α)} {whole : List α} (h : OccurInOrder parts whole)
    (f : α → List β) : OccurInOrder (parts.map (List.flatMap f)) (whole.flatMap f) := by
  induction h with
  | nil rest => exact .nil _
  | cons gap part h ih =>
    rw [List.flatMap_append, List.flatMap_append]
    exact .cons _ _ ih

end Parts

namespace Tree

/-! ### Excerpts -/

/-- **A node is an excerpt of the source.** -/
structure Excerpted (t : Tree) (source : List Char) (id : Nat) : Prop where
  /-- Its span slices an excerpt out of the source, which is tokenized by itself and has the
  tokens of the node; their texts make up that of the node. -/
  excerpt : ∃ excerpt lexed,
    slice? source (t.span id).offset ((t.span id).offset + (t.span id).length) = some excerpt ∧
      tokenize excerpt = .ok lexed ∧
        lexed.tokens.toList.map Token.lexeme = (t.tokensOf id).map Token.lexeme ∧
          t.text id = lexed.tokens.toList.flatMap Token.text
  /-- The texts of its children occur in its own one after the other. -/
  children : OccurInOrder ((t.children id).map t.text) (t.text id)

variable {t : Tree} {id : Nat}

/-- What covers a token begins before it ends. -/
theorem firstToken_lt_of_tokensOf (h : t.tokensOf id ≠ []) : t.firstToken id < t.endToken id := by
  by_contra hge
  rw [tokensOf_eq, tokensOver, Nat.sub_eq_zero_of_le (Nat.le_of_not_lt hge)] at h
  exact h List.take_zero

/-- The tokens of nodes whose ranges follow each other in a range occur there in order. -/
theorem occurInOrder_tokensOver {first stop : Nat} {ids : List Nat} (hle : first ≤ stop)
    (hordered : ∀ c ∈ ids, t.firstToken c ≤ t.endToken c)
    (hnested : ∀ c ∈ ids, first ≤ t.firstToken c ∧ t.endToken c ≤ stop)
    (hsiblings : ids.Pairwise fun a b => t.endToken a ≤ t.firstToken b) :
    OccurInOrder (ids.map t.tokensOf) (t.tokensOver first stop) := by
  induction ids generalizing first with
  | nil => exact .nil _
  | cons c rest ih =>
    obtain ⟨hfirst, hstop⟩ := hnested c List.mem_cons_self
    obtain ⟨hbehind, hrest⟩ := List.pairwise_cons.mp hsiblings
    have hc := hordered c List.mem_cons_self
    -- the gap before the child, the child, and what comes behind it
    rw [← t.tokensOver_append hfirst (hc.trans hstop), ← t.tokensOver_append hc hstop,
      ← tokensOf_eq]
    refine .cons _ _ (ih hstop ?_ ?_ hrest)
    · intro d hd
      exact hordered d (List.mem_cons_of_mem _ hd)
    · intro d hd
      exact ⟨hbehind d hd, (hnested d (List.mem_cons_of_mem _ hd)).2⟩

namespace Derived

variable {source : List Char} {content : List Derivation}

/-- The texts of the children of a node occur in its own one after the other. -/
theorem occurInOrder_children (h : t.Derived source content) (hid : id < t.size) :
    OccurInOrder ((t.children id).map t.text) (t.text id) := by
  have hwell := h.wellFormed
  have htokens : OccurInOrder ((t.children id).map t.tokensOf) (t.tokensOf id) := by
    rw [tokensOf_eq]
    apply occurInOrder_tokensOver (hwell.ordered id hid)
    · intro c hc
      exact hwell.ordered c (hwell.child id c hc).1
    · exact hwell.nested id
    · exact hwell.siblings id
  have htexts := htokens.flatMap Token.text
  rw [List.map_map] at htexts
  exact htexts

/-- **The span of a node slices out its tokens.** -/
theorem exists_excerpt (h : t.Derived source content) (hid : id < t.size)
    (hcovers : t.firstToken id < t.endToken id) :
    ∃ excerpt lexed,
      slice? source (t.span id).offset ((t.span id).offset + (t.span id).length) = some excerpt ∧
        tokenize excerpt = .ok lexed ∧
          lexed.tokens.toList.map Token.lexeme = (t.tokensOf id).map Token.lexeme := by
  obtain ⟨a, z, ha, hz, hspan⟩ := h.exists_span hid hcovers
  have hsplit := t.tokens_split (Nat.le_of_lt hcovers)
  have hhead := (t.head?_tokensOver hcovers).trans ha
  have hlast := getLast?_tokensOver hcovers hz
  have hle := offset_le_stop h.lexed (by omega) ha hz
  rw [hspan, Nat.add_sub_cancel' hle, tokensOf_eq]
  exact tokenize_excerpt h.lexed hsplit hhead hlast

/-- Each node that covers a token is an excerpt of the source. -/
theorem excerpted (h : t.Derived source content) (hid : id < t.size)
    (hcovers : t.tokensOf id ≠ []) : t.Excerpted source id := by
  refine ⟨?_, h.occurInOrder_children hid⟩
  obtain ⟨excerpt, lexed, hslice, hlexed, hlexemes⟩ :=
    h.exists_excerpt hid (firstToken_lt_of_tokensOf hcovers)
  refine ⟨excerpt, lexed, hslice, hlexed, hlexemes, ?_⟩
  have htexts := congrArg (List.flatMap Prod.snd) hlexemes
  rw [List.flatMap_map, List.flatMap_map] at htexts
  exact htexts.symm

end Derived

end Tree

/-- **Spans and texts agree with the source** at every node that covers a token. -/
theorem parse_excerpted {source : List Char} {t : Tree} (h : parse source = .ok t) {id : Nat}
    (hid : id < t.size) (hcovers : t.tokensOf id ≠ []) : t.Excerpted source id := by
  obtain ⟨content, hcontent⟩ := parse_derived h
  exact hcontent.excerpted hid hcovers

/-- A procedure with preprocessor lines, a quote in a comment, and a text that goes on over the
line as a preprocessor line would. -/
def directed : List Char :=
  "Procedure P()\n#If Server Then\n// \"\nA = \"u\n|#v\"\"\"; // w\n#EndIf\nEndProcedure".toList

/-- The span of the procedure covers them, its text leaves out all but the tokens. -/
theorem parse_directed : ∃ t, parse directed = .ok t ∧ 1 < t.size ∧ t.tokensOf 1 ≠ [] ∧
    t.Excerpted directed 1 ∧ (t.span 1).length = 74 ∧
      t.text 1 = "ProcedureP()A=\"u\n|#v\"\"\";EndProcedure".toList := by
  have hrun : (parse directed).toOption.map (fun t =>
      (decide (1 < t.size), (t.tokensOf 1).isEmpty, (t.span 1).length, t.text 1)) =
      some (true, false, 74, "ProcedureP()A=\"u\n|#v\"\"\";EndProcedure".toList) := by
    decide +kernel
  obtain ⟨t, ht, hshown⟩ := exists_parse_of_map hrun
  simp only [Prod.mk.injEq] at hshown
  obtain ⟨hsize, hcovers, hlength, htext⟩ := hshown
  have hid := of_decide_eq_true hsize
  have htokens := List.isEmpty_eq_false_iff.mp hcovers
  exact ⟨t, ht, hid, htokens, parse_excerpted ht hid htokens, hlength, htext⟩

end ModuleLint
