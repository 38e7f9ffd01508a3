/-
ModuleLint/Proofs/Grammar/Deepening.lean

More levels of nesting read no less.  What the grammar reads where it may open some levels
it reads in the same way where it may open more: the limit is the only thing that the number
of levels decides.

Main result: `Grammar.nested_refines`, from which the walk through the grammar draws the rest.
-/
import ModuleLint.Proofs.Grammar.Closure

namespace ModuleLint

namespace Reader

/-- **What the first reader reads, the second one reads as well**, and in the same way. -/
def Refines (r s : Reader) : Prop :=
  ∀ ahead items rest, r ahead = .ok (items, rest) → s ahead = .ok (items, rest)

variable {r s : Reader}

/-- Going on with what both readers read. -/
theorem Refines.bind (h : Refines r s) {ahead : List TokenKind}
    {next next' : List Derivation → List TokenKind → Except Stop (List Derivation × List TokenKind)}
    {found : List Derivation × List TokenKind} (hr : Reader.bind (r ahead) next = .ok found)
    (hnext : ∀ items rest, next items rest = .ok found → next' items rest = .ok found) :
    Reader.bind (s ahead) next' = .ok found := by
  obtain ⟨items, rest, hfirst, hfound⟩ := bind_eq_ok_iff.mp hr
  rw [h ahead items rest hfirst]
  exact hnext items rest hfound

theorem Refines.manyFrom (h : Refines r s) (test : List TokenKind → Bool)
    (turns : List TokenKind) (found : List Derivation) :
    Refines (manyFrom test r turns found) (manyFrom test s turns found) := by
  induction turns generalizing found with
  | nil => exact fun _ _ _ hr => hr
  | cons t turns ih =>
    intro ahead items rest hr
    by_cases htest : test ahead = true
    · rw [Reader.manyFrom, if_pos htest] at hr ⊢
      exact h.bind hr fun more rest' => ih (more.reverse ++ found) rest' items rest
    · rw [Reader.manyFrom, if_neg htest] at hr ⊢
      exact hr

theorem refines_chainFrom {step step' : TokenKind → Option (NodeKind × Reader)}
    (hstep : ∀ next, SameLink Refines next (step next) (step' next)) (turns : List TokenKind)
    (lead : List Derivation) :
    Refines (chainFrom step turns lead) (chainFrom step' turns lead) := by
  induction turns generalizing lead with
  | nil => exact fun _ _ _ hr => hr
  | cons t turns ih =>
    rintro (- | ⟨next, ahead⟩) items rest hr
    · exact hr
    · rw [chainFrom, List.head?_cons, Option.bind_some] at hr ⊢
      cases hlink : step next with
      | none =>
        have hsame := hstep next
        rw [hlink] at hsame hr
        generalize step' next = found at hsame ⊢
        cases hsame
        exact hr
      | some link =>
        obtain ⟨content, hcontent, hrefines, -⟩ := SameLink.of_some (hlink ▸ hstep next)
        rw [hlink] at hr
        rw [hcontent]
        exact hrefines.bind hr fun more rest' => ih [.node link.1 lead more] rest' items rest

theorem Refines.andThen {r' s' : Reader} (h : Refines r s) (h' : Refines r' s') :
    Refines (r >> r') (s >> s') := fun _ _ _ hr =>
  h.bind hr fun _ _ hmore => h'.bind hmore fun _ _ hlast => hlast

theorem Refines.node (kind : NodeKind) (h : Refines r s) : Refines (node kind r) (node kind s) :=
  fun _ _ _ hr => h.bind hr fun _ _ hlast => hlast

/-- **Reading no less is kept** by the ways of putting readers together. -/
theorem closed_refines : Closed Refines where
  pass := fun _ _ _ hr => hr
  stop := fun _ _ _ _ hr => hr
  take := fun _ _ _ hr => hr
  andThen := Refines.andThen
  node := fun kind _ _ h => h.node kind
  peek := fun h ahead => h ahead.head? ahead
  peekSecond := by
    intro test kind kind' r s r' s' h h' ahead items rest hr
    have htake : Refines take take := fun _ _ _ hr => hr
    unfold ifAhead at hr ⊢
    split
    · rename_i hsecond
      rw [if_pos hsecond] at hr
      exact (htake.andThen h).node kind ahead items rest hr
    · rename_i hsecond
      rw [if_neg hsecond] at hr
      exact (htake.andThen h').node kind' ahead items rest hr
  many := fun test _ _ h _ ahead => h.manyFrom (nextIs test) ahead [] ahead
  wrap := by
    intro r s choice choice' h hchoice ahead items rest hr
    refine h.bind hr fun lead rest' hnode => ?_
    cases hfound : choice rest'.head? with
    | error expected =>
      rw [hfound] at hnode
      cases hnode
    | ok link =>
      obtain ⟨content, hcontent, hrefines⟩ := SameNode.of_ok (hfound ▸ hchoice rest'.head?)
      rw [hfound] at hnode
      rw [hcontent]
      exact hrefines.bind hnode fun _ _ hlast => hlast
  chain := fun h hstep ahead items rest hr =>
    h.bind hr fun lead rest' => refines_chainFrom hstep rest' lead rest' items rest

end Reader

namespace Grammar

open Reader

/-- **What may open more levels reads no less.** -/
theorem nested_refines {m n : Nat} (h : m ≤ n) : Level.Nested Refines (below m) (below n) := by
  induction m generalizing n with
  | zero => exact ⟨sound_below 0, fun content content' _ ahead items rest hr => nomatch hr⟩
  | succ m ih =>
    obtain ⟨n, rfl⟩ : ∃ k, n = k + 1 := Nat.exists_eq_succ_of_ne_zero (by omega)
    exact closed_refines.nested_succ (ih (Nat.le_of_succ_le_succ h))

end Grammar

end ModuleLint
