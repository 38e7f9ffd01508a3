/-
ModuleLint/Proofs/Grammar/Nesting.lean

How high the limit of nesting lets derivations grow.  Each level of nesting adds a few nodes
above each other, most of them where a statement holds a block: `If`, its branch and the
block.  `Reader.AtMost n` says of a reader that what it takes is at most `n` nodes high, links
not counted; the walk through the grammar adds up what one level contributes, and induction
on the levels does the rest.

Main result: `Reader.AtMost.module`.
-/
import ModuleLint.Grammar.Parse
import ModuleLint.Proofs.Tree.Height

namespace ModuleLint

open Grammar
open ModuleLint.Derivation

namespace Reader

/-- **What a reader takes is at most so many nodes high**, links not counted. -/
def AtMost (n : Nat) (r : Reader) : Prop :=
  ∀ ahead items rest, r ahead = .ok (items, rest) → heightAll items ≤ n

namespace AtMost

variable {m n : Nat} {r r' : Reader} {kind : NodeKind}

theorem mono (h : AtMost m r) (hle : m ≤ n) : AtMost n r :=
  fun ahead items rest hr => Nat.le_trans (h ahead items rest hr) hle

/-! ### Ways of putting readers together -/

theorem pass : AtMost n pass := by
  intro ahead items rest hr
  cases hr
  exact Nat.zero_le n

theorem stop (expected : Expected) : AtMost n (stop expected) := nofun

theorem take : AtMost n take := by
  intro ahead items rest hr
  cases ahead <;> cases hr <;> exact Nat.zero_le n

theorem andThen (h : AtMost n r) (h' : AtMost n r') : AtMost n (r >> r') := by
  intro ahead items rest hr
  change Reader.andThen r r' ahead = _ at hr
  unfold Reader.andThen at hr
  split at hr
  · cases hr
  · rename_i found behind hfirst
    split at hr
    · cases hr
    · rename_i more last hsecond
      cases hr
      rw [heightAll_append]
      exact Nat.max_le.mpr ⟨h _ _ _ hfirst, h' _ _ _ hsecond⟩

/-- A node is one higher than its items. -/
theorem node (kind : NodeKind) (h : AtMost n r) : AtMost (n + 1) (node kind r) := by
  intro ahead items rest hr
  unfold Reader.node at hr
  split at hr
  · cases hr
  · rename_i found behind hfound
    cases hr
    have hle := h _ _ _ hfound
    have hweight := kind.weight_le_one
    rw [heightAll_singleton, height, heightAll, Nat.zero_max]
    omega

theorem peek {choice : Option TokenKind → Reader} (h : ∀ next, AtMost n (choice next)) :
    AtMost n (peek choice) :=
  fun ahead => h ahead.head? ahead

theorem ifAhead (test : List TokenKind → Bool) (h : AtMost n r) (h' : AtMost n r') :
    AtMost n (ifAhead test r r') := by
  intro ahead items rest hr
  unfold Reader.ifAhead at hr
  split at hr
  · exact h _ _ _ hr
  · exact h' _ _ _ hr

theorem manyFrom {test : List TokenKind → Bool} (h : AtMost n r) (turns : List TokenKind)
    {found : List Derivation} (hfound : heightAll found ≤ n) :
    AtMost n (manyFrom test r turns found) := by
  -- the items are found in reverse, which makes them no higher
  have hreverse : heightAll found.reverse ≤ n :=
    heightAll_le_iff.mpr fun d hd => heightAll_le_iff.mp hfound d (List.mem_reverse.mp hd)
  induction turns generalizing found with
  | nil =>
    intro ahead items rest hr
    cases hr
    exact hreverse
  | cons t turns ih =>
    intro ahead items rest hr
    unfold Reader.manyFrom at hr
    split at hr
    · split at hr
      · cases hr
      · rename_i more behind hmore
        have hnext : heightAll (more.reverse ++ found) ≤ n := by
          refine heightAll_le_iff.mpr fun d hd => ?_
          rcases List.mem_append.mp hd with hd | hd
          · exact heightAll_le_iff.mp (h _ _ _ hmore) d (List.mem_reverse.mp hd)
          · exact heightAll_le_iff.mp hfound d hd
        refine ih hnext (heightAll_le_iff.mpr fun d hd => ?_) _ _ _ hr
        exact heightAll_le_iff.mp hnext d (List.mem_reverse.mp hd)
    · cases hr
      exact hreverse

theorem many (test : List TokenKind → Bool) (h : AtMost n r) : AtMost n (many test r) :=
  fun ahead => manyFrom h ahead (show heightAll [] ≤ n from Nat.zero_le n) ahead

theorem wrap {choice : Option TokenKind → Except Expected (NodeKind × Reader)} (h : AtMost n r)
    (hchoice : ∀ next kind content, choice next = .ok (kind, content) → AtMost n content) :
    AtMost (n + 1) (wrap r choice) := by
  intro ahead items rest hr
  unfold Reader.wrap at hr
  split at hr
  · cases hr
  · rename_i lead behind hlead
    split at hr
    · cases hr
    · rename_i kind content hkind
      split at hr
      · cases hr
      · rename_i more last hmore
        cases hr
        have hfirst := h _ _ _ hlead
        have hsecond := hchoice _ _ _ hkind _ _ _ hmore
        have hweight := kind.weight_le_one
        rw [heightAll_singleton, height]
        omega

/-- A link is no higher than what it holds, so a chain is no higher than its parts. -/
theorem chainFrom {step : TokenKind → Option (NodeKind × Reader)}
    (hstep : ∀ next kind content, step next = some (kind, content) →
      kind.isLink = true ∧ AtMost n content)
    (turns : List TokenKind) {lead : List Derivation} (hlead : heightAll lead ≤ n) :
    AtMost n (chainFrom step turns lead) := by
  induction turns generalizing lead with
  | nil =>
    intro ahead items rest hr
    cases hr
    exact hlead
  | cons t turns ih =>
    intro ahead items rest hr
    unfold Reader.chainFrom at hr
    split at hr
    · cases hr
      exact hlead
    · rename_i kind content hnext
      split at hr
      · cases hr
      · rename_i more behind hmore
        obtain ⟨next, -, hs⟩ := Option.bind_eq_some_iff.mp hnext
        obtain ⟨hlink, hcontent⟩ := hstep next kind content hs
        refine ih ?_ _ _ _ hr
        rw [heightAll_singleton, height, NodeKind.weight, if_pos hlink, Nat.zero_add]
        exact Nat.max_le.mpr ⟨hlead, hcontent _ _ _ hmore⟩

theorem chain {step : TokenKind → Option (NodeKind × Reader)} (h : AtMost n r)
    (hstep : ∀ next kind content, step next = some (kind, content) →
      kind.isLink = true ∧ AtMost n content) : AtMost n (chain r step) := by
  intro ahead items rest hr
  unfold Reader.chain at hr
  split at hr
  · cases hr
  · rename_i lead behind hlead
    exact chainFrom hstep behind (h _ _ _ hlead) _ _ _ hr

theorem ifNext (test : TokenKind → Bool) (h : AtMost n r) (h' : AtMost n r') :
    AtMost n (ifNext test r r') :=
  ifAhead _ h h'

theorem accept (kind : TokenKind) : AtMost n (accept kind) := ifNext _ take pass

theorem expectAs (kind : TokenKind) (expected : Expected) : AtMost n (expectAs kind expected) :=
  ifNext _ take (stop expected)

theorem expect (kind : TokenKind) : AtMost n (expect kind) := expectAs kind _

theorem word (keyword : Keyword) : AtMost n (word keyword) := expect _

theorem commaSeparated (h : AtMost n r) : AtMost n (commaSeparated r) :=
  andThen h (many _ (andThen take h))

theorem deeper {inner : Option Level} {content : Level → Reader}
    (h : ∀ level, inner = some level → AtMost n (content level)) :
    AtMost n (deeper inner content) := by
  cases inner with
  | none => exact stop _
  | some level => exact h level rfl

/-! ### Primaries -/

theorem binary (isOperator : TokenKind → Bool) (h : AtMost n r) :
    AtMost n (binary isOperator r) := by
  refine chain h fun next kind content hstep => ?_
  split at hstep
  · cases hstep
    exact ⟨rfl, andThen take h⟩
  · cases hstep

theorem identifier : AtMost (n + 1) identifier := ifNext _ (node _ take) (stop _)

theorem memberName : AtMost (n + 1) memberName := ifNext _ (node _ take) (stop _)

theorem argumentList (h : AtMost n r) : AtMost (n + 1) (argumentList r) := by
  refine node _ (andThen (expect _) (ifNext _ take ?_))
  exact andThen (commaSeparated (ifNext _ pass h)) (expect _)

theorem newExpression (h : AtMost n r) : AtMost (n + 2) (newExpression r) := by
  refine node _ (andThen take (peek fun next => ?_))
  split
  · exact andThen (node _ take) (ifNext _ (argumentList h) pass)
  · exact argumentList h
  · exact stop _

theorem ternary (h : AtMost n r) : AtMost (n + 1) (ternary r) := by
  refine node _ (andThen take (andThen (expect _) (andThen h ?_)))
  exact andThen (expect _) (andThen h (andThen (expect _) (andThen h (expect _))))

theorem parenthesised (h : AtMost n r) : AtMost (n + 1) (parenthesised r) :=
  node _ (andThen take (andThen h (expect _)))

theorem primary (h : AtMost n r) : AtMost (n + 2) (primary r) := by
  refine peek fun next => ?_
  split
  · exact identifier
  · exact node _ (many _ take)
  · exact (parenthesised h).mono (Nat.le_succ _)
  · exact (ternary h).mono (Nat.le_succ _)
  · exact newExpression h
  · split
    · exact node _ take
    · exact stop _
  · exact stop _

/-- Members, items and results are links, so what follows a primary adds nothing. -/
theorem suffixed (h : AtMost n r) : AtMost (n + 2) (suffixed r) := by
  refine chain (primary h) fun next kind content hstep => ?_
  split at hstep
  · cases hstep
    exact ⟨rfl, andThen take memberName⟩
  · cases hstep
    exact ⟨rfl, andThen take (andThen (h.mono (Nat.le_add_right _ _)) (expect _))⟩
  · cases hstep
    exact ⟨rfl, (argumentList h).mono (Nat.le_succ _)⟩
  · cases hstep

end AtMost

end Reader

/-! ### One level of nesting -/

/-- What can be read at a level is at most so high: an operand `e` nodes, a statement `s`. -/
structure Level.AtMost (e s : Nat) (level : Level) : Prop where
  negated : Reader.AtMost e level.negated
  signed : Reader.AtMost e level.signed
  statement : Reader.AtMost s level.statement

namespace Reader.AtMost

variable {e s : Nat} {inner : Option Level}
  (hi : ∀ level, inner = some level → level.AtMost e s)
include hi

theorem expression : AtMost e (Grammar.expression inner) :=
  deeper fun level hlevel => binary _ (binary _ (hi level hlevel).negated)

theorem signed : AtMost (e + 2) (signed inner) := by
  refine ifNext _ (deeper fun level hlevel => ?_) (suffixed (expression hi))
  exact (node _ (andThen take (hi level hlevel).signed)).mono (Nat.le_succ _)

theorem comparison : AtMost (e + 2) (comparison inner) :=
  binary _ (binary _ (binary _ (signed hi)))

theorem negated : AtMost (e + 2) (negated inner) := by
  refine ifNext _ (deeper fun level hlevel => ?_) (comparison hi)
  exact (node _ (andThen take (hi level hlevel).negated)).mono (Nat.le_succ _)

theorem block (ends : List Keyword) : AtMost (s + 1) (block inner ends) :=
  deeper fun level hlevel => node _ (many _ (ifNext _ take (hi level hlevel).statement))

omit hi in
theorem varDeclaration : AtMost (s + 2) varDeclaration :=
  node _ (andThen take (andThen (commaSeparated (andThen identifier (accept _))) (accept _)))

theorem directive : AtMost (e + 2) (directive inner) := by
  refine node _ (andThen take (andThen identifier (ifNext _ ?_ pass)))
  exact argumentList (expression hi)

theorem parameter : AtMost (e + 3) (parameter inner) := by
  refine node _ (andThen (many _ (directive hi)) (andThen (accept _) (andThen identifier ?_)))
  exact ifNext _ (andThen take ((expression hi).mono (Nat.le_add_right _ _))) pass

theorem parameterList : AtMost (e + 4) (parameterList inner) :=
  node _ (andThen (expect _) (ifNext _ take
    (andThen (commaSeparated (parameter hi)) (expect _))))

variable (hes : e ≤ s)
include hes

/-- An expression stands where a block could, which is higher. -/
theorem expression_of_le : AtMost (s + 1) (Grammar.expression inner) :=
  (expression hi).mono (by omega)

theorem methodContent (finish : Keyword) : AtMost (s + 4) (methodContent inner finish) := by
  refine andThen take (andThen identifier (andThen ((parameterList hi).mono (by omega)) ?_))
  exact andThen (accept _) (andThen ((block hi _).mono (by omega)) (expectAs _ _))

theorem method : AtMost (s + 5) (method inner) := by
  refine wrap (andThen (many _ ((directive hi).mono (by omega))) (accept _))
    fun next kind content h => ?_
  split at h
  · cases h
    exact methodContent hi hes _
  · cases h
    exact methodContent hi hes _
  · cases h

theorem condition : AtMost (s + 1) (condition inner) := by
  refine andThen take (andThen (expression_of_le hi hes) ?_)
  exact andThen (word _) (block hi _)

theorem ifStatement : AtMost (s + 3) (ifStatement inner) := by
  refine node _ (andThen (node _ (condition hi hes)) ?_)
  refine andThen (many _ (node _ (condition hi hes))) (andThen ?_ (word _))
  exact ifNext _ (node _ (andThen take (block hi _))) pass

omit hes in
theorem loopBody : AtMost (s + 1) (loopBody inner) :=
  andThen (word _) (andThen (block hi _) (word _))

theorem whileStatement : AtMost (s + 2) (whileStatement inner) :=
  node _ (andThen take (andThen (expression_of_le hi hes) (loopBody hi)))

theorem forStatement : AtMost (s + 2) (forStatement inner) := by
  refine ifAhead _ (node _ ?_) (node _ ?_)
  · refine andThen take (andThen take (andThen identifier ?_))
    exact andThen (word _) (andThen (expression_of_le hi hes) (loopBody hi))
  · refine andThen take (andThen identifier (andThen (expect _) ?_))
    refine andThen (expression_of_le hi hes) (andThen (word _) ?_)
    exact andThen (expression_of_le hi hes) (loopBody hi)

omit hes in
theorem tryStatement : AtMost (s + 3) (tryStatement inner) := by
  refine node _ (andThen take (andThen ((block hi _).mono (Nat.le_succ _)) ?_))
  exact andThen (node _ (andThen (word _) (block hi _))) (word _)

theorem optionalExpression : AtMost (s + 1) (optionalExpression inner) := by
  refine peek fun next => ?_
  split
  · exact pass
  · split
    · exact pass
    · exact expression_of_le hi hes

theorem handlerStatement (kind : NodeKind) : AtMost (s + 2) (handlerStatement inner kind) := by
  refine node _ (andThen take (andThen (expression_of_le hi hes) ?_))
  exact andThen (expect _) (expression_of_le hi hes)

theorem simpleStatement : AtMost (s + 3) (simpleStatement inner) := by
  refine wrap (ifNext _ ((signed hi).mono (by omega))
    ((suffixed (expression hi)).mono (by omega))) fun next kind content h => ?_
  split at h
  · cases h
    exact andThen take ((expression_of_le hi hes).mono (Nat.le_succ _))
  · cases h
    exact pass

/-- **A statement** is at most three nodes higher than one a level deeper. -/
theorem statement : AtMost (s + 3) (statement inner) := by
  refine peek fun next => ?_
  split
  · exact ifStatement hi hes
  · exact (whileStatement hi hes).mono (Nat.le_succ _)
  · exact (forStatement hi hes).mono (Nat.le_succ _)
  · exact tryStatement hi
  · exact varDeclaration.mono (Nat.le_succ _)
  · exact (node _ (andThen take (optionalExpression hi hes))).mono (Nat.le_succ _)
  · refine (node _ (andThen take (ifNext _ ?_ (optionalExpression hi hes)))).mono (Nat.le_succ _)
    exact (argumentList (expression hi)).mono (by omega)
  · exact (node _ (andThen take (expression_of_le hi hes))).mono (Nat.le_succ _)
  · exact node _ (andThen take (andThen (expect _) identifier))
  · exact node _ take
  · exact node _ take
  · exact (handlerStatement hi hes _).mono (Nat.le_succ _)
  · exact (handlerStatement hi hes _).mono (Nat.le_succ _)
  · exact node _ (andThen take (andThen identifier (expect _)))
  · exact simpleStatement hi hes

/-- **One level of nesting** adds at most two nodes to an operand and three to a statement. -/
theorem levelOver : (levelOver inner).AtMost (e + 2) (s + 3) :=
  ⟨negated hi, signed hi, statement hi hes⟩

theorem declaration : AtMost (s + 5) (declaration inner) :=
  ifNext _ ((varDeclaration (s := s)).mono (by omega)) (method hi hes)

/-! ### All levels, and modules -/

omit hi hes

theorem level (n : Nat) : (level n).AtMost (2 * n + 2) (3 * n + 3) := by
  induction n with
  | zero => exact levelOver (fun _ hlevel => nomatch hlevel) (Nat.le_refl 0)
  | succ n ih => exact levelOver (fun _ hlevel => Option.some.inj hlevel ▸ ih) (by omega)

theorem below (n : Nat) :
    ∀ level, below n = some level → level.AtMost (2 * n) (3 * n) := by
  intro level hlevel
  cases n with
  | zero => cases hlevel
  | succ n => exact Option.some.inj hlevel ▸ Reader.AtMost.level n

/-- **A module is at most so high**, where `n` levels of nesting may be opened. -/
theorem module (n : Nat) : AtMost (3 * n + 6) (module (Grammar.below n)) := by
  have hle : 2 * n ≤ 3 * n := by omega
  refine node _ (andThen (many _ (declaration (below n) hle)) ?_)
  exact (block (below n) _).mono (by omega)

end Reader.AtMost

end ModuleLint
