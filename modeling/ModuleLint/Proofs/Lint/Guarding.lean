/-
ModuleLint/Proofs/Lint/Guarding.lean

Which branch decides whether a place is guarded.  `UnixObject.isGuarded` asks every
conditional branch around a place whether its text mentions the guard token.  One of them
would be enough to ask, the outermost one: the tokens of a node are a part of those of any
node above it (`Derived.tokensOf_infix`), so the text of the outermost branch holds the
texts of all branches inside it.

Main result: `parse_outermostDecides`, for every source that parses.  Places with the same
outermost branch are then guarded together or not at all, and what lies below a guarded
place is guarded.
-/
import ModuleLint.Proofs.Lint.Exactness
import ModuleLint.Proofs.Tree.Spans

namespace ModuleLint

namespace Tree

/-! ### The text of a part -/

namespace Derived

variable {t : Tree} {source : List Char} {content : List Derivation}

/-- **The tokens of a node** follow each other among those of any node above it. -/
theorem tokensOf_infix (h : t.Derived source content) {above id : Nat} (ha : t.Above above id) :
    t.tokensOf id <:+: t.tokensOf above := by
  obtain ⟨hfirst, hend⟩ := h.range_of_above ha
  have hpart : t.tokensOf id = ((t.tokensOf above).drop
      (t.firstToken id - t.firstToken above)).take (t.endToken id - t.firstToken id) := by
    rw [tokensOf_eq, tokensOf_eq, tokensOver, tokensOver, List.drop_take, List.drop_drop,
      List.take_take, Nat.add_sub_cancel' hfirst, Nat.min_eq_left (by omega)]
  rw [hpart]
  exact (List.take_prefix _ _).isInfix.trans (List.drop_suffix _ _).isInfix

/-- The text of a node is a part of that of any node above it, up to case as well. -/
theorem foldText_infix (h : t.Derived source content) {above id : Nat} (ha : t.Above above id) :
    foldText (t.text id) <:+: foldText (t.text above) :=
  ((h.tokensOf_infix ha).flatMap Token.text).map foldChar

end Derived

/-! ### The outermost branch -/

/-- **The outermost conditional branch around a node**: any other one lies below it. -/
structure OutermostBranch (t : Tree) (branch id : Nat) : Prop where
  above : t.Above branch id
  kind : t.kind? branch = some .ifBranch
  outermost : ∀ other, t.Above other id → t.kind? other = some .ifBranch →
    other = branch ∨ t.Above branch other

namespace Derived

variable {t : Tree} {source : List Char} {content : List Derivation}

/-- Around a node below a branch there is an outermost one: the last branch that is met on
the way to the root. -/
theorem exists_outermostBranch (h : t.Derived source content) {branch id : Nat}
    (ha : t.Above branch id) (hk : t.kind? branch = some .ifBranch) :
    ∃ outer, t.OutermostBranch outer id := by
  have hmem_iff : ∀ {b : Nat}, b ∈ (t.ancestors id).filter (t.hasKind .ifBranch) ↔
      t.Above b id ∧ t.kind? b = some .ifBranch := by
    simp only [List.mem_filter, h.outlined.mem_ancestors_iff, hasKind, beq_iff_eq, implies_true]
  have hpairwise := (t.pairwise_ancestors id).filter (t.hasKind .ifBranch)
  rcases List.eq_nil_or_concat' ((t.ancestors id).filter (t.hasKind .ifBranch)) with
    hnil | ⟨inner, outer, heq⟩
  · have hmem := hmem_iff.mpr ⟨ha, hk⟩
    rw [hnil] at hmem
    cases hmem
  · rw [heq] at hmem_iff hpairwise
    obtain ⟨habove, hkind⟩ := hmem_iff.mp (List.mem_append_right inner List.mem_cons_self)
    refine ⟨outer, habove, hkind, fun other hother hotherKind => ?_⟩
    rcases List.mem_append.mp (hmem_iff.mpr ⟨hother, hotherKind⟩) with hinner | hsame
    · exact .inr ((List.pairwise_append.mp hpairwise).2.2 _ hinner _ (List.mem_singleton_self _))
    · exact .inl (List.mem_singleton.mp hsame)

/-- There is only one outermost branch. -/
theorem outermostBranch_unique (h : t.Derived source content) {a b id : Nat}
    (ha : t.OutermostBranch a id) (hb : t.OutermostBranch b id) : a = b := by
  rcases ha.outermost b hb.above hb.kind with heq | hab
  · exact heq.symm
  · rcases hb.outermost a ha.above ha.kind with heq | hba
    · exact heq
    · exact absurd (hab.trans hba) (h.outlined.not_above_self a)

end Derived

/-! ### Who decides -/

open UnixObject (isGuarded)

/-- **The outermost branch decides** which places of a tree are guarded. -/
structure OutermostDecides (t : Tree) : Prop where
  /-- A place below a branch has exactly one outermost branch around it. -/
  exists_unique : ∀ branch id, t.Above branch id → t.kind? branch = some .ifBranch →
    ∃! outer, t.OutermostBranch outer id
  /-- A place is guarded if and only if that branch mentions the guard token. -/
  guarded_iff : ∀ guardToken id, isGuarded guardToken t id = true ↔
    guardToken ≠ "" ∧ ∃ outer, t.OutermostBranch outer id ∧
      foldText guardToken.toList <:+: foldText (t.text outer)
  /-- Places with the same outermost branch are guarded together. -/
  together : ∀ guardToken outer a b, t.OutermostBranch outer a → t.OutermostBranch outer b →
    isGuarded guardToken t a = isGuarded guardToken t b
  /-- What lies below a guarded place is guarded. -/
  inherited : ∀ guardToken above id, t.Above above id → isGuarded guardToken t above = true →
    isGuarded guardToken t id = true

namespace Derived

variable {t : Tree} {source : List Char} {content : List Derivation}

/-- A place is guarded if and only if its outermost branch mentions the guard token. -/
theorem isGuarded_iff_outermost (h : t.Derived source content) {guardToken : String} {id : Nat} :
    isGuarded guardToken t id = true ↔ guardToken ≠ "" ∧ ∃ outer, t.OutermostBranch outer id ∧
      foldText guardToken.toList <:+: foldText (t.text outer) := by
  rw [UnixObject.isGuarded_iff h]
  refine and_congr_right fun _ => ⟨?_, ?_⟩
  · -- a branch that mentions the token lies in the outermost one, or is that
    rintro ⟨branch, ha, hk, hmention⟩
    obtain ⟨outer, houter⟩ := h.exists_outermostBranch ha hk
    refine ⟨outer, houter, ?_⟩
    rcases houter.outermost branch ha hk with rfl | hbelow
    · exact hmention
    · exact hmention.trans (h.foldText_infix hbelow)
  · rintro ⟨outer, houter, hmention⟩
    exact ⟨outer, houter.above, houter.kind, hmention⟩

theorem outermostDecides (h : t.Derived source content) : t.OutermostDecides where
  exists_unique branch id ha hk := by
    obtain ⟨outer, houter⟩ := h.exists_outermostBranch ha hk
    exact ⟨outer, houter, fun other hother => h.outermostBranch_unique hother houter⟩
  guarded_iff guardToken id := h.isGuarded_iff_outermost
  together guardToken outer a b ha hb := by
    -- both are guarded if and only if that one branch mentions the token
    have hiff : ∀ {id : Nat}, t.OutermostBranch outer id → (isGuarded guardToken t id = true ↔
        guardToken ≠ "" ∧ foldText guardToken.toList <:+: foldText (t.text outer)) := by
      intro id hid
      rw [h.isGuarded_iff_outermost]
      refine and_congr_right fun _ => ⟨?_, fun hmention => ⟨outer, hid, hmention⟩⟩
      rintro ⟨other, hother, hmention⟩
      rwa [h.outermostBranch_unique hother hid] at hmention
    exact Bool.eq_iff_iff.mpr ((hiff ha).trans (hiff hb).symm)
  inherited guardToken above id ha hguarded := by
    obtain ⟨hne, branch, hbranch, hk, hmention⟩ := (UnixObject.isGuarded_iff h).mp hguarded
    exact (UnixObject.isGuarded_iff h).mpr ⟨hne, branch, hbranch.trans ha, hk, hmention⟩

end Derived

end Tree

/-- **The outermost branch decides** in every tree that parsing returns. -/
theorem parse_outermostDecides {source : List Char} {t : Tree} (h : parse source = .ok t) :
    t.OutermostDecides := by
  obtain ⟨content, hcontent⟩ := parse_derived h
  exact hcontent.outermostDecides

/-- A branch inside another one, of which only the outer one mentions the platform. -/
def nestedBranches : List Char := "If Linux_x86 Then If a Then b=New Mail; EndIf; EndIf;".toList

/-- The object in the inner branch is guarded, by the outer one. -/
theorem parse_nestedBranches : ∃ t, parse nestedBranches = .ok t ∧ t.OutermostDecides ∧
    UnixObject.isGuarded UnixObject.defaultGuardToken t 12 = true := by
  have hrun : (parse nestedBranches).toOption.map
      (UnixObject.isGuarded UnixObject.defaultGuardToken · 12) = some true := by decide +kernel
  obtain ⟨t, ht, hguarded⟩ := exists_parse_of_map hrun
  exact ⟨t, ht, parse_outermostDecides ht, hguarded⟩

end ModuleLint
