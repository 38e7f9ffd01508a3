/-
ModuleLint/Proofs/Grammar/Statements.lean

The statements of a block, and modules that are made of them.  A block holds what
`Grammar.statements` reads, a level of nesting deeper: semicolons and statements, one after
the other.  A module without declarations is one block of them.

Main results: `statements_eq_ok_iff` and `derive_eq_ok_iff`.
-/
import ModuleLint.Proofs.Grammar.Turns
import ModuleLint.Proofs.Grammar.Soundness
import ModuleLint.Proofs.Grammar.Climb
import ModuleLint.Proofs.Tree.Skeleton

namespace ModuleLint

open scoped Computability
open Production ModuleLint.Derivation

namespace Grammar

open Reader

/-- **What a block is made of**, up to one of the words that end it. -/
def statements (inner : Option Level) (ends : List Keyword) : Reader :=
  many (nextIs (continuesBlock ends)) (ifNext (· == .semicolon) take (statement inner))

variable {n : Nat} {ends : List Keyword} {ahead rest : List TokenKind} {items : List Derivation}

theorem block_eq (n : Nat) (ends : List Keyword) :
    block (below (n + 1)) ends = node .codeBlock (statements (below n) ends) := by
  rw [statements, ← statement_level]
  rfl

/-- A block reads what is in it, and needs a level of nesting for that. -/
theorem block_eq_ok_iff :
    block (below (n + 1)) ends ahead = .ok (items, rest) ↔
      ∃ ds, items = [.node .codeBlock [] ds] ∧
        statements (below n) ends ahead = .ok (ds, rest) := by
  rw [block_eq, node_eq, bind_eq_ok_iff]
  constructor
  · rintro ⟨ds, rest', hds, hnode⟩
    cases hnode
    exact ⟨ds, rfl, hds⟩
  · rintro ⟨ds, rfl, hds⟩
    exact ⟨ds, rest, hds, rfl⟩

/-- Each turn of a block takes a token. -/
theorem takesAt_statements (n : Nat) (ends : List Keyword) :
    TakesAt (fun ahead => nextIs (continuesBlock ends) ahead = true)
      (ifNext (· == .semicolon) take (statement (below n))) := by
  rw [← statement_level]
  exact (reads_semicolonOr (sound_level n)).at.takesAt visible_semicolonOr

/-- **The statements of a block, one turn at a time.** -/
theorem statements_eq (n : Nat) (ends : List Keyword) (ahead : List TokenKind) :
    statements (below n) ends ahead =
      if nextIs (continuesBlock ends) ahead then
        bind (ifNext (· == .semicolon) take (statement (below n)) ahead) fun items rest =>
          bind (statements (below n) ends rest) fun more rest => .ok (items ++ more, rest)
      else .ok ([], ahead) :=
  many_eq rfl (takesAt_statements n ends) ahead

/-- A block that no word ends goes on with every token. -/
theorem continuesBlock_nil (kind : TokenKind) : continuesBlock [] kind = true := by
  cases kind <;> rfl

/-- **Statements, of which the first one is not a semicolon.** -/
theorem statements_cons_iff {kind : TokenKind} {ds : List Derivation}
    (hcontinues : continuesBlock ends kind = true) (hkind : kind ≠ .semicolon) :
    statements (below n) ends (kind :: ahead) = .ok (ds, rest) ↔
      ∃ items middle more, statement (below n) (kind :: ahead) = .ok (items, middle) ∧
        statements (below n) ends middle = .ok (more, rest) ∧ ds = items ++ more := by
  have hnext : nextIs (continuesBlock ends) (kind :: ahead) = true := hcontinues
  rw [statements_eq, if_pos hnext,
    @ifNext_of_false (· == .semicolon) kind (beq_eq_false_iff_ne.mpr hkind)]
  simp only [bind_eq_ok_iff]
  constructor
  · rintro ⟨items, middle, hstatement, more, rest', hmore, heq⟩
    cases heq
    exact ⟨items, middle, more, hstatement, hmore, rfl⟩
  · rintro ⟨items, middle, more, hstatement, hmore, rfl⟩
    exact ⟨items, middle, hstatement, more, rest, hmore, rfl⟩

/-- **Statements behind a semicolon.** -/
theorem statements_semicolon_iff {ds : List Derivation} :
    statements (below n) ends (.semicolon :: ahead) = .ok (ds, rest) ↔
      ∃ more, statements (below n) ends ahead = .ok (more, rest) ∧
        ds = .token .semicolon :: more := by
  have hnext : nextIs (continuesBlock ends) (.semicolon :: ahead) = true := rfl
  rw [statements_eq, if_pos hnext,
    @ifNext_of_true (· == .semicolon) .semicolon rfl]
  rw [show take (.semicolon :: ahead) = .ok ([.token .semicolon], ahead) from rfl, bind_ok,
    bind_eq_ok_iff]
  constructor
  · rintro ⟨more, rest', hmore, heq⟩
    cases heq
    exact ⟨more, hmore, rfl⟩
  · rintro ⟨more, hmore, rfl⟩
    exact ⟨more, rest, hmore, rfl⟩

/-- **Statements one after the other**, with the semicolons between them, up to the end of
input. -/
inductive Sequence (n : Nat) : List TokenKind → List Derivation → Prop
  | nil : Sequence n [] []
  | skip {ahead : List TokenKind} {more : List Derivation} (hmore : Sequence n ahead more) :
      Sequence n (.semicolon :: ahead) (.token .semicolon :: more)
  | cons {kind : TokenKind} {ahead middle : List TokenKind} {items more : List Derivation}
      (hkind : kind ≠ .semicolon)
      (hitems : statement (below n) (kind :: ahead) = .ok (items, middle))
      (hmore : Sequence n middle more) : Sequence n (kind :: ahead) (items ++ more)

/-- **What a block reads up to the end of input** is a sequence of statements. -/
theorem sequence_of_statements {kinds : List TokenKind} {ds : List Derivation}
    (h : statements (below n) [] kinds = .ok (ds, [])) : Sequence n kinds ds := by
  -- by induction on the number of tokens, of which each turn takes one
  induction hn : kinds.length using Nat.strong_induction_on generalizing kinds ds with
  | h k ih =>
    subst hn
    rcases kinds with - | ⟨kind, ahead⟩
    · cases h
      exact .nil
    have hcontinues : continuesBlock [] kind = true := continuesBlock_nil kind
    by_cases hkind : kind = .semicolon
    · subst hkind
      obtain ⟨more, hmore, rfl⟩ := statements_semicolon_iff.mp h
      exact .skip (ih ahead.length (Nat.lt_succ_self _) hmore rfl)
    · obtain ⟨items, middle, more, hitems, hmore, rfl⟩ :=
        (statements_cons_iff hcontinues hkind).mp h
      have hturn : ifNext (· == .semicolon) take (statement (below n)) (kind :: ahead) =
          .ok (items, middle) := by
        rw [@ifNext_of_false (· == .semicolon) kind (beq_eq_false_iff_ne.mpr hkind), hitems]
      have hlt := takesAt_statements n [] (kind :: ahead) hcontinues items middle hturn
      exact .cons hkind hitems (ih middle.length hlt hmore rfl)

/-- **A sequence of statements is what a block reads** up to the end of input. -/
theorem statements_eq_ok_iff {kinds : List TokenKind} {ds : List Derivation} :
    statements (below n) [] kinds = .ok (ds, []) ↔ Sequence n kinds ds := by
  refine ⟨sequence_of_statements, fun h => ?_⟩
  induction h with
  | nil => rfl
  | skip _ ih => exact statements_semicolon_iff.mpr ⟨_, ih, rfl⟩
  | @cons kind _ _ _ _ hkind hitems _ ih =>
    exact (statements_cons_iff (continuesBlock_nil kind) hkind).mpr ⟨_, _, _, hitems, ih, rfl⟩

/-! ### Modules without declarations -/

/-- A declaration is a node. -/
theorem skeletonsAll_declaration (h : declaration (below n) ahead = .ok (items, rest)) :
    skeletonsAll items ≠ [] := by
  have hnode : ∀ shape, items.map symbol = [.node shape] → skeletonsAll items ≠ [] := by
    intro shape hword
    obtain ⟨d, rfl, hd⟩ := List.map_eq_singleton_iff.mp hword
    cases d with
    | token kind => cases hd
    | node kind lead more => exact List.cons_ne_nil _ _
  rcases (reads_declaration (sound_below n) ahead trivial _ _ h).word with (hword | hword) | hword
  · exact hnode _ hword
  · exact hnode _ hword
  · exact hnode _ hword

/-- Where a declaration begins, a module has one. -/
theorem beginsDeclaration_of_nil {kinds : List TokenKind}
    (h : many beginsDeclaration (declaration (below n)) kinds = .ok (items, rest))
    (hnone : skeletonsAll items = []) : beginsDeclaration kinds = false := by
  refine Bool.eq_false_iff.mpr fun hbegins => ?_
  rw [many_eq rfl (takesAt_declaration n), if_pos hbegins, bind_eq_ok_iff] at h
  obtain ⟨first, middle, hfirst, hmore⟩ := h
  obtain ⟨more, last, -, hall⟩ := bind_eq_ok_iff.mp hmore
  cases hall
  rw [skeletonsAll_append] at hnone
  exact skeletonsAll_declaration hfirst (List.append_eq_nil_iff.mp hnone).1

/-- **Where no declaration begins, a module is a block.** -/
theorem module_eq (n : Nat) {kinds : List TokenKind} (hbegins : beginsDeclaration kinds = false) :
    module (below n) kinds = Reader.bind (block (below n) [] kinds) fun more rest =>
      .ok ([.node .module [] more], rest) := by
  have hnone : many beginsDeclaration (declaration (below n)) kinds = .ok ([], kinds) :=
    manyFrom_stop kinds [] hbegins
  rw [module, node_eq, andThen_eq, hnone, bind_ok, bind_bind]
  rfl

/-- **Where no declaration begins, a module is one block** of statements. -/
theorem derive_eq_ok_iff {kinds : List TokenKind} (hbegins : beginsDeclaration kinds = false) :
    derive kinds = .ok items ↔
      ∃ ds, items = [.node .module [] [.node .codeBlock [] ds]] ∧
        statements (below (nestingLimit - 1)) [] kinds = .ok (ds, []) := by
  have hmodule := module_eq nestingLimit hbegins
  constructor
  · intro h
    unfold derive at h
    split at h
    · cases h
    · rename_i items' rest hread
      rw [hmodule, bind_eq_ok_iff] at hread
      obtain ⟨body, rest', hbody, hnode⟩ := hread
      cases hnode
      cases h
      obtain ⟨ds, rfl, hds⟩ := block_eq_ok_iff.mp hbody
      rw [block_rest (sound_below nestingLimit) hbody] at hds
      exact ⟨ds, rfl, hds⟩
  · rintro ⟨ds, rfl, hds⟩
    have hblock : block (below nestingLimit) [] kinds = .ok ([.node .codeBlock [] ds], []) :=
      block_eq_ok_iff.mpr ⟨ds, rfl, hds⟩
    rw [derive, hmodule, hblock]
    rfl

/-- **No declaration begins a module** that has one child. -/
theorem beginsDeclaration_of_derive {kinds : List TokenKind} {content : List Derivation}
    {k : Skeleton} (h : derive kinds = .ok [.node .module [] content])
    (hone : skeletonsAll content = [k]) : beginsDeclaration kinds = false := by
  unfold derive at h
  split at h
  · cases h
  · rename_i items rest hmodule
    cases h
    rw [module, node_eq, bind_eq_ok_iff] at hmodule
    obtain ⟨content, rest', hcontent, hnode⟩ := hmodule
    cases hnode
    obtain ⟨decls, middle, body, hdecls, hbody, rfl⟩ := andThen_ok hcontent
    obtain ⟨ds, rfl, -⟩ := block_eq_ok_iff.mp hbody
    -- the block is the one child, so there is no declaration in front of it
    rw [skeletonsAll_append] at hone
    obtain ⟨hnone, -⟩ := List.append_inj' (show skeletonsAll decls ++ [_] = [] ++ [k] from hone) rfl
    exact beginsDeclaration_of_nil hdecls hnone

end Grammar

end ModuleLint
