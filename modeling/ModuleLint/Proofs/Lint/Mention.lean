/-
ModuleLint/Proofs/Lint/Mention.lean

What it means that a branch mentions the platform.  A place is guarded if the text of a
branch around it holds the guard word; the text is that of all tokens with nothing between
them, so no single token needs to hold the word (`not_forall_token_mentions`).  But the grammar
leaves only two ways to spread the word over several tokens (`Tree.Mention`): statements
without a semicolon between them, each of which is met by the next one, and the variable,
the `In` and the collection in the header of a loop.

Main result: `mention_of_isGuarded`, for every source that parses and each place that the
default settings take for guarded.
-/
import ModuleLint.Proofs.Lexical.Spread
import ModuleLint.Proofs.Lint.Guarding
import ModuleLint.Proofs.Tree.Gaps

namespace ModuleLint

namespace Tree

/-- **How a branch mentions a word**, given in lower case. -/
inductive Mention (t : Tree) (word : List Char) (branch : Nat) : Prop
  /-- A token of the branch holds it. -/
  | token {token : Token} (htoken : token ∈ t.tokensOf branch)
      (hword : word <:+: foldText token.text)
  /-- It is spread over statements, of which each ends where the next one begins. -/
  | statements {first stop : Nat} (hfirst : t.firstToken branch ≤ first)
      (hstop : stop ≤ t.endToken branch) (hspread : SpreadOver word (t.tokensOver first stop))
      (hmeet : ∀ i, first < i → i < stop →
        ∃ block, t.Above branch block ∧ t.StatementsMeet block i)
  /-- It is spread over the variable of a loop, `In`, and the collection. -/
  | header {loop : Nat} (habove : t.Above branch loop)
      (hloop : t.kind? loop = some .forEachStatement)
      (hspread : SpreadOver word (t.tokensOver (t.firstToken loop + 2) (t.firstToken loop + 5)))

namespace Derived

variable {t : Tree} {source : List Char} {content : List Derivation}

theorem munched (h : t.Derived source content) {token : Token}
    (htoken : token ∈ t.lexed.tokens.toList) : token.Munched :=
  munched_of_tokenize h.lexed (Array.mem_toList_iff.mp htoken)

/-- **Where the guard word is spread over tokens below a branch**, statements meet, or there
is the header of a loop. -/
theorem exists_gap_of_spread (h : t.Derived source content) {branch first : Nat}
    (hkind : t.kind? branch = some .ifBranch) {run : List Token}
    (hmunched : ∀ token ∈ run, token.Munched) (hspread : SpreadOver guardWord run)
    (hkinds : run.map Token.kind <+: t.lexed.kinds.drop first)
    (hfirst : t.firstToken branch ≤ first) (hend : first + run.length ≤ t.endToken branch)
    {i : Nat} (hi : first < i) (hstop : i < first + run.length) :
    ∃ gap, t.Above branch gap ∧ (t.StatementsMeet gap i ∨
      t.kind? gap = some .forEachStatement ∧
        (i = t.firstToken gap + 3 ∨ i = t.firstToken gap + 4)) := by
  obtain ⟨n, rfl⟩ := Nat.exists_eq_add_of_le (Nat.le_of_lt hi)
  have hopen := hspread.openAt hmunched (n := n) (by omega) (by omega)
  rw [openAt_iff_openAt hkinds (by omega) (by rw [List.length_map]; omega)] at hopen
  obtain ⟨gap, hwhere, hgap⟩ := h.exists_gap hkind (by decide) (by omega) (by omega) hopen
  rcases hwhere with rfl | habove
  · -- the branch is neither a block nor a loop
    rcases hgap with ⟨hblock, -⟩ | ⟨hloop, -⟩
    · rw [hblock] at hkind
      cases hkind
    · rw [hloop] at hkind
      cases hkind
  · exact ⟨gap, habove, hgap⟩

/-- **In the header of a loop** the guard word is spread over three tokens: the variable, `In`
and the collection. -/
theorem spread_header (h : t.Derived source content) {loop first : Nat}
    (hloop : t.kind? loop = some .forEachStatement) {run : List Token}
    (hmunched : ∀ token ∈ run, token.Munched) (hspread : SpreadOver guardWord run)
    (hkinds : run.map Token.kind <+: t.lexed.kinds.drop first) {i : Nat} (hi : first < i)
    (hstop : i < first + run.length)
    (hheader : i = t.firstToken loop + 3 ∨ i = t.firstToken loop + 4) :
    first = t.firstToken loop + 2 ∧ run.length = 3 := by
  obtain ⟨hin, hshut⟩ := h.header hloop
  obtain ⟨n, hn⟩ := Nat.exists_eq_add_of_le (show first ≤ t.firstToken loop + 3 by omega)
  -- `In` is one of the tokens, and so the second one
  obtain ⟨more, hmore⟩ := hkinds
  rw [hn, ← List.getElem?_drop, ← hmore, List.getElem?_append_left (by rw [List.length_map]; omega),
    List.getElem?_map] at hin
  obtain ⟨token, htoken, hkind⟩ := Option.map_eq_some_iff.mp hin
  obtain ⟨rfl, hlength⟩ := hspread.in_second hmunched htoken hkind
  have hfirst : first = t.firstToken loop + 2 := by omega
  refine ⟨hfirst, ?_⟩
  -- a word that goes on behind the collection would run on over its first token
  by_contra hne
  have hopen := hspread.openAt hmunched (n := 3) (by decide) (by omega)
  rw [openAt_iff_openAt ⟨more, hmore⟩ (by decide) (by rw [List.length_map]; omega),
    hfirst] at hopen
  exact hshut hopen

/-- **A branch in whose text the guard word occurs mentions it** in one of these ways. -/
theorem mention_of_occurs (h : t.Derived source content) {branch : Nat}
    (hkind : t.kind? branch = some .ifBranch)
    (hword : guardWord <:+: foldText (t.text branch)) : t.Mention guardWord branch := by
  rcases mem_or_spread_of_occurs (by decide) hword with ⟨token, htoken, hin⟩ |
    ⟨before, run, behind, hsplit, hspread⟩
  · exact .token htoken hin
  -- the tokens that the word is spread over, among those of the source
  rw [tokensOf_eq, tokensOver] at hsplit
  have hdrop := List.take_append_drop (t.endToken branch - t.firstToken branch)
    (t.lexed.tokens.toList.drop (t.firstToken branch))
  rw [hsplit, List.append_assoc, List.append_assoc] at hdrop
  obtain ⟨first, hfirst⟩ : ∃ first, first = t.firstToken branch + before.length := ⟨_, rfl⟩
  obtain ⟨more, hfrom⟩ : ∃ more, t.lexed.tokens.toList.drop first = run ++ more :=
    ⟨_, by rw [hfirst, ← List.drop_drop, ← hdrop, List.drop_left]⟩
  have hrun : t.tokensOver first (first + run.length) = run := by
    rw [tokensOver, hfrom, Nat.add_sub_cancel_left, List.take_left]
  have hkinds : run.map Token.kind <+: t.lexed.kinds.drop first := by
    rw [Lexed.kinds, ← List.map_drop, hfrom, List.map_append]
    exact List.prefix_append _ _
  have hmunched : ∀ token ∈ run, token.Munched := fun token htoken =>
    h.munched (List.mem_of_mem_drop (hfrom ▸ List.mem_append_left _ htoken))
  have hend : first + run.length ≤ t.endToken branch := by
    have hlength := congrArg List.length hsplit
    have hpos : 0 < run.length := by cases hspread; simp
    simp only [List.length_take, List.length_append] at hlength
    omega
  have hgap := fun i => h.exists_gap_of_spread hkind hmunched hspread hkinds (i := i)
    (by omega) hend
  by_cases hmeet : ∀ i, first < i → i < first + run.length →
      ∃ block, t.Above branch block ∧ t.StatementsMeet block i
  · exact .statements (by omega) hend (hrun.symm ▸ hspread) hmeet
  · -- somewhere no statements meet, so there is the header of a loop
    simp only [not_forall] at hmeet
    obtain ⟨i, hi, hstop, hnone⟩ := hmeet
    obtain ⟨loop, habove, hmeets | ⟨hloop, hheader⟩⟩ := hgap i hi hstop
    · exact absurd ⟨loop, habove, hmeets⟩ hnone
    · obtain ⟨rfl, hlength⟩ := h.spread_header hloop hmunched hspread hkinds hi hstop hheader
      rw [hlength] at hrun
      exact .header habove hloop (hrun.symm ▸ hspread)

end Derived

end Tree

open UnixObject

theorem foldText_defaultGuardToken : foldText defaultGuardToken.toList = guardWord := by decide

/-! ### Words that no token holds -/

/-- A loop whose variable, `In` and collection spell the guard word together. -/
def spellingLoop : List Char :=
  "If a Then For Each L In ux_x86 Do b = New Mail; EndDo; EndIf;".toList

/-- The object in that loop is guarded, and no token of a branch around it holds the word. -/
theorem isGuarded_spellingLoop : ∃ t, parse spellingLoop = .ok t ∧
    isGuarded defaultGuardToken t 12 = true ∧
      ((t.ancestors 12).filter (t.hasKind .ifBranch)).all (fun branch =>
        (t.tokensOf branch).all fun token =>
          !containsFolded defaultGuardToken.toList token.text) = true := by
  have hrun : (parse spellingLoop).toOption.map (fun t => isGuarded defaultGuardToken t 12 &&
      ((t.ancestors 12).filter (t.hasKind .ifBranch)).all fun branch =>
        (t.tokensOf branch).all fun token =>
          !containsFolded defaultGuardToken.toList token.text) = some true := by decide +kernel
  obtain ⟨t, ht, hboth⟩ := exists_parse_of_map hrun
  exact ⟨t, ht, Bool.and_eq_true_iff.mp hboth⟩

/-- **A place can be guarded by a word that no token holds.** -/
theorem not_forall_token_mentions : ¬ ∀ (source : List Char) (t : Tree), parse source = .ok t →
    ∀ id, isGuarded defaultGuardToken t id = true → ∃ branch, t.Above branch id ∧
      t.kind? branch = some .ifBranch ∧ ∃ token ∈ t.tokensOf branch,
        foldText defaultGuardToken.toList <:+: foldText token.text := by
  intro hall
  obtain ⟨t, ht, hguarded, hnone⟩ := isGuarded_spellingLoop
  obtain ⟨branch, habove, hkind, token, htoken, hin⟩ := hall _ t ht 12 hguarded
  obtain ⟨content, hcontent⟩ := parse_derived ht
  have hbranch : branch ∈ (t.ancestors 12).filter (t.hasKind .ifBranch) :=
    List.mem_filter.mpr ⟨hcontent.outlined.mem_ancestors_iff.mpr habove, beq_iff_eq.mpr hkind⟩
  have hfree := List.all_eq_true.mp (List.all_eq_true.mp hnone branch hbranch) token htoken
  rw [containsFolded_iff.mpr hin] at hfree
  cases hfree

/-! ### All ways to mention the guard word -/

/-- **What guards a place by default** is a branch that mentions the guard word: in one token,
over statements that meet, or over the header of a loop. -/
theorem mention_of_isGuarded {source : List Char} {t : Tree} (h : parse source = .ok t) {id : Nat}
    (hguarded : isGuarded defaultGuardToken t id = true) :
    ∃ branch, t.Above branch id ∧ t.kind? branch = some .ifBranch ∧
      t.Mention (foldText defaultGuardToken.toList) branch := by
  obtain ⟨content, hcontent⟩ := parse_derived h
  obtain ⟨-, branch, habove, hkind, hin⟩ := (isGuarded_iff hcontent).mp hguarded
  rw [foldText_defaultGuardToken] at hin ⊢
  exact ⟨branch, habove, hkind, hcontent.mention_of_occurs hkind hin⟩

/-- Two statements without a semicolon between them that spell the guard word together. -/
def spellingStatements : List Char := "If a Then Linux _x86; b = New Mail; EndIf;".toList

theorem mention_spellingStatements : ∃ t, parse spellingStatements = .ok t ∧
    isGuarded defaultGuardToken t 12 = true ∧ ∃ branch, t.Above branch 12 ∧
      t.kind? branch = some .ifBranch ∧
        t.Mention (foldText defaultGuardToken.toList) branch := by
  have hrun : (parse spellingStatements).toOption.map (isGuarded defaultGuardToken · 12) =
      some true := by decide +kernel
  obtain ⟨t, ht, hguarded⟩ := exists_parse_of_map hrun
  exact ⟨t, ht, hguarded, mention_of_isGuarded ht hguarded⟩

end ModuleLint
