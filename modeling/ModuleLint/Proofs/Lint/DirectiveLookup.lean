/-
ModuleLint/Proofs/Lint/DirectiveLookup.lean

Which directive counts at a line.  There are two places to look: the comment that begins on
the line itself, and the one that begins on the line before.  `Lookup` says what comes of
them, and what these comments are is told by the source (`Lexed.CommentOn`), where slashes in
a string literal or on a preprocessor line begin none.  A directive on the line itself comes
first, also if it gives no reason and the other one does.

Main result: `allowance_local`, that this is what is looked up, and that it depends on these
two comments alone (`LocalLookup`).
-/
import ModuleLint.Lint.Allowance
import ModuleLint.Proofs.Grammar.Parsed
import ModuleLint.Proofs.Lexical.Comments

namespace ModuleLint

variable {source source' : List Char} {t t' : Tree} {n line : Nat} {rule : List Char}
  {d : AllowDirective}

/-- A comment that begins on a line holds a directive that exempts from a rule: it lists the
rule, or `all`. -/
structure Lexed.Exempts (lexed : Lexed) (source : List Char) (line : Nat) (rule : List Char)
    (d : AllowDirective) : Prop where
  comment : ∃ comment, lexed.CommentOn source line comment ∧
    AllowDirective.ofComment? comment = some d
  listed : rule ∈ d.rules ∨ "all".toList ∈ d.rules

/-- **What is looked up at a line**: the directive on the line itself, else that on the line
before. -/
inductive Lookup (lexed : Lexed) (source : List Char) (n : Nat) (rule : List Char) :
    Allowance → Prop
  | own {d : AllowDirective} (h : lexed.Exempts source n rule d) :
    Lookup lexed source n rule (.allowed d.reason)
  | previous {d : AllowDirective} (hown : ∀ e, ¬ lexed.Exempts source n rule e)
      (h : lexed.Exempts source (n - 1) rule d) : Lookup lexed source n rule (.allowed d.reason)
  | denied (hown : ∀ e, ¬ lexed.Exempts source n rule e)
      (hprevious : ∀ e, ¬ lexed.Exempts source (n - 1) rule e) : Lookup lexed source n rule .denied

/-! ### One line -/

theorem AllowDirective.covers_iff :
    d.covers rule = true ↔ rule ∈ d.rules ∨ "all".toList ∈ d.rules := by
  rw [covers, Bool.or_eq_true, List.contains_iff_mem, List.contains_iff_mem]

/-- One comment at most is looked at. -/
theorem directiveOn_eq (h : tokenize source = .ok t.lexed) (line : Nat) (rule : List Char) :
    directiveOn t rule line = (t.commentsOnLine line).head?.bind fun comment =>
      (AllowDirective.ofComment? comment).filter fun d => d.covers rule := by
  have hone := length_commentsOnLine_le h line
  rw [directiveOn]
  cases hcomments : t.commentsOnLine line with
  | nil => rfl
  | cons comment more =>
    obtain rfl : more = [] := by
      rw [hcomments, List.length_cons] at hone
      exact List.eq_nil_of_length_eq_zero (by omega)
    rw [List.filterMap_cons, List.filterMap_nil, List.head?_cons, Option.bind_some]
    cases AllowDirective.ofComment? comment with
    | none => rfl
    | some d =>
      simp only [List.find?_cons, List.find?_nil, Option.filter_some]
      cases d.covers rule <;> rfl

/-- The comment that is looked at is the one that begins on the line. -/
theorem head?_commentsOnLine_iff (h : tokenize source = .ok t.lexed) {comment : List Char} :
    (t.commentsOnLine line).head? = some comment ↔ t.lexed.CommentOn source line comment := by
  have hone := length_commentsOnLine_le h line
  rw [← mem_commentsOnLine_iff h]
  constructor
  · exact List.mem_of_head?
  · intro hmem
    obtain ⟨front, behind, hsplit⟩ := List.append_of_mem hmem
    rw [hsplit, List.length_append, List.length_cons] at hone
    have hfront : front = [] := List.eq_nil_of_length_eq_zero (by omega)
    rw [hsplit, hfront]
    rfl

/-- **The directive on a line** is that of the comment that begins there. -/
theorem directiveOn_eq_some_iff (h : tokenize source = .ok t.lexed) :
    directiveOn t rule line = some d ↔ t.lexed.Exempts source line rule d := by
  simp only [directiveOn_eq h, Option.bind_eq_some_iff, Option.filter_eq_some_iff,
    head?_commentsOnLine_iff h, AllowDirective.covers_iff]
  constructor
  · rintro ⟨comment, hcomment, hdirective, hlisted⟩
    exact ⟨⟨comment, hcomment, hdirective⟩, hlisted⟩
  · rintro ⟨⟨comment, hcomment, hdirective⟩, hlisted⟩
    exact ⟨comment, hcomment, hdirective, hlisted⟩

theorem directiveOn_eq_none_iff (h : tokenize source = .ok t.lexed) :
    directiveOn t rule line = none ↔ ∀ d, ¬ t.lexed.Exempts source line rule d := by
  rw [Option.eq_none_iff_forall_ne_some]
  exact forall_congr' fun d => (directiveOn_eq_some_iff h).not

/-- No comment begins on a line before the first. -/
theorem Lexed.not_exempts_zero (lexed : Lexed) (source : List Char) (rule : List Char)
    (d : AllowDirective) : ¬ lexed.Exempts source 0 rule d := by
  rintro ⟨⟨comment, ⟨before, behind, -, hline⟩, -⟩, -⟩
  cases hline

/-! ### Both lines -/

/-- The line itself is looked at, then the one before. -/
theorem allowanceAt_eq (h : tokenize source = .ok t.lexed) (hn : 1 ≤ n) (rule : List Char) :
    allowanceAt t n rule =
      match directiveOn t rule n with
      | some d => .allowed d.reason
      | none =>
        match directiveOn t rule (n - 1) with
        | some d => .allowed d.reason
        | none => .denied := by
  have hnone : directiveOn t rule 0 = none :=
    (directiveOn_eq_none_iff h).mpr (t.lexed.not_exempts_zero source rule)
  have hlines : [n, n - 1].filter (fun m => m != 0) = n :: [n - 1].filter fun m => m != 0 :=
    List.filter_cons_of_pos (bne_iff_ne.mpr (Nat.ne_of_gt hn))
  rw [allowanceAt, hlines, List.findSome?_cons]
  cases directiveOn t rule n with
  | some d => rfl
  | none =>
    cases hprevious : n - 1 with
    | zero =>
      rw [hnone]
      rfl
    | succ m =>
      have hline : [m + 1].filter (fun m => m != 0) = [m + 1] := rfl
      cases hone : directiveOn t rule (m + 1) with
      | some d => simp [hline, hone]
      | none => simp [hline, hone]

/-- **What is looked up is what there is.** -/
theorem allowanceAt_eq_iff (h : tokenize source = .ok t.lexed) (hn : 1 ≤ n) {a : Allowance} :
    allowanceAt t n rule = a ↔ Lookup t.lexed source n rule a := by
  rw [allowanceAt_eq h hn]
  constructor
  · rintro rfl
    cases hown : directiveOn t rule n with
    | some d => exact .own ((directiveOn_eq_some_iff h).mp hown)
    | none =>
      have hown := (directiveOn_eq_none_iff h).mp hown
      cases hprevious : directiveOn t rule (n - 1) with
      | some d => exact .previous hown ((directiveOn_eq_some_iff h).mp hprevious)
      | none => exact .denied hown ((directiveOn_eq_none_iff h).mp hprevious)
  · intro hlookup
    cases hlookup with
    | own hown => rw [(directiveOn_eq_some_iff h).mpr hown]
    | previous hown hprevious =>
      rw [(directiveOn_eq_none_iff h).mpr hown, (directiveOn_eq_some_iff h).mpr hprevious]
    | denied hown hprevious =>
      rw [(directiveOn_eq_none_iff h).mpr hown, (directiveOn_eq_none_iff h).mpr hprevious]

/-- A lookup depends on the comments on the two lines alone. -/
theorem Lookup.congr {lexed lexed' : Lexed} {a : Allowance} (h : Lookup lexed source n rule a)
    (hsame : ∀ m, n ≤ m + 1 → m ≤ n → ∀ comment,
      lexed.CommentOn source m comment ↔ lexed'.CommentOn source' m comment) :
    Lookup lexed' source' n rule a := by
  have hexempts : ∀ {m d}, n ≤ m + 1 → m ≤ n →
      (lexed.Exempts source m rule d ↔ lexed'.Exempts source' m rule d) := by
    intro m d hlow hhigh
    constructor
    · rintro ⟨⟨comment, hcomment, hdirective⟩, hlisted⟩
      exact ⟨⟨comment, (hsame m hlow hhigh comment).mp hcomment, hdirective⟩, hlisted⟩
    · rintro ⟨⟨comment, hcomment, hdirective⟩, hlisted⟩
      exact ⟨⟨comment, (hsame m hlow hhigh comment).mpr hcomment, hdirective⟩, hlisted⟩
  have hown : ∀ {d}, lexed.Exempts source n rule d ↔ lexed'.Exempts source' n rule d :=
    hexempts (by omega) (by omega)
  have hprevious : ∀ {d}, lexed.Exempts source (n - 1) rule d ↔
      lexed'.Exempts source' (n - 1) rule d := hexempts (by omega) (by omega)
  cases h with
  | own h => exact .own (hown.mp h)
  | previous hnone h => exact .previous (fun e he => hnone e (hown.mpr he)) (hprevious.mp h)
  | denied hnone hnone' =>
    exact .denied (fun e he => hnone e (hown.mpr he)) fun e he => hnone' e (hprevious.mpr he)

/-- **A directive counts on its own line and the next**, and on no other. -/
structure LocalLookup (t : Tree) (source : List Char) : Prop where
  /-- At most one comment begins on a line, -/
  one : ∀ line, (t.commentsOnLine line).length ≤ 1
  /-- and it is one of the source. -/
  comments : ∀ line comment,
    comment ∈ t.commentsOnLine line ↔ t.lexed.CommentOn source line comment
  /-- The directive on the line counts, else the one on the line before. -/
  lookup : ∀ n, 1 ≤ n → ∀ rule a, allowanceAt t n rule = a ↔ Lookup t.lexed source n rule a
  /-- Two sources with the same comments on these two lines give the same answer. -/
  congr : ∀ n, 1 ≤ n → ∀ source' t', parse source' = .ok t' →
    (∀ m, n ≤ m + 1 → m ≤ n → ∀ comment,
      t.lexed.CommentOn source m comment ↔ t'.lexed.CommentOn source' m comment) →
    ∀ rule, allowanceAt t n rule = allowanceAt t' n rule
  /-- Where tokens and preprocessor lines hold all slashes on them, nothing is allowed. -/
  taken : ∀ n, 1 ≤ n → (∀ before behind, source = before ++ ("//".toList ++ behind) →
    n ≤ before.count '\n' + 2 → before.count '\n' + 1 ≤ n →
      t.lexed.TakenAt (byteLength before)) → ∀ rule, allowanceAt t n rule = .denied

/-- **Directives are looked up line by line** in every source that parses. -/
theorem allowance_local (h : parse source = .ok t) : LocalLookup t source := by
  obtain ⟨content, hcontent⟩ := parse_derived h
  have hlexed := hcontent.lexed
  refine ⟨length_commentsOnLine_le hlexed, fun _ _ => mem_commentsOnLine_iff hlexed,
    fun n hn rule a => allowanceAt_eq_iff hlexed hn, ?_, ?_⟩
  · intro n hn source' t' h' hsame rule
    obtain ⟨content', hcontent'⟩ := parse_derived h'
    have hlookup := (@allowanceAt_eq_iff source t n rule hlexed hn _).mp rfl
    exact ((allowanceAt_eq_iff hcontent'.lexed hn).mpr (hlookup.congr hsame)).symm
  · intro n hn htaken rule
    have hnone : ∀ m, n ≤ m + 1 → m ≤ n → ∀ d, ¬ t.lexed.Exempts source m rule d := by
      rintro m hlow hhigh d ⟨⟨comment, ⟨before, behind, hcomment, rfl⟩, -⟩, -⟩
      obtain ⟨note, hnote⟩ := hcomment.slashes
      refine hcomment.free (htaken before (note ++ behind) ?_ (by omega) (by omega))
      rw [hcomment.split, ← hnote, List.append_assoc]
    exact (allowanceAt_eq_iff hlexed hn).mpr
      (.denied (hnone n (by omega) (by omega)) (hnone (n - 1) (by omega) (by omega)))

/-- Slashes on a preprocessor line and in a text over two lines, then a directive with a reason
and on the next line one without. -/
def directedLines : List Char :=
  "#If Server // bsl-lint: allow(all)
a = \"x // bsl-lint: allow(all)
| // bsl-lint: allow(all)\"; // bsl-lint: allow(r) reason=\"old\"
b = 1; // bsl-lint: allow(r)
c = 1;
d = 1;".toList

/-- The directive on the line itself counts, although it gives no reason. -/
theorem allowance_directedLines : ∃ t, parse directedLines = .ok t ∧
    LocalLookup t directedLines ∧
    [1, 2, 3, 4, 5, 6].map (allowanceAt t · ['r']) =
      [.denied, .denied, .allowed (some "old".toList), .allowed none, .allowed none, .denied] := by
  have hrun : (parse directedLines).toOption.map
      (fun t => [1, 2, 3, 4, 5, 6].map (allowanceAt t · ['r'])) =
      some [.denied, .denied, .allowed (some "old".toList), .allowed none, .allowed none,
        .denied] := by
    decide +kernel
  obtain ⟨t, ht, hanswers⟩ := exists_parse_of_map hrun
  exact ⟨t, ht, allowance_local ht, hanswers⟩

end ModuleLint
