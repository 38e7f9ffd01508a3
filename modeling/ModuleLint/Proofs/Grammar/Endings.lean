/-
ModuleLint/Proofs/Grammar/Endings.lean

Statements end before what may end them.  What is read up to the end of input is read in the
same way if a semicolon follows there, or one of the words that end blocks
(`Reader.EndsBefore`).  Only declared variables are different: they take a semicolon that
follows them.

A reader behind which a token is expected leaves something unread.  Nothing is to be shown of
it, because one token is all that it looks at behind what it takes.  So the walk is about the
readers that may stand last; blocks are not among them.

Main results: `statements_before`, statements that are read up to the end of input are read
before a word that ends their block; and `Sequence.append_semicolon`, for a semicolon and
further statements.
-/
import ModuleLint.Proofs.Grammar.Foresight
import ModuleLint.Proofs.Grammar.Statements
import ModuleLint.Proofs.Tree.Skeleton

namespace ModuleLint

open Production ModuleLint.Derivation

namespace Reader

/-- **A reader ends before a token** as it does at the end of input: it reads the same in
front of both, where what lies ahead satisfies `p`. -/
def EndsBefore (c : TokenKind) (p : List TokenKind → Prop) (r : Reader) : Prop :=
  ∀ ahead, p ahead → ∀ items middle, r ahead = .ok (items, middle) →
    ∀ rest, r (ahead ++ c :: rest) = .ok (items, middle ++ c :: rest)

/-- Anything may lie ahead. -/
abbrev Always : List TokenKind → Prop := fun _ => True

namespace EndsBefore

variable {c : TokenKind} {p q : List TokenKind → Prop} {r s : Reader}

theorem weaken (h : EndsBefore c q r) (hp : ∀ ahead, p ahead → q ahead) : EndsBefore c p r :=
  fun ahead hahead => h ahead (hp ahead hahead)

theorem everywhere (h : EndsBefore c Always r) : EndsBefore c p r := h.weaken fun _ _ => trivial

theorem pass : EndsBefore c p pass := by
  intro ahead _ items middle hr rest
  cases hr
  rfl

theorem stop (expected : Expected) : EndsBefore c p (stop expected) := nofun

/-- A token is taken only where there is one. -/
theorem take (hp : ¬ p []) : EndsBefore c p take := by
  rintro (- | ⟨kind, ahead⟩) hahead items middle hr rest
  · exact absurd hahead hp
  · cases hr
    rfl

theorem node (kind : NodeKind) (h : EndsBefore c p r) : EndsBefore c p (node kind r) := by
  intro ahead hp items middle hr rest
  obtain ⟨inside, middle', hinside, hnode⟩ := bind_eq_ok_iff.mp hr
  cases hnode
  rw [node_eq, h ahead hp inside middle hinside]
  rfl

/-- **One reader after the other.** -/
theorem andThen (h : EndsBefore c p r) (h' : EndsBefore c Always s) :
    EndsBefore c p (r >> s) := by
  intro ahead hp items last hr rest
  obtain ⟨first, middle, second, hfirst, hsecond, rfl⟩ := andThen_ok hr
  rw [andThen_eq, h ahead hp first middle hfirst, bind_ok,
    h' middle trivial second last hsecond]
  rfl

/-- A reader behind which something is expected, and is there. -/
theorem of_stops (hlooks : LooksAhead 1 r) (hstops : ∀ items rest, s [] ≠ .ok (items, rest))
    (h' : EndsBefore c Always s) : EndsBefore c p (r >> s) := by
  intro ahead _ items last hr rest
  obtain ⟨first, middle, second, hfirst, hsecond, rfl⟩ := andThen_ok hr
  obtain ⟨kind, middle, rfl⟩ := List.exists_cons_of_ne_nil fun hnil =>
    hstops second last (hnil ▸ hsecond)
  rw [andThen_eq, hlooks.append hfirst, bind_ok, h' _ trivial second last hsecond]
  rfl

/-- **The next token chooses.**  At the end of input the choice is the one before `c`, or
nothing is read. -/
theorem peek {choice : Option TokenKind → Reader}
    (h : ∀ kind, EndsBefore c (Next kind) (choice (some kind)))
    (h' : EndsBefore c (· = []) (choice none))
    (hend : ∀ items rest, choice none [] = .ok (items, rest) → choice (some c) = choice none) :
    EndsBefore c p (peek choice) := by
  rintro (- | ⟨kind, ahead⟩) - items middle hr rest
  · show choice (some c) (c :: rest) = _
    rw [hend items middle hr]
    exact h' [] rfl items middle hr rest
  · exact h kind (kind :: ahead) rfl items middle hr rest

/-- A choice by a token that is known to be next. -/
theorem peekNext {kind : TokenKind} {choice : Option TokenKind → Reader}
    (h : EndsBefore c (Next kind) (choice (some kind))) :
    EndsBefore c (Next kind) (Reader.peek choice) := by
  rintro (- | ⟨first, ahead⟩) hnext items middle hr rest
  · cases hnext
  · obtain rfl := Option.some.inj hnext
    exact h (first :: ahead) rfl items middle hr rest

/-- The token behind the next one chooses, and `c` does not pass. -/
theorem ifSecond {test : TokenKind → Bool} (hc : test c = false) (hp : ¬ p [])
    (h : EndsBefore c p r) (h' : EndsBefore c p s) :
    EndsBefore c p (ifAhead (fun ahead => nextIs test ahead.tail) r s) := by
  rintro (- | ⟨kind, ahead⟩) hahead items middle hr rest
  · exact absurd hahead hp
  have htest : nextIs test (ahead ++ c :: rest) = nextIs test ahead := by
    rcases ahead with - | ⟨second, ahead⟩
    · exact hc
    · rfl
  change (if nextIs test ahead then r (kind :: ahead) else s (kind :: ahead)) = _ at hr
  change (if nextIs test (ahead ++ c :: rest) then r (kind :: ahead ++ c :: rest)
    else s (kind :: ahead ++ c :: rest)) = _
  rw [htest]
  split at hr
  · rename_i hsecond
    rw [if_pos hsecond]
    exact h (kind :: ahead) hahead items middle hr rest
  · rename_i hsecond
    rw [if_neg hsecond]
    exact h' (kind :: ahead) hahead items middle hr rest

/-- A choice that `c` does not pass, or without which nothing is read. -/
theorem ifNext {test : TokenKind → Bool}
    (hc : ∀ items rest, s [] = .ok (items, rest) → test c = false)
    (h : EndsBefore c (fun ahead => nextIs test ahead = true) r) (h' : EndsBefore c p s) :
    EndsBefore c p (ifNext test r s) := by
  rintro (- | ⟨kind, ahead⟩) hp items middle hr rest
  · rw [List.nil_append, ifNext_of_false (hc items middle hr)]
    exact h' [] hp items middle hr rest
  · cases htest : test kind with
    | true =>
      rw [ifNext_of_true htest] at hr
      rw [List.cons_append, ifNext_of_true htest]
      exact h (kind :: ahead) htest items middle hr rest
    | false =>
      rw [ifNext_of_false htest] at hr
      rw [List.cons_append, ifNext_of_false htest]
      exact h' (kind :: ahead) hp items middle hr rest

theorem expect (kind : TokenKind) : EndsBefore c p (expect kind) :=
  ifNext nofun (take nofun) (stop _)

/-- **A repetition that `c` does not continue.** -/
theorem many {test : TokenKind → Bool} (hc : test c = false)
    (h : EndsBefore c (fun ahead => nextIs test ahead = true) r)
    (htakes : TakesAt (fun ahead => nextIs test ahead = true) r) :
    EndsBefore c p (many (nextIs test) r) := by
  rintro ahead - items last hr rest
  -- by induction on the number of tokens ahead
  induction hn : ahead.length using Nat.strong_induction_on generalizing ahead items with
  | h n ih =>
    subst hn
    rcases ahead with - | ⟨kind, ahead⟩
    · cases hr
      exact manyFrom_stop _ [] hc
    rw [many_eq rfl htakes] at hr ⊢
    rw [List.cons_append, show nextIs test (kind :: (ahead ++ c :: rest)) = test kind from rfl]
    rw [show nextIs test (kind :: ahead) = test kind from rfl] at hr
    cases htest : test kind with
    | false =>
      rw [htest] at hr
      cases hr
      rfl
    | true =>
      rw [htest, if_pos rfl] at hr
      rw [if_pos rfl]
      obtain ⟨first, middle, hfirst, hmore⟩ := bind_eq_ok_iff.mp hr
      obtain ⟨more, last', hmore, hlast⟩ := bind_eq_ok_iff.mp hmore
      cases hlast
      have hturn := h (kind :: ahead) htest first middle hfirst rest
      rw [List.cons_append] at hturn
      have hlt := htakes (kind :: ahead) htest first middle hfirst
      rw [hturn, bind_ok, ih middle.length hlt middle more hmore rfl]
      rfl

/-- **A chain that `c` does not continue.** -/
theorem chain {step : TokenKind → Option (NodeKind × Reader)} (hc : step c = none)
    (h : EndsBefore c p r)
    (hstep : ∀ next kind content, step next = some (kind, content) →
      EndsBefore c (Next next) content ∧ TakesAt (Next next) content) :
    EndsBefore c p (chain r step) := by
  have htakes := fun next kind content hlink => (hstep next kind content hlink).2
  have hchained : ∀ lead, EndsBefore c Always (chained step lead) := by
    rintro lead ahead - items last hr rest
    induction hn : ahead.length using Nat.strong_induction_on generalizing ahead lead with
    | h n ih =>
      subst hn
      rw [chained_eq htakes] at hr ⊢
      rcases ahead with - | ⟨next, ahead⟩
      · cases hr
        simp [hc]
      rw [List.head?_cons, Option.bind_some] at hr
      rw [List.cons_append, List.head?_cons, Option.bind_some]
      cases hlink : step next with
      | none =>
        rw [hlink] at hr
        cases hr
        rfl
      | some link =>
        rw [hlink] at hr
        obtain ⟨more, middle, hmore, hlast⟩ := bind_eq_ok_iff.mp hr
        obtain ⟨hcontent, hshorter⟩ := hstep next link.1 link.2 hlink
        have hturn := hcontent (next :: ahead) rfl more middle hmore rest
        have hlt := hshorter (next :: ahead) rfl more middle hmore
        rw [List.cons_append] at hturn
        simp only
        rw [hturn, bind_ok]
        exact ih middle.length hlt _ middle hlast rfl
  intro ahead hp items last hr rest
  rw [chain_eq] at hr ⊢
  obtain ⟨lead, middle, hlead, hlast⟩ := bind_eq_ok_iff.mp hr
  rw [h ahead hp lead middle hlead, bind_ok]
  exact hchained lead middle trivial items last hlast rest

/-- A node around what was read, where `c` chooses what the end of input does. -/
theorem wrap {choice : Option TokenKind → Except Expected (NodeKind × Reader)}
    (hc : choice (some c) = choice none) (h : EndsBefore c p r)
    (hchoice : ∀ next kind content, choice next = .ok (kind, content) →
      EndsBefore c (fun ahead => ahead.head? = next) content) :
    EndsBefore c p (wrap r choice) := by
  intro ahead hp items last hr rest
  obtain ⟨lead, middle, hlead, hmore⟩ := bind_eq_ok_iff.mp hr
  have hnext : choice (middle ++ c :: rest).head? = choice middle.head? := by
    rcases middle with - | ⟨next, middle⟩
    · exact hc
    · rfl
  cases hnode : choice middle.head? with
  | error expected =>
    rw [hnode] at hmore
    cases hmore
  | ok link =>
    rw [hnode] at hmore
    obtain ⟨more, last', hcontent, hlast⟩ := bind_eq_ok_iff.mp hmore
    cases hlast
    have hbehind := hchoice _ link.1 link.2 hnode middle rfl more last hcontent rest
    rw [wrap_eq, h ahead hp lead middle hlead, bind_ok, hnext, hnode]
    simp only
    rw [hbehind]
    rfl

end EndsBefore

end Reader

/-- **What is read one level deeper ends before a token.** -/
structure Level.Before (c : TokenKind) (level : Level) : Prop where
  negated : Reader.EndsBefore c Reader.Always level.negated
  signed : Reader.EndsBefore c Reader.Always level.signed

namespace Grammar

open Reader

/-! ### What may end a statement -/

/-- The tokens that end statements: semicolons, and the words that end blocks. -/
def statementEnds : List TokenKind :=
  [.semicolon, .keyword .EndIf, .keyword .ElsIf, .keyword .Else, .keyword .EndDo,
    .keyword .EndTry, .keyword .Except, .keyword .EndProcedure, .keyword .EndFunction]

theorem mem_statementEnds {c : TokenKind} (hc : isStatementEnd c = true) : c ∈ statementEnds := by
  unfold isStatementEnd at hc
  split at hc
  all_goals first | decide | cases hc

/-- No statement begins with what ends one. -/
theorem statement_of_end {c : TokenKind} (hc : isStatementEnd c = true) {n : Nat}
    {ahead rest : List TokenKind} {items : List Derivation} :
    statement (below n) (c :: ahead) ≠ .ok (items, rest) := by
  have h := mem_statementEnds hc
  simp only [statementEnds, List.mem_cons, List.not_mem_nil, or_false] at h
  rcases h with rfl | rfl | rfl | rfl | rfl | rfl | rfl | rfl | rfl <;> nofun

/-- What fails for each of these tokens fails for a token that ends a statement. -/
theorem eq_false_of_end {c : TokenKind} (hc : isStatementEnd c = true) (test : TokenKind → Bool)
    (h : ∀ kind ∈ statementEnds, test kind = false) : test c = false :=
  h c (mem_statementEnds hc)

section Before

variable {c : TokenKind} (hc : isStatementEnd c = true) {p : List TokenKind → Prop}
include hc

/-! ### Primaries -/

omit hc in
theorem before_identifier : EndsBefore c p identifier :=
  .ifNext nofun (.node _ (.take nofun)) (.stop _)

omit hc in
theorem before_memberName : EndsBefore c p memberName :=
  .ifNext nofun (.node _ (.take nofun)) (.stop _)

theorem before_commaSeparated {r : Reader} {l : Language Symbol} (h : EndsBefore c Always r)
    (hr : Reads r l) : EndsBefore c p (commaSeparated r) := by
  refine h.everywhere.andThen (.many (eq_false_of_end hc (· == .comma) (by decide)) ?_ ?_)
  · exact .andThen (.take nofun) h
  · refine takesAt_nextIs (l := tok .comma * l) (fun kind hkind => ?_) ((Visible.tok _).left l)
    obtain rfl := beq_iff_eq.mp hkind
    exact readsAt_take.andThen hr

section Expression

variable {expression : Reader} (h : EndsBefore c Always expression) (hr : Reads expression (expr 1))
include h

omit hc in
theorem before_parenthesised : EndsBefore c (Next .lParen) (parenthesised expression) :=
  .node _ (.andThen (.take nofun) (.andThen h (.expect _)))

omit hc in
theorem before_ternary : EndsBefore c (Next .question) (ternary expression) := by
  refine .node _ (.andThen (.take nofun) (.andThen (.expect _) (.andThen h ?_)))
  exact .andThen (.expect _) (.andThen h (.andThen (.expect _) (.andThen h (.expect _))))

include hr

theorem before_argumentList : EndsBefore c p (argumentList expression) := by
  have hcomma : (c == .comma || c == .rParen) = false :=
    eq_false_of_end hc (fun kind => kind == .comma || kind == .rParen) (by decide)
  have hparen : (c == .rParen) = false := eq_false_of_end hc (· == .rParen) (by decide)
  refine .node _ (.andThen (.expect _) (.ifNext (fun _ _ _ => hparen) (.take nofun) ?_))
  refine .andThen (before_commaSeparated (l := opt (expr 1)) hc ?_ ?_) (.expect _)
  · exact .ifNext (fun _ _ _ => hcomma) .pass h
  · exact ReadsAt.ifNext (fun kind _ => readsAt_pass) hr

/-- Arguments that may be missing. -/
theorem before_arguments :
    EndsBefore c p (ifNext (· == .lParen) (argumentList expression) pass) :=
  .ifNext (fun _ _ _ => eq_false_of_end hc (· == .lParen) (by decide))
    (before_argumentList hc h hr) .pass

theorem before_newExpression : EndsBefore c (Next (.keyword .New)) (newExpression expression) := by
  refine .node _ (.andThen (.take nofun) (.peek (fun kind => ?_) (.stop _) nofun))
  split
  · exact .andThen (.node _ (.take nofun)) (before_arguments hc h hr)
  · exact before_argumentList hc h hr
  · exact .stop _

theorem before_primary : EndsBefore c p (primary expression) := by
  refine .peek (fun kind => ?_) (.stop _) nofun
  split
  · exact before_identifier
  · refine .node _ (.many (eq_false_of_end hc (· == .string) (by decide)) (.take nofun) ?_)
    refine takesAt_nextIs (fun kind hkind => ?_) (Visible.tok .string)
    obtain rfl := beq_iff_eq.mp hkind
    exact readsAt_take
  · rename_i hkind
    obtain rfl := Option.some.inj hkind
    exact before_parenthesised h
  · rename_i hkind
    obtain rfl := Option.some.inj hkind
    exact before_ternary h
  · rename_i hkind
    obtain rfl := Option.some.inj hkind
    exact before_newExpression hc h hr
  · split
    · exact .node _ (.take nofun)
    · exact .stop _
  · exact .stop _

theorem before_suffixed : EndsBefore c p (suffixed expression) := by
  refine .chain ?_ (before_primary hc h hr) fun next kind content hlink => ?_
  · unfold isStatementEnd at hc
    split at hc
    all_goals first | rfl | cases hc
  split at hlink
  · cases hlink
    exact ⟨.andThen (.take nofun) before_memberName, takesAt_take_andThen reads_memberName⟩
  · cases hlink
    exact ⟨.andThen (.take nofun) (.andThen h (.expect _)),
      takesAt_take_andThen (hr.andThen (reads_expect _))⟩
  · cases hlink
    exact ⟨before_argumentList hc h hr,
      (reads_argumentList hr).at.takesAt (Visible.sub (by decide))⟩
  · cases hlink

end Expression

/-! ### Expressions -/

omit hc in
theorem before_binary {operand : Reader} {isOperator : TokenKind → Bool} {l : Language Symbol}
    (hc : isOperator c = false) (h : EndsBefore c p operand) (h' : EndsBefore c Always operand)
    (hr : Reads operand l) : EndsBefore c p (binary isOperator operand) := by
  refine .chain (if_neg (Bool.eq_false_iff.mp hc)) h fun next kind content hlink => ?_
  split at hlink
  · cases hlink
    exact ⟨.andThen (.take nofun) h', takesAt_take_andThen hr⟩
  · cases hlink

omit hc in
theorem before_deeper {inner : Option Level} {content : Level → Reader}
    (h : ∀ level, inner = some level → EndsBefore c p (content level)) :
    EndsBefore c p (deeper inner content) := by
  cases inner with
  | none => exact .stop _
  | some level => exact h level rfl

section Levels

variable {inner : Option Level} (hs : ∀ level, inner = some level → level.Sound)
  (hi : ∀ level, inner = some level → level.Before c)
include hs hi

theorem before_expression : EndsBefore c p (expression inner) := by
  refine before_deeper fun level hlevel => ?_
  have hand : ∀ {q}, EndsBefore c q (binary (isWord .And) level.negated) :=
    before_binary (eq_false_of_end hc _ (by decide)) (hi level hlevel).negated.everywhere
      (hi level hlevel).negated (hs level hlevel).negated
  exact before_binary (eq_false_of_end hc (isWord .Or) (by decide)) hand hand
    (reads_conjunction (hs level hlevel))

theorem before_signed : EndsBefore c p (signed inner) := by
  refine .ifNext (fun _ _ _ => eq_false_of_end hc isSign (by decide)) ?_ ?_
  · exact before_deeper fun level hlevel =>
      .node _ (.andThen (.take nofun) (hi level hlevel).signed)
  · exact before_suffixed hc (before_expression hc hs hi) (reads_expression hs)

theorem before_comparison : EndsBefore c p (comparison inner) := by
  have hproduct : ∀ {q}, EndsBefore c q (binary isMultiplicative (signed inner)) :=
    before_binary (eq_false_of_end hc _ (by decide)) (before_signed hc hs hi)
      (before_signed hc hs hi)
      (reads_signed hs)
  have hsum : ∀ {q}, EndsBefore c q (binary isAdditive (binary isMultiplicative (signed inner))) :=
    before_binary (eq_false_of_end hc _ (by decide)) hproduct hproduct (reads_product hs)
  exact before_binary (eq_false_of_end hc isComparison (by decide)) hsum hsum (reads_sum hs)

theorem before_negated : EndsBefore c p (negated inner) := by
  refine .ifNext (fun _ _ _ => eq_false_of_end hc (isWord .Not) (by decide)) ?_
    (before_comparison hc hs hi)
  exact before_deeper fun level hlevel =>
    .node _ (.andThen (.take nofun) (hi level hlevel).negated)

end Levels

/-- **Every level ends before `c`**, by induction on how many levels may be opened. -/
theorem before_below (n : Nat) : ∀ level, below n = some level → level.Before c := by
  induction n with
  | zero => exact nofun
  | succ n ih =>
    intro level hlevel
    obtain rfl := Option.some.inj hlevel
    rw [level_eq]
    exact ⟨before_negated hc (sound_below n) ih, before_signed hc (sound_below n) ih⟩

/-! ### Statements -/

section Statements

variable (n : Nat)

omit hc in
theorem looksAhead_block (ends : List Keyword) : LooksAhead 1 (block (below n) ends) :=
  (closed_looksAhead le_rfl).block ((closed_looksAhead le_rfl).nested_below n) ends

theorem before_value : EndsBefore c p (expression (below n)) :=
  before_expression hc (sound_below n) (before_below hc n)

theorem before_optionalExpression : EndsBefore c p (optionalExpression (below n)) := by
  refine .peek (fun kind => ?_) .pass fun _ _ _ => if_pos hc
  dsimp only
  split
  · exact .pass
  · exact before_value hc n

omit hc in
theorem before_loopBody : EndsBefore c p (loopBody (below n)) :=
  .andThen (.expect _) (.of_stops (looksAhead_block n _) nofun (.expect _))

omit hc in
theorem looksAhead_condition : LooksAhead 1 (condition (below n)) :=
  (closed_looksAhead le_rfl).condition ((closed_looksAhead le_rfl).nested_below n)

omit hc in
theorem before_ifStatement : EndsBefore c p (ifStatement (below n)) := by
  have hlooks : Closed fun r _ => LooksAhead 1 r := closed_looksAhead le_rfl
  have hbranch (kind : NodeKind) := (looksAhead_condition n).node kind
  have helsIf : LooksAhead 1 (many (nextIs (isWord .ElsIf))
      (node .elsIfBranch (condition (below n)))) := by
    refine (hbranch _).many rfl (fun _ _ => nextIs_congr le_rfl _) ?_
    refine takesAt_nextIs (l := sub .elsIfBranch) (fun kind hkind => ?_) (Visible.sub (by decide))
    obtain rfl := beq_iff_eq.mp hkind
    exact (readsAt_condition (sound_below n) .ElsIf).node le_rfl
  have helse : LooksAhead 1 (ifNext (isWord .Else)
      (node .elseBranch (take >> block (below n) [.EndIf])) pass) := by
    have helseBranch :=
      ((looksAhead_take le_rfl).andThen (looksAhead_block n [.EndIf])).node .elseBranch
    exact @Closed.ifNext _ hlooks _ pass _ pass _ helseBranch hlooks.pass
  exact .node _ (.of_stops (hbranch _) nofun (.of_stops helsIf nofun
    (.of_stops helse nofun (.expect _))))

theorem before_whileStatement : EndsBefore c (Next (.keyword .While)) (whileStatement (below n)) :=
  .node _ (.andThen (.take nofun) (.andThen (before_value hc n) (before_loopBody n)))

theorem before_forStatement : EndsBefore c (Next (.keyword .For)) (forStatement (below n)) := by
  have hvalue := before_value (p := Always) hc n
  have hbody := before_loopBody (c := c) (p := Always) n
  refine .ifSecond (eq_false_of_end hc (isWord .Each) (by decide)) nofun (.node _ ?_) (.node _ ?_)
  · refine .andThen (.take nofun) (.of_stops (looksAhead_take le_rfl) nofun ?_)
    exact .andThen before_identifier (.andThen (.expect _) (.andThen hvalue hbody))
  · refine .andThen (.take nofun) (.andThen before_identifier (.andThen (.expect _) ?_))
    exact .andThen hvalue (.andThen (.expect _) (.andThen hvalue hbody))

omit hc in
theorem before_tryStatement : EndsBefore c (Next (.keyword .Try)) (tryStatement (below n)) := by
  have hlooks : Closed fun r _ => LooksAhead 1 r := closed_looksAhead le_rfl
  have hexcept : LooksAhead 1 (node .exceptBranch (word .Except >> block (below n) [.EndTry])) :=
    ((hlooks.word .Except).andThen (looksAhead_block n _)).node _
  exact .node _ (.andThen (.take nofun) (.of_stops (looksAhead_block n _) nofun
    (.of_stops hexcept nofun (.expect _))))

theorem before_handlerStatement (keyword : Keyword) (kind : NodeKind) :
    EndsBefore c (Next (.keyword keyword)) (handlerStatement (below n) kind) :=
  .node _ (.andThen (.take nofun) (.andThen (before_value hc n)
    (.andThen (.expect _) (before_value hc n))))

theorem before_simpleStatement : EndsBefore c p (simpleStatement (below n)) := by
  refine .wrap ?_ (.ifNext ?_ ?_ ?_) fun next kind content hchoice => ?_
  · unfold isStatementEnd at hc
    split at hc
    all_goals first | rfl | cases hc
  · exact fun _ _ _ => eq_false_of_end hc (isWord .Await) (by decide)
  · exact before_signed hc (sound_below n) (before_below hc n)
  · exact before_suffixed hc (before_value hc n) (reads_expression (sound_below n))
  · split at hchoice
    · cases hchoice
      exact .andThen (.take nofun) (before_value hc n)
    · cases hchoice
      exact .pass

/-- The names of declared variables. -/
theorem before_variables :
    EndsBefore c p (commaSeparated (identifier >> accept (.keyword .Export))) := by
  have hexport : (c == .keyword .Export) = false :=
    eq_false_of_end hc (· == .keyword .Export) (by decide)
  refine before_commaSeparated hc (.andThen before_identifier ?_)
    (reads_identifier.andThen (reads_accept _))
  exact .ifNext (fun _ _ _ => hexport) (.take nofun) .pass

/-- Declared variables take a semicolon that follows, but no other token. -/
theorem before_varDeclaration (hword : c ≠ .semicolon) :
    EndsBefore c (Next (.keyword .Var)) varDeclaration := by
  refine .node _ (.andThen (.take nofun) (.andThen (before_variables hc) ?_))
  exact .ifNext (fun _ _ _ => beq_eq_false_iff_ne.mpr hword) (.take nofun) .pass

/-- **A statement ends before `c`**, unless it declares variables and `c` is a semicolon. -/
theorem before_statement {kind : TokenKind} (h : kind = .keyword .Var → c ≠ .semicolon) :
    EndsBefore c (Next kind) (statement (below n)) := by
  have hvalue : EndsBefore c Always (expression (below n)) := before_value hc n
  have hoptional : EndsBefore c Always (optionalExpression (below n)) :=
    before_optionalExpression hc n
  have hr : Reads (expression (below n)) (expr 1) := reads_expression (sound_below n)
  refine .peekNext ?_
  split
  · exact before_ifStatement n
  · rename_i h
    obtain rfl := Option.some.inj h
    exact before_whileStatement hc n
  · rename_i h
    obtain rfl := Option.some.inj h
    exact before_forStatement hc n
  · rename_i h
    obtain rfl := Option.some.inj h
    exact before_tryStatement n
  · rename_i hvar
    obtain rfl := Option.some.inj hvar
    exact before_varDeclaration hc (h rfl)
  · exact .node _ (.andThen (.take nofun) hoptional)
  · have hparen : (c == .lParen) = false := eq_false_of_end hc (· == .lParen) (by decide)
    refine .node _ (.andThen (.take nofun) ?_)
    exact .ifNext (fun _ _ _ => hparen) (before_argumentList hc hvalue hr) hoptional
  · exact .node _ (.andThen (.take nofun) hvalue)
  · exact .node _ (.andThen (.take nofun) (.andThen (.expect _) before_identifier))
  · exact .node _ (.take nofun)
  · exact .node _ (.take nofun)
  · rename_i h
    obtain rfl := Option.some.inj h
    exact before_handlerStatement hc n _ _
  · rename_i h
    obtain rfl := Option.some.inj h
    exact before_handlerStatement hc n _ _
  · exact .node _ (.andThen (.take nofun) (.andThen before_identifier (.expect _)))
  · exact before_simpleStatement hc n

end Statements

end Before

/-! ### Blocks -/

variable {n : Nat} {ahead middle : List TokenKind} {items : List Derivation}

/-- Declared variables in front of a semicolon: they end before it, or they take it. -/
theorem varDeclaration_semicolon
    (h : varDeclaration (.keyword .Var :: ahead) = .ok (items, middle)) :
    (∀ rest, varDeclaration (.keyword .Var :: ahead ++ .semicolon :: rest) =
      .ok (items, middle ++ .semicolon :: rest)) ∨
    middle = [] ∧ ∃ items', skeletonsAll items' = skeletonsAll items ∧
      ∀ rest,
        varDeclaration (.keyword .Var :: ahead ++ .semicolon :: rest) = .ok (items', rest) := by
  obtain ⟨content, middle', hcontent, hnode⟩ := bind_eq_ok_iff.mp h
  cases hnode
  obtain ⟨first, _, _, htake, hmore, rfl⟩ := andThen_ok hcontent
  cases htake
  obtain ⟨names, behind, last, hnames, hlast, rfl⟩ := andThen_ok hmore
  have hnames' :=
    before_variables (c := .semicolon) (p := Always) rfl ahead trivial names behind hnames
  -- what is read where the semicolon that may follow is `last'`
  have hread {last' : List Derivation} {rest rest' : List TokenKind}
      (h : accept .semicolon (behind ++ .semicolon :: rest) = .ok (last', rest')) :
      varDeclaration (.keyword .Var :: ahead ++ .semicolon :: rest) =
        .ok ([.node .varDeclaration [] (.token (.keyword .Var) :: (names ++ last'))], rest') := by
    rw [List.cons_append]
    refine node_take_andThen ?_
    rw [andThen_eq, hnames' rest, bind_ok, h]
    rfl
  rcases behind with - | ⟨kind, behind⟩
  · cases hlast
    have htaken : ∀ rest, accept .semicolon ([] ++ .semicolon :: rest) =
        .ok ([.token .semicolon], rest) := fun _ => rfl
    refine .inr ⟨rfl, _, ?_, fun rest => hread (htaken rest)⟩
    simp
  · refine .inl fun rest => hread ?_
    rw [List.cons_append]
    by_cases hkind : kind = .semicolon
    · subst hkind
      cases hlast
      rfl
    · have htest : (kind == .semicolon) = false := beq_eq_false_iff_ne.mpr hkind
      rw [accept, @ifNext_of_false (· == .semicolon) kind htest] at hlast ⊢
      cases hlast
      rfl

/-- **A statement in front of a semicolon** ends before it, or takes it; its nodes are the
same. -/
theorem statement_semicolon {kind : TokenKind}
    (h : statement (below n) (kind :: ahead) = .ok (items, middle)) :
    (∀ rest, statement (below n) (kind :: ahead ++ .semicolon :: rest) =
      .ok (items, middle ++ .semicolon :: rest)) ∨
    middle = [] ∧ ∃ items', skeletonsAll items' = skeletonsAll items ∧
      ∀ rest, statement (below n) (kind :: ahead ++ .semicolon :: rest) = .ok (items', rest) := by
  by_cases hkind : kind = .keyword .Var
  · subst hkind
    exact varDeclaration_semicolon h
  · exact .inl fun rest =>
      before_statement rfl n (fun hvar => absurd hvar hkind) (kind :: ahead) rfl items middle h rest

/-- **Statements, a semicolon, and further statements** are statements, and their nodes are
those of the ones and of the others. -/
theorem Sequence.append_semicolon {kinds rest : List TokenKind} {ds es : List Derivation}
    (h : Sequence n kinds ds) (h' : Sequence n rest es) :
    ∃ all, Sequence n (kinds ++ .semicolon :: rest) all ∧
      skeletonsAll all = skeletonsAll ds ++ skeletonsAll es := by
  induction h with
  | nil => exact ⟨_, .skip h', rfl⟩
  | skip _ ih =>
    obtain ⟨all, hall, hskeletons⟩ := ih
    exact ⟨_, .skip hall, hskeletons⟩
  | @cons kind ahead middle items more hkind hitems hmore ih =>
    rcases statement_semicolon hitems with hbefore | ⟨rfl, items', hsame, htakes⟩
    · obtain ⟨all, hall, hskeletons⟩ := ih
      refine ⟨items ++ all, .cons hkind (hbefore rest) hall, ?_⟩
      rw [skeletonsAll_append, skeletonsAll_append, hskeletons, List.append_assoc]
    · cases hmore
      refine ⟨items' ++ es, .cons hkind (htakes rest) h', ?_⟩
      rw [skeletonsAll_append, hsame, List.append_nil]

/-- No declaration begins where a semicolon ends what is not the beginning of one. -/
theorem beginsDeclaration_append_semicolon {kinds : List TokenKind}
    (h : beginsDeclaration kinds = false) (rest : List TokenKind) :
    beginsDeclaration (kinds ++ .semicolon :: rest) = false := by
  rcases kinds with - | ⟨first, - | ⟨second, more⟩⟩
  · rfl
  · -- a word that begins a declaration by itself is excluded, and `Async` does not
    rw [← h]
    cases first with
    | keyword word => cases word <;> rfl
    | _ => rfl
  · rw [← beginsDeclaration_take, ← h, ← beginsDeclaration_take (first :: second :: more)]
    rfl

/-- **Statements that are read up to the end of input** are read before a word that ends their
block. -/
theorem statements_before {ends : List Keyword} {word : Keyword} {kinds : List TokenKind}
    {ds : List Derivation} (h : Sequence n kinds ds)
    (hends : ∀ w ∈ ends, isStatementEnd (.keyword w) = true) (hword : word ∈ ends)
    (rest : List TokenKind) :
    statements (below n) ends (kinds ++ .keyword word :: rest) =
      .ok (ds, .keyword word :: rest) := by
  induction h with
  | nil =>
    have hstops : nextIs (continuesBlock ends) (.keyword word :: rest) = false := by
      simpa [nextIs, continuesBlock] using hword
    rw [List.nil_append, statements_eq, if_neg (Bool.eq_false_iff.mp hstops)]
  | skip _ ih => exact statements_semicolon_iff.mpr ⟨_, ih, rfl⟩
  | @cons kind ahead middle items more hkind hitems _ ih =>
    have hcontinues : continuesBlock ends kind = true := by
      cases kind with
      | keyword w =>
        simp only [continuesBlock, Bool.not_eq_true', List.contains_eq_mem, decide_eq_false_iff_not]
        exact fun hw => statement_of_end (hends w hw) hitems
      | _ => rfl
    have hne : TokenKind.keyword word ≠ .semicolon := TokenKind.noConfusion
    refine (statements_cons_iff hcontinues hkind).mpr ⟨items, _, more, ?_, ih, rfl⟩
    exact before_statement (hends word hword) n (fun _ => hne) (kind :: ahead) rfl items middle
      hitems rest

end Grammar

end ModuleLint
