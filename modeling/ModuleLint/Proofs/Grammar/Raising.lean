/-
ModuleLint/Proofs/Grammar/Raising.lean

What `Raise` takes where `Return` and `Execute` take an expression.  `Return` and `Execute`
read the same expressions.  `Raise` looks at its first token: behind a parenthesis it reads
arguments, and nothing behind them.  So an expression that begins with a parenthesis and goes
on behind the one that closes it is taken by the other two, and not by `Raise`.

Main result: `raise_parses_iff`, with the exact condition under which `Raise` takes what
`Return` does.
-/
import ModuleLint.Proofs.Grammar.Deepening
import ModuleLint.Proofs.Grammar.Parsed
import ModuleLint.Proofs.Grammar.Statements
import ModuleLint.Proofs.Tree.Skeleton

namespace ModuleLint

open Production Outline ModuleLint.Derivation

namespace Reader

/-! ### Going on behind a first part -/

/-- **A reader goes on from another one**: here it reads what the other one does, or more,
and then makes a node of it that is not in parentheses. -/
def GoesOn (first r : Reader) (ahead : List TokenKind) : Prop :=
  ∀ items rest, r ahead = .ok (items, rest) → ∃ lead middle, first ahead = .ok (lead, middle) ∧
    (items = lead ∧ rest = middle ∨
      (∃ kind lead more, items = [.node kind lead more] ∧ kind ≠ .parenExpression) ∧
        rest.length < middle.length)

variable {first r : Reader} {ahead : List TokenKind}
  {step : TokenKind → Option (NodeKind × Reader)}

theorem GoesOn.refl (first : Reader) (ahead : List TokenKind) : GoesOn first first ahead :=
  fun items rest hr => ⟨items, rest, hr, .inl ⟨rfl, rfl⟩⟩

theorem GoesOn.of_eq {r' : Reader} (h : GoesOn first r ahead) (heq : r' ahead = r ahead) :
    GoesOn first r' ahead := by
  intro items rest hr
  rw [heq] at hr
  exact h items rest hr

/-- A chain stays with what it holds, or makes a node of it and takes more. -/
theorem goesOn_chained (hstep : ∀ next kind content, step next = some (kind, content) →
      kind ≠ .parenExpression ∧ TakesAt (Next next) content) (lead : List Derivation)
    (middle : List TokenKind) {items : List Derivation} {rest : List TokenKind}
    (h : chained step lead middle = .ok (items, rest)) :
    items = lead ∧ rest = middle ∨
      (∃ kind lead more, items = [.node kind lead more] ∧ kind ≠ .parenExpression) ∧
        rest.length < middle.length := by
  induction hn : middle.length using Nat.strong_induction_on generalizing lead middle with
  | h n ih =>
    subst hn
    rw [chained_eq fun next kind content hlink => (hstep next kind content hlink).2] at h
    cases hnext : middle.head?.bind step with
    | none =>
      rw [hnext] at h
      cases h
      exact .inl ⟨rfl, rfl⟩
    | some link =>
      obtain ⟨next, hhead, hlink⟩ := Option.bind_eq_some_iff.mp hnext
      obtain ⟨hkind, htakes⟩ := hstep next link.1 link.2 hlink
      rw [hnext] at h
      obtain ⟨more, middle', hmore, hlast⟩ := bind_eq_ok_iff.mp h
      have hlt := htakes middle hhead more middle' hmore
      rcases ih middle'.length hlt _ middle' hlast rfl with ⟨rfl, rfl⟩ | ⟨hnode, hlt'⟩
      · exact .inr ⟨⟨link.1, lead, more, rfl, hkind⟩, hlt⟩
      · exact .inr ⟨hnode, hlt'.trans hlt⟩

/-- **A chain goes on from where its first part comes from.** -/
theorem GoesOn.chain (h : GoesOn first r ahead)
    (hstep : ∀ next kind content, step next = some (kind, content) →
      kind ≠ .parenExpression ∧ TakesAt (Next next) content) :
    GoesOn first (chain r step) ahead := by
  intro items rest hr
  rw [chain_eq, bind_eq_ok_iff] at hr
  obtain ⟨lead, middle, hlead, hchain⟩ := hr
  obtain ⟨lead', middle', hfirst, hwhole⟩ := h lead middle hlead
  refine ⟨lead', middle', hfirst, ?_⟩
  rcases goesOn_chained hstep lead middle hchain with ⟨rfl, rfl⟩ | ⟨hnode, hlt⟩
  · exact hwhole
  · rcases hwhole with ⟨-, rfl⟩ | ⟨-, hlt'⟩
    · exact .inr ⟨hnode, hlt⟩
    · exact .inr ⟨hnode, hlt.trans hlt'⟩

end Reader

namespace Grammar

open Reader

variable {n : Nat} {ahead rest : List TokenKind} {items : List Derivation}

/-- A level of operators goes on from where its operands come from. -/
theorem goesOn_binary {first operand : Reader} (isOperator : TokenKind → Bool)
    {l : Language Symbol} (hoperand : Reads operand l) (h : GoesOn first operand ahead) :
    GoesOn first (binary isOperator operand) ahead := by
  refine h.chain fun next kind content hlink => ?_
  split at hlink
  · cases hlink
    exact ⟨by decide, takesAt_take_andThen hoperand⟩
  · cases hlink

/-- A primary in parentheses, with what follows it. -/
theorem goesOn_suffixed {expression : Reader} (he : Reads expression (expr 1)) :
    GoesOn (parenthesised expression) (suffixed expression) (.lParen :: ahead) := by
  have hprimary : GoesOn (parenthesised expression) (primary expression) (.lParen :: ahead) :=
    (GoesOn.refl _ _).of_eq rfl
  refine hprimary.chain fun next kind content hlink => ?_
  split at hlink
  · cases hlink
    exact ⟨by decide, takesAt_take_andThen reads_memberName⟩
  · cases hlink
    exact ⟨by decide, takesAt_take_andThen (he.andThen (reads_expect _))⟩
  · cases hlink
    exact ⟨by decide, (reads_argumentList he).at.takesAt (Visible.sub (by decide))⟩
  · cases hlink

/-- **An expression that begins with a parenthesis** goes on from where that is closed. -/
theorem goesOn_expression (n : Nat) (ahead : List TokenKind) :
    GoesOn (parenthesised (expression (below n))) (expression (below (n + 1)))
      (.lParen :: ahead) := by
  have hi := sound_below n
  have hsigned : GoesOn (parenthesised (expression (below n))) (signed (below n))
      (.lParen :: ahead) := (goesOn_suffixed (reads_expression hi)).of_eq rfl
  have hcomparison : GoesOn (parenthesised (expression (below n))) (comparison (below n))
      (.lParen :: ahead) := by
    have hproduct := goesOn_binary isMultiplicative (reads_signed hi) hsigned
    have hsum := goesOn_binary isAdditive (reads_product hi) hproduct
    exact goesOn_binary _ (reads_sum hi) hsum
  have hnegated : GoesOn (parenthesised (expression (below n))) (level n).negated
      (.lParen :: ahead) := hcomparison.of_eq (by rw [negated_level]; rfl)
  have hsound := sound_level n
  exact goesOn_binary _ (reads_conjunction hsound) (goesOn_binary _ hsound.negated hnegated)

/-! ### Arguments -/

/-- Where a comma or a closing parenthesis is next, there is no expression. -/
theorem expression_error (n : Nat) {kind : TokenKind} (h : kind = .comma ∨ kind = .rParen)
    (ahead : List TokenKind) : ∃ stop, expression (below n) (kind :: ahead) = .error stop := by
  cases n with
  | zero => exact ⟨_, rfl⟩
  | succ n =>
    have hnegated : (level n).negated (kind :: ahead) =
        .error ⟨(kind :: ahead).length, .expression⟩ := by
      rw [negated_level]
      rcases h with rfl | rfl
      · rfl
      · rfl
    refine ⟨⟨(kind :: ahead).length, .expression⟩, ?_⟩
    show binary (isWord .Or) (binary (isWord .And) (level n).negated) (kind :: ahead) = _
    rw [binary, chain_eq, binary, chain_eq, hnegated]
    rfl

/-- **What stands in parentheses can be an argument.** -/
theorem argumentList_of_parenthesised {n : Nat}
    (h : parenthesised (expression (below n)) (.lParen :: ahead) = .ok (items, rest)) :
    ∃ arguments, argumentList (expression (below (n + 1))) (.lParen :: ahead) =
      .ok ([.node .argumentList [] arguments], rest) := by
  obtain ⟨found, rest', hfound, hnode⟩ := bind_eq_ok_iff.mp h
  cases hnode
  obtain ⟨first, middle, more, hfirst, hmore, rfl⟩ := andThen_ok hfound
  cases hfirst
  obtain ⟨inside, middle, last, hinside, hlast, rfl⟩ := andThen_ok hmore
  obtain ⟨rfl, rfl⟩ := expect_eq_ok_iff.mp hlast
  -- the first argument is there, and it is read one level less deep
  have htakes : TakesAt (fun _ => True) (expression (below n)) :=
    (reads_expression (sound_below n)).takesAt (.expr Nat.one_pos)
  have hlt := htakes ahead trivial inside _ hinside
  obtain ⟨kind, ahead, rfl⟩ := List.exists_cons_of_length_pos (Nat.zero_lt_of_lt hlt)
  have hkind : ¬ (kind = .comma ∨ kind = .rParen) := by
    intro hend
    obtain ⟨stop, hstop⟩ := expression_error n hend ahead
    rw [hinside] at hstop
    cases hstop
  obtain ⟨hcomma, hparen⟩ := not_or.mp hkind
  have hdeeper := closed_refines.expression (nested_refines (Nat.le_succ n)) _ _ _ hinside
  have hitem : ifNext (fun kind => kind == .comma || kind == .rParen) pass
      (expression (below (n + 1))) (kind :: ahead) = .ok (inside, .rParen :: rest) := by
    rw [ifNext_of_false]
    · exact hdeeper
    · simp [hcomma, hparen]
  have hlist : commaSeparated (ifNext (fun kind => kind == .comma || kind == .rParen) pass
      (expression (below (n + 1)))) (kind :: ahead) = .ok (inside, .rParen :: rest) := by
    rw [commaSeparated, andThen_eq, hitem, Reader.bind, many, manyFrom_stop _ _ rfl]
    simp [Reader.bind]
  refine ⟨[.token .lParen] ++ (inside ++ [.token .rParen]), ?_⟩
  rw [argumentList, node_eq, andThen_eq, expect_eq_ok_iff.mpr ⟨rfl, rfl⟩, bind_ok,
    @ifNext_of_false (· == .rParen) kind (beq_eq_false_iff_ne.mpr hparen), andThen_eq, hlist,
    bind_ok, expect_eq_ok_iff.mpr ⟨rfl, rfl⟩]
  rfl

/-- **Arguments reach as far as an expression** that begins like them, if that is in
parentheses as a whole, and less far if it is not. -/
theorem exists_argumentList {n : Nat} {kind : NodeKind} {lead items : List Derivation}
    (h : expression (below (n + 1)) (.lParen :: ahead) = .ok ([.node kind lead items], rest)) :
    ∃ arguments middle, argumentList (expression (below (n + 1))) (.lParen :: ahead) =
        .ok ([.node .argumentList [] arguments], middle) ∧
      (kind = .parenExpression ∧ middle = rest ∨
        kind ≠ .parenExpression ∧ rest.length < middle.length) := by
  obtain ⟨found, middle, hfound, hwhole⟩ := goesOn_expression n ahead _ _ h
  obtain ⟨arguments, harguments⟩ := argumentList_of_parenthesised hfound
  refine ⟨arguments, middle, harguments, ?_⟩
  rcases hwhole with ⟨rfl, rfl⟩ | ⟨⟨kind', lead', more, hnode, hkind⟩, hlt⟩
  · obtain ⟨inside, rest', -, hnode⟩ := bind_eq_ok_iff.mp hfound
    cases hnode
    exact .inl ⟨rfl, rfl⟩
  · cases hnode
    exact .inr ⟨hkind, hlt⟩

end Grammar

/-! ### Modules of one statement -/

/-- Each skeleton of derivations belongs to one of their outlines. -/
theorem length_outlineAll (ds : List Derivation) (fresh first : Nat) :
    (outlineAll ds fresh first).length = (skeletonsAll ds).length := by
  induction ds generalizing fresh first with
  | nil => rfl
  | cons d rest ih =>
    rw [outlineAll, skeletonsAll_cons, List.length_append, List.length_append, ih]
    cases d <;> rfl

/-- **A module of one statement**: the statement is all that is in its only block.  It covers
the first tokens of the module up to `stop`, and has the given children. -/
def Tree.OnlyStatement (t : Tree) (kind : NodeKind) (stop : Nat) (children : List Nat) : Prop :=
  ∃ block statement, t.children root = [block] ∧ t.kind? block = some .codeBlock ∧
    t.children block = [statement] ∧ t.kind? statement = some kind ∧
    t.firstToken statement = 0 ∧ t.endToken statement = stop ∧ t.children statement = children

/-- What is laid out of a block that begins with a statement is a module of this statement, if
there is no other one. -/
theorem Tree.Derived.onlyStatement_iff {t : Tree} {source : List Char} {kind kind' : NodeKind}
    {items more : List Derivation} {stop : Nat} {children : List Nat}
    (h : t.Derived source [.node .codeBlock [] (.node kind [] items :: more)]) :
    t.OnlyStatement kind' stop children ↔
      kind' = kind ∧ stop = (tokensAll items).length ∧
        children = (outlineAll items 3 0).map Outline.number ∧ skeletonsAll more = [] := by
  obtain ⟨fresh, first, hinside⟩ : ∃ fresh first,
      outlineAll (.node kind [] items :: more) 2 0 =
        .node 2 kind 0 (tokensAll items).length (outlineAll items 3 0) ::
          outlineAll more fresh first := by
    rw [← Nat.zero_add (tokensAll items).length]
    exact ⟨_, _, rfl⟩
  obtain ⟨stop', hcontent⟩ : ∃ stop', outlineAll [.node .codeBlock [] (.node kind [] items :: more)]
      1 0 = [.node 1 .codeBlock 0 stop' (outlineAll (.node kind [] items :: more) 2 0)] := ⟨_, rfl⟩
  rw [hinside] at hcontent
  -- the root, its block and the first statement have the first three numbers
  have houtlined := h.outlined
  have hroot :=
    self_mem_preorder (moduleOutline [.node .codeBlock [] (.node kind [] items :: more)])
  have hblock := child_mem_preorder hroot (hcontent ▸ List.mem_cons_self)
  have hstatement := child_mem_preorder hblock List.mem_cons_self
  have hrootChildren : t.children Tree.root = [1] :=
    (houtlined.children_eq hroot).trans (congrArg (List.map Outline.number) hcontent)
  have hblockChildren : t.children 1 = 2 :: (outlineAll more fresh first).map Outline.number :=
    houtlined.children_eq hblock
  have hblockKind : t.kind? 1 = some .codeBlock := houtlined.kind?_eq hblock
  have hkind : t.kind? 2 = some kind := houtlined.kind?_eq hstatement
  have hfirst : t.firstToken 2 = 0 := houtlined.firstToken_eq hstatement
  have hstop : t.endToken 2 = (tokensAll items).length := houtlined.endToken_eq hstatement
  have hchildren : t.children 2 = (outlineAll items 3 0).map Outline.number :=
    houtlined.children_eq hstatement
  have hmore : (outlineAll more fresh first).map Outline.number = [] ↔ skeletonsAll more = [] := by
    rw [List.map_eq_nil_iff, ← List.length_eq_zero_iff, length_outlineAll,
      List.length_eq_zero_iff]
  constructor
  · rintro ⟨block, statement, hblock', -, hstatement', hkind', -, rfl, rfl⟩
    obtain rfl := List.head_eq_of_cons_eq (hrootChildren.symm.trans hblock')
    rw [hblockChildren] at hstatement'
    obtain ⟨rfl, hnone⟩ := List.cons.inj hstatement'
    exact ⟨Option.some.inj (hkind'.symm.trans hkind), hstop, hchildren, hmore.mp hnone⟩
  · rintro ⟨rfl, rfl, rfl, hnone⟩
    refine ⟨1, 2, hrootChildren, hblockKind, ?_, hkind, hfirst, hstop, hchildren⟩
    rw [hblockChildren, hmore.mpr hnone]

namespace Grammar

variable {source : List Char} {lexed : Lexed} {t : Tree} {first : TokenKind}
  {ahead rest : List TokenKind} {items more : List Derivation}

/-- What a source that begins with a statement is read as, if it is read. -/
theorem exists_statement_of_parse (hlexed : tokenize source = .ok lexed)
    (hkinds : lexed.kinds = first :: ahead) (hbegins : beginsDeclaration (first :: ahead) = false)
    (hfirst : first ≠ .semicolon) (ht : parse source = .ok t) :
    ∃ items rest more,
      statement (below (nestingLimit - 1)) (first :: ahead) = .ok (items, rest) ∧
        statements (below (nestingLimit - 1)) [] rest = .ok (more, []) ∧
          t.Derived source [.node .codeBlock [] (items ++ more)] := by
  obtain ⟨content, hcontent⟩ := parse_derived ht
  obtain rfl := Except.ok.inj (hlexed.symm.trans hcontent.lexed)
  have hderives := hcontent.derives
  rw [hkinds, derive_eq_ok_iff hbegins] at hderives
  obtain ⟨ds, hds, hstatements⟩ := hderives
  cases hds
  obtain ⟨items, rest, more, hitems, hmore, rfl⟩ :=
    (statements_cons_iff (continuesBlock_nil first) hfirst).mp hstatements
  exact ⟨items, rest, more, hitems, hmore, hcontent⟩

/-- A source that begins with a statement is read, if what is behind the statement is. -/
theorem exists_parse_of_statement (hlexed : tokenize source = .ok lexed)
    (hkinds : lexed.kinds = first :: ahead) (hbegins : beginsDeclaration (first :: ahead) = false)
    (hfirst : first ≠ .semicolon)
    (hstatement : statement (below (nestingLimit - 1)) (first :: ahead) = .ok (items, rest))
    (hmore : statements (below (nestingLimit - 1)) [] rest = .ok (more, [])) :
    ∃ t, parse source = .ok t ∧ t.Derived source [.node .codeBlock [] (items ++ more)] := by
  have hderive : derive lexed.kinds =
      .ok [.node .module [] [.node .codeBlock [] (items ++ more)]] := by
    rw [hkinds, derive_eq_ok_iff hbegins]
    exact ⟨_, rfl, (statements_cons_iff (continuesBlock_nil first) hfirst).mpr
      ⟨items, rest, more, hstatement, hmore, rfl⟩⟩
  have ht := parse_eq_ok hlexed hderive
  obtain ⟨content, hcontent⟩ := parse_derived ht
  have hsame := hcontent.derives.symm.trans hderive
  cases hsame
  exact ⟨_, ht, hcontent⟩

/-- A statement covers what it does not leave. -/
theorem length_of_statement {n : Nat} {kind : NodeKind}
    (h : statement (below n) ahead = .ok ([.node kind [] items], rest)) :
    (tokensAll items).length + rest.length = ahead.length := by
  have htokens := (reads_statement (sound_below n) ahead trivial _ _ h).tokens
  rw [← htokens, List.length_append]
  simp [tokens]

/-- A source of a statement and semicolons behind it is a module of one statement. -/
theorem exists_onlyStatement {kind : NodeKind} {stop : Nat} (hlexed : tokenize source = .ok lexed)
    (hkinds : lexed.kinds = first :: ahead) (hbegins : beginsDeclaration (first :: ahead) = false)
    (hfirst : first ≠ .semicolon)
    (hstatement : statement (below (nestingLimit - 1)) (first :: ahead) =
      .ok ([.node kind [] items], rest))
    (hmore : statements (below (nestingLimit - 1)) [] rest = .ok (more, []))
    (hnone : skeletonsAll more = []) (hstop : stop + rest.length = (first :: ahead).length) :
    ∃ t children, parse source = .ok t ∧ t.OnlyStatement kind stop children := by
  obtain ⟨t, ht, hderived⟩ :=
    exists_parse_of_statement hlexed hkinds hbegins hfirst hstatement hmore
  have hlength := length_of_statement hstatement
  exact ⟨t, _, ht, hderived.onlyStatement_iff.mpr ⟨rfl, by omega, rfl, hnone⟩⟩

/-- An expression is one node. -/
theorem exists_node_of_expression {n : Nat}
    (h : expression (below n) ahead = .ok (items, rest)) :
    ∃ kind lead more, items = [.node kind lead more] := by
  obtain ⟨shape, hshape, -⟩ := (reads_expression (sound_below n) ahead trivial _ _ h).word
  obtain ⟨d, rfl, hd⟩ := List.map_eq_singleton_iff.mp hshape
  cases d with
  | token kind => cases hd
  | node kind lead more => exact ⟨kind, lead, more, rfl⟩

/-- An expression that may be left out is left out, or it is one. -/
theorem optionalExpression_ok {inner : Option Level}
    (h : optionalExpression inner ahead = .ok (items, rest)) :
    items = [] ∨ expression inner ahead = .ok (items, rest) := by
  rcases ahead with - | ⟨kind, ahead⟩
  · cases h
    exact .inl rfl
  · change (if isStatementEnd kind then Reader.pass else expression inner) (kind :: ahead) = _ at h
    split at h
    · cases h
      exact .inl rfl
    · exact .inr h

section Heads

variable {inner : Option Level}

/-- `Return` takes an expression that may be left out. -/
theorem exists_optional_of_return
    (h : statement inner (.keyword .Return :: ahead) = .ok (items, rest)) :
    ∃ value, items = [.node .returnStatement [] (.token (.keyword .Return) :: value)] ∧
      optionalExpression inner ahead = .ok (value, rest) := by
  obtain ⟨content, rest', hcontent, hnode⟩ := Reader.bind_eq_ok_iff.mp h
  cases hnode
  obtain ⟨keyword, middle, value, hkeyword, hvalue, rfl⟩ := Reader.andThen_ok hcontent
  cases hkeyword
  exact ⟨value, rfl, hvalue⟩

/-- `Execute` takes an expression. -/
theorem execute_of_expression (h : expression inner ahead = .ok (items, rest)) :
    statement inner (.keyword .Execute :: ahead) =
      .ok ([.node .executeStatement [] (.token (.keyword .Execute) :: items)], rest) :=
  Reader.node_take_andThen h

/-- `Raise` takes arguments, if a parenthesis follows. -/
theorem raise_of_argumentList
    (h : argumentList (expression inner) (.lParen :: ahead) = .ok (items, rest)) :
    statement inner (.keyword .Raise :: .lParen :: ahead) =
      .ok ([.node .raiseStatement [] (.token (.keyword .Raise) :: items)], rest) :=
  Reader.node_take_andThen h

/-- `Raise` takes what `Return` does, if no parenthesis follows. -/
theorem raise_of_head?
    (h : optionalExpression inner ahead = .ok (items, rest)) (hhead : ahead.head? ≠ some .lParen) :
    statement inner (.keyword .Raise :: ahead) =
      .ok ([.node .raiseStatement [] (.token (.keyword .Raise) :: items)], rest) := by
  refine Reader.node_take_andThen ?_
  rw [← h]
  rcases ahead with - | ⟨first, ahead⟩
  · rfl
  · have hfirst : first ≠ .lParen := by
      rintro rfl
      exact hhead rfl
    exact @Reader.ifNext_of_false (· == .lParen) first (beq_eq_false_iff_ne.mpr hfirst) _ _ _

end Heads

end Grammar

open Grammar

/-- The kind of the only child of the only statement. -/
theorem Tree.OnlyStatement.kind?_eq {t : Tree} {kind kind' k : NodeKind} {stop value : Nat}
    {ks others : List Skeleton} (h : t.OnlyStatement kind stop [value])
    (hshaped : t.Shaped root
      (.node .module [.node .codeBlock (.node kind' [.node k ks] :: others)])) :
    t.kind? value = some k := by
  obtain ⟨block, statement, hblock, -, hstatement, -, -, -, hvalue⟩ := h
  have hroot := (shaped_iff.mp hshaped).2
  rw [hblock] at hroot
  obtain ⟨hinside, -⟩ := List.forall₂_cons.mp hroot
  have hfirst := (shaped_iff.mp hinside).2
  rw [hstatement] at hfirst
  obtain ⟨hstatements, -⟩ := List.forall₂_cons.mp hfirst
  have hlast := (shaped_iff.mp hstatements).2
  rw [hvalue] at hlast
  exact (shaped_iff.mp (List.forall₂_cons.mp hlast).1).1

/-- **`Return` and `Execute` take the same expressions, `Raise` does not take all of them.**
Where a source is a `Return` of an expression, the source with `Execute` in its place is an
`Execute` of the same tokens.  The source with `Raise` in its place is a `Raise` of the same
tokens if and only if the expression does not begin with a parenthesis, or is in parentheses
as a whole. -/
theorem raise_parses_iff {e : List TokenKind} {source : List Char} {lexed : Lexed} {t : Tree}
    {value stop : Nat} (hlexed : tokenize source = .ok lexed)
    (hkinds : lexed.kinds = .keyword .Return :: (e ++ [.semicolon]))
    (ht : parse source = .ok t) (honly : t.OnlyStatement .returnStatement stop [value]) :
    (∀ source' lexed', tokenize source' = .ok lexed' →
      lexed'.kinds = .keyword .Execute :: (e ++ [.semicolon]) →
        ∃ t' children, parse source' = .ok t' ∧ t'.OnlyStatement .executeStatement stop children) ∧
    (∀ source' lexed', tokenize source' = .ok lexed' →
      lexed'.kinds = .keyword .Raise :: (e ++ [.semicolon]) →
        ((∃ t' children, parse source' = .ok t' ∧ t'.OnlyStatement .raiseStatement stop children) ↔
          e.head? ≠ some .lParen ∨ t.kind? value = some .parenExpression)) := by
  obtain ⟨found, rest, more, hstatement, hmore, hderived⟩ :=
    exists_statement_of_parse hlexed hkinds rfl (by decide) ht
  obtain ⟨found, rfl, hfound⟩ := exists_optional_of_return hstatement
  obtain ⟨-, hstop, hchildren, hnone⟩ := hderived.onlyStatement_iff.mp honly
  have hlength := length_of_statement hstatement
  rw [← hstop] at hlength
  have hexpression : expression (below (nestingLimit - 1)) (e ++ [.semicolon]) =
      .ok (found, rest) := by
    rcases optionalExpression_ok hfound with rfl | h
    · cases hchildren
    · exact h
  obtain ⟨kind, lead, inside, rfl⟩ := exists_node_of_expression hexpression
  have hkind : t.kind? value = some kind := honly.kind?_eq hderived.holds.shaped
  refine ⟨fun source' lexed' hlexed' hkinds' => ?_, fun source' lexed' hlexed' hkinds' => ?_⟩
  · exact exists_onlyStatement hlexed' hkinds' rfl (by decide)
      (execute_of_expression hexpression) hmore hnone hlength
  rw [hkind, Option.some_inj]
  by_cases hhead : e.head? = some .lParen
  · -- arguments are read, up to the parenthesis that closes the first one
    obtain ⟨e, rfl⟩ := List.head?_eq_some_iff.mp hhead
    obtain ⟨arguments, middle, harguments, hwhole⟩ := exists_argumentList hexpression
    have hraise : statement (below (nestingLimit - 1))
        (.keyword .Raise :: (.lParen :: e ++ [.semicolon])) = _ := raise_of_argumentList harguments
    rcases hwhole with ⟨rfl, rfl⟩ | ⟨hnot, hlt⟩
    · exact iff_of_true
        (exists_onlyStatement hlexed' hkinds' rfl (by decide) hraise hmore hnone hlength)
        (.inr rfl)
    · refine iff_of_false ?_ ?_
      · rintro ⟨t', children, ht', honly'⟩
        obtain ⟨found', rest', more', hstatement', -, hderived'⟩ :=
          exists_statement_of_parse hlexed' hkinds' rfl (by decide) ht'
        rw [hraise] at hstatement'
        cases hstatement'
        have hstop' := (hderived'.onlyStatement_iff.mp honly').2.1
        have hlength' := length_of_statement hraise
        simp only [List.length_cons] at hlength hlength'
        omega
      · rintro (hne | rfl)
        · exact hne rfl
        · exact hnot rfl
  · have hnext : (e ++ [TokenKind.semicolon]).head? ≠ some .lParen := by
      rcases e with - | ⟨first, e⟩
      · decide
      · exact hhead
    exact iff_of_true (exists_onlyStatement hlexed' hkinds' rfl (by decide)
      (raise_of_head? hfound hnext) hmore hnone hlength) (.inl hhead)

/-- A value in parentheses is returned. -/
def returnParen : List Char := "Return (a);".toList

/-- The tokens of the value. -/
def parenKinds : List TokenKind := [.lParen, .identifier, .rParen]

theorem raise_parses_iff_paren :
    ∃ (lexed : Lexed) (t : Tree), tokenize returnParen = .ok lexed ∧
      lexed.kinds = .keyword .Return :: (parenKinds ++ [.semicolon]) ∧
      parse returnParen = .ok t ∧ t.OnlyStatement .returnStatement 4 [3] ∧
    (∀ (source' : List Char) (lexed' : Lexed), tokenize source' = .ok lexed' →
      lexed'.kinds = .keyword .Execute :: (parenKinds ++ [.semicolon]) →
        ∃ t' children, parse source' = .ok t' ∧ t'.OnlyStatement .executeStatement 4 children) ∧
    (∀ (source' : List Char) (lexed' : Lexed), tokenize source' = .ok lexed' →
      lexed'.kinds = .keyword .Raise :: (parenKinds ++ [.semicolon]) →
        ((∃ t' children, parse source' = .ok t' ∧ t'.OnlyStatement .raiseStatement 4 children) ↔
          parenKinds.head? ≠ some .lParen ∨
            t.kind? 3 = some .parenExpression)) := by
  have hnodes : (parse returnParen).toOption.map (fun t => decide
      ((t.children 0 = [1] ∧ t.kind? 1 = some .codeBlock ∧ t.children 1 = [2] ∧
        t.kind? 2 = some .returnStatement ∧ t.firstToken 2 = 0 ∧ t.endToken 2 = 4 ∧
        t.children 2 = [3]) ∧
      t.lexed.kinds = .keyword .Return :: (parenKinds ++ [.semicolon]))) =
      some true := by decide +kernel
  obtain ⟨t, ht, hfirst⟩ := exists_parse_of_map hnodes
  obtain ⟨honly, hkinds⟩ := of_decide_eq_true hfirst
  have honly : t.OnlyStatement .returnStatement 4 [3] := ⟨1, 2, honly⟩
  obtain ⟨content, hcontent⟩ := parse_derived ht
  exact ⟨t.lexed, t, hcontent.lexed, hkinds, ht, honly,
    raise_parses_iff hcontent.lexed hkinds ht honly⟩

/-- A value that begins with parentheses is returned, and raised. -/
def returnSum : List Char := "Return (a)+b;".toList

def raiseSum : List Char := "Raise (a)+b;".toList

def sumKinds : List TokenKind := [.lParen, .identifier, .rParen, .plus, .identifier]

/-- **`Raise` does not take all that `Return` does**: behind the parenthesis it goes wrong. -/
theorem not_forall_raise_parses :
    ¬ ∀ (e : List TokenKind) (source source' : List Char) (lexed lexed' : Lexed) (t : Tree)
      (value stop : Nat), tokenize source = .ok lexed →
        lexed.kinds = .keyword .Return :: (e ++ [.semicolon]) → parse source = .ok t →
        t.OnlyStatement .returnStatement stop [value] → tokenize source' = .ok lexed' →
        lexed'.kinds = .keyword .Raise :: (e ++ [.semicolon]) →
        ∃ t' children, parse source' = .ok t' ∧ t'.OnlyStatement .raiseStatement stop children := by
  intro h
  have hnodes : (parse returnSum).toOption.map (fun t => decide
      ((t.children 0 = [1] ∧ t.kind? 1 = some .codeBlock ∧ t.children 1 = [2] ∧
        t.kind? 2 = some .returnStatement ∧ t.firstToken 2 = 0 ∧ t.endToken 2 = 6 ∧
        t.children 2 = [5]) ∧
      t.lexed.kinds = .keyword .Return :: (sumKinds ++ [.semicolon]))) =
      some true := by decide +kernel
  obtain ⟨t, ht, hfirst⟩ := exists_parse_of_map hnodes
  obtain ⟨honly, hkinds⟩ := of_decide_eq_true hfirst
  obtain ⟨content, hcontent⟩ := parse_derived ht
  have hraise : (tokenize raiseSum).toOption.map Lexed.kinds =
      some (.keyword .Raise :: (sumKinds ++ [.semicolon])) := by decide +kernel
  obtain ⟨lexed', hlexed', hkinds'⟩ := exists_tokenize_of_map hraise
  have hparse : parse raiseSum = .error ⟨"expected expression, found '+'", 1, 10⟩ := by
    decide +kernel
  obtain ⟨t', -, ht', -⟩ :=
    h _ _ _ _ _ t 5 6 hcontent.lexed hkinds ht ⟨1, 2, honly⟩ hlexed' hkinds'
  rw [hparse] at ht'
  cases ht'

end ModuleLint
