/-
ModuleLint/Proofs/Grammar/Soundness.lean

The grammar reads its productions.  Each reader of the grammar is read off its
definition by the rules for readers, a level of nesting at a time: what is read one
level deeper is sound (`Level.Sound`), so what is read here is.

Main result: `derive_sound`, every derivation of a module is sound and holds all tokens.
-/
import ModuleLint.Proofs.Grammar.Reads
import ModuleLint.Grammar.Parse

namespace ModuleLint

open scoped Computability
open Production ModuleLint.Derivation

/-! ### Letters -/

theorem expr_mono {j k : Nat} (h : j ≤ k) : expr k ≤ expr j := by
  rintro w ⟨s, rfl, hs⟩
  exact ⟨s, rfl, h.trans hs⟩

theorem sub_le_expr {kind : NodeKind} {level : Nat}
    (h : level ≤ (⟨kind, none⟩ : Shape).level) : sub kind ≤ expr level := by
  rintro w rfl
  exact ⟨_, rfl, h⟩

theorem sub_le_stmt {kind : NodeKind} (h : kind.isStatement) : sub kind ≤ stmt := by
  rintro w rfl
  exact ⟨kind, rfl, h⟩

theorem tok_le_one {kind : TokenKind} {p : TokenKind → Bool} (h : p kind) : tok kind ≤ one p := by
  rintro w rfl
  exact ⟨kind, rfl, h⟩

/-- Items that spell a word with a token in front begin with that token. -/
theorem exists_cons_of_tok {items : List Derivation} {kind : TokenKind} {l : Language Symbol}
    (h : items.map symbol ∈ tok kind * l) : ∃ rest, items = .token kind :: rest := by
  obtain ⟨u, rfl, v, -, heq⟩ := Language.mem_mul.mp h
  rcases items with - | ⟨d, rest⟩
  · cases heq
  · injection heq with hhead htail
    cases d with
    | token k =>
      injection hhead with hk
      exact ⟨rest, by rw [hk]⟩
    | node kind lead items => cases hhead

namespace Grammar

open Reader

variable {p : List TokenKind → Prop} {expression operand : Reader} {level : Level}

/-! ### Operators -/

/-- **A level of operators between operands**, of which the right one is tighter. -/
theorem reads_binary {k : Nat} (hpos : 0 < k) (h : Reads operand (expr (k + 1))) :
    Reads (binary (ofLevel k) operand) (expr k) := by
  refine ReadsAt.chain (h.mono (expr_mono (Nat.le_succ k))) ?_
  intro op kind content hstep
  split at hstep
  · rename_i hop
    obtain ⟨rfl, rfl⟩ := Prod.mk.inj (Option.some.inj hstep)
    have hlevel : binaryLevel op = k := beq_iff_eq.mp hop
    refine ⟨tok op * expr (k + 1), ⟨.binaryExpression, some op⟩, readsAt_take.andThen h,
      ⟨_, rfl, hlevel.ge⟩, fun lead more hlead hmore => ?_⟩
    -- the content begins with the operator, so the node shows it
    obtain ⟨rest, rfl⟩ := exists_cons_of_tok hmore
    have hproduction : production ⟨.binaryExpression, some op⟩ =
        expr k * (tok op * expr (k + 1)) := by
      simp [production, infixed, hlevel, hpos.ne']
    refine ⟨rfl, ?_⟩
    rw [hproduction, List.map_append]
    exact Language.append_mem_mul hlead hmore
  · cases hstep

/-- **An operator before an operand.** -/
theorem readsAt_unary {op : TokenKind} (hop : unaryLevel op ≠ 0)
    (h : Reads operand (expr (unaryLevel op))) :
    ReadsAt (Next op) (node .unaryExpression (take >> operand))
      {[.node ⟨.unaryExpression, some op⟩]} := by
  have hproduction : production ⟨.unaryExpression, some op⟩ = tok op * expr (unaryLevel op) := by
    simp [production, Production.signed, hop]
  refine ReadsAt.node_shape ?_ fun items hitems => ?_
  · rw [hproduction]
    exact readsAt_take.andThen h
  · rw [hproduction] at hitems
    obtain ⟨rest, rfl⟩ := exists_cons_of_tok hitems
    rfl

/-! ### Names, arguments and primaries -/

theorem readsAt_name {kind : TokenKind} (h : kind.isName) :
    ReadsAt (Next kind) (node .identifier take) (sub .identifier) :=
  readsAt_take.node (tok_le_one h)

theorem reads_identifier : Reads identifier (sub .identifier) := by
  rw [← add_zero (sub .identifier)]
  exact (readsAt_name rfl).ifNextIs readsAt_stop

theorem reads_memberName : Reads memberName (sub .identifier) := by
  rw [← add_zero (sub .identifier)]
  refine ReadsAt.ifNext (fun kind hkind => readsAt_name ?_) readsAt_stop
  cases kind <;> first | rfl | cases hkind

theorem reads_argumentList (he : Reads expression (expr 1)) :
    Reads (argumentList expression) (sub .argumentList) := by
  have hitem : Reads (ifNext (fun kind => kind == .comma || kind == .rParen) pass expression)
      (opt (expr 1)) :=
    ReadsAt.ifNext (fun kind _ => readsAt_pass) he
  have hlist := (reads_commaSeparated hitem).andThen (reads_expect .rParen)
  exact ReadsAt.node ((reads_expect .lParen).andThen
    ((@readsAt_take .rParen).ifNextIs hlist)) le_rfl

/-- Arguments, if a parenthesis follows. -/
theorem reads_arguments (he : Reads expression (expr 1)) :
    Reads (ifNext (· == .lParen) (argumentList expression) pass) (opt (sub .argumentList)) :=
  reads_optional fun _ _ => (reads_argumentList he).at

theorem readsAt_newExpression (he : Reads expression (expr 1)) :
    ReadsAt (Next (.keyword .New)) (newExpression expression) (sub .newExpression) := by
  refine ReadsAt.node (readsAt_take.andThen (readsAt_peek (fun kind => ?_) readsAt_stop)) le_rfl
  split
  · rename_i hkind
    obtain rfl := Option.some.inj hkind
    have htype : ReadsAt (Next .identifier) (node .typeName take) (sub .typeName) :=
      readsAt_take.node le_rfl
    exact (htype.andThen (reads_arguments he)).mono le_self_add
  · exact ((reads_argumentList he).mono le_add_self).at
  · exact readsAt_stop

theorem readsAt_parenthesised (he : Reads expression (expr 1)) :
    ReadsAt (Next .lParen) (parenthesised expression) (sub .parenExpression) :=
  (readsAt_take.andThen (he.andThen (reads_expect .rParen))).node
    (by simp only [production, mul_assoc, le_refl])

theorem readsAt_ternary (he : Reads expression (expr 1)) :
    ReadsAt (Next .question) (ternary expression) (sub .ternaryExpression) :=
  (readsAt_take.andThen <| (reads_expect .lParen).andThen <| he.andThen <|
    (reads_expect .comma).andThen <| he.andThen <| (reads_expect .comma).andThen <|
    he.andThen <| reads_expect .rParen).node
    (by simp only [production, mul_assoc, le_refl])

theorem reads_primary (he : Reads expression (expr 1)) : Reads (primary expression) (expr 8) := by
  refine readsAt_peek (fun kind => ?_) readsAt_stop
  split
  · exact (reads_identifier.mono (sub_le_expr (by decide))).at
  · rename_i hkind
    obtain rfl := Option.some.inj hkind
    have hstrings : ReadsAt (Next .string) (node .literal (many (nextIs (· == .string)) take))
        (sub .literal) := (readsAt_many_take .string).node le_add_self
    exact hstrings.mono (sub_le_expr (by decide))
  · rename_i hkind
    obtain rfl := Option.some.inj hkind
    exact (readsAt_parenthesised he).mono (sub_le_expr (by decide))
  · rename_i hkind
    obtain rfl := Option.some.inj hkind
    exact (readsAt_ternary he).mono (sub_le_expr (by decide))
  · rename_i hkind
    obtain rfl := Option.some.inj hkind
    exact (readsAt_newExpression he).mono (sub_le_expr (by decide))
  · rename_i hkind
    obtain rfl := Option.some.inj hkind
    split
    · rename_i hliteral
      have hnode : ReadsAt (Next kind) (node .literal take) (sub .literal) :=
        readsAt_take.node ((tok_le_one hliteral).trans le_self_add)
      exact hnode.mono (sub_le_expr (by decide))
    · exact readsAt_stop
  · exact readsAt_stop

/-- **A primary with what follows it** is tighter than every operator. -/
theorem reads_suffixed (he : Reads expression (expr 1)) : Reads (suffixed expression) (expr 8) := by
  refine ReadsAt.chain (reads_primary he) fun next kind content hstep => ?_
  split at hstep
  · obtain ⟨rfl, rfl⟩ := Prod.mk.inj (Option.some.inj hstep)
    exact continues_of_le (readsAt_take.andThen reads_memberName) (sub_le_expr (by decide)) le_rfl
  · obtain ⟨rfl, rfl⟩ := Prod.mk.inj (Option.some.inj hstep)
    exact continues_of_le (readsAt_take.andThen (he.andThen (reads_expect .rBracket)))
      (sub_le_expr (by decide)) (by simp only [production, mul_assoc, le_refl])
  · obtain ⟨rfl, rfl⟩ := Prod.mk.inj (Option.some.inj hstep)
    exact continues_of_le (reads_argumentList he).at (sub_le_expr (by decide)) le_rfl
  · cases hstep

end Grammar

/-! ### The grammar, a level of nesting at a time -/

/-- **What is read one level deeper is sound.** -/
structure Level.Sound (level : Level) : Prop where
  negated : Reader.Reads level.negated (expr 3)
  signed : Reader.Reads level.signed (expr 7)
  statement : Reader.Reads level.statement stmt

namespace Grammar

open Reader

variable {p : List TokenKind → Prop} {inner : Option Level}

theorem readsAt_deeper {content : Level → Reader} {l : Language Symbol}
    (h : ∀ level, inner = some level → ReadsAt p (content level) l) :
    ReadsAt p (deeper inner content) l := by
  unfold deeper
  split
  · exact readsAt_stop
  · exact h _ rfl

/-- An operator before an operand that is read one level deeper. -/
theorem readsAt_prefixed {op : TokenKind} {operand : Level → Reader} (hop : unaryLevel op ≠ 0)
    (h : ∀ level, inner = some level → Reads (operand level) (expr (unaryLevel op))) :
    ReadsAt (Next op) (deeper inner fun level => node .unaryExpression (take >> operand level))
      {[.node ⟨.unaryExpression, some op⟩]} :=
  readsAt_deeper fun level hlevel => readsAt_unary hop (h level hlevel)

/-- **A level of operators before an operand**: one of them, or something tighter. -/
theorem reads_prefixed {k : Nat} {operand : Level → Reader} {tighter : Reader} (hpos : 0 < k)
    (h : ∀ level, inner = some level → Reads (operand level) (expr k))
    (htighter : Reads tighter (expr (k + 1))) :
    Reads (ifNext (ofPrefixLevel k)
      (deeper inner fun level => node .unaryExpression (take >> operand level)) tighter)
      (expr k) := by
  refine Reads.mono (l := expr k + expr (k + 1)) ?_ (add_le le_rfl (expr_mono (Nat.le_succ k)))
  refine ReadsAt.ifNext (fun op hop => ?_) htighter
  obtain rfl : unaryLevel op = k := beq_iff_eq.mp hop
  refine (readsAt_prefixed hpos.ne' h).mono ?_
  rintro w rfl
  exact ⟨_, rfl, le_rfl⟩

/-- What a block is made of: a semicolon or a statement. -/
theorem reads_semicolonOr {level : Level} (h : level.Sound) :
    Reads (ifNext (· == .semicolon) take level.statement) (tok .semicolon + stmt) :=
  readsAt_take.ifNextIs h.statement.at

theorem visible_semicolonOr : Visible (tok .semicolon + stmt) := by
  refine .add (.tok _) ?_
  rintro w ⟨kind, rfl, hkind⟩
  refine ⟨_, List.mem_singleton_self _, ?_, ?_⟩ <;> rintro rfl <;> cases hkind

theorem reads_word (keyword : Keyword) : Reads (word keyword) (reserved keyword) :=
  reads_expect _

theorem readsAt_varDeclaration :
    ReadsAt (Next (.keyword .Var)) varDeclaration (sub .varDeclaration) := by
  have hname := reads_identifier.andThen (reads_accept (.keyword .Export))
  exact (readsAt_take.andThen <| (reads_commaSeparated hname).andThen <|
    reads_accept .semicolon).node (by simp only [production, reserved, mul_assoc, le_refl])

/-- Negations with `And` between them. -/
theorem reads_conjunction {level : Level} (h : level.Sound) :
    Reads (binary (isWord .And) level.negated) (expr 2) := by
  rw [isWord_and]
  exact reads_binary (by decide) h.negated

section Inner

variable (hi : ∀ level, inner = some level → level.Sound)

include hi

theorem reads_expression : Reads (expression inner) (expr 1) := by
  refine readsAt_deeper fun level hlevel => ?_
  rw [isWord_or]
  exact reads_binary (by decide) (reads_conjunction (hi level hlevel))

theorem reads_signed : Reads (signed inner) (expr 7) := by
  rw [signed, isSign_eq]
  exact reads_prefixed (by decide) (fun level hlevel => (hi level hlevel).signed)
    (reads_suffixed (reads_expression hi))

/-- `Await` with its operand can be called. -/
theorem readsAt_await : ReadsAt (Next (.keyword .Await)) (signed inner) await := by
  rintro (- | ⟨kind, ahead⟩) hp items rest hr
  · cases hp
  · obtain rfl := Option.some.inj hp
    have hsigned : ReadsAt (Next (.keyword .Await)) _ await :=
      readsAt_prefixed (by decide) fun level hlevel => (hi level hlevel).signed
    exact hsigned (.keyword .Await :: ahead) rfl items rest hr

theorem reads_product : Reads (binary isMultiplicative (signed inner)) (expr 6) := by
  rw [isMultiplicative_eq]
  exact reads_binary (by decide) (reads_signed hi)

theorem reads_sum :
    Reads (binary isAdditive (binary isMultiplicative (signed inner))) (expr 5) := by
  rw [isAdditive_eq]
  exact reads_binary (by decide) (reads_product hi)

theorem reads_comparison : Reads (comparison inner) (expr 4) := by
  rw [comparison, isComparison_eq]
  exact reads_binary (by decide) (reads_sum hi)

theorem reads_negated : Reads (negated inner) (expr 3) := by
  rw [negated, isWord_not]
  exact reads_prefixed (by decide) (fun level hlevel => (hi level hlevel).negated)
    (reads_comparison hi)

/-! ### Declarations and blocks -/

theorem reads_block (ends : List Keyword) : Reads (block inner ends) (sub .codeBlock) := by
  refine readsAt_deeper fun level hlevel => ReadsAt.node (l := (tok .semicolon + stmt)∗) ?_ le_rfl
  exact reads_many_next fun kind _ => (reads_semicolonOr (hi level hlevel)).at

theorem readsAt_directive : ReadsAt (Next .ampersand) (directive inner) (sub .directive) :=
  (readsAt_take.andThen (reads_identifier.andThen (reads_arguments (reads_expression hi)))).node
    (by simp only [production, mul_assoc, le_refl])

theorem reads_directives : Reads (directives inner) (sub .directive)∗ := by
  refine reads_many_next fun kind hkind => ?_
  obtain rfl := beq_iff_eq.mp hkind
  exact readsAt_directive hi

theorem reads_parameter : Reads (parameter inner) (sub .parameter) := by
  have hvalue : Reads (ifNext (· == .eq) (take >> expression inner) pass)
      (opt (tok .eq * expr 1)) := by
    refine reads_optional fun kind hkind => ?_
    obtain rfl := beq_iff_eq.mp hkind
    exact readsAt_take.andThen (reads_expression hi)
  exact ReadsAt.node ((reads_directives hi).andThen <| (reads_accept (.keyword .Val)).andThen <|
    reads_identifier.andThen hvalue) (by simp only [production, reserved, mul_assoc, le_refl])

theorem reads_parameterList : Reads (parameterList inner) (sub .parameterList) := by
  have hlist := (reads_commaSeparated (reads_parameter hi)).andThen (reads_expect .rParen)
  exact ReadsAt.node ((reads_expect .lParen).andThen
    ((@readsAt_take .rParen).ifNextIs hlist)) le_rfl

theorem readsAt_methodContent (begin_ : Keyword) {finish : Keyword} :
    ReadsAt (Next (.keyword begin_)) (methodContent inner finish)
      (reserved begin_ * sub .identifier * sub .parameterList * opt (reserved .Export) *
        sub .codeBlock * reserved finish) := by
  have h := @readsAt_take (.keyword begin_) |>.andThen <| reads_identifier.andThen <|
    (reads_parameterList hi).andThen <| (reads_accept (.keyword .Export)).andThen <|
    (reads_block hi [finish]).andThen <| reads_expectAs (.keyword finish) .endOfMethod
  exact h.mono (by simp only [reserved, mul_assoc, le_refl])

/-- **A method.** -/
theorem reads_method : Reads (method inner) (sub .procedure + sub .function) := by
  have hlead := (reads_directives hi).andThen (reads_accept (.keyword .Async))
  refine ReadsAt.wrap hlead fun next kind content hchoice => ?_
  split at hchoice
  · obtain ⟨rfl, rfl⟩ := Prod.mk.inj (Except.ok.inj hchoice)
    exact ⟨_, readsAt_methodContent hi .Procedure, le_rfl, le_self_add⟩
  · obtain ⟨rfl, rfl⟩ := Prod.mk.inj (Except.ok.inj hchoice)
    exact ⟨_, readsAt_methodContent hi .Function, le_rfl, le_add_self⟩
  · cases hchoice

/-! ### Statements -/

theorem readsAt_condition (keyword : Keyword) :
    ReadsAt (Next (.keyword keyword)) (condition inner) (guarded keyword) := by
  have h := @readsAt_take (.keyword keyword) |>.andThen <|
    (reads_expression hi).andThen <| (reads_word .Then).andThen <|
    reads_block hi [.ElsIf, .Else, .EndIf]
  exact h.mono (by simp only [guarded, reserved, mul_assoc, le_refl])

theorem readsAt_ifStatement :
    ReadsAt (Next (.keyword .If)) (ifStatement inner) (sub .ifStatement) := by
  have hbranch : ReadsAt (Next (.keyword .If)) (node .ifBranch (condition inner))
      (sub .ifBranch) := (readsAt_condition hi .If).node le_rfl
  have helsIf : Reads (many (nextIs (isWord .ElsIf)) (node .elsIfBranch (condition inner)))
      (sub .elsIfBranch)∗ := by
    refine reads_many_next fun kind hkind => ?_
    obtain rfl := beq_iff_eq.mp hkind
    exact (readsAt_condition hi .ElsIf).node le_rfl
  have helse : Reads (ifNext (isWord .Else) (node .elseBranch (take >> block inner [.EndIf])) pass)
      (opt (sub .elseBranch)) := by
    refine reads_optional fun kind hkind => ?_
    obtain rfl := beq_iff_eq.mp hkind
    exact (readsAt_take.andThen (reads_block hi [.EndIf])).node le_rfl
  exact (hbranch.andThen <| helsIf.andThen <| helse.andThen <| reads_word .EndIf).node
    (by simp only [production, mul_assoc, le_refl])

theorem reads_loopBody : Reads (loopBody inner) body :=
  ((reads_word .Do).andThen <| (reads_block hi [.EndDo]).andThen <| reads_word .EndDo).mono
    (by simp only [body, mul_assoc, le_refl])

theorem readsAt_whileStatement :
    ReadsAt (Next (.keyword .While)) (whileStatement inner) (sub .whileStatement) :=
  (readsAt_take.andThen <| (reads_expression hi).andThen (reads_loopBody hi)).node
    (by simp only [production, reserved, mul_assoc, le_refl])

theorem readsAt_forStatement :
    ReadsAt (Next (.keyword .For)) (forStatement inner)
      (sub .forEachStatement + sub .forStatement) := by
  have hexpression := reads_expression hi
  have hbody := reads_loopBody hi
  refine ReadsAt.ifAhead ?_ ?_
  · -- the test looks behind the first word, which is taken before `Each`
    have hnext : ∀ ahead, nextIs (isWord .Each) ahead → Next (.keyword .Each) ahead := by
      rintro (- | ⟨kind, ahead⟩) heach
      · cases heach
      · obtain rfl := beq_iff_eq.mp heach
        rfl
    have heach := @readsAt_take (.keyword .Each) |>.andThen <| reads_identifier.andThen <|
      (reads_word .In).andThen <| hexpression.andThen hbody
    have hboth := (@readsAt_take_andThen _ _ _ (.keyword .For) heach).where
      fun ahead (h : Next _ ahead ∧ _) => ⟨h.1, hnext ahead.tail h.2⟩
    exact hboth.node (by simp only [production, reserved, mul_assoc, le_refl])
  · exact (readsAt_take.andThen <| reads_identifier.andThen <| (reads_expect .eq).andThen <|
      hexpression.andThen <| (reads_word .To).andThen <| hexpression.andThen hbody).node
      (by simp only [production, reserved, mul_assoc, le_refl])

theorem readsAt_tryStatement :
    ReadsAt (Next (.keyword .Try)) (tryStatement inner) (sub .tryStatement) := by
  have hexcept : Reads (node .exceptBranch (word .Except >> block inner [.EndTry]))
      (sub .exceptBranch) :=
    ReadsAt.node ((reads_word .Except).andThen (reads_block hi [.EndTry])) le_rfl
  exact (readsAt_take.andThen <| (reads_block hi [.Except]).andThen <| hexcept.andThen <|
    reads_word .EndTry).node (by simp only [production, reserved, mul_assoc, le_refl])

theorem reads_optionalExpression : Reads (optionalExpression inner) (opt (expr 1)) := by
  refine readsAt_peek (fun kind => ?_) (readsAt_pass.mono le_self_add)
  dsimp only
  split
  · exact readsAt_pass.mono le_self_add
  · exact ((reads_expression hi).mono le_add_self).at

theorem readsAt_handlerStatement (keyword : Keyword) {kind : NodeKind}
    (hkind : production ⟨kind, none⟩ = handler keyword) :
    ReadsAt (Next (.keyword keyword)) (handlerStatement inner kind) (sub kind) := by
  have hexpression := reads_expression hi
  have h := @readsAt_take (.keyword keyword) |>.andThen <| hexpression.andThen <|
    (reads_expect .comma).andThen hexpression
  exact h.node (by simp only [hkind, handler, reserved, mul_assoc, le_refl])

theorem reads_simpleStatement :
    Reads (simpleStatement inner) (sub .assignmentStatement + sub .callStatement) := by
  have htarget : Reads
      (ifNext (isWord .Await) (Grammar.signed inner) (suffixed (expression inner))) target := by
    rw [target, add_comm]
    refine ReadsAt.ifNext (fun kind hkind => ?_) (reads_suffixed (reads_expression hi))
    obtain rfl := beq_iff_eq.mp hkind
    exact readsAt_await hi
  refine ReadsAt.wrap htarget fun next kind content hchoice => ?_
  split at hchoice
  · obtain ⟨rfl, rfl⟩ := Prod.mk.inj (Except.ok.inj hchoice)
    exact ⟨_, readsAt_take.andThen (reads_expression hi), le_rfl, le_self_add⟩
  · obtain ⟨rfl, rfl⟩ := Prod.mk.inj (Except.ok.inj hchoice)
    exact ⟨1, readsAt_pass, by rw [mul_one]; exact le_rfl, le_add_self⟩

/-- **A statement.** -/
theorem reads_statement : Reads (statement inner) stmt := by
  have hexpression := reads_expression hi
  have hsimple : Reads (simpleStatement inner) stmt :=
    (reads_simpleStatement hi).mono (add_le (sub_le_stmt rfl) (sub_le_stmt rfl))
  refine readsAt_peek (fun kind => ?_) hsimple.at
  -- a statement of its own keyword is a letter for statements
  have hstmt : ∀ {k : NodeKind} {r : Reader}, ReadsAt (Next kind) r (sub k) → k.isStatement →
      ReadsAt (Next kind) r stmt := fun h hk => h.mono (sub_le_stmt hk)
  split <;> (try rename_i hkind; obtain rfl := Option.some.inj hkind)
  · exact hstmt (readsAt_ifStatement hi) rfl
  · exact hstmt (readsAt_whileStatement hi) rfl
  · exact (readsAt_forStatement hi).mono (add_le (sub_le_stmt rfl) (sub_le_stmt rfl))
  · exact hstmt (readsAt_tryStatement hi) rfl
  · exact hstmt readsAt_varDeclaration rfl
  · exact hstmt ((readsAt_take.andThen (reads_optionalExpression hi)).node le_rfl) rfl
  · have hraised := @ReadsAt.ifNextIs (fun _ => True) _ _ _ _ .lParen
      (reads_argumentList hexpression).at (reads_optionalExpression hi)
    exact hstmt ((readsAt_take.andThen hraised).node le_rfl) rfl
  · exact hstmt ((readsAt_take.andThen hexpression).node le_rfl) rfl
  · exact hstmt ((readsAt_take.andThen ((reads_expect .tilde).andThen reads_identifier)).node
      (by simp only [production, reserved, mul_assoc, le_refl])) rfl
  · exact hstmt (readsAt_take.node le_rfl) rfl
  · exact hstmt (readsAt_take.node le_rfl) rfl
  · exact hstmt (readsAt_handlerStatement hi .AddHandler rfl) rfl
  · exact hstmt (readsAt_handlerStatement hi .RemoveHandler rfl) rfl
  · exact hstmt ((readsAt_take.andThen (reads_identifier.andThen (reads_expect .colon))).node
      (by simp only [production, mul_assoc, le_refl])) rfl
  · exact hsimple.at

theorem sound_levelOver : (levelOver inner).Sound :=
  ⟨reads_negated hi, reads_signed hi, reads_statement hi⟩

theorem reads_declaration :
    Reads (declaration inner) (sub .varDeclaration + sub .procedure + sub .function) := by
  rw [add_assoc]
  refine ReadsAt.ifNext (fun kind hkind => ?_) (reads_method hi)
  obtain rfl := beq_iff_eq.mp hkind
  exact readsAt_varDeclaration

end Inner

/-- **Every level is sound**, by induction on how many levels may be opened. -/
theorem sound_level (n : Nat) : (level n).Sound := by
  induction n with
  | zero => exact sound_levelOver fun _ h => by cases h
  | succ n ih => exact sound_levelOver fun _ h => Option.some.inj h ▸ ih

theorem sound_below (n : Nat) : ∀ level, below n = some level → level.Sound := by
  intro level hlevel
  cases n with
  | zero => cases hlevel
  | succ n => exact Option.some.inj hlevel ▸ sound_level n

/-! ### Modules -/

/-- Each declaration takes a token. -/
theorem takesAt_declaration (n : Nat) :
    TakesAt (fun ahead => beginsDeclaration ahead = true) (declaration (below n)) :=
  (reads_declaration (sound_below n)).at.takesAt
    (.add (.add (.sub (by decide)) (.sub (by decide))) (.sub (by decide)))

theorem reads_module (n : Nat) : Reads (module (below n)) (sub .module) := by
  have hi := sound_below n
  exact ReadsAt.node ((reads_many (reads_declaration hi).at).andThen (reads_block hi [])) le_rfl

/-- A block that no word ends reads everything. -/
theorem block_rest {inner : Option Level} (hi : ∀ level, inner = some level → level.Sound)
    {ahead rest : List TokenKind} {items : List Derivation}
    (h : block inner [] ahead = .ok (items, rest)) : rest = [] := by
  unfold block deeper at h
  split at h
  · cases h
  · rename_i level
    simp only [Reader.node] at h
    split at h
    · cases h
    · rename_i content rest' hcontent
      obtain ⟨-, rfl⟩ := Prod.mk.inj (Except.ok.inj h)
      have hreads := reads_semicolonOr (hi level rfl)
      rcases many_rest (hreads.at.takesAt visible_semicolonOr) hcontent with hnil | hends
      · exact hnil
      · rcases rest' with - | ⟨kind, rest'⟩
        · rfl
        · cases kind <;> cases hends

/-- **Every derivation of a module is sound** and holds all tokens. -/
theorem derive_sound {kinds : List TokenKind} {items : List Derivation}
    (h : derive kinds = .ok items) :
    ∃ content, items = [.node .module [] content] ∧ Sound (.node .module [] content) ∧
      tokensAll content = kinds := by
  unfold derive at h
  split at h
  · cases h
  · rename_i items' rest hmodule
    obtain rfl := Except.ok.inj h
    have hread := reads_module nestingLimit kinds trivial _ _ hmodule
    unfold module Reader.node at hmodule
    split at hmodule
    · cases hmodule
    · rename_i content rest' hcontent
      obtain ⟨rfl, rfl⟩ := Prod.mk.inj (Except.ok.inj hmodule)
      refine ⟨content, rfl, hread.sound.1, ?_⟩
      have hrest : rest' = [] := by
        obtain ⟨_, _, _, _, hblock, _⟩ := andThen_ok hcontent
        exact block_rest (sound_below nestingLimit) hblock
      have htokens := hread.tokens
      rw [hrest, List.append_nil] at htokens
      simpa [tokens] using htokens

end Grammar

end ModuleLint
