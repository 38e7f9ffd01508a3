/-
ModuleLint/Proofs/Checked/Grammar.lean

The grammar as machines, one for each of its readers, and that each of them has a value and
does what its reader reads.

Two things are seen here that a reader does not see.  A machine counts the levels of nesting
that are open, and stops by that count; a reader stops where it has nothing left to read one
level deeper.  Both agree as long as the depth and the levels that are left come to the limit
(`SameLevel`).  And `bump` fails at the end of input, so wherever the grammar takes a token
without asking for its kind, a look ahead must have shown one; before `Each` it must have
shown two.

Main results: `Agrees.level`, by induction on how many levels may be opened, and
`Checked.parse_eq`: on every source the machine of a module has a value, which is the tree or
the report that `parse` gives.
-/
import ModuleLint.Proofs.Checked.Machine
import ModuleLint.Proofs.Checked.Scan
import ModuleLint.Proofs.Grammar.Soundness
import ModuleLint.Proofs.Lexical.Places

namespace ModuleLint

namespace Checked

/-- What can be done one level of nesting deeper. -/
structure Level where
  negated : Machine
  signed : Machine
  statement : Machine

namespace Machine

open Reader (nextIs)
open Grammar (isWord isComparison isAdditive isMultiplicative isSign isLiteral isStatementEnd
  continuesBlock beginsDeclaration)

/-- **Opens a level of nesting**, and closes it behind what is done there. -/
def deeper (inner : Option Level) (content : Level → Machine) : Machine :=
  enter >> inner.elim overrun content >> leave

/-! ### Names, arguments and primaries -/

/-- A level of binary operators. -/
def binary (isOperator : TokenKind → Bool) (operand : Machine) : Machine :=
  chain operand fun kind =>
    if isOperator kind then some (.binaryExpression, bump >> operand) else none

/-- A plain name. -/
def identifier : Machine :=
  ifNext (· == .identifier) (node .identifier bump) (unexpected .identifier)

/-- The name of a member. -/
def memberName : Machine :=
  ifNext (fun | .identifier | .keyword _ => true | _ => false)
    (node .identifier bump) (unexpected .memberName)

/-- Arguments in parentheses. -/
def argumentList (expression : Machine) : Machine :=
  node .argumentList (expect .lParen >>
    ifNext (· == .rParen) bump
      (commaSeparated (ifNext (fun kind => kind == .comma || kind == .rParen) skip expression) >>
        expect .rParen))

/-- `New`. -/
def newExpression (expression : Machine) : Machine :=
  node .newExpression (bump >> peek fun
    | some .identifier =>
      node .typeName bump >> ifNext (· == .lParen) (argumentList expression) skip
    | some .lParen => argumentList expression
    | _ => unexpected .typeName)

/-- `?(condition, yes, no)`. -/
def ternary (expression : Machine) : Machine :=
  node .ternaryExpression (bump >> expect .lParen >> expression >> expect .comma >> expression >>
    expect .comma >> expression >> expect .rParen)

/-- An expression in parentheses. -/
def parenthesised (expression : Machine) : Machine :=
  node .parenExpression (bump >> expression >> expect .rParen)

/-- A primary. -/
def primary (expression : Machine) : Machine := peek fun
  | some .identifier => identifier
  | some .string => node .literal (many (nextIs (· == .string)) bump)
  | some .lParen => parenthesised expression
  | some .question => ternary expression
  | some (.keyword .New) => newExpression expression
  | some kind => if isLiteral kind then node .literal bump else unexpected .expression
  | none => unexpected .expression

/-- A primary with what follows it. -/
def suffixed (expression : Machine) : Machine :=
  chain (primary expression) fun
    | .dot => some (.memberAccess, bump >> memberName)
    | .lBracket => some (.indexAccess, bump >> expression >> expect .rBracket)
    | .lParen => some (.callExpression, argumentList expression)
    | _ => none

/-! ### Expressions -/

/-- An expression. -/
def expression (inner : Option Level) : Machine :=
  deeper inner fun level => binary (isWord .Or) (binary (isWord .And) level.negated)

/-- An operand, with signs and `Await` before it. -/
def signed (inner : Option Level) : Machine :=
  ifNext isSign (deeper inner fun level => node .unaryExpression (bump >> level.signed))
    (suffixed (expression inner))

/-- Products, sums and comparisons of operands. -/
def comparison (inner : Option Level) : Machine :=
  binary isComparison (binary isAdditive (binary isMultiplicative (signed inner)))

/-- A comparison, with `Not` before it. -/
def negated (inner : Option Level) : Machine :=
  ifNext (isWord .Not) (deeper inner fun level => node .unaryExpression (bump >> level.negated))
    (comparison inner)

/-! ### Declarations -/

/-- A reserved word. -/
def word (keyword : Keyword) : Machine := expect (.keyword keyword)

/-- A block of statements, up to one of the words that end it. -/
def block (inner : Option Level) (ends : List Keyword) : Machine :=
  deeper inner fun level =>
    node .codeBlock (many (nextIs (continuesBlock ends))
      (ifNext (· == .semicolon) bump level.statement))

/-- Declared variables. -/
def varDeclaration : Machine :=
  node .varDeclaration (bump >> commaSeparated (identifier >> accept (.keyword .Export)) >>
    accept .semicolon)

/-- A directive before a method or a parameter. -/
def directive (inner : Option Level) : Machine :=
  node .directive (bump >> identifier >>
    ifNext (· == .lParen) (argumentList (expression inner)) skip)

/-- All directives that stand here. -/
def directives (inner : Option Level) : Machine :=
  many (nextIs (· == .ampersand)) (directive inner)

/-- A parameter, with its default value. -/
def parameter (inner : Option Level) : Machine :=
  node .parameter (directives inner >> accept (.keyword .Val) >> identifier >>
    ifNext (· == .eq) (bump >> expression inner) skip)

/-- Parameters in parentheses. -/
def parameterList (inner : Option Level) : Machine :=
  node .parameterList (expect .lParen >>
    ifNext (· == .rParen) bump (commaSeparated (parameter inner) >> expect .rParen))

/-- What follows the words before a method. -/
def methodContent (inner : Option Level) (finish : Keyword) : Machine :=
  bump >> identifier >> parameterList inner >> accept (.keyword .Export) >>
    block inner [finish] >> expectAs (.keyword finish) .endOfMethod

/-- A procedure or a function. -/
def method (inner : Option Level) : Machine :=
  wrap (directives inner >> accept (.keyword .Async)) fun
    | some (.keyword .Procedure) => .ok (.procedure, methodContent inner .EndProcedure)
    | some (.keyword .Function) => .ok (.function, methodContent inner .EndFunction)
    | _ => .error .method

/-! ### Statements -/

/-- A condition with the block it guards. -/
def condition (inner : Option Level) : Machine :=
  bump >> expression inner >> word .Then >> block inner [.ElsIf, .Else, .EndIf]

/-- `If` with all its branches. -/
def ifStatement (inner : Option Level) : Machine :=
  node .ifStatement (node .ifBranch (condition inner) >>
    many (nextIs (isWord .ElsIf)) (node .elsIfBranch (condition inner)) >>
    ifNext (isWord .Else) (node .elseBranch (bump >> block inner [.EndIf])) skip >>
    word .EndIf)

/-- The body of a loop. -/
def loopBody (inner : Option Level) : Machine :=
  word .Do >> block inner [.EndDo] >> word .EndDo

/-- `While`. -/
def whileStatement (inner : Option Level) : Machine :=
  node .whileStatement (bump >> expression inner >> loopBody inner)

/-- `For`.  Of the two words before a collection neither is asked for. -/
def forStatement (inner : Option Level) : Machine :=
  ifAhead (fun ahead => nextIs (isWord .Each) ahead.tail)
    (node .forEachStatement (bump >> bump >> identifier >> word .In >> expression inner >>
      loopBody inner))
    (node .forStatement (bump >> identifier >> expect .eq >> expression inner >> word .To >>
      expression inner >> loopBody inner))

/-- `Try`. -/
def tryStatement (inner : Option Level) : Machine :=
  node .tryStatement (bump >> block inner [.Except] >>
    node .exceptBranch (word .Except >> block inner [.EndTry]) >> word .EndTry)

/-- An expression, unless the statement ends here. -/
def optionalExpression (inner : Option Level) : Machine := peek fun
  | none => skip
  | some kind => if isStatementEnd kind then skip else expression inner

/-- `AddHandler` or `RemoveHandler`. -/
def handlerStatement (inner : Option Level) (kind : NodeKind) : Machine :=
  node kind (bump >> expression inner >> expect .comma >> expression inner)

/-- An assignment or a call. -/
def simpleStatement (inner : Option Level) : Machine :=
  wrap (ifNext (isWord .Await) (signed inner) (suffixed (expression inner))) fun
    | some .eq => .ok (.assignmentStatement, bump >> expression inner)
    | _ => .ok (.callStatement, skip)

/-- A statement. -/
def statement (inner : Option Level) : Machine := peek fun
  | some (.keyword .If) => ifStatement inner
  | some (.keyword .While) => whileStatement inner
  | some (.keyword .For) => forStatement inner
  | some (.keyword .Try) => tryStatement inner
  | some (.keyword .Var) => varDeclaration
  | some (.keyword .Return) => node .returnStatement (bump >> optionalExpression inner)
  | some (.keyword .Raise) =>
    node .raiseStatement (bump >>
      ifNext (· == .lParen) (argumentList (expression inner)) (optionalExpression inner))
  | some (.keyword .Execute) => node .executeStatement (bump >> expression inner)
  | some (.keyword .Goto) => node .gotoStatement (bump >> expect .tilde >> identifier)
  | some (.keyword .Break) => node .breakStatement bump
  | some (.keyword .Continue) => node .continueStatement bump
  | some (.keyword .AddHandler) => handlerStatement inner .addHandlerStatement
  | some (.keyword .RemoveHandler) => handlerStatement inner .removeHandlerStatement
  | some .tilde => node .label (bump >> identifier >> expect .colon)
  | _ => simpleStatement inner

/-! ### Levels and modules -/

/-- What is done where the next level of nesting is `inner`. -/
def levelOver (inner : Option Level) : Level where
  negated := negated inner
  signed := signed inner
  statement := statement inner

/-- The level that may open `n` further levels. -/
def level : Nat → Level
  | 0 => levelOver none
  | n + 1 => levelOver (some (level n))

/-- What may open `n` levels does one level deeper. -/
def below : Nat → Option Level
  | 0 => none
  | n + 1 => some (level n)

/-- A declaration of the module: variables or a method. -/
def declaration (inner : Option Level) : Machine :=
  ifNext (isWord .Var) varDeclaration (method inner)

/-- **A module**: its declarations, then its own statements. -/
def module (inner : Option Level) : Machine :=
  node .module (many beginsDeclaration (declaration inner) >> block inner [])

end Machine

/-- Nothing is taken or open yet. -/
def State.start : State := ⟨0, 0, Builder.empty⟩

/-- **The tree of a module**, or a report on its first error, with every operation checked. -/
def parse (source : List Char) : Option (Except SourceError Tree) := do
  match ← tokenize source with
  | .error e => return .error e
  | .ok lexed =>
    match ← Machine.module (Machine.below Grammar.nestingLimit) ⟨source, lexed⟩ .start with
    | .error e => return .error e
    | .ok s =>
      let b ← s.builder.finishAll?
      return .ok ⟨source, lexed, b.nodes⟩

/-! ### Levels of nesting -/

/-- **Levels do the same** one level deeper than `depth`, and what they read is sound. -/
structure Level.Agrees (input : Input) (depth : Nat) (level : Level) (level' : ModuleLint.Level) :
    Prop where
  negated : Checked.Agrees input depth 0 level.negated level'.negated
  signed : Checked.Agrees input depth 0 level.signed level'.signed
  statement : Checked.Agrees input depth 0 level.statement level'.statement
  sound : level'.Sound

/-- **The count of open levels and the levels that are left agree**: there is one to open as
long as the limit is not reached. -/
inductive SameLevel (input : Input) (depth : Nat) :
    Option Level → Option ModuleLint.Level → Prop
  | reached (h : Grammar.nestingLimit ≤ depth) : SameLevel input depth none none
  | below {level : Level} {level' : ModuleLint.Level} (h : depth < Grammar.nestingLimit)
    (hlevel : level.Agrees input (depth + 1) level') :
    SameLevel input depth (some level) (some level')

variable {input : Input} {depth need : Nat} {m : Machine} {r : Reader} {inner : Option Level}
  {inner' : Option ModuleLint.Level}

theorem SameLevel.sound (h : SameLevel input depth inner inner') :
    ∀ level, inner' = some level → level.Sound := by
  rintro level rfl
  cases h with
  | below _ hlevel => exact hlevel.sound

namespace Agrees

open Production Reader

theorem deeper {content : Level → Machine} {content' : ModuleLint.Level → Reader}
    (hinput : input.Sliceable) (hi : SameLevel input depth inner inner')
    (h : ∀ level level', level.Agrees input (depth + 1) level' →
      Agrees input (depth + 1) need (content level) (content' level')) :
    Agrees input depth need (Machine.deeper inner content) (Grammar.deeper inner' content') := by
  intro s hs hneed
  have hvalid : State.Valid input (depth + 1) { s with depth := s.depth + 1 } :=
    ⟨hs.taken_le, congrArg (· + 1) hs.depth_eq, hs.ready, hs.opened_ne⟩
  cases hi with
  | reached hlimit =>
    -- the report is made with the level counted already
    have hstop : Ends input _ _ (Machine.unexpected _ input { s with depth := s.depth + 1 }) :=
      unexpected hinput (.nesting Grammar.nestingLimit) _ hvalid (Nat.zero_le _)
    have hover : Grammar.nestingLimit < s.depth + 1 := by
      rw [hs.depth_eq]
      exact Nat.lt_succ_of_le hlimit
    change Ends input s _ (Machine.resume _ (Machine.enter input s))
    rw [Machine.enter, if_pos hover]
    generalize Machine.unexpected _ input { s with depth := s.depth + 1 } = result at hstop
    cases hstop with
    | error => exact .error _
  | @below level level' hlimit hlevel =>
    have hunder : ¬ Grammar.nestingLimit < s.depth + 1 := by
      rw [hs.depth_eq]
      exact Nat.not_lt.mpr hlimit
    have hcontent := h level level' hlevel _ hvalid hneed
    change Ends input s (content' level' (input.ahead { s with depth := s.depth + 1 }))
      (Machine.resume _ (Machine.enter input s))
    rw [Machine.enter, if_neg hunder]
    change Ends input s _ (Machine.resume (Machine.leave input)
      (content level input { s with depth := s.depth + 1 }))
    generalize content level input { s with depth := s.depth + 1 } = result at hcontent
    generalize content' level' (input.ahead { s with depth := s.depth + 1 }) = read at hcontent
    cases hcontent with
    | error stop => exact .error stop
    | @ok items s' hreach =>
      have hopen : s'.depth = s.depth + 1 := hreach.depth_eq
      have hleft : Reaches input s items { s' with depth := s'.depth - 1 } :=
        ⟨hreach.taken_le, Nat.sub_eq_of_eq_add hopen, hreach.builder_eq⟩
      rw [Machine.resume, Machine.leave, if_neg (by rw [hopen]; exact Nat.succ_ne_zero _)]
      exact .ok hleft

/-! ### Names, arguments and primaries -/

theorem binary {operand : Machine} {operand' : Reader} {l : Language Symbol}
    (isOperator : TokenKind → Bool) (h : Agrees input depth 0 operand operand')
    (hreads : Reads operand' l) :
    Agrees input depth 0 (Machine.binary isOperator operand)
      (Grammar.binary isOperator operand') := by
  refine chain h fun next => ?_
  split
  · have htakes := (readsAt_take.andThen hreads).takesAt ((Visible.tok next).left l)
    exact .some _ (bump.seq h) htakes
  · exact .none

theorem identifier (hinput : input.Sliceable) :
    Agrees input depth need Machine.identifier Grammar.identifier :=
  ifNext _ (node _ bump) (unexpected hinput _)

theorem memberName (hinput : input.Sliceable) :
    Agrees input depth need Machine.memberName Grammar.memberName :=
  ifNext _ (node _ bump) (unexpected hinput _)

section

variable {expression : Machine} {expression' : Reader} (hinput : input.Sliceable)
  (he : Agrees input depth 0 expression expression') (hreads : Reads expression' (expr 1))
include hinput he hreads

theorem argumentList :
    Agrees input depth need (Machine.argumentList expression)
      (Grammar.argumentList expression') := by
  have hitem : Reads (Reader.ifNext (fun kind => kind == .comma || kind == .rParen) pass
      expression') (opt (expr 1)) :=
    ReadsAt.ifNext (fun kind _ => readsAt_pass) hreads
  have hlist : Agrees input depth 0 _ _ := commaSeparated (ifNext _ skip he) hitem
  exact node _ ((expect hinput _).seq (ifNext _ bump (hlist.seq (expect hinput _))))

theorem newExpression :
    Agrees input depth 1 (Machine.newExpression expression)
      (Grammar.newExpression expression') := by
  refine node _ (bump.seq (peek (fun kind => ?_) (unexpected hinput _)))
  have harguments : Agrees input depth 0 _ _ := argumentList hinput he hreads
  cases kind with
  | identifier => exact (node _ bump).seq (ifNext _ (harguments.mono (Nat.zero_le _)) skip)
  | lParen => exact harguments.mono (Nat.zero_le _)
  | _ => exact unexpected hinput _

omit hreads in
theorem ternary :
    Agrees input depth 1 (Machine.ternary expression) (Grammar.ternary expression') := by
  have hcomma : Agrees input depth 0 _ _ := expect hinput .comma
  refine node _ (bump.seq ((expect hinput _).seq (he.seq (hcomma.seq (he.seq ?_)))))
  exact hcomma.seq (he.seq (expect hinput _))

omit hreads in
theorem parenthesised :
    Agrees input depth 1 (Machine.parenthesised expression)
      (Grammar.parenthesised expression') :=
  node _ (bump.seq (he.seq (expect hinput _)))

theorem primary :
    Agrees input depth 0 (Machine.primary expression) (Grammar.primary expression') := by
  refine peek (fun kind => ?_) (unexpected hinput _)
  have hliteral : Agrees input depth 1
      (if Grammar.isLiteral kind then Machine.node .literal Machine.bump
        else Machine.unexpected .expression)
      (if Grammar.isLiteral kind then Reader.node .literal take else stop .expression) := by
    split
    · exact node _ bump
    · exact unexpected hinput _
  cases kind with
  | identifier => exact identifier hinput
  | string =>
    have htakes : TakesAt (Next .string) take := readsAt_take.takesAt (Visible.tok _)
    refine node _ (many_next bump fun next hnext => ?_)
    obtain rfl := beq_iff_eq.mp hnext
    exact htakes
  | lParen => exact parenthesised hinput he
  | question => exact ternary hinput he
  | keyword word =>
    cases word with
    | New => exact newExpression hinput he hreads
    | _ => exact hliteral
  | _ => exact hliteral

theorem suffixed :
    Agrees input depth 0 (Machine.suffixed expression) (Grammar.suffixed expression') := by
  refine chain (primary hinput he hreads) fun next => ?_
  cases next with
  | dot =>
    have htakes := (readsAt_take.andThen Grammar.reads_memberName).takesAt
      ((Visible.tok .dot).left _)
    exact .some _ (bump.seq (memberName hinput)) htakes
  | lBracket =>
    have htakes := (readsAt_take.andThen (hreads.andThen (reads_expect .rBracket))).takesAt
      ((Visible.tok .lBracket).left _)
    exact .some _ (bump.seq (he.seq (expect hinput _))) htakes
  | lParen =>
    have htakes : TakesAt (Next .lParen) _ :=
      (Grammar.reads_argumentList hreads).at.takesAt (Visible.sub (by decide))
    exact .some _ (argumentList hinput he hreads) htakes
  | _ => exact .none

end

/-! ### Expressions -/

section

variable (hinput : input.Sliceable) (hi : SameLevel input depth inner inner')
include hinput hi

theorem expression :
    Agrees input depth 0 (Machine.expression inner) (Grammar.expression inner') := by
  refine deeper hinput hi fun level level' h => ?_
  have hand : Reads (Grammar.binary (Grammar.isWord .And) level'.negated) (expr 2) := by
    rw [Grammar.isWord_and]
    exact Grammar.reads_binary (by decide) h.sound.negated
  exact binary _ (binary _ h.negated h.sound.negated) hand

theorem signed : Agrees input depth 0 (Machine.signed inner) (Grammar.signed inner') := by
  have hsign : Agrees input depth 1 _ _ := deeper hinput hi fun level level' h =>
    node .unaryExpression (bump.seq h.signed)
  have hreads := Grammar.reads_expression hi.sound
  exact ifNext _ hsign (suffixed hinput (expression hinput hi) hreads)

theorem comparison :
    Agrees input depth 0 (Machine.comparison inner) (Grammar.comparison inner') := by
  have hsigned := Grammar.reads_signed hi.sound
  have hproducts : Reads (Grammar.binary Grammar.isMultiplicative (Grammar.signed inner'))
      (expr 6) := by
    rw [Grammar.isMultiplicative_eq]
    exact Grammar.reads_binary (by decide) hsigned
  have hsums : Reads (Grammar.binary Grammar.isAdditive
      (Grammar.binary Grammar.isMultiplicative (Grammar.signed inner'))) (expr 5) := by
    rw [Grammar.isAdditive_eq]
    exact Grammar.reads_binary (by decide) hproducts
  exact binary _ (binary _ (binary _ (signed hinput hi) hsigned) hproducts) hsums

theorem negated : Agrees input depth 0 (Machine.negated inner) (Grammar.negated inner') := by
  have hnot : Agrees input depth 1 _ _ := deeper hinput hi fun level level' h =>
    node .unaryExpression (bump.seq h.negated)
  exact ifNext _ hnot (comparison hinput hi)

/-! ### Declarations -/

/-- Each turn of a block takes a token, since a statement is not empty. -/
theorem block (ends : List Keyword) :
    Agrees input depth 0 (Machine.block inner ends) (Grammar.block inner' ends) := by
  refine deeper hinput hi fun level level' h => ?_
  refine node _ (many_next (ifNext _ bump (h.statement.mono (Nat.zero_le _))) fun next _ => ?_)
  have hitem : ReadsAt (Next next) _ (tok .semicolon + stmt) :=
    readsAt_take.ifNextIs h.sound.statement.at
  refine hitem.takesAt (.add (.tok _) ?_)
  rintro w ⟨kind, rfl, hkind⟩
  refine ⟨_, List.mem_singleton_self _, ?_, ?_⟩ <;> rintro rfl <;> cases hkind

omit hi in
theorem varDeclaration :
    Agrees input depth 1 Machine.varDeclaration Grammar.varDeclaration := by
  have hname := Grammar.reads_identifier.andThen (reads_accept (.keyword .Export))
  refine node _ (bump.seq (seq ?_ (accept _)))
  exact commaSeparated ((identifier hinput).seq (accept _)) hname

theorem directive : Agrees input depth 1 (Machine.directive inner) (Grammar.directive inner') := by
  refine node _ (bump.seq ((identifier hinput).seq (ifNext _ ?_ skip)))
  exact argumentList hinput (expression hinput hi) (Grammar.reads_expression hi.sound)

theorem directives :
    Agrees input depth need (Machine.directives inner) (Grammar.directives inner') := by
  refine many_next (directive hinput hi) fun next hnext => ?_
  obtain rfl := beq_iff_eq.mp hnext
  exact (Grammar.readsAt_directive hi.sound).takesAt (Visible.sub (by decide))

theorem parameter : Agrees input depth 0 (Machine.parameter inner) (Grammar.parameter inner') := by
  refine node _ ((directives hinput hi).seq ((accept _).seq ((identifier hinput).seq ?_)))
  exact ifNext _ (bump.seq (expression hinput hi)) skip

theorem parameterList :
    Agrees input depth 0 (Machine.parameterList inner) (Grammar.parameterList inner') := by
  have hlist : Agrees input depth 0 _ _ :=
    commaSeparated (parameter hinput hi) (Grammar.reads_parameter hi.sound)
  exact node _ ((expect hinput _).seq (ifNext _ bump (hlist.seq (expect hinput _))))

theorem methodContent (finish : Keyword) :
    Agrees input depth 1 (Machine.methodContent inner finish)
      (Grammar.methodContent inner' finish) := by
  refine bump.seq ((identifier hinput).seq ((parameterList hinput hi).seq ?_))
  exact (accept _).seq ((block hinput hi _).seq (expectAs hinput _ _))

theorem method : Agrees input depth 0 (Machine.method inner) (Grammar.method inner') := by
  refine wrap hinput ((directives hinput hi).seq (accept _)) fun next => ?_
  cases next with
  | none => exact .error _
  | some kind =>
    cases kind with
    | keyword word =>
      cases word with
      | Procedure => exact .ok _ (methodContent hinput hi _)
      | Function => exact .ok _ (methodContent hinput hi _)
      | _ => exact .error _
    | _ => exact .error _

/-! ### Statements -/

theorem condition : Agrees input depth 1 (Machine.condition inner) (Grammar.condition inner') :=
  bump.seq ((expression hinput hi).seq ((expect hinput _).seq (block hinput hi _)))

theorem ifStatement :
    Agrees input depth 1 (Machine.ifStatement inner) (Grammar.ifStatement inner') := by
  have hbranch : ReadsAt (Next (.keyword .ElsIf))
      (Reader.node .elsIfBranch (Grammar.condition inner')) (sub .elsIfBranch) :=
    (Grammar.readsAt_condition hi.sound .ElsIf).node le_rfl
  refine node _ ((node _ (condition hinput hi)).seq (seq ?_ (seq ?_ (expect hinput _))))
  · refine many_next (node _ (condition hinput hi)) fun next hnext => ?_
    obtain rfl := beq_iff_eq.mp hnext
    exact hbranch.takesAt (Visible.sub (by decide))
  · exact ifNext _ (node _ (bump.seq (block hinput hi _))) skip

theorem loopBody : Agrees input depth 0 (Machine.loopBody inner) (Grammar.loopBody inner') :=
  (expect hinput _).seq ((block hinput hi _).seq (expect hinput _))

theorem whileStatement :
    Agrees input depth 1 (Machine.whileStatement inner) (Grammar.whileStatement inner') :=
  node _ (bump.seq ((expression hinput hi).seq (loopBody hinput hi)))

theorem forStatement :
    Agrees input depth 1 (Machine.forStatement inner) (Grammar.forStatement inner') := by
  have htwo : ∀ ahead : List TokenKind,
      nextIs (Grammar.isWord .Each) ahead.tail = true → 2 ≤ ahead.length := by
    rintro (- | ⟨first, - | ⟨second, rest⟩⟩) htest
    · cases htest
    · cases htest
    · exact Nat.le_add_left 2 _
  refine ifAhead htwo (node _ ?_) (node _ ?_)
  · refine bump_seq (bump.seq ((identifier hinput).seq ((expect hinput _).seq ?_)))
    exact (expression hinput hi).seq (loopBody hinput hi)
  · refine bump.seq ((identifier hinput).seq ((expect hinput _).seq ?_))
    refine (expression hinput hi).seq ((expect hinput _).seq ?_)
    exact (expression hinput hi).seq (loopBody hinput hi)

theorem tryStatement :
    Agrees input depth 1 (Machine.tryStatement inner) (Grammar.tryStatement inner') := by
  refine node _ (bump.seq ((block hinput hi _).seq (seq (node _ ?_) (expect hinput _))))
  exact (expect hinput _).seq (block hinput hi _)

theorem optionalExpression :
    Agrees input depth 0 (Machine.optionalExpression inner)
      (Grammar.optionalExpression inner') := by
  refine peek (fun kind => ?_) skip
  change Agrees input depth 1 (if Grammar.isStatementEnd kind then _ else _)
    (if Grammar.isStatementEnd kind then _ else _)
  split
  · exact skip
  · exact (expression hinput hi).mono (Nat.zero_le _)

theorem handlerStatement (kind : NodeKind) :
    Agrees input depth 1 (Machine.handlerStatement inner kind)
      (Grammar.handlerStatement inner' kind) := by
  have hexpression := expression hinput hi
  exact node _ (bump.seq (hexpression.seq ((expect hinput _).seq hexpression)))

theorem simpleStatement :
    Agrees input depth 0 (Machine.simpleStatement inner) (Grammar.simpleStatement inner') := by
  have hcall := suffixed hinput (expression hinput hi) (Grammar.reads_expression hi.sound)
  refine wrap hinput (ifNext _ ((signed hinput hi).mono (Nat.zero_le _)) hcall) fun next => ?_
  cases next with
  | none => exact .ok _ skip
  | some kind =>
    cases kind with
    | eq => exact .ok _ (bump.seq (expression hinput hi))
    | _ => exact .ok _ skip

theorem statement :
    Agrees input depth 0 (Machine.statement inner) (Grammar.statement inner') := by
  have hexpression := expression hinput hi
  have hsimple := simpleStatement hinput hi
  refine peek (fun kind => ?_) hsimple
  cases kind with
  | keyword word =>
    cases word with
    | If => exact ifStatement hinput hi
    | While => exact whileStatement hinput hi
    | For => exact forStatement hinput hi
    | Try => exact tryStatement hinput hi
    | Var => exact varDeclaration hinput
    | Return => exact node _ (bump.seq (optionalExpression hinput hi))
    | Raise =>
      have harguments : Agrees input depth 1 _ _ :=
        argumentList hinput hexpression (Grammar.reads_expression hi.sound)
      exact node _ (bump.seq (ifNext _ harguments (optionalExpression hinput hi)))
    | Execute => exact node _ (bump.seq hexpression)
    | Goto => exact node _ (bump.seq ((expect hinput _).seq (identifier hinput)))
    | Break => exact node _ bump
    | Continue => exact node _ bump
    | AddHandler => exact handlerStatement hinput hi _
    | RemoveHandler => exact handlerStatement hinput hi _
    | _ => exact hsimple.mono (Nat.zero_le _)
  | tilde => exact node _ (bump.seq ((identifier hinput).seq (expect hinput _)))
  | _ => exact hsimple.mono (Nat.zero_le _)

/-! ### Levels and modules -/

theorem levelOver :
    (Machine.levelOver inner).Agrees input depth (Grammar.levelOver inner') where
  negated := negated hinput hi
  signed := signed hinput hi
  statement := statement hinput hi
  sound := Grammar.sound_levelOver hi.sound

theorem declaration :
    Agrees input depth 0 (Machine.declaration inner) (Grammar.declaration inner') :=
  ifNext _ (varDeclaration hinput) (method hinput hi)

end

/-- **All levels do the same**, by induction on how many of them may be opened. -/
theorem level (hinput : input.Sliceable) (n : Nat) (h : depth + n = Grammar.nestingLimit) :
    (Machine.level n).Agrees input depth (Grammar.level n) := by
  induction n generalizing depth with
  | zero => exact levelOver hinput (.reached (Nat.le_of_eq h.symm))
  | succ n ih => exact levelOver hinput (.below (by omega) (ih (by omega)))

theorem below (hinput : input.Sliceable) (n : Nat) (h : depth + n = Grammar.nestingLimit) :
    SameLevel input depth (Machine.below n) (Grammar.below n) := by
  cases n with
  | zero => exact .reached (Nat.le_of_eq h.symm)
  | succ n => exact .below (by omega) (level hinput n (by omega))

/-- Where no node is open yet, a module is done as it is read. -/
theorem ends_module (hinput : input.Sliceable) (hs : s.taken ≤ input.lexed.tokens.size)
    (hdepth : s.depth = 0) (hready : s.builder.Ready) :
    Ends input s (Grammar.module (Grammar.below Grammar.nestingLimit) (input.ahead s))
      (Machine.module (Machine.below Grammar.nestingLimit) input s) := by
  have hi : SameLevel input 0 _ _ := below hinput Grammar.nestingLimit (Nat.zero_add _)
  refine ends_node (seq ?_ (block hinput hi _)) hs hdepth hready (Nat.zero_le _)
  refine many rfl ((declaration hinput hi).mono (Nat.zero_le _)) ?_
  refine (Grammar.reads_declaration hi.sound).at.takesAt (.add (.add ?_ ?_) ?_)
  all_goals exact Visible.sub (by decide)

end Agrees

/-! ### Modules -/

/-- No node is left open behind a module. -/
theorem opened_module (content : List Derivation) :
    (Derivation.emit (.node .module [] content) Builder.empty).opened = [] := by
  have hopened := Builder.opens_start Builder.ready_empty .module
  have hopen : (Builder.empty.start .module).opened ≠ [] := List.cons_ne_nil _ _
  exact (hopened.close (Derivation.gains_emitAll content _ hopened.ready hopen)).opened

/-- **Parsing fails nowhere**: with every operation checked it finds the same tree, or gives the
same report. -/
theorem parse_eq (source : List Char) : parse source = some (ModuleLint.parse source) := by
  rw [parse, tokenize_eq, ModuleLint.parse]
  rcases hlexed : ModuleLint.tokenize source with e | lexed
  · rfl
  · have hends : Ends ⟨source, lexed⟩ State.start
        (Grammar.module (Grammar.below Grammar.nestingLimit) lexed.kinds) _ :=
      Agrees.ends_module (fun _ => slice?_token hlexed) (Nat.zero_le _) rfl Builder.ready_empty
    simp only [Option.bind_eq_bind, Option.bind_some]
    generalize Machine.module _ _ _ = result at hends
    generalize hread : Grammar.module _ _ = read at hends
    cases hends with
    | error stop =>
      have hderive : Grammar.derive lexed.kinds = .error stop := by rw [Grammar.derive, hread]
      rw [hderive]
      rfl
    | @ok items s hreach =>
      have hderive : Grammar.derive lexed.kinds = .ok items := by rw [Grammar.derive, hread]
      rw [hderive]
      obtain ⟨content, rfl, -⟩ := Grammar.derive_sound hderive
      have hbuilder : s.builder = Derivation.emit (.node .module [] content) Builder.empty :=
        hreach.builder_eq
      have hopen := opened_module content
      rw [← hbuilder] at hopen
      have hfinish : s.builder.finishAll? = some s.builder := by
        rw [Builder.finishAll?, hopen]
        rfl
      have htree : Tree.ofDerivations source lexed [.node .module [] content] =
          ⟨source, lexed, s.builder.nodes⟩ := by
        change Builder.toTree (Derivation.emit (.node .module [] content) _) source lexed = _
        rw [← hbuilder, Builder.toTree, Builder.finishAll, hopen]
        rfl
      simp only [Option.bind_some, hfinish, htree]
      rfl

end Checked

end ModuleLint
