/-
ModuleLint/Proofs/Checked/Frames.lean

Every function of the parser works in the frame it is called in.  A call that comes back leaves
the open nodes and the depth of nesting as they were, keeps every node that was there, and has
taken a token, or may have taken none if it reads a block or a module.  So no loop takes a turn
for nothing, and parsing comes to an end.

Functions call each other before they have taken a token, but never in a circle without opening
a level of nesting.  So what they do is known by induction on how many levels may be opened:
`Nested` is what a function has to know of the level below, and from it there is one lemma for
each function, and one for the turns of each loop.

Main result: `calls_keep_frame`.
-/
import ModuleLint.Proofs.Checked.Functions

namespace ModuleLint

namespace Checked

open Reader (Next nextIs)
open Grammar (isWord)

/-! ### Levels of nesting -/

/-- What is known of the functions that open a level of nesting. -/
structure Level.Advances (input : Input) (depth : Nat) (level : Level) : Prop where
  negated : Checked.Advances input depth Anywhere 1 level.negated
  signed : Checked.Advances input depth Anywhere 1 level.signed
  statement : Checked.Advances input depth Anywhere 1 level.statement

/-- **There is a level to open** as long as the limit is not reached, and its functions go
ahead. -/
inductive Nested (input : Input) (depth : Nat) : Option Level → Prop
  | reached (h : Grammar.nestingLimit ≤ depth) : Nested input depth none
  | below {inner : Option Level} (h : (Machine.levelOver inner).Advances input (depth + 1)) :
    Nested input depth (some (Machine.levelOver inner))

variable {input : Input} {depth k : Nat} {pre : List TokenKind → Prop} {inner : Option Level}
  {next : TokenKind} {s s' s₁ : State}

/-- A loop goes ahead as far as what comes first, if each of its turns takes a token. -/
theorem ParseLoop.advances {l : ParseLoop}
    (h : Advances input depth pre k (l.first inner))
    (hloop : Turning input depth (l.loop inner)) :
    Advances input depth pre k (l.machine inner) := by
  rw [ParseLoop.machine_eq]
  exact h.looping hloop

namespace Advances

/-- **The level that was opened is closed again.** -/
theorem deeper {content : Level → Machine} (hi : Nested input depth inner)
    (h : ∀ inner', (Machine.levelOver inner').Advances input (depth + 1) →
      Advances input (depth + 1) pre k (content (Machine.levelOver inner'))) :
    Advances input depth pre k (Machine.deeper inner content) := by
  intro s hs hpre
  change Outcome input s k
    (Machine.resume ((inner.elim Machine.overrun content >> Machine.leave) input)
      (Machine.enter input s))
  rw [Machine.enter]
  split
  · obtain ⟨e, he⟩ | ⟨hnone, hinput⟩ := unexpected_cases input
      (.nesting Grammar.nestingLimit) { s with depth := s.depth + 1 }
    · rw [he]
      exact .error e
    · rw [hnone]
      exact .unsliced hinput
  · rename_i hunder
    cases hi with
    | reached hlimit =>
      rw [hs.depth_eq] at hunder
      exact absurd (Nat.lt_succ_of_le hlimit) hunder
    | @below inner' hlevel =>
      have hvalid : State.Valid input (depth + 1) { s with depth := s.depth + 1 } :=
        ⟨hs.taken_le, congrArg (· + 1) hs.depth_eq, hs.ready, hs.opened_ne⟩
      have hrun := h inner' hlevel _ hvalid hpre
      change Outcome input s k (Machine.resume (Machine.leave input)
        (content (Machine.levelOver inner') input { s with depth := s.depth + 1 }))
      generalize content (Machine.levelOver inner') input _ = result at hrun
      cases hrun with
      | error e => exact .error e
      | unsliced hinput => exact .unsliced hinput
      | @ok s' hframe =>
        have hopen : s'.depth = s.depth + 1 := hframe.depth_eq
        have hleft : Frame input s k { s' with depth := s'.depth - 1 } :=
          ⟨hframe.taken_le, hframe.least_le, Nat.sub_eq_of_eq_add hopen, hframe.gains⟩
        rw [Machine.resume, Machine.leave, if_neg (by rw [hopen]; exact Nat.succ_ne_zero _)]
        exact .ok hleft

/-! ### Names and operators -/

theorem identifier : Advances input depth pre 1 Machine.identifier :=
  ifNext (fun _ _ => node bump) (unexpected _)

theorem memberName : Advances input depth pre 1 Machine.memberName :=
  ifNext (fun _ _ => node bump) (unexpected _)

/-- Each turn takes its operator. -/
theorem turning_operators {operand : Machine} (isOperator : TokenKind → Bool)
    (h : Advances input depth Anywhere k operand) :
    Turning input depth (Machine.wrapping fun kind =>
      if isOperator kind then some (.binaryExpression, Machine.bump >> operand) else none) := by
  refine Turning.wrapping fun next kind content hstep => ?_
  rw [Option.ite_none_right_eq_some] at hstep
  obtain ⟨-, rfl⟩ := Prod.mk.inj (Option.some.inj hstep.2)
  exact bump.seq h

theorem binary {operand : Machine} (isOperator : TokenKind → Bool)
    (h : Advances input depth Anywhere 1 operand) :
    Advances input depth pre 1 (Machine.binary isOperator operand) := by
  rw [Machine.binary, Machine.chain_eq]
  exact looping h.everywhere (turning_operators isOperator h)

/-! ### Expressions -/

section

variable (hi : Nested input depth inner)
include hi

theorem expression : Advances input depth pre 1 (Machine.expression inner) :=
  deeper hi fun _ h => binary _ (binary _ h.negated)

theorem argument : Advances input depth pre 0 (ParseLoop.argument inner) :=
  ifNext (fun _ _ => skip) ((expression hi).mono (Nat.zero_le 1))

/-- Each turn takes its comma, also where the argument is left out. -/
theorem turning_arguments : Turning input depth (ParseLoop.arguments.loop inner) :=
  Turning.repeating_next fun _ _ => bump.seq (argument hi)

theorem argumentList :
    Advances input depth pre 1 (Machine.argumentList (Machine.expression inner)) := by
  have hlist : Advances input depth Anywhere 0 (ParseLoop.arguments.machine inner) :=
    ParseLoop.advances (argument hi) (turning_arguments hi)
  exact node ((expect _).seq (ifNext (fun _ _ => bump) (hlist.seq_right (expect _))))

theorem newExpression :
    Advances input depth (Next next) 1 (Machine.newExpression (Machine.expression inner)) := by
  refine node (bump.seq (peek (k := 1) (fun next => ?_) (unexpected _)))
  have hplain : Advances input depth (Next next) 1 (Machine.unexpected .typeName) :=
    unexpected _
  cases next with
  | identifier =>
    exact (node bump).seq (optional fun _ _ => argumentList hi)
  | lParen => exact argumentList hi
  | _ => exact hplain

theorem ternary :
    Advances input depth (Next next) 1 (Machine.ternary (Machine.expression inner)) := by
  have hlast : Advances input depth Anywhere 1
      (Machine.expect .comma >> Machine.expression inner >> Machine.expect .rParen) :=
    (expect _).seq ((expression hi).seq (expect _))
  have hrest : Advances input depth Anywhere 1 (Machine.expect .comma >> Machine.expression inner >>
      Machine.expect .comma >> Machine.expression inner >> Machine.expect .rParen) :=
    (expect _).seq ((expression hi).seq hlast)
  exact node (bump.seq ((expect _).seq ((expression hi).seq hrest)))

theorem parenthesised :
    Advances input depth (Next next) 1 (Machine.parenthesised (Machine.expression inner)) :=
  node (bump.seq ((expression hi).seq (expect _)))

omit hi in
theorem turning_strings : Turning input depth (ParseLoop.strings.loop inner) :=
  Turning.repeating_next fun _ _ => bump

omit hi in
/-- At a piece of a literal the first turn is taken. -/
theorem strings (inner : Option Level) :
    Advances input depth (Next .string) 1 (ParseLoop.strings.machine inner) := by
  rw [ParseLoop.machine_eq]
  refine looping_skip turning_strings fun ahead hnext => ?_
  obtain ⟨rest, rfl⟩ := List.head?_eq_some_iff.mp hnext
  rfl

theorem primary :
    Advances input depth pre 1 (Machine.primary (Machine.expression inner)) := by
  refine peek (fun next => ?_) (unexpected _)
  have hliteral : Advances input depth (Next next) 1
      (if Grammar.isLiteral next then Machine.node .literal Machine.bump
        else Machine.unexpected .expression) := by
    split
    · exact node bump
    · exact unexpected _
  cases next with
  | identifier => exact identifier
  | string => exact node (strings inner)
  | lParen => exact parenthesised hi
  | question => exact ternary hi
  | keyword word =>
    cases word with
    | New => exact newExpression hi
    | _ => exact hliteral
  | _ => exact hliteral

/-- Each turn takes its dot, its bracket or the arguments with their parentheses. -/
theorem turning_suffixes : Turning input depth (ParseLoop.suffixes.loop inner) := by
  refine Turning.wrapping fun next kind content hstep => ?_
  cases next with
  | dot =>
    obtain ⟨-, rfl⟩ := Prod.mk.inj (Option.some.inj hstep)
    exact bump.seq memberName
  | lBracket =>
    obtain ⟨-, rfl⟩ := Prod.mk.inj (Option.some.inj hstep)
    exact bump.seq ((expression hi).seq (expect _))
  | lParen =>
    obtain ⟨-, rfl⟩ := Prod.mk.inj (Option.some.inj hstep)
    exact argumentList hi
  | _ => cases hstep

theorem suffixed :
    Advances input depth pre 1 (Machine.suffixed (Machine.expression inner)) := by
  have hloop : Advances input depth pre 1 (ParseLoop.suffixes.machine inner) :=
    ParseLoop.advances (primary hi) (turning_suffixes hi)
  exact hloop

theorem signed : Advances input depth pre 1 (Machine.signed inner) :=
  ifNext (fun _ _ => deeper hi fun _ h => node (bump.seq h.signed)) (suffixed hi)

theorem comparison : Advances input depth pre 1 (Machine.comparison inner) :=
  binary _ (binary _ (binary _ (signed hi)))

theorem negated : Advances input depth pre 1 (Machine.negated inner) :=
  ifNext (fun _ _ => deeper hi fun _ h => node (bump.seq h.negated)) (comparison hi)

theorem operand (tier : Tier) : Advances input depth pre 1 (tier.operand inner) := by
  cases tier with
  | or => exact binary _ (negated hi)
  | and => exact negated hi
  | comparison => exact binary _ (binary _ (signed hi))
  | additive => exact binary _ (signed hi)
  | multiplicative => exact signed hi

/-! ### Blocks and declarations -/

omit hi in
/-- Each turn takes a semicolon or a statement. -/
theorem turning_statements (ends : List Keyword)
    (h : Advances input depth Anywhere 1 (Machine.statement inner)) :
    Turning input depth ((ParseLoop.statements ends).loop inner) :=
  Turning.repeating_next fun _ _ => ifNext (fun _ _ => bump) h.everywhere

theorem block (ends : List Keyword) :
    Advances input depth pre 0 (Machine.block inner ends) := by
  refine deeper hi fun inner' h => ?_
  have hloop : Advances input (depth + 1) pre 0 ((ParseLoop.statements ends).machine inner') :=
    ParseLoop.advances skip (turning_statements ends h.statement)
  exact node hloop

omit hi in
theorem variableName : Advances input depth pre 1 ParseLoop.variableName :=
  identifier.seq (accept _)

omit hi in
theorem turning_names : Turning input depth (ParseLoop.names.loop inner) :=
  Turning.repeating_next fun _ _ => bump.seq variableName

omit hi in
theorem varDeclaration : Advances input depth (Next next) 1 Machine.varDeclaration := by
  have hnames : Advances input depth Anywhere 1 (ParseLoop.names.machine none) :=
    ParseLoop.advances variableName turning_names
  exact node (bump.seq (hnames.seq (accept _)))

theorem directive : Advances input depth (Next next) 1 (Machine.directive inner) :=
  node (bump.seq (identifier.seq (optional fun _ _ => argumentList hi)))

theorem turning_directives : Turning input depth (ParseLoop.directives.loop inner) :=
  Turning.repeating_next fun _ _ => directive hi

theorem directives : Advances input depth pre 0 (Machine.directives inner) := by
  have hloop : Advances input depth pre 0 (ParseLoop.directives.machine inner) :=
    ParseLoop.advances skip (turning_directives hi)
  exact hloop

theorem parameter : Advances input depth pre 1 (Machine.parameter inner) := by
  have hname : Advances input depth Anywhere 1 (Machine.identifier >> Machine.ifNext (· == .eq)
      (Machine.bump >> Machine.expression inner) Machine.skip) :=
    identifier.seq (optional fun _ _ => bump.seq (expression hi))
  exact node ((directives hi).seq_right ((accept _).seq_right hname))

theorem turning_parameters : Turning input depth (ParseLoop.parameters.loop inner) :=
  Turning.repeating_next fun _ _ => bump.seq (parameter hi)

theorem parameterList : Advances input depth pre 1 (Machine.parameterList inner) := by
  have hlist : Advances input depth Anywhere 1 (ParseLoop.parameters.machine inner) :=
    ParseLoop.advances (parameter hi) (turning_parameters hi)
  exact node ((expect _).seq (ifNext (fun _ _ => bump) (hlist.seq (expect _))))

theorem methodContent (finish : Keyword) :
    Advances input depth (Next next) 1 (Machine.methodContent inner finish) := by
  have htail : Advances input depth Anywhere 0 (Machine.accept (.keyword .Export) >>
      Machine.block inner [finish] >> Machine.expectAs (.keyword finish) .endOfMethod) :=
    (accept _).seq ((block hi _).seq (expectAs _ _))
  exact bump.seq (identifier.seq ((parameterList hi).seq htail))

theorem method : Advances input depth pre 1 (Machine.method inner) := by
  refine wrap 1 ((directives hi).seq (accept _)) fun next kind content h => ?_
  rcases next with - | next
  · cases h
  · cases next with
    | keyword word =>
      cases word with
      | Procedure =>
        obtain ⟨-, rfl⟩ := Prod.mk.inj (Except.ok.inj h)
        exact methodContent hi _
      | Function =>
        obtain ⟨-, rfl⟩ := Prod.mk.inj (Except.ok.inj h)
        exact methodContent hi _
      | _ => cases h
    | _ => cases h

/-! ### Statements -/

theorem condition : Advances input depth (Next next) 1 (Machine.condition inner) :=
  bump.seq ((expression hi).seq ((expect _).seq (block hi _)))

/-- Each turn takes its `ElsIf`. -/
theorem turning_elsIfs : Turning input depth (ParseLoop.elsIfs.loop inner) :=
  Turning.repeating_next fun _ _ => node (condition hi)

theorem ifStatement : Advances input depth (Next next) 1 (Machine.ifStatement inner) := by
  have hbranches : Advances input depth Anywhere 0 (ParseLoop.elsIfs.machine inner) :=
    ParseLoop.advances skip (turning_elsIfs hi)
  have helse : Advances input depth Anywhere 0 (Machine.ifNext (isWord .Else)
      (Machine.node .elseBranch (Machine.bump >> Machine.block inner [.EndIf])) Machine.skip) :=
    optional fun _ _ => node (bump.seq (block hi _))
  exact node ((node (condition hi)).seq (hbranches.seq (helse.seq (expect _))))

theorem loopBody : Advances input depth pre 1 (Machine.loopBody inner) :=
  (expect _).seq ((block hi _).seq (expect _))

theorem whileStatement : Advances input depth (Next next) 1 (Machine.whileStatement inner) :=
  node (bump.seq ((expression hi).seq (loopBody hi)))

/-- A look ahead has shown both words before a collection. -/
theorem forStatement : Advances input depth (Next next) 1 (Machine.forStatement inner) := by
  have hbody : Advances input depth Anywhere 1
      (Machine.expression inner >> Machine.loopBody inner) := (expression hi).seq (loopBody hi)
  have heach : Advances input depth (fun ahead => nextIs (isWord .Each) ahead = true) 1
      (Machine.bump >> Machine.identifier >> Machine.word .In >>
        Machine.expression inner >> Machine.loopBody inner) := by
    refine (bump_of_ne fun ahead htest => ?_).seq (identifier.seq ((expect _).seq hbody))
    obtain ⟨next, -, hnext⟩ := next_of_nextIs htest
    exact ne_nil_of_next hnext
  refine ifAhead (node ?_) (node ?_)
  · exact bump_seq (fun ahead h => ⟨ne_nil_of_next h.1, h.2⟩) heach
  · exact bump.seq (identifier.seq ((expect _).seq ((expression hi).seq ((expect _).seq hbody))))

theorem tryStatement : Advances input depth (Next next) 1 (Machine.tryStatement inner) := by
  have hexcept : Advances input depth Anywhere 1 (Machine.node .exceptBranch
      (Machine.word .Except >> Machine.block inner [.EndTry])) :=
    node ((expect _).seq (block hi _))
  exact node (bump.seq ((block hi _).seq (hexcept.seq (expect _))))

theorem optionalExpression :
    Advances input depth pre 0 (Machine.optionalExpression inner) := by
  refine peek (fun next => ?_) skip
  change Advances input depth (Next next) 0 (if Grammar.isStatementEnd next then _ else _)
  split
  · exact skip
  · exact (expression hi).mono (Nat.zero_le 1)

theorem handlerStatement (kind : NodeKind) :
    Advances input depth (Next next) 1 (Machine.handlerStatement inner kind) :=
  node (bump.seq ((expression hi).seq ((expect _).seq (expression hi))))

theorem simpleStatement : Advances input depth pre 1 (Machine.simpleStatement inner) := by
  have hfirst : Advances input depth pre 1 (Machine.ifNext (isWord .Await) (Machine.signed inner)
      (Machine.suffixed (Machine.expression inner))) :=
    ifNext (fun _ _ => signed hi) (suffixed hi)
  refine wrap 0 hfirst fun next kind content h => ?_
  have hcall : ∀ {content}, Except.ok (NodeKind.callStatement, Machine.skip) =
      (Except.ok (kind, content) : Except Expected (NodeKind × Machine)) →
      Advances input depth (fun ahead => ahead.head? = next) 0 content := by
    rintro content h
    obtain ⟨-, rfl⟩ := Prod.mk.inj (Except.ok.inj h)
    exact skip
  rcases next with - | next
  · exact hcall h
  · cases next with
    | eq =>
      obtain ⟨-, rfl⟩ := Prod.mk.inj (Except.ok.inj h)
      exact (bump.seq (expression hi)).mono (Nat.zero_le 1)
    | _ => exact hcall h

theorem statement : Advances input depth pre 1 (Machine.statement inner) := by
  refine peek (fun next => ?_) (simpleStatement hi)
  cases next with
  | keyword word =>
    cases word with
    | If => exact ifStatement hi
    | While => exact whileStatement hi
    | For => exact forStatement hi
    | Try => exact tryStatement hi
    | Var => exact varDeclaration
    | Return => exact node (bump.seq (optionalExpression hi))
    | Raise =>
      have hthrown : Advances input depth Anywhere 0 (Machine.ifNext (· == .lParen)
          (Machine.argumentList (Machine.expression inner))
          (Machine.optionalExpression inner)) :=
        ifNext (fun _ _ => (argumentList hi).mono (Nat.zero_le 1)) (optionalExpression hi)
      exact node (bump.seq hthrown)
    | Execute => exact node (bump.seq (expression hi))
    | Goto => exact node (bump.seq ((expect _).seq identifier))
    | Break => exact node bump
    | Continue => exact node bump
    | AddHandler => exact handlerStatement hi _
    | RemoveHandler => exact handlerStatement hi _
    | _ => exact simpleStatement hi
  | tilde => exact node (bump.seq (identifier.seq (expect _)))
  | _ => exact simpleStatement hi

/-! ### Levels and modules -/

theorem levelOver : (Machine.levelOver inner).Advances input depth where
  negated := negated hi
  signed := signed hi
  statement := statement hi

theorem declaration : Advances input depth pre 1 (Machine.declaration inner) :=
  ifNext (fun _ _ => varDeclaration) (method hi)

theorem turning_declarations : Turning input depth (ParseLoop.declarations.loop inner) :=
  Turning.repeating (declaration hi)

end

/-- **All levels go ahead**, by induction on how many of them may be opened. -/
theorem below (n : Nat) (h : Grammar.nestingLimit ≤ depth + n) :
    Nested input depth (Machine.below n) := by
  induction n generalizing depth with
  | zero => exact .reached h
  | succ n ih =>
    rw [Machine.below, Machine.level_eq]
    exact .below (levelOver (ih (by omega)))

end Advances

/-! ### What every call leaves as it was -/

/-- **A function goes ahead in its frame** where it is called; a module is called where no other
node has to be open. -/
theorem ParseFunction.advances (hi : Nested input depth inner) (f : ParseFunction)
    (hf : f ≠ .module) :
    Advances input depth (fun ahead => f.bumpsFirst = true → ahead ≠ []) f.takes
      (f.machine inner) := by
  have hbumps {m : Machine} (h : ∀ next, Advances input depth (Next next) 1 m) :
      Advances input depth (fun ahead => true = true → ahead ≠ []) 1 m :=
    .of_next (fun _ hahead => hahead rfl) h
  cases f with
  | module => exact absurd rfl hf
  | varDeclaration => exact hbumps fun _ => .varDeclaration
  | method => exact .method hi
  | directive => exact hbumps fun _ => .directive hi
  | parameterList => exact .parameterList hi
  | block ends => exact .block hi ends
  | statement => exact .statement hi
  | simpleStatement => exact .simpleStatement hi
  | ifStatement => exact hbumps fun _ => .ifStatement hi
  | whileStatement => exact hbumps fun _ => .whileStatement hi
  | forStatement => exact hbumps fun _ => .forStatement hi
  | loopBody => exact .loopBody hi
  | tryStatement => exact hbumps fun _ => .tryStatement hi
  | handlerStatement kind => exact hbumps fun _ => .handlerStatement hi kind
  | expression => exact .expression hi
  | negated => exact .negated hi
  | binary tier => exact .binary _ (.operand hi tier)
  | signed => exact .signed hi
  | suffixed => exact .suffixed hi
  | primary => exact .primary hi
  | newExpression => exact hbumps fun _ => .newExpression hi
  | argumentList => exact .argumentList hi
  | identifier => exact .identifier
  | memberName => exact .memberName

/-- As many levels may be opened as are left up to the limit. -/
theorem nested (input : Input) (depth : Nat) :
    Nested input depth (Machine.below (Grammar.nestingLimit - depth)) :=
  Advances.below _ (by omega)

/-- **A call comes back in its frame**, or with a report. -/
theorem ParseFunction.Called.outcome {f : ParseFunction} (h : f.Called input s) :
    Outcome input s f.takes (f.run input s) := by
  have hi := nested input s.depth
  by_cases hf : f = .module
  · subst hf
    have hdeclarations : Advances input s.depth Anywhere 0
        (ParseLoop.declarations.machine (Machine.below (Grammar.nestingLimit - s.depth))) :=
      ParseLoop.advances Advances.skip (Advances.turning_declarations hi)
    exact Advances.outcome_node h.taken_le rfl h.ready trivial
      (hdeclarations.seq (Advances.block hi []))
  · exact f.advances hi hf s ⟨h.taken_le, rfl, h.ready, h.opened_ne hf⟩ h.ahead_ne

/-- **What a call leaves as it was**: the open nodes, the depth of nesting, the agreement of the
two counts of tokens, and the kind and the range of every node.  At least `least` tokens are
taken. -/
structure Framed (input : Input) (least : Nat) (s s' : State) : Prop where
  opened_eq : s'.builder.opened = s.builder.opened
  depth_eq : s'.depth = s.depth
  tokens_eq : s'.builder.tokens = s'.taken
  taken_le : s'.taken ≤ input.lexed.tokens.size
  least_le : s.taken + least ≤ s'.taken
  kept : ∀ (i : Nat) (n : Node), s.builder.nodes[i]? = some n → ∃ n',
    s'.builder.nodes[i]? = some n' ∧ n'.kind = n.kind ∧ n'.firstToken = n.firstToken ∧
      n'.endToken = n.endToken

/-- To receive children changes neither the kind of a node nor its range. -/
theorem Builder.receive_alike (b : Builder) (i : Nat) (ids : List Nat) (n : Node) :
    (b.receive i ids n).kind = n.kind ∧ (b.receive i ids n).firstToken = n.firstToken ∧
      (b.receive i ids n).endToken = n.endToken := by
  rw [Builder.receive]
  split
  · exact ⟨rfl, rfl, rfl⟩
  · exact ⟨rfl, rfl, rfl⟩

theorem Frame.framed (htokens : s.builder.tokens = s.taken) (h : Frame input s k s') :
    Framed input k s s' := by
  obtain ⟨os, hgains⟩ := h.gains
  have hleast := h.least_le
  constructor
  case opened_eq => exact hgains.opened
  case depth_eq => exact h.depth_eq
  case tokens_eq =>
    rw [hgains.tokens, htokens]
    omega
  case taken_le => exact h.taken_le
  case least_le => exact hleast
  case kept =>
    intro i n hn
    exact ⟨_, hgains.kept i n hn, Builder.receive_alike _ _ _ _⟩

/-! ### Loops -/

theorem ParseLoop.turning (hi : Nested input depth inner) (l : ParseLoop) :
    Turning input depth (l.loop inner) := by
  cases l with
  | declarations => exact Advances.turning_declarations hi
  | statements ends => exact Advances.turning_statements ends (.statement hi)
  | operators tier => exact Advances.turning_operators _ (.operand hi tier)
  | suffixes => exact Advances.turning_suffixes hi
  | arguments => exact Advances.turning_arguments hi
  | parameters => exact Advances.turning_parameters hi
  | elsIfs => exact Advances.turning_elsIfs hi
  | names => exact Advances.turning_names
  | directives => exact Advances.turning_directives hi
  | strings => exact Advances.turning_strings

theorem ParseLoop.first_advances (hi : Nested input depth inner) (l : ParseLoop) :
    Advances input depth Anywhere 0 (l.first inner) := by
  cases l with
  | operators tier => exact (Advances.operand hi tier).mono (Nat.zero_le 1)
  | suffixes => exact (Advances.primary hi).mono (Nat.zero_le 1)
  | arguments => exact .argument hi
  | parameters => exact (Advances.parameter hi).mono (Nat.zero_le 1)
  | names => exact Advances.variableName.mono (Nat.zero_le 1)
  | declarations | statements _ | elsIfs | directives | strings => exact .skip

/-- **A loop stays in the frame** of the state in which its checkpoint was made. -/
theorem ParseLoop.Stands.frame {l : ParseLoop} (hi : Nested input depth inner)
    (hs : s.Valid input depth) (h : l.Stands inner input s s₁) :
    ∃ k, Frame input s k s₁ := by
  induction h with
  | first h =>
    have hrun := l.first_advances hi s hs trivial
    rw [h] at hrun
    cases hrun with
    | ok hframe => exact ⟨0, hframe⟩
  | turn _ hturn ih =>
    obtain ⟨k, hframe⟩ := ih
    obtain ⟨turn, hloop, hturn⟩ := hturn
    have hrun := l.turning hi s _ k turn hs hframe hloop
    rw [hturn] at hrun
    cases hrun with
    | ok hframe' => exact ⟨_, hframe'⟩

/-- **No turn is taken for nothing.** -/
theorem ParseLoop.Turns.taken_lt {l : ParseLoop} (hi : Nested input depth inner)
    (hs : s.Valid input depth) (h : l.Stands inner input s s₁)
    (hturn : l.Turns inner input s s₁ s') :
    s₁.taken < s'.taken ∧ s'.taken ≤ input.lexed.tokens.size := by
  obtain ⟨k, hframe⟩ := h.frame hi hs
  obtain ⟨turn, hloop, hturn⟩ := hturn
  have hrun := l.turning hi s s₁ k turn hs hframe hloop
  rw [hturn] at hrun
  cases hrun with
  | ok hframe' =>
    have hleast := hframe.least_le
    have hleast' := hframe'.least_le
    exact ⟨by omega, hframe'.taken_le⟩

/-! ### The whole parser -/

theorem ParseFunction.Called.framed {f : ParseFunction} (h : f.Called input s)
    (hrun : f.run input s = some (.ok s')) : Framed input f.takes s s' := by
  have houtcome := h.outcome
  rw [hrun] at houtcome
  cases houtcome with
  | ok hframe => exact hframe.framed h.tokens_eq

/-- **A call comes to an end**, if its tokens are those of the source. -/
theorem ParseFunction.Called.ne_none {f : ParseFunction} (h : f.Called input s)
    (hinput : input.Sliceable) : f.run input s ≠ none := by
  intro hnone
  have houtcome := h.outcome
  rw [hnone] at houtcome
  cases houtcome with
  | unsliced hnot => exact hnot hinput

/-- A module leaves no node open, so parsing ends behind it. -/
theorem parse_ne_none (source : List Char) : parse source ≠ none := by
  rw [parse, tokenize_eq]
  cases hlexed : ModuleLint.tokenize source with
  | error e => exact Option.some_ne_none _
  | ok lexed =>
    have hcalled : ParseFunction.module.Called ⟨source, lexed⟩ .start :=
      ⟨Nat.zero_le _, rfl, Builder.ready_empty, fun h => absurd rfl h, fun h => by cases h⟩
    have hends := hcalled.ne_none fun _ => slice?_token hlexed
    cases hrun : ParseFunction.module.run ⟨source, lexed⟩ .start with
    | none => exact absurd hrun hends
    | some result =>
      change (Option.bind (ParseFunction.module.run ⟨source, lexed⟩ .start) _) ≠ none
      rw [hrun]
      cases result with
      | error e => exact Option.some_ne_none _
      | ok s' =>
        have hopened : s'.builder.opened = [] := (hcalled.framed hrun).opened_eq
        have hfinish : s'.builder.finishAll? = some s'.builder := by
          rw [Builder.finishAll?, hopened]
          rfl
        simp [hfinish]

/-- **Every call keeps its frame, every turn of a loop takes a token, and parsing ends.**  A call
that comes back has taken a token, unless it reads a block or a module.  It does not come back
only with a report, which needs the tokens to be those of the source. -/
theorem calls_keep_frame (input : Input) :
    (∀ (f : ParseFunction) (s s' : State), f.Called input s →
      f.run input s = some (.ok s') → Framed input f.takes s s') ∧
    (∀ (l : ParseLoop) (s s₁ s₂ : State), s.Valid input s.depth →
      l.Stands (Machine.below (Grammar.nestingLimit - s.depth)) input s s₁ →
      l.Turns (Machine.below (Grammar.nestingLimit - s.depth)) input s s₁ s₂ →
      s₁.taken < s₂.taken ∧ s₂.taken ≤ input.lexed.tokens.size) ∧
    (∀ (f : ParseFunction) (s : State), f.Called input s → input.Sliceable →
      f.run input s ≠ none) ∧
    ∀ source : List Char, parse source ≠ none := by
  refine ⟨fun f s s' h hrun => h.framed hrun, ?_, fun f s h => h.ne_none, parse_ne_none⟩
  intro l s s₁ s₂ hs hstands hturns
  exact hturns.taken_lt (nested input s.depth) hs hstands

/-- An assignment to a member. -/
def memberAssignment : Input where
  source := "A.B = 1".toList
  lexed :=
    { tokens := #[⟨.identifier, ['A'], ⟨0, 1, 1⟩⟩, ⟨.dot, ['.'], ⟨1, 1, 2⟩⟩,
        ⟨.identifier, ['B'], ⟨2, 1, 3⟩⟩, ⟨.eq, ['='], ⟨4, 1, 5⟩⟩, ⟨.number, ['1'], ⟨6, 1, 7⟩⟩]
      trivia := #[] }

/-- One node is open and nothing is taken. -/
def State.inModule : State := ⟨0, 0, Builder.empty.start .module⟩

/-- A name is taken in it. -/
def State.behindName : State :=
  ⟨1, 0, ((State.inModule.builder.start .identifier).token).finish⟩

/-- A run that comes back is seen by how many tokens it took. -/
theorem exists_ok_of_taken {result : Option (Except SourceError State)} {n : Nat}
    (h : (result.bind Except.toOption).map State.taken = some n) :
    ∃ s, result = some (.ok s) ∧ s.taken = n := by
  rcases result with _ | _ | s
  · cases h
  · cases h
  · exact ⟨s, rfl, Option.some.inj h⟩

/-- The statement takes all of its tokens, two of them in a turn of the loop behind the first
name. -/
theorem calls_keep_frame_memberAssignment :
    (∃ s', ParseFunction.statement.run memberAssignment .inModule = some (.ok s') ∧
      Framed memberAssignment 1 .inModule s' ∧ s'.taken = 5) ∧
    (∃ s₂, ParseLoop.suffixes.Turns (Machine.below Grammar.nestingLimit) memberAssignment
      .inModule .behindName s₂ ∧ State.behindName.taken < s₂.taken ∧ s₂.taken = 3) ∧
    ParseFunction.module.run memberAssignment .start ≠ none ∧
    parse memberAssignment.source ≠ none := by
  obtain ⟨hcalls, hloops, hends, hparse⟩ := calls_keep_frame memberAssignment
  have hready : State.inModule.builder.Ready := (Builder.opens_start Builder.ready_empty _).ready
  have hvalid : State.inModule.Valid memberAssignment 0 :=
    ⟨Nat.zero_le _, rfl, hready, List.cons_ne_nil _ _⟩
  have hstatement : ParseFunction.statement.Called memberAssignment .inModule :=
    ⟨Nat.zero_le _, rfl, hready, fun _ => List.cons_ne_nil _ _, fun h => by cases h⟩
  have hmodule : ParseFunction.module.Called memberAssignment .start :=
    ⟨Nat.zero_le _, rfl, Builder.ready_empty, fun h => absurd rfl h, fun h => by cases h⟩
  have hsliceable : memberAssignment.Sliceable := by
    unfold Input.Sliceable
    decide +kernel
  refine ⟨?_, ?_, hends .module _ hmodule hsliceable, hparse _⟩
  · have hfive : ((ParseFunction.statement.run memberAssignment .inModule).bind
        Except.toOption).map State.taken = some 5 := by decide +kernel
    obtain ⟨s', hrun, htaken⟩ := exists_ok_of_taken hfive
    exact ⟨s', hrun, hcalls .statement _ _ hstatement hrun, htaken⟩
  · have hfirst : ParseLoop.suffixes.first (Machine.below Grammar.nestingLimit) memberAssignment
        .inModule = some (.ok .behindName) := rfl
    let turn : Checkpoint → Machine := fun mark =>
      Machine.nodeAt mark .memberAccess (Machine.bump >> Machine.memberName)
    have hthree : ((turn State.inModule.builder.checkpoint memberAssignment .behindName).bind
        Except.toOption).map State.taken = some 3 := by decide +kernel
    obtain ⟨s₂, hrun, htaken⟩ := exists_ok_of_taken hthree
    have hturns : ParseLoop.suffixes.Turns (Machine.below Grammar.nestingLimit) memberAssignment
        .inModule .behindName s₂ := ⟨turn, rfl, hrun⟩
    have hstands : ParseLoop.suffixes.Stands (Machine.below Grammar.nestingLimit)
        memberAssignment .inModule .behindName := .first hfirst
    have htakes := hloops .suffixes .inModule .behindName s₂ hvalid hstands hturns
    exact ⟨s₂, hturns, htakes.1, htaken⟩

end Checked

end ModuleLint
