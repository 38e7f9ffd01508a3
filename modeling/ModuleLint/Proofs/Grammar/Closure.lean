/-
ModuleLint/Proofs/Grammar/Closure.lean

What holds of all readers of the grammar.  The grammar is made of a few readers, put
together in a few ways, so a relation between readers that these ways keep (`Reader.Closed`)
relates the whole grammar to itself; the walk through the grammar is made here once, for all
such relations.  A property of readers is a relation that looks at one of its two sides.

The two sides may have different numbers of levels of nesting left.  How the relation passes
a level is the only thing that is asked for these numbers (`Level.Nested`).  Where a reader
is repeated, the walk shows that each turn takes a token (`Reader.TakesAt`).

Main results: `Reader.Closed.declaration` and `Reader.Closed.block`, of which a module is made.
-/
import ModuleLint.Proofs.Grammar.Soundness
import ModuleLint.Proofs.Grammar.Turns

namespace ModuleLint

open scoped Computability
open Grammar Production

namespace Reader

/-- A choice by the first token is made by what a look ahead shows. -/
theorem ifNext_eq_peek (test : TokenKind → Bool) (r r' : Reader) :
    ifNext test r r' = peek fun next => if next.any test then r else r' := by
  funext ahead
  rcases ahead with - | ⟨kind, ahead⟩
  · rfl
  · show (if test kind then r (kind :: ahead) else r' (kind :: ahead)) =
      (if test kind then r else r') (kind :: ahead)
    split <;> rfl

/-- Two choices of the same node, with related contents; or neither makes one. -/
inductive SameNode (R : Reader → Reader → Prop) :
    Except Expected (NodeKind × Reader) → Except Expected (NodeKind × Reader) → Prop
  | none (expected : Expected) : SameNode R (.error expected) (.error expected)
  | some (kind : NodeKind) {r s : Reader} (h : R r s) : SameNode R (.ok (kind, r)) (.ok (kind, s))

/-- Two chains that go on with the same node before the token `next`, with related contents,
of which each takes a token; or neither goes on. -/
inductive SameLink (R : Reader → Reader → Prop) (next : TokenKind) :
    Option (NodeKind × Reader) → Option (NodeKind × Reader) → Prop
  | none : SameLink R next none none
  | some (kind : NodeKind) {r s : Reader} (h : R r s) (htakes : TakesAt (Next next) r) :
      SameLink R next (some (kind, r)) (some (kind, s))

variable {R : Reader → Reader → Prop}

theorem SameNode.of_ok {kind : NodeKind} {r : Reader}
    {found : Except Expected (NodeKind × Reader)} (h : SameNode R (.ok (kind, r)) found) :
    ∃ s, found = .ok (kind, s) ∧ R r s := by
  cases h with
  | @some _ _ s hr => exact ⟨s, rfl, hr⟩

theorem SameLink.of_some {next : TokenKind} {kind : NodeKind} {r : Reader}
    {found : Option (NodeKind × Reader)} (h : SameLink R next (Option.some (kind, r)) found) :
    ∃ s, found = Option.some (kind, s) ∧ R r s ∧ TakesAt (Next next) r := by
  cases h with
  | @some _ _ s hr htakes => exact ⟨s, rfl, hr, htakes⟩

/-- **A relation between readers that is kept** by the ways of putting them together. -/
structure Closed (R : Reader → Reader → Prop) : Prop where
  pass : R pass pass
  stop (expected : Expected) : R (stop expected) (stop expected)
  take : R take take
  andThen {r s r' s' : Reader} (h : R r s) (h' : R r' s') : R (r >> r') (s >> s')
  node (kind : NodeKind) {r s : Reader} (h : R r s) : R (node kind r) (node kind s)
  peek {choice choice' : Option TokenKind → Reader} (h : ∀ next, R (choice next) (choice' next)) :
    R (peek choice) (peek choice')
  -- the second token may be asked for where the first one is taken in any case
  peekSecond (test : TokenKind → Bool) (kind kind' : NodeKind) {r s r' s' : Reader} (h : R r s)
    (h' : R r' s') :
    R (ifAhead (fun ahead => nextIs test ahead.tail) (Reader.node kind (Reader.take >> r))
        (Reader.node kind' (Reader.take >> r')))
      (ifAhead (fun ahead => nextIs test ahead.tail) (Reader.node kind (Reader.take >> s))
        (Reader.node kind' (Reader.take >> s')))
  many (test : TokenKind → Bool) {r s : Reader} (h : R r s)
    (htakes : TakesAt (fun ahead => nextIs test ahead = true) r) :
    R (many (nextIs test) r) (many (nextIs test) s)
  wrap {r s : Reader} {choice choice' : Option TokenKind → Except Expected (NodeKind × Reader)}
    (h : R r s) (hchoice : ∀ next, SameNode R (choice next) (choice' next)) :
    R (wrap r choice) (wrap s choice')
  chain {r s : Reader} {step step' : TokenKind → Option (NodeKind × Reader)} (h : R r s)
    (hstep : ∀ next, SameLink R next (step next) (step' next)) : R (chain r step) (chain s step')

/-- What takes a token wherever the next one satisfies a test. -/
theorem takesAt_nextIs {test : TokenKind → Bool} {r : Reader} {l : Language Symbol}
    (h : ∀ kind, test kind → ReadsAt (Next kind) r l) (hvisible : Visible l) :
    TakesAt (fun ahead => nextIs test ahead = true) r := by
  rintro (- | ⟨kind, ahead⟩) htest items rest hr
  · cases htest
  · exact (h kind htest).takesAt hvisible (kind :: ahead) rfl items rest hr

/-- A token that is taken in front of something else. -/
theorem takesAt_take_andThen {kind : TokenKind} {r : Reader} {l : Language Symbol}
    (h : Reads r l) : TakesAt (Next kind) (take >> r) :=
  (readsAt_take.andThen h).takesAt ((Visible.tok kind).left l)

end Reader

/-- Two levels at which related readers read. -/
structure Level.Related (R : Reader → Reader → Prop) (level level' : Level) : Prop where
  negated : R level.negated level'.negated
  signed : R level.signed level'.signed
  statement : R level.statement level'.statement

/-- **A relation passes a level of nesting** that is sound: what opens a level is related
if what is read at related levels is. -/
structure Level.Nested (R : Reader → Reader → Prop) (inner inner' : Option Level) : Prop where
  sound : ∀ level, inner = some level → level.Sound
  deeper : ∀ content content' : Level → Reader,
    (∀ level level', level.Sound → Level.Related R level level' →
      R (content level) (content' level')) →
    R (deeper inner content) (deeper inner' content')

namespace Reader.Closed

variable {R : Reader → Reader → Prop} (hR : Closed R) {r s r' s' : Reader}
  {inner inner' : Option Level}
include hR

/-! ### Readers -/

theorem ifNext (test : TokenKind → Bool) (h : R r s) (h' : R r' s') :
    R (ifNext test r r') (Reader.ifNext test s s') := by
  rw [ifNext_eq_peek, ifNext_eq_peek]
  refine hR.peek fun next => ?_
  split
  · exact h
  · exact h'

theorem accept (kind : TokenKind) : R (accept kind) (Reader.accept kind) :=
  hR.ifNext _ hR.take hR.pass

theorem expectAs (kind : TokenKind) (expected : Expected) :
    R (expectAs kind expected) (Reader.expectAs kind expected) :=
  hR.ifNext _ hR.take (hR.stop expected)

theorem expect (kind : TokenKind) : R (expect kind) (Reader.expect kind) := hR.expectAs kind _

theorem word (keyword : Keyword) : R (word keyword) (Grammar.word keyword) := hR.expect _

theorem commaSeparated {l : Language Symbol} (h : R r s) (hr : Reads r l) :
    R (commaSeparated r) (Reader.commaSeparated s) := by
  refine hR.andThen h (hR.many _ (hR.andThen hR.take h) ?_)
  refine takesAt_nextIs (l := tok .comma * l) (fun kind hkind => ?_) ((Visible.tok _).left l)
  obtain rfl := beq_iff_eq.mp hkind
  exact readsAt_take.andThen hr

theorem binary (isOperator : TokenKind → Bool) {l : Language Symbol} (h : R r s)
    (hr : Reads r l) : R (binary isOperator r) (Grammar.binary isOperator s) := by
  refine hR.chain h fun next => ?_
  split
  · exact .some _ (hR.andThen hR.take h) (takesAt_take_andThen hr)
  · exact .none

theorem identifier : R identifier Grammar.identifier :=
  hR.ifNext _ (hR.node _ hR.take) (hR.stop _)

theorem memberName : R memberName Grammar.memberName :=
  hR.ifNext _ (hR.node _ hR.take) (hR.stop _)

/-! ### Primaries -/

theorem argumentList (h : R r s) (hr : Reads r (expr 1)) :
    R (argumentList r) (Grammar.argumentList s) := by
  refine hR.node _ (hR.andThen (hR.expect _) (hR.ifNext _ hR.take ?_))
  refine hR.andThen (hR.commaSeparated (l := opt (expr 1)) (hR.ifNext _ hR.pass h) ?_)
    (hR.expect _)
  exact ReadsAt.ifNext (fun kind _ => readsAt_pass) hr

theorem newExpression (h : R r s) (hr : Reads r (expr 1)) :
    R (newExpression r) (Grammar.newExpression s) := by
  refine hR.node _ (hR.andThen hR.take (hR.peek fun next => ?_))
  split
  · exact hR.andThen (hR.node _ hR.take) (hR.ifNext _ (hR.argumentList h hr) hR.pass)
  · exact hR.argumentList h hr
  · exact hR.stop _

theorem ternary (h : R r s) : R (ternary r) (Grammar.ternary s) := by
  refine hR.node _ (hR.andThen hR.take (hR.andThen (hR.expect _) (hR.andThen h ?_)))
  refine hR.andThen (hR.expect _) (hR.andThen h ?_)
  exact hR.andThen (hR.expect _) (hR.andThen h (hR.expect _))

theorem parenthesised (h : R r s) : R (parenthesised r) (Grammar.parenthesised s) :=
  hR.node _ (hR.andThen hR.take (hR.andThen h (hR.expect _)))

theorem primary (h : R r s) (hr : Reads r (expr 1)) : R (primary r) (Grammar.primary s) := by
  refine hR.peek fun next => ?_
  split
  · exact hR.identifier
  · refine hR.node _ (hR.many _ hR.take ?_)
    refine takesAt_nextIs (fun kind hkind => ?_) (Visible.tok .string)
    obtain rfl := beq_iff_eq.mp hkind
    exact readsAt_take
  · exact hR.parenthesised h
  · exact hR.ternary h
  · exact hR.newExpression h hr
  · split
    · exact hR.node _ hR.take
    · exact hR.stop _
  · exact hR.stop _

theorem suffixed (h : R r s) (hr : Reads r (expr 1)) : R (suffixed r) (Grammar.suffixed s) := by
  refine hR.chain (hR.primary h hr) fun next => ?_
  split
  · exact .some _ (hR.andThen hR.take hR.memberName) (takesAt_take_andThen reads_memberName)
  · exact .some _ (hR.andThen hR.take (hR.andThen h (hR.expect _)))
      (takesAt_take_andThen (hr.andThen (reads_expect _)))
  · exact .some _ (hR.argumentList h hr)
      ((reads_argumentList hr).at.takesAt (Visible.sub (by decide)))
  · exact .none

section Levels

variable (hi : Level.Nested R inner inner')
include hi

/-! ### Expressions -/

theorem expression : R (expression inner) (Grammar.expression inner') := by
  refine hi.deeper _ _ fun level level' hsound hlevel => ?_
  exact hR.binary _ (hR.binary _ hlevel.negated hsound.negated) (reads_conjunction hsound)

theorem signed : R (signed inner) (Grammar.signed inner') := by
  refine hR.ifNext _ (hi.deeper _ _ fun level level' _ hlevel => ?_) ?_
  · exact hR.node _ (hR.andThen hR.take hlevel.signed)
  · exact hR.suffixed (hR.expression hi) (reads_expression hi.sound)

theorem comparison : R (comparison inner) (Grammar.comparison inner') :=
  hR.binary _ (hR.binary _ (hR.binary _ (hR.signed hi) (reads_signed hi.sound))
    (reads_product hi.sound)) (reads_sum hi.sound)

theorem negated : R (negated inner) (Grammar.negated inner') := by
  refine hR.ifNext _ (hi.deeper _ _ fun level level' _ hlevel => ?_) (hR.comparison hi)
  exact hR.node _ (hR.andThen hR.take hlevel.negated)

/-! ### Blocks and declarations -/

theorem block (ends : List Keyword) : R (block inner ends) (Grammar.block inner' ends) := by
  refine hi.deeper _ _ fun level level' hsound hlevel => hR.node _ (hR.many _ ?_ ?_)
  · exact hR.ifNext _ hR.take hlevel.statement
  · exact takesAt_nextIs (fun kind _ => (reads_semicolonOr hsound).at) visible_semicolonOr

omit hi in
theorem varDeclaration : R varDeclaration Grammar.varDeclaration := by
  refine hR.node _ (hR.andThen hR.take (hR.andThen ?_ (hR.accept _)))
  exact hR.commaSeparated (hR.andThen hR.identifier (hR.accept _))
    (reads_identifier.andThen (reads_accept _))

theorem directive : R (directive inner) (Grammar.directive inner') := by
  refine hR.node _ (hR.andThen hR.take (hR.andThen hR.identifier ?_))
  exact hR.ifNext _ (hR.argumentList (hR.expression hi) (reads_expression hi.sound)) hR.pass

theorem directives : R (directives inner) (Grammar.directives inner') := by
  refine hR.many _ (hR.directive hi) (takesAt_nextIs (l := sub .directive) (fun kind hkind => ?_)
    (Visible.sub (by decide)))
  obtain rfl := beq_iff_eq.mp hkind
  exact readsAt_directive hi.sound

theorem parameter : R (parameter inner) (Grammar.parameter inner') := by
  refine hR.node _ (hR.andThen (hR.directives hi) (hR.andThen (hR.accept _) ?_))
  exact hR.andThen hR.identifier
    (hR.ifNext _ (hR.andThen hR.take (hR.expression hi)) hR.pass)

theorem parameterList : R (parameterList inner) (Grammar.parameterList inner') := by
  refine hR.node _ (hR.andThen (hR.expect _) (hR.ifNext _ hR.take ?_))
  exact hR.andThen (hR.commaSeparated (hR.parameter hi) (reads_parameter hi.sound)) (hR.expect _)

theorem methodContent (finish : Keyword) :
    R (methodContent inner finish) (Grammar.methodContent inner' finish) := by
  refine hR.andThen hR.take (hR.andThen hR.identifier ?_)
  refine hR.andThen (hR.parameterList hi) (hR.andThen (hR.accept _) ?_)
  exact hR.andThen (hR.block hi _) (hR.expectAs _ _)

theorem method : R (method inner) (Grammar.method inner') := by
  refine hR.wrap (hR.andThen (hR.directives hi) (hR.accept _)) fun next => ?_
  split
  · exact .some _ (hR.methodContent hi _)
  · exact .some _ (hR.methodContent hi _)
  · exact .none _

/-! ### Statements -/

theorem condition : R (condition inner) (Grammar.condition inner') := by
  refine hR.andThen hR.take (hR.andThen (hR.expression hi) ?_)
  exact hR.andThen (hR.word _) (hR.block hi _)

theorem ifStatement : R (ifStatement inner) (Grammar.ifStatement inner') := by
  have hbranch (kind : NodeKind) := hR.node kind (hR.condition hi)
  refine hR.node _ (hR.andThen (hbranch _) (hR.andThen (hR.many _ (hbranch _) ?_) ?_))
  · refine takesAt_nextIs (l := sub .elsIfBranch) (fun kind hkind => ?_) (Visible.sub (by decide))
    obtain rfl := beq_iff_eq.mp hkind
    exact (readsAt_condition hi.sound .ElsIf).node le_rfl
  · refine hR.andThen (hR.ifNext _ (hR.node _ ?_) hR.pass) (hR.word _)
    exact hR.andThen hR.take (hR.block hi _)

theorem loopBody : R (loopBody inner) (Grammar.loopBody inner') :=
  hR.andThen (hR.word _) (hR.andThen (hR.block hi _) (hR.word _))

theorem whileStatement : R (whileStatement inner) (Grammar.whileStatement inner') :=
  hR.node _ (hR.andThen hR.take (hR.andThen (hR.expression hi) (hR.loopBody hi)))

theorem forStatement : R (forStatement inner) (Grammar.forStatement inner') := by
  have hexpression := hR.expression hi
  have hbody := hR.loopBody hi
  refine hR.peekSecond _ _ _ (hR.andThen hR.take (hR.andThen hR.identifier ?_))
    (hR.andThen hR.identifier ?_)
  · exact hR.andThen (hR.word _) (hR.andThen hexpression hbody)
  · refine hR.andThen (hR.expect _) (hR.andThen hexpression ?_)
    exact hR.andThen (hR.word _) (hR.andThen hexpression hbody)

theorem tryStatement : R (tryStatement inner) (Grammar.tryStatement inner') := by
  refine hR.node _ (hR.andThen hR.take (hR.andThen (hR.block hi _) ?_))
  exact hR.andThen (hR.node _ (hR.andThen (hR.word _) (hR.block hi _))) (hR.word _)

theorem optionalExpression : R (optionalExpression inner) (Grammar.optionalExpression inner') := by
  refine hR.peek fun next => ?_
  split
  · exact hR.pass
  · split
    · exact hR.pass
    · exact hR.expression hi

theorem handlerStatement (kind : NodeKind) :
    R (handlerStatement inner kind) (Grammar.handlerStatement inner' kind) := by
  refine hR.node _ (hR.andThen hR.take (hR.andThen (hR.expression hi) ?_))
  exact hR.andThen (hR.expect _) (hR.expression hi)

theorem simpleStatement : R (simpleStatement inner) (Grammar.simpleStatement inner') := by
  have hexpression := hR.expression hi
  refine hR.wrap (hR.ifNext _ (hR.signed hi) (hR.suffixed hexpression (reads_expression hi.sound)))
    fun next => ?_
  split
  · exact .some _ (hR.andThen hR.take hexpression)
  · exact .some _ hR.pass

theorem statement : R (statement inner) (Grammar.statement inner') := by
  have hexpression := hR.expression hi
  refine hR.peek fun next => ?_
  split
  · exact hR.ifStatement hi
  · exact hR.whileStatement hi
  · exact hR.forStatement hi
  · exact hR.tryStatement hi
  · exact hR.varDeclaration
  · exact hR.node _ (hR.andThen hR.take (hR.optionalExpression hi))
  · refine hR.node _ (hR.andThen hR.take (hR.ifNext _ ?_ (hR.optionalExpression hi)))
    exact hR.argumentList hexpression (reads_expression hi.sound)
  · exact hR.node _ (hR.andThen hR.take hexpression)
  · exact hR.node _ (hR.andThen hR.take (hR.andThen (hR.expect _) hR.identifier))
  · exact hR.node _ hR.take
  · exact hR.node _ hR.take
  · exact hR.handlerStatement hi _
  · exact hR.handlerStatement hi _
  · exact hR.node _ (hR.andThen hR.take (hR.andThen hR.identifier (hR.expect _)))
  · exact hR.simpleStatement hi

theorem levelOver : Level.Related R (levelOver inner) (Grammar.levelOver inner') :=
  ⟨hR.negated hi, hR.signed hi, hR.statement hi⟩

theorem declaration : R (declaration inner) (Grammar.declaration inner') :=
  hR.ifNext _ hR.varDeclaration (hR.method hi)

end Levels

/-- **What passes the levels below passes a level more.** -/
theorem nested_succ {m n : Nat} (h : Level.Nested R (below m) (below n)) :
    Level.Nested R (below (m + 1)) (below (n + 1)) where
  sound := sound_below (m + 1)
  deeper := by
    intro content content' hcontent
    refine hcontent (level m) (level n) (sound_level m) ?_
    rw [level_eq, level_eq]
    exact hR.levelOver h

/-- **Every relation that is kept passes any number of levels.** -/
theorem nested_below (n : Nat) : Level.Nested R (below n) (below n) := by
  induction n with
  | zero => exact ⟨sound_below 0, fun content content' _ => hR.stop _⟩
  | succ n ih => exact hR.nested_succ ih

end Reader.Closed

end ModuleLint
