/-
ModuleLint/Proofs/Grammar/Climb.lean

How one expression is read at all levels of precedence.  `climb m n` is what reads an
expression of level `n` or tighter, with `m` levels of nesting left.  Most levels are
chains, which go on for as long as they can, so that an operand of a chain is read up to
the operator behind it while the chain is still running.  `Climbs m n e` therefore says
where the chain of level `n` stands once it has read `e`.

Main results: a chain goes on with what may follow (`Climbs.extend`), and what is read
at the level of an expression is read at every looser one (`Climbs.descend`).
-/
import ModuleLint.Proofs.Grammar.Expr
import ModuleLint.Proofs.Grammar.Runs
import ModuleLint.Grammar.Statement

namespace ModuleLint

namespace Grammar

open Reader

/-! ### Levels of nesting -/

theorem negated_level (m : Nat) : (level m).negated = negated (below m) := by
  rw [level_eq]
  rfl

theorem signed_level (m : Nat) : (level m).signed = signed (below m) := by
  rw [level_eq]
  rfl

theorem statement_level (m : Nat) : (level m).statement = statement (below m) := by
  rw [level_eq]
  rfl

/-- **Opening a level of nesting** needs one more than what is read inside. -/
theorem runs_deeper {content : Level → Reader} {k : Nat} {front : List TokenKind}
    {items : List Derivation} {after : List TokenKind → Prop}
    (h : ∀ m, Runs (content (level m)) (k ≤ m) front items after) (m : Nat) :
    Runs (deeper (below m) content) (k + 1 ≤ m) front items after := by
  cases m with
  | zero => exact ⟨fun hk => absurd hk (Nat.not_succ_le_zero k), fun _ _ _ => ⟨_, rfl⟩⟩
  | succ m => exact (h m).congr Nat.succ_le_succ_iff

/-! ### Levels of precedence -/

/-- How tightly a token goes on with the expression before it: an operator as its level
tells, a name, an index or a call tighter than any operator, and a string tighter still,
because it goes on with a literal.  Zero for tokens that end an expression. -/
def continuationLevel : TokenKind → Nat
  | .string => 9
  | .dot | .lBracket | .lParen => 8
  | kind => binaryLevel kind

/-- What is behind an expression does not go on with it at level `n` or tighter. -/
def Ends (n : Nat) (rest : List TokenKind) : Prop :=
  ∀ kind, rest.head? = some kind → continuationLevel kind < n

theorem Ends.mono {m n : Nat} {rest : List TokenKind} (h : Ends m rest) (hle : m ≤ n) :
    Ends n rest :=
  fun kind hkind => Nat.lt_of_lt_of_le (h kind hkind) hle

theorem ends_cons {n : Nat} {kind : TokenKind} {rest : List TokenKind}
    (h : continuationLevel kind < n) : Ends n (kind :: rest) := by
  intro k hk
  exact Option.some.inj hk ▸ h

/-- A token that goes on looser than level `n` is not of a kind that goes on tighter. -/
theorem Ends.notNext {n : Nat} {rest : List TokenKind} (h : Ends n rest) {kind : TokenKind}
    (hkind : n ≤ continuationLevel kind) : NotNext kind rest := by
  intro hnext
  have := h kind hnext
  omega

theorem continuationLevel_of_binary {kind : TokenKind} (h : 0 < binaryLevel kind) :
    continuationLevel kind = binaryLevel kind := by
  unfold continuationLevel
  split <;> first | rfl | cases h

/-- What a primary goes on with. -/
def suffix (expression : Reader) : TokenKind → Option (NodeKind × Reader)
  | .dot => some (.memberAccess, take >> memberName)
  | .lBracket => some (.indexAccess, take >> expression >> expect .rBracket)
  | .lParen => some (.callExpression, argumentList expression)
  | _ => none

/-- **What reads an expression of level `n` or tighter** where `m` further levels of nesting
may be opened. -/
def climb (m : Nat) : Nat → Reader
  | 0 | 1 => binary (isWord .Or) (binary (isWord .And) (negated (below m)))
  | 2 => binary (isWord .And) (negated (below m))
  | 3 => negated (below m)
  | 4 => comparison (below m)
  | 5 => binary isAdditive (binary isMultiplicative (signed (below m)))
  | 6 => binary isMultiplicative (signed (below m))
  | 7 => signed (below m)
  | _ => suffixed (expression (below m))

/-- The continuations of the chain of level `n`, if that level is a chain. -/
def continuation (m n : Nat) : TokenKind → Option (NodeKind × Reader) :=
  match n with
  | 8 => suffix (expression (below m))
  | 3 | 7 => fun _ => none
  | n => fun kind =>
    if ofLevel n kind then some (.binaryExpression, take >> climb m (n + 1)) else none

variable {m n : Nat}

theorem continuation_of_isBinary (hn : IsBinary n) (kind : TokenKind) :
    continuation m n kind =
      if ofLevel n kind then some (.binaryExpression, take >> climb m (n + 1)) else none := by
  rcases hn with rfl | rfl | rfl | rfl | rfl <;> rfl

theorem continuation_of_isPrefix (hn : IsPrefix n) (kind : TokenKind) :
    continuation m n kind = none := by
  rcases hn with rfl | rfl <;> rfl

/-- A binary level is a chain over the next tighter level. -/
theorem climb_eq_chain (hn : IsBinary n) :
    climb m n = chain (climb m (n + 1)) (continuation m n) := by
  have hbinary : ∀ {test : TokenKind → Bool} {operand : Reader}, test = ofLevel n →
      operand = climb m (n + 1) →
        binary test operand = chain (climb m (n + 1)) (continuation m n) := by
    rintro test operand rfl rfl
    unfold binary
    congr 1
    funext kind
    exact (continuation_of_isBinary hn kind).symm
  rcases hn with rfl | rfl | rfl | rfl | rfl
  · exact hbinary isWord_or rfl
  · exact hbinary isWord_and rfl
  · exact hbinary isComparison_eq rfl
  · exact hbinary isAdditive_eq rfl
  · exact hbinary isMultiplicative_eq rfl

/-- How the operand of an operator before it is read, by the level of the operator. -/
def operandAt (n : Nat) (level : Level) : Reader :=
  if n = 3 then level.negated else level.signed

theorem operandAt_level (hn : IsPrefix n) : operandAt n (level m) = climb m n := by
  rcases hn with rfl | rfl
  · exact negated_level m
  · exact signed_level m

/-- A level of operators before an operand tries these first, and then what is tighter. -/
theorem climb_eq_ifNext (hn : IsPrefix n) :
    climb m n = ifNext (ofPrefixLevel n)
      (deeper (below m) fun level => node .unaryExpression (take >> operandAt n level))
      (climb m (n + 1)) := by
  rcases hn with rfl | rfl
  · rw [← isWord_not]
    rfl
  · rw [← isSign_eq]
    rfl

/-- The tightest level is a chain over primaries. -/
theorem climb_eight : climb m 8 = chain (primary (expression (below m))) (continuation m 8) :=
  rfl

/-- What goes on looser than a level is no continuation of its chain. -/
theorem continuation_eq_none {kind : TokenKind} (h : continuationLevel kind < n) (hn : n ≤ 8) :
    continuation m n kind = none := by
  by_cases h8 : n = 8
  · subst h8
    cases kind <;> first | rfl | exact absurd h (by decide)
  · by_cases hpre : IsPrefix n
    · exact continuation_of_isPrefix hpre kind
    · have hlevel : ofLevel n kind = false := by
        refine beq_eq_false_iff_ne.mpr fun heq => ?_
        have hpos : 0 < binaryLevel kind := by omega
        rw [continuationLevel_of_binary hpos] at h
        omega
      have hcontinuation : continuation m n kind =
          if ofLevel n kind then some (.binaryExpression, take >> climb m (n + 1)) else none := by
        unfold continuation
        split
        · exact absurd rfl h8
        · exact absurd (.inl rfl) hpre
        · exact absurd (.inr rfl) hpre
        · rfl
      rw [hcontinuation, hlevel]
      rfl

/-! ### One expression at all levels -/

/-- What may be behind an expression that is read at level `n`, so that the chain of
that level can go on: a `New` expression without arguments takes those that follow. -/
def Resumable (n : Nat) (e : Expr) (rest : List TokenKind) : Prop :=
  Ends (n + 1) rest ∧ (n = 8 → e.IsNewType → NotNext .lParen rest)

/-- **Where the chain of level `n` stands once it has read an expression**: it holds the
node of the expression, and has turns left for all that is behind. -/
structure Climbs (m n : Nat) (e : Expr) : Prop where
  resumes : e.inner ≤ m → ∀ rest, Resumable n e rest →
    ∃ turns : List TokenKind, rest.length ≤ turns.length ∧
      climb m n (e.print ++ rest) = chainFrom (continuation m n) turns [e.derivation] rest
  error : ¬ e.inner ≤ m → ∀ rest, Resumable n e rest →
    ∃ stop, climb m n (e.print ++ rest) = .error stop

variable {e : Expr}

theorem Ends.resumable {rest : List TokenKind} (h : Ends n rest) : Resumable n e rest := by
  refine ⟨h.mono (Nat.le_succ n), ?_⟩
  rintro rfl -
  exact h.notNext (by decide)

/-- An expression is read where nothing goes on with it. -/
theorem Climbs.runs (h : Climbs m n e) (hn : n ≤ 8) :
    Runs (climb m n) (e.inner ≤ m) e.print [e.derivation] (Ends n) where
  ok := by
    intro hinner rest hrest
    obtain ⟨turns, -, hclimb⟩ := h.resumes hinner rest hrest.resumable
    rw [hclimb]
    exact chainFrom_stop turns _ fun kind hkind => continuation_eq_none (hrest kind hkind) hn
  error := fun hinner rest hrest => h.error hinner rest hrest.resumable

/-- What a chain begins with is read before its first turn. -/
theorem climbs_of_first {first : Reader} {after : List TokenKind → Prop}
    (hchain : climb m n = chain first (continuation m n))
    (h : Runs first (e.inner ≤ m) e.print [e.derivation] after)
    (hafter : ∀ rest, Resumable n e rest → after rest) : Climbs m n e where
  resumes := by
    intro hinner rest hrest
    refine ⟨rest, le_rfl, ?_⟩
    rw [hchain, chain, h.ok hinner rest (hafter rest hrest)]
  error := by
    intro hinner rest hrest
    obtain ⟨stop, hstop⟩ := h.error hinner rest (hafter rest hrest)
    rw [hchain, chain, hstop]
    exact ⟨stop, rfl⟩

/-- Operators before an operand make no chain. -/
theorem climbs_of_isPrefix (hn : IsPrefix n)
    (h : Runs (climb m n) (e.inner ≤ m) e.print [e.derivation] (Ends n)) : Climbs m n e := by
  -- no token goes on with an expression at just this level
  have hends : ∀ rest, Resumable n e rest → Ends n rest := by
    intro rest hrest kind hkind
    have hlt := hrest.1 kind hkind
    have hne : continuationLevel kind ≠ n := by
      rcases hn with rfl | rfl <;> cases kind <;>
        first | decide | (rename_i word; cases word <;> decide)
    omega
  constructor
  case resumes =>
    intro hinner rest hrest
    refine ⟨rest, le_rfl, ?_⟩
    rw [h.ok hinner rest (hends rest hrest),
      chainFrom_stop rest _ fun kind _ => continuation_of_isPrefix hn kind]
  case error => exact fun hinner rest hrest => h.error hinner rest (hends rest hrest)

/-- **A chain goes on** with an operator, a name, an index or a call, which makes a node
around what it holds. -/
theorem Climbs.extend {base : Expr} (h : Climbs m n base) {kind : TokenKind} {node : NodeKind}
    {content : Reader} {front : List TokenKind} {items : List Derivation} {p : Prop}
    (hkind : continuation m n kind = some (node, content))
    (hlevel : continuationLevel kind < n + 1) (hnew : base.IsNewType → kind ≠ .lParen)
    (hcontent : Runs content p (kind :: front) items (Ends (n + 1)))
    (hprint : e.print = base.print ++ kind :: front)
    (hderivation : e.derivation = .node node [base.derivation] items)
    (hinner : e.inner ≤ m ↔ base.inner ≤ m ∧ p) : Climbs m n e := by
  have hresumable : ∀ rest, Resumable n base (kind :: front ++ rest) := fun rest =>
    ⟨ends_cons hlevel, fun _ hbase heq => hnew hbase (Option.some.inj heq)⟩
  -- where the chain holds the base, it has a turn left for the next token
  have hturn : base.inner ≤ m → ∀ rest, ∃ turn turns, rest.length ≤ turns.length ∧
      climb m n (e.print ++ rest) =
        chainFrom (continuation m n) (turn :: turns) [base.derivation] (kind :: front ++ rest) := by
    intro hbase rest
    obtain ⟨turns, hturns, hclimb⟩ := h.resumes hbase _ (hresumable rest)
    rw [List.length_append, List.length_cons] at hturns
    obtain ⟨turn, turns, rfl⟩ : ∃ turn behind, turns = turn :: behind :=
      List.exists_cons_of_length_pos (by omega)
    rw [List.length_cons] at hturns
    refine ⟨turn, turns, by omega, ?_⟩
    rw [hprint, List.append_assoc, hclimb]
  constructor
  case resumes =>
    intro he rest hrest
    obtain ⟨hbase, hp⟩ := hinner.mp he
    obtain ⟨turn, turns, hturns, hclimb⟩ := hturn hbase rest
    refine ⟨turns, hturns, ?_⟩
    rw [hclimb, hderivation]
    exact chainFrom_turn hkind (hcontent.ok hp rest hrest.1)
  case error =>
    intro he rest hrest
    by_cases hbase : base.inner ≤ m
    · obtain ⟨stop, hstop⟩ := hcontent.error (fun hp => he (hinner.mpr ⟨hbase, hp⟩)) rest hrest.1
      obtain ⟨turn, turns, -, hclimb⟩ := hturn hbase rest
      rw [hclimb]
      exact ⟨stop, chainFrom_error hkind hstop⟩
    · rw [hprint, List.append_assoc]
      exact h.error hbase _ (hresumable rest)

/-- An expression that is tighter than a level is read at that level too. -/
theorem Climbs.loosen (h : Climbs m (n + 1) e) (he : e.Obeys) (hn : 1 ≤ n) (hlt : n < e.level)
    (h8 : e.level ≤ 8) : Climbs m n e := by
  have hruns := h.runs (by omega)
  by_cases hpre : IsPrefix n
  · refine climbs_of_isPrefix hpre ?_
    obtain ⟨kind, more, hprint, -, -, hkind⟩ := e.begins_print he
    -- the expression does not begin with an operator of this level
    have htest : ofPrefixLevel n kind = false := by
      refine beq_eq_false_iff_ne.mpr fun heq => ?_
      omega
    rw [hprint] at hruns ⊢
    rw [climb_eq_ifNext hpre]
    exact (Runs.ifNext_neg htest hruns).weaken fun rest hrest => hrest.mono (Nat.le_succ n)
  · have hbinary : IsBinary n := by
      unfold IsPrefix at hpre
      unfold IsBinary
      omega
    exact climbs_of_first (climb_eq_chain hbinary) hruns fun rest hrest => hrest.1

/-- An expression is read at every level that is no tighter than it. -/
theorem Climbs.descend (h : Climbs m e.level e) (he : e.Obeys) (h8 : e.level ≤ 8) (hn : 1 ≤ n)
    (hle : n ≤ e.level) : Climbs m n e := by
  obtain ⟨d, hd⟩ := Nat.exists_eq_add_of_le hle
  induction d generalizing n with
  | zero =>
    obtain rfl : n = e.level := hd.symm
    exact h
  | succ d ih => exact (ih (Nat.le_add_left 1 n) (by omega) (by omega)).loosen he hn (by omega) h8

/-! ### Operands -/

/-- An expression inside another one. -/
theorem runs_expression_of (h : ∀ m, Climbs m 1 e) (m : Nat) :
    Runs (expression (below m)) (e.need ≤ m) e.print [e.derivation] (Ends 1) := by
  refine runs_deeper (fun m => ?_) m
  have hruns := (h m).runs (by decide)
  rw [negated_level]
  exact hruns

/-- An operator before its operand. -/
theorem climbs_unary {operator : TokenKind} {operand : Expr} (hn : unaryLevel operator = n)
    (hpre : IsPrefix n) (h : ∀ m, Climbs m n operand) (m : Nat) :
    Climbs m n (.unary operator operand) := by
  refine climbs_of_isPrefix hpre ?_
  rw [climb_eq_ifNext hpre]
  refine Runs.ifNext_pos (beq_iff_eq.mpr hn) (runs_deeper (fun m => ?_) m)
  -- one level deeper, the operand is read at the level of the operator
  have hoperand := (h m).runs hpre.bounds.2.le
  rw [operandAt_level hpre]
  exact ((Runs.take operator).andThen_right hoperand).node _

/-- An operator between its operands. -/
theorem climbs_binary {operator : TokenKind} {left right : Expr} (hn : binaryLevel operator = n)
    (hbinary : IsBinary n) (hleft : Climbs m n left) (hright : Climbs m (n + 1) right) :
    Climbs m n (.binary operator left right) := by
  have hpos : 0 < binaryLevel operator := hn ▸ hbinary.bounds.1
  have hlevel : continuationLevel operator = n := (continuationLevel_of_binary hpos).trans hn
  have hcontent : Runs (take >> climb m (n + 1)) (right.inner ≤ m) (operator :: right.print)
      [.token operator, right.derivation] (Ends (n + 1)) :=
    (Runs.take operator).andThen_right (hright.runs hbinary.bounds.2)
  refine hleft.extend ?_ (by omega) ?_ hcontent rfl rfl Nat.max_le
  · rw [continuation_of_isBinary hbinary, if_pos]
    exact beq_iff_eq.mpr hn
  · rintro - rfl
    cases hpos

end Grammar

end ModuleLint
