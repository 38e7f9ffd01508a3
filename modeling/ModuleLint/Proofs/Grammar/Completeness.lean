/-
ModuleLint/Proofs/Grammar/Completeness.lean

Every expression that obeys the levels of precedence is read into its own nodes, if as
many levels of nesting are left as it needs, and reading stops with an error if not.

Arguments come first, then primaries, then what may follow a primary; operators are read
by the chains of their levels.  Main result: `runs_expression`, by induction on the
expression.
-/
import ModuleLint.Proofs.Grammar.Climb

namespace ModuleLint

namespace Grammar

open Reader

variable {m : Nat} {e : Expr}

/-! ### Arguments -/

/-- **An expression is read inside another one**, where `m` levels of nesting are left. -/
def Inside (m : Nat) (e : Expr) : Prop :=
  Runs (expression (below m)) (e.need ≤ m) e.print [e.derivation] (Ends 1)

/-- How an argument is read. -/
def argument (expression : Reader) : Reader :=
  ifNext (fun kind => kind == .comma || kind == .rParen) Reader.pass expression

/-- The end of an argument. -/
def EndsArgument (rest : List TokenKind) : Prop :=
  rest.head? = some .comma ∨ rest.head? = some .rParen

theorem EndsArgument.ends {rest : List TokenKind} (h : EndsArgument rest) : Ends 1 rest := by
  intro kind hkind
  rcases h with h | h
  · obtain rfl := Option.some.inj (h.symm.trans hkind)
    decide
  · obtain rfl := Option.some.inj (h.symm.trans hkind)
    decide

theorem runs_argument {arg : Option Expr} (h : ∀ e, arg = some e → e.Obeys ∧ Inside m e) :
    Runs (argument (expression (below m))) (Expr.needArg arg ≤ m) (Expr.printArg arg)
      (Expr.item arg) EndsArgument := by
  cases arg with
  | none =>
    refine (Runs.of_ok fun rest hrest => ?_).congr (iff_true_intro (Nat.zero_le m))
    rcases rest with - | ⟨kind, rest⟩
    · rcases hrest with hrest | hrest <;> cases hrest
    · have htest : (kind == .comma || kind == .rParen) = true := by
        rcases hrest with hrest | hrest
        · obtain rfl := Option.some.inj hrest
          rfl
        · obtain rfl := Option.some.inj hrest
          rfl
      change argument (expression (below m)) (kind :: rest) = _
      rw [argument, ifNext, ifAhead, if_pos]
      · rfl
      · exact htest
  | some e =>
    obtain ⟨he, hruns⟩ := h e rfl
    obtain ⟨kind, more, hprint, hcomma, hparen, -⟩ := e.begins_print he
    have htest : (kind == .comma || kind == .rParen) = false := by
      rw [Bool.or_eq_false_iff, beq_eq_false_iff_ne, beq_eq_false_iff_ne]
      exact ⟨hcomma, hparen⟩
    have hruns := hruns.weaken fun rest hrest => EndsArgument.ends hrest
    change Runs _ (e.need ≤ m) e.print [e.derivation] _
    rw [hprint] at hruns ⊢
    exact Runs.ifNext_neg htest hruns

/-- Behind an argument there are further ones, or the end of all. -/
theorem endsArgument_printMore (args : List (Option Expr)) {rest : List TokenKind}
    (hrest : rest.head? = some .rParen) : EndsArgument (Expr.printMore args ++ rest) := by
  cases args with
  | nil => exact .inr hrest
  | cons arg more => exact .inl rfl

theorem length_le_printMore (args : List (Option Expr)) :
    args.length ≤ (Expr.printMore args).length := by
  induction args with
  | nil => exact Nat.le_refl 0
  | cons arg more ih =>
    rw [Expr.printMore, List.length_cons, List.length_cons, List.length_append]
    omega

/-- Further arguments are read one by one. -/
theorem manyFrom_printMore {args : List (Option Expr)}
    (h : ∀ e, some e ∈ args → e.Obeys ∧ Inside m e) (turns : List TokenKind)
    (found : List Derivation) {rest : List TokenKind} (hturns : args.length ≤ turns.length)
    (hrest : rest.head? = some .rParen) :
    (Expr.needAll args ≤ m →
      manyFrom (nextIs (· == .comma)) (take >> argument (expression (below m))) turns found
        (Expr.printMore args ++ rest) = .ok (found.reverse ++ Expr.moreItems args, rest)) ∧
    (¬ Expr.needAll args ≤ m → ∃ stop,
      manyFrom (nextIs (· == .comma)) (take >> argument (expression (below m))) turns found
        (Expr.printMore args ++ rest) = .error stop) := by
  induction args generalizing turns found with
  | nil =>
    refine ⟨fun _ => ?_, fun hneed => absurd (Nat.zero_le m) hneed⟩
    have htest : nextIs (· == .comma) rest = false := by
      rcases rest with - | ⟨kind, rest⟩
      · rfl
      · obtain rfl := Option.some.inj hrest
        rfl
    change manyFrom _ _ turns found rest = .ok (found.reverse ++ [], rest)
    rw [manyFrom_stop turns found htest, List.append_nil]
  | cons arg more ih =>
    obtain ⟨turn, turns, rfl⟩ : ∃ turn behind, turns = turn :: behind :=
      List.exists_cons_of_length_pos (Nat.lt_of_lt_of_le (Nat.zero_lt_succ _) hturns)
    have hone := (Runs.take .comma).andThen_right
      (runs_argument (m := m) fun e he => h e (he ▸ List.mem_cons_self))
    have hends := endsArgument_printMore more hrest
    have hahead : Expr.printMore (arg :: more) ++ rest =
        ([.comma] ++ Expr.printArg arg) ++ (Expr.printMore more ++ rest) := by
      rw [Expr.printMore]
      simp
    rw [hahead]
    -- if this argument needs too much, no later one is tried
    by_cases harg : Expr.needArg arg ≤ m
    · have hih := ih (fun e he => h e (List.mem_cons_of_mem _ he)) turns
        (([Derivation.token .comma] ++ Expr.item arg).reverse ++ found)
        (Nat.le_of_succ_le_succ hturns)
      rw [manyFrom_turn rfl (hone.ok harg _ hends)]
      refine ⟨fun hneed => ?_, fun hneed => ?_⟩
      · rw [hih.1 (Nat.le_trans (Nat.le_max_right _ _) hneed), Expr.moreItems]
        simp
      · exact hih.2 fun hmore => hneed (Nat.max_le.mpr ⟨harg, hmore⟩)
    · obtain ⟨stop, hstop⟩ := hone.error harg _ hends
      refine ⟨fun hneed => absurd (Nat.le_trans (Nat.le_max_left _ _) hneed) harg, fun _ => ?_⟩
      exact ⟨stop, manyFrom_error rfl hstop⟩

theorem runs_many_printMore {args : List (Option Expr)}
    (h : ∀ e, some e ∈ args → e.Obeys ∧ Inside m e) :
    Runs (many (nextIs (· == .comma)) (take >> argument (expression (below m))))
      (Expr.needAll args ≤ m) (Expr.printMore args) (Expr.moreItems args)
      (fun rest => rest.head? = some .rParen) := by
  have hturns : ∀ rest : List TokenKind,
      args.length ≤ (Expr.printMore args ++ rest).length := by
    intro rest
    have := length_le_printMore args
    rw [List.length_append]
    omega
  refine ⟨fun hneed rest hrest => ?_, fun hneed rest hrest => ?_⟩
  · exact (manyFrom_printMore h _ [] (hturns rest) hrest).1 hneed
  · exact (manyFrom_printMore h _ [] (hturns rest) hrest).2 hneed

/-- **Arguments in parentheses.** -/
theorem runs_argumentList {args : List (Option Expr)}
    (h : ∀ e, some e ∈ args → e.Obeys ∧ Inside m e) :
    Runs (argumentList (expression (below m))) (Expr.needAll args ≤ m) (Expr.printArgs args)
      [.node .argumentList [] (Expr.items args)] Anything := by
  have hempty : Runs (expect .lParen >> ifNext (· == .rParen) take
      (commaSeparated (argument (expression (below m))) >> expect .rParen)) True
      ([.lParen] ++ [.rParen]) ([.token .lParen] ++ [.token .rParen]) Anything :=
    (Runs.expect .lParen).andThen_right (Runs.ifNext_pos rfl (Runs.take .rParen))
  cases args with
  | nil => exact (hempty.congr (iff_true_intro (Nat.zero_le m))).node _
  | cons arg more =>
    have hall := ((runs_argument (m := m) fun e he => h e (he ▸ List.mem_cons_self)).andThen
      (runs_many_printMore fun e he => h e (List.mem_cons_of_mem _ he))
      fun rest hrest => endsArgument_printMore more hrest).andThen_left (Runs.expect .rParen)
      fun rest _ => rfl
    have hall : Runs (commaSeparated (argument (expression (below m))) >> expect .rParen)
        (Expr.needAll (arg :: more) ≤ m) _ _ Anything := hall.congr Nat.max_le
    rw [List.append_assoc, List.append_assoc] at hall
    -- the first argument shows, or the comma behind it does
    have hshown : ∀ kind front,
        Expr.printArg arg ++ (Expr.printMore more ++ [.rParen]) = kind :: front →
          kind ≠ .rParen → Runs (argumentList (expression (below m)))
            (Expr.needAll (arg :: more) ≤ m) (Expr.printArgs (arg :: more))
            [.node .argumentList [] (Expr.items (arg :: more))] Anything := by
      intro kind front hfront hkind
      rw [hfront] at hall
      have hargs : Runs (ifNext (· == .rParen) take
          (commaSeparated (argument (expression (below m))) >> expect .rParen)) _
          (kind :: front) _ Anything := Runs.ifNext_neg (beq_eq_false_iff_ne.mpr hkind) hall
      rw [← hfront] at hargs
      exact ((Runs.expect .lParen).andThen_right hargs).node _
    rcases arg with - | e
    · rcases more with - | ⟨next, more⟩
      · exact (hempty.congr (iff_true_intro (Nat.zero_le m))).node _
      · exact hshown .comma _ rfl nofun
    · obtain ⟨kind, behind, hprint, -, hparen, -⟩ := e.begins_print (h e List.mem_cons_self).1
      refine hshown kind (behind ++ (Expr.printMore more ++ [.rParen])) ?_ hparen
      change e.print ++ _ = _
      rw [hprint, List.cons_append]

/-! ### Primaries -/

/-- A primary, with all levels of its own. -/
theorem climbs_primary {after : List TokenKind → Prop}
    (h : Runs (primary (expression (below m))) (e.inner ≤ m) e.print [e.derivation] after)
    (hafter : ∀ rest, Ends 9 rest → (e.IsNewType → NotNext .lParen rest) → after rest) :
    Climbs m 8 e :=
  climbs_of_first climb_eight h fun rest hrest => hafter rest hrest.1 (hrest.2 rfl)

theorem climbs_literal {kind : TokenKind} (h : isLiteral kind = true) :
    Climbs m 8 (.literal kind) := by
  have hruns : Runs (primary (expression (below m))) True [kind]
      [.node .literal [] [.token kind]] Anything := by
    unfold isLiteral at h
    split at h
    all_goals first
      | exact Runs.peek ((Runs.take _).node .literal)
      | cases h
  exact climbs_primary (hruns.congr (iff_true_intro (Nat.zero_le m))) fun _ _ _ => trivial

/-- Adjacent strings are read up to the last one. -/
theorem manyFrom_strings (n : Nat) (turns : List TokenKind) (found : List Derivation)
    {rest : List TokenKind} (hturns : n ≤ turns.length) (hrest : NotNext .string rest) :
    manyFrom (nextIs (· == .string)) take turns found (List.replicate n .string ++ rest) =
      .ok (found.reverse ++ List.replicate n (.token .string), rest) := by
  induction n generalizing turns found with
  | zero =>
    have htest : nextIs (· == .string) rest = false := by
      rcases rest with - | ⟨kind, rest⟩
      · rfl
      · exact beq_eq_false_iff_ne.mpr fun heq => hrest (congrArg some heq)
    change manyFrom _ _ turns found rest = .ok (found.reverse ++ [], rest)
    rw [manyFrom_stop turns found htest, List.append_nil]
  | succ n ih =>
    obtain ⟨turn, turns, rfl⟩ : ∃ turn behind, turns = turn :: behind :=
      List.exists_cons_of_length_pos (Nat.lt_of_lt_of_le (Nat.zero_lt_succ _) hturns)
    rw [List.replicate_succ, List.cons_append, manyFrom_turn rfl rfl,
      ih turns _ (Nat.le_of_succ_le_succ hturns), List.replicate_succ]
    simp

theorem climbs_strings (more : Nat) : Climbs m 8 (.strings more) := by
  have hmany : Runs (many (nextIs (· == .string)) take) True (List.replicate (more + 1) .string)
      (List.replicate (more + 1) (.token .string)) (NotNext .string) := by
    refine Runs.of_ok fun rest hrest => ?_
    exact manyFrom_strings (more + 1) _ [] (by simp) hrest
  have hruns : Runs (primary (expression (below m))) True (Expr.strings more).print
      [(Expr.strings more).derivation] (NotNext .string) := Runs.peek (hmany.node .literal)
  exact climbs_primary (hruns.congr (iff_true_intro (Nat.zero_le m))) fun rest hrest _ =>
    hrest.notNext le_rfl

theorem climbs_identifier : Climbs m 8 .identifier := by
  have hruns : Runs (primary (expression (below m))) True [.identifier]
      [.node .identifier [] [.token .identifier]] Anything :=
    Runs.peek (Runs.ifNext_pos rfl ((Runs.take _).node .identifier))
  exact climbs_primary (hruns.congr (iff_true_intro (Nat.zero_le m))) fun _ _ _ => trivial

/-- What ends an expression inside another one. -/
theorem ends_of_zero {kind : TokenKind} (h : continuationLevel kind = 0) {rest : List TokenKind} :
    Ends 1 (kind :: rest) :=
  ends_cons (by omega)

theorem climbs_paren (h : Inside m e) : Climbs m 8 (.paren e) := by
  have hinside := h.andThen_left (Runs.expect .rParen) fun rest _ => ends_of_zero rfl
  have hruns : Runs (primary (expression (below m))) (e.need ≤ m) (Expr.paren e).print
      [(Expr.paren e).derivation] Anything :=
    Runs.peek (((Runs.take .lParen).andThen_right hinside).node .parenExpression)
  exact climbs_primary hruns fun _ _ _ => trivial

theorem climbs_ternary {condition yes no : Expr} (hcondition : Inside m condition)
    (hyes : Inside m yes) (hno : Inside m no) : Climbs m 8 (.ternary condition yes no) := by
  have hlast := hno.andThen_left (Runs.expect .rParen) fun rest _ => ends_of_zero rfl
  have hmiddle := hyes.andThen ((Runs.expect .comma).andThen_right hlast)
    fun rest _ => ends_of_zero rfl
  have hall := hcondition.andThen ((Runs.expect .comma).andThen_right hmiddle)
    fun rest _ => ends_of_zero rfl
  have hruns : Runs (primary (expression (below m))) _ (Expr.ternary condition yes no).print
      [(Expr.ternary condition yes no).derivation] Anything :=
    Runs.peek (((Runs.take .question).andThen_right
      ((Runs.expect .lParen).andThen_right hall)).node .ternaryExpression)
  refine climbs_primary (hruns.congr ?_) fun _ _ _ => trivial
  exact Nat.max_le.trans (and_congr_right fun _ => Nat.max_le)

/-- The arguments of a `New` expression begin with a parenthesis. -/
theorem exists_printArgs (args : List (Option Expr)) :
    ∃ behind, Expr.printArgs args = .lParen :: behind := by
  cases args with
  | nil => exact ⟨_, rfl⟩
  | cons arg more => exact ⟨_, rfl⟩

theorem climbs_newType : Climbs m 8 .newType := by
  have htype := ((Runs.take .identifier).node .typeName).andThen
    (Runs.ifNext_pass .lParen (argumentList (expression (below m)))) fun _ _ => trivial
  have hruns : Runs (primary (expression (below m))) (True ∧ True) Expr.newType.print
      [Expr.newType.derivation] (NotNext .lParen) :=
    Runs.peek (((Runs.take (.keyword .New)).andThen_right (Runs.peek htype)).node .newExpression)
  refine climbs_primary (hruns.congr ?_) fun rest _ hrest => hrest trivial
  exact ⟨fun _ => ⟨trivial, trivial⟩, fun _ => Nat.zero_le m⟩

theorem climbs_newTypeArgs {args : List (Option Expr)}
    (h : ∀ e, some e ∈ args → e.Obeys ∧ Inside m e) : Climbs m 8 (.newTypeArgs args) := by
  have hargs := runs_argumentList h
  obtain ⟨behind, hbehind⟩ := exists_printArgs args
  rw [hbehind] at hargs
  have hruns : Runs (primary (expression (below m))) (Expr.needAll args ≤ m)
      (.keyword .New :: .identifier :: .lParen :: behind)
      [(Expr.newTypeArgs args).derivation] Anything :=
    Runs.peek (((Runs.take (.keyword .New)).andThen_right (Runs.peek
      (((Runs.take .identifier).node .typeName).andThen_right
        (Runs.ifNext_pos rfl hargs)))).node .newExpression)
  rw [← hbehind] at hruns
  exact climbs_primary hruns fun _ _ _ => trivial

theorem climbs_newArgs {args : List (Option Expr)}
    (h : ∀ e, some e ∈ args → e.Obeys ∧ Inside m e) : Climbs m 8 (.newArgs args) := by
  have hargs := runs_argumentList h
  obtain ⟨behind, hbehind⟩ := exists_printArgs args
  rw [hbehind] at hargs
  have hruns : Runs (primary (expression (below m))) (Expr.needAll args ≤ m)
      (.keyword .New :: .lParen :: behind) [(Expr.newArgs args).derivation] Anything :=
    Runs.peek (((Runs.take (.keyword .New)).andThen_right (Runs.peek hargs)).node .newExpression)
  rw [← hbehind] at hruns
  exact climbs_primary hruns fun _ _ _ => trivial

/-! ### What follows a primary -/

variable {base : Expr}

theorem climbs_member (h : Climbs m 8 base) {name : TokenKind} (hname : name.isName = true) :
    Climbs m 8 (.member base name) := by
  have hcontent : Runs (take >> memberName) True [.dot, name]
      [.token .dot, .node .identifier [] [.token name]] Anything := by
    refine (Runs.take .dot).andThen_right (Runs.ifNext_pos ?_ ((Runs.take name).node .identifier))
    cases name <;> first | rfl | cases hname
  refine h.extend rfl (by decide) ?_ (hcontent.weaken fun _ _ => trivial) rfl rfl
    (and_iff_left trivial).symm
  rintro - heq
  cases heq

theorem climbs_index (h : Climbs m 8 base) {position : Expr} (hposition : Inside m position) :
    Climbs m 8 (.index base position) := by
  have hcontent := (Runs.take .lBracket).andThen_right
    (hposition.andThen_left (Runs.expect .rBracket) fun rest _ => ends_of_zero rfl)
  refine h.extend rfl (by decide) ?_ (hcontent.weaken fun _ _ => trivial) rfl rfl Nat.max_le
  rintro - heq
  cases heq

theorem climbs_call (h : Climbs m 8 base) (hnew : ¬ base.IsNewType) {args : List (Option Expr)}
    (hargs : ∀ e, some e ∈ args → e.Obeys ∧ Inside m e) : Climbs m 8 (.call base args) := by
  have hcontent : Runs _ _ _ _ (Ends 9) := (runs_argumentList hargs).weaken fun _ _ => trivial
  obtain ⟨behind, hbehind⟩ := exists_printArgs args
  rw [hbehind] at hcontent
  refine h.extend rfl (by decide) (fun hbase => absurd hbase hnew) hcontent ?_ rfl Nat.max_le
  rw [Expr.print, hbehind]

/-! ### All expressions -/

/-- **The chain of its own level reads an expression**, by induction on the expression:
its parts are read at the levels that its operator asks of them. -/
theorem climbs_level (e : Expr) (he : e.Obeys) (m : Nat) : Climbs m e.level e := by
  -- what is read at its own level is read at looser ones, and inside other expressions
  have hpart : ∀ {m n : Nat} {e : Expr}, (e.Obeys → ∀ m, Climbs m e.level e) → e.Obeys → 1 ≤ n →
      n ≤ e.level → Climbs m n e :=
    fun ih he hn hle => (ih he _).descend he (Expr.level_le _) hn hle
  have hinside : ∀ {m : Nat} {e : Expr}, (e.Obeys → ∀ m, Climbs m e.level e) → e.Obeys →
      Inside m e := fun ih he => runs_expression_of (fun m => hpart ih he le_rfl he.level_pos) _
  have hargs : ∀ {m : Nat} {args : List (Option Expr)},
      (∀ e, some e ∈ args → e.Obeys → ∀ m, Climbs m e.level e) → Expr.ObeysAll args →
        ∀ e, some e ∈ args → e.Obeys ∧ Inside m e := fun ih hall e hmem =>
    ⟨hall.of_mem hmem, hinside (ih e hmem) (hall.of_mem hmem)⟩
  induction e generalizing m with
  | literal kind => exact climbs_literal he
  | strings more => exact climbs_strings more
  | identifier => exact climbs_identifier
  | paren e ih => exact climbs_paren (hinside ih he)
  | ternary condition yes no ihcondition ihyes ihno =>
    obtain ⟨hcondition, hyes, hno⟩ := he
    exact climbs_ternary (hinside ihcondition hcondition) (hinside ihyes hyes) (hinside ihno hno)
  | newType => exact climbs_newType
  | newTypeArgs args ih => exact climbs_newTypeArgs (hargs ih he)
  | newArgs args ih => exact climbs_newArgs (hargs ih he)
  | member base name ih =>
    obtain ⟨hlevel, hbase, hname⟩ := he
    exact climbs_member (hpart ih hbase (by decide) hlevel) hname
  | index base position ihbase ihposition =>
    obtain ⟨hlevel, hbase, hposition⟩ := he
    exact climbs_index (hpart ihbase hbase (by decide) hlevel) (hinside ihposition hposition)
  | call base args ihbase ihargs =>
    obtain ⟨hlevel, hnew, hbase, hall⟩ := he
    exact climbs_call (hpart ihbase hbase (by decide) hlevel) hnew (hargs ihargs hall)
  | unary operator operand ih =>
    obtain ⟨hpos, hlevel, hoperand⟩ := he
    exact climbs_unary rfl (isPrefix_unaryLevel hpos) (fun m => hpart ih hoperand hpos hlevel) m
  | binary operator left right ihleft ihright =>
    obtain ⟨hpos, hlevel, hlt, hleft, hright⟩ := he
    exact climbs_binary rfl (isBinary_binaryLevel hpos) (hpart ihleft hleft hpos hlevel)
      (hpart ihright hright (Nat.le_add_left 1 _) hlt)

/-- **An expression is read at every level that is no tighter than it.** -/
theorem climbs (e : Expr) (he : e.Obeys) {m n : Nat} (hn : 1 ≤ n) (hle : n ≤ e.level) :
    Climbs m n e :=
  (climbs_level e he m).descend he (Expr.level_le e) hn hle

/-- **An expression that obeys the levels of precedence is read into its own nodes** if as
many levels of nesting are left as it needs, and reading stops with an error if not. -/
theorem runs_expression (e : Expr) (he : e.Obeys) (m : Nat) :
    Runs (expression (below m)) (e.need ≤ m) e.print [e.derivation] (Ends 1) :=
  runs_expression_of (fun _ => climbs e he le_rfl he.level_pos) m

end Grammar

end ModuleLint
