/-
ModuleLint/Proofs/Grammar/Turns.lean

Repetitions and chains without their turns.  `many` and `chain` count their turns along
the tokens that lay ahead at the start.  Where each turn takes a token these are enough, so
both do what their definition by recursion would say: a turn, and then again the same from
where the turn ended.

Main results: `many_eq` and `chained_eq`.
-/
import ModuleLint.Proofs.Grammar.Reads
import ModuleLint.Proofs.Grammar.Runs

namespace ModuleLint

namespace Reader

/-- Reading, and going on with what was read. -/
def bind (read : Except Stop (List Derivation × List TokenKind))
    (next : List Derivation → List TokenKind → Except Stop (List Derivation × List TokenKind)) :
    Except Stop (List Derivation × List TokenKind) :=
  match read with
  | .error stop => .error stop
  | .ok (items, rest) => next items rest

@[simp] theorem bind_ok (items : List Derivation) (rest : List TokenKind)
    (next : List Derivation → List TokenKind → Except Stop (List Derivation × List TokenKind)) :
    bind (.ok (items, rest)) next = next items rest := rfl

/-- Going on twice is going on with both. -/
theorem bind_bind (read : Except Stop (List Derivation × List TokenKind))
    (next last : List Derivation → List TokenKind →
      Except Stop (List Derivation × List TokenKind)) :
    bind (bind read next) last = bind read fun items rest => bind (next items rest) last := by
  rcases read with stop | found
  · rfl
  · rfl

theorem andThen_eq (r r' : Reader) (ahead : List TokenKind) :
    (r >> r') ahead =
      bind (r ahead) fun items rest => bind (r' rest) fun more rest => .ok (items ++ more, rest) :=
  rfl

theorem node_eq (kind : NodeKind) (r : Reader) (ahead : List TokenKind) :
    node kind r ahead = bind (r ahead) fun items rest => .ok ([.node kind [] items], rest) :=
  rfl

theorem wrap_eq (r : Reader) (choice : Option TokenKind → Except Expected (NodeKind × Reader))
    (ahead : List TokenKind) :
    wrap r choice ahead = bind (r ahead) fun items rest =>
      match choice rest.head? with
      | .error expected => stop expected rest
      | .ok (kind, content) =>
        bind (content rest) fun more rest => .ok ([.node kind items more], rest) :=
  rfl

/-- A node that begins with a token. -/
theorem node_take_andThen {node : NodeKind} {r : Reader} {kind : TokenKind}
    {ahead rest : List TokenKind} {items : List Derivation} (h : r ahead = .ok (items, rest)) :
    Reader.node node (take >> r) (kind :: ahead) =
      .ok ([.node node [] (.token kind :: items)], rest) := by
  have htake : take (kind :: ahead) = .ok ([.token kind], ahead) := rfl
  rw [node_eq, andThen_eq, htake, bind_ok, h]
  rfl

/-- The two parts of a success. -/
theorem bind_eq_ok_iff {read : Except Stop (List Derivation × List TokenKind)}
    {next : List Derivation → List TokenKind → Except Stop (List Derivation × List TokenKind)}
    {found : List Derivation × List TokenKind} :
    bind read next = .ok found ↔
      ∃ items rest, read = .ok (items, rest) ∧ next items rest = .ok found := by
  rcases read with stop | ⟨items, rest⟩
  · simp [bind]
  · simp [bind]

/-! ### One token -/

theorem ifNext_of_true {test : TokenKind → Bool} {kind : TokenKind} (htest : test kind = true)
    (r r' : Reader) (ahead : List TokenKind) :
    ifNext test r r' (kind :: ahead) = r (kind :: ahead) :=
  if_pos htest

theorem ifNext_of_false {test : TokenKind → Bool} {kind : TokenKind} (htest : test kind = false)
    (r r' : Reader) (ahead : List TokenKind) :
    ifNext test r r' (kind :: ahead) = r' (kind :: ahead) :=
  if_neg (Bool.eq_false_iff.mp htest)

/-- An expected token is next. -/
theorem expectAs_eq_ok_iff {kind : TokenKind} {expected : Expected} {ahead rest : List TokenKind}
    {items : List Derivation} :
    expectAs kind expected ahead = .ok (items, rest) ↔
      ahead = kind :: rest ∧ items = [.token kind] := by
  rcases ahead with - | ⟨next, ahead⟩
  · simp [expectAs, ifNext, ifAhead, nextIs, stop]
  · rw [expectAs]
    by_cases hnext : next = kind
    · subst hnext
      rw [@ifNext_of_true (· == next) next (beq_self_eq_true next)]
      simp [take, eq_comm, and_comm]
    · rw [@ifNext_of_false (· == kind) next (beq_eq_false_iff_ne.mpr hnext)]
      simp [stop, hnext]

theorem expect_eq_ok_iff {kind : TokenKind} {ahead rest : List TokenKind}
    {items : List Derivation} :
    expect kind ahead = .ok (items, rest) ↔ ahead = kind :: rest ∧ items = [.token kind] :=
  expectAs_eq_ok_iff

/-! ### Repetitions -/

section Many

variable {test : List TokenKind → Bool} {r : Reader} {ahead : List TokenKind}

/-- What was found before stays in front. -/
theorem manyFrom_found (turns : List TokenKind) (found : List Derivation) :
    manyFrom test r turns found ahead =
      bind (manyFrom test r turns [] ahead) fun more rest => .ok (found.reverse ++ more, rest) := by
  induction turns generalizing found ahead with
  | nil =>
    rw [manyFrom, manyFrom, bind]
    simp
  | cons t turns ih =>
    rw [manyFrom, manyFrom]
    split
    · cases r ahead with
      | error stop => rfl
      | ok first =>
        simp only [List.append_nil]
        rw [ih, ih first.1.reverse, bind_bind]
        simp [bind]
    · simp [bind]

variable (hnil : test [] = false) (htakes : TakesAt (fun ahead => test ahead = true) r)
include hnil htakes

/-- **The turns of a repetition do not matter** where there are enough of them. -/
theorem manyFrom_turns {turns turns' : List TokenKind} (found : List Derivation)
    (hturns : ahead.length ≤ turns.length) (hturns' : ahead.length ≤ turns'.length) :
    manyFrom test r turns found ahead = manyFrom test r turns' found ahead := by
  induction turns generalizing turns' found ahead with
  | nil =>
    obtain rfl := List.eq_nil_of_length_eq_zero (Nat.le_zero.mp hturns)
    rw [manyFrom_stop _ found hnil, manyFrom_stop _ found hnil]
  | cons t turns ih =>
    by_cases htest : test ahead = true
    · have hpos : 0 < ahead.length := by
        refine List.length_pos_of_ne_nil fun hempty => ?_
        rw [hempty, hnil] at htest
        cases htest
      obtain ⟨t', turns', rfl⟩ := List.exists_cons_of_length_pos (hpos.trans_le hturns')
      rw [List.length_cons] at hturns hturns'
      cases hfirst : r ahead with
      | error stop => rw [manyFrom_error htest hfirst, manyFrom_error htest hfirst]
      | ok first =>
        have hlt := htakes ahead htest first.1 first.2 hfirst
        rw [manyFrom_turn htest hfirst, manyFrom_turn htest hfirst]
        exact ih _ (by omega) (by omega)
    · have hstop := Bool.eq_false_iff.mpr htest
      rw [manyFrom_stop _ found hstop, manyFrom_stop _ found hstop]

/-- **A repetition is a turn, and then again a repetition**, or nothing. -/
theorem many_eq (ahead : List TokenKind) :
    many test r ahead =
      if test ahead then
        bind (r ahead) fun items rest =>
          bind (many test r rest) fun more rest => .ok (items ++ more, rest)
      else .ok ([], ahead) := by
  split
  · rename_i htest
    obtain ⟨kind, rest, rfl⟩ : ∃ kind rest, ahead = kind :: rest := by
      refine List.exists_cons_of_ne_nil fun hempty => ?_
      rw [hempty, hnil] at htest
      cases htest
    cases hfirst : r (kind :: rest) with
    | error stop => exact manyFrom_error htest hfirst
    | ok first =>
      have hlt := htakes _ htest first.1 first.2 hfirst
      rw [many, manyFrom_turn htest hfirst, manyFrom_found, bind, many]
      rw [manyFrom_turns hnil htakes [] (Nat.le_of_lt_succ hlt) le_rfl]
      simp
  · rename_i htest
    exact manyFrom_stop ahead [] (Bool.eq_false_iff.mpr htest)

end Many

/-! ### Chains -/

section Chain

variable {step : TokenKind → Option (NodeKind × Reader)}

/-- **A chain, from where it holds `items` on.** -/
def chained (step : TokenKind → Option (NodeKind × Reader)) (items : List Derivation) : Reader :=
  fun ahead => chainFrom step ahead items ahead

theorem chain_eq (r : Reader) (ahead : List TokenKind) :
    chain r step ahead = bind (r ahead) (chained step) := rfl

variable (htakes : ∀ next kind content, step next = some (kind, content) →
  TakesAt (Next next) content)
include htakes

/-- **The turns of a chain do not matter** where there are enough of them. -/
theorem chainFrom_turns {turns turns' ahead : List TokenKind} (items : List Derivation)
    (hturns : ahead.length ≤ turns.length) (hturns' : ahead.length ≤ turns'.length) :
    chainFrom step turns items ahead = chainFrom step turns' items ahead := by
  induction turns generalizing turns' items ahead with
  | nil =>
    obtain rfl := List.eq_nil_of_length_eq_zero (Nat.le_zero.mp hturns)
    rw [chainFrom_stop _ items (by simp), chainFrom_stop _ items (by simp)]
  | cons t turns ih =>
    rcases ahead with - | ⟨kind, ahead⟩
    · rw [chainFrom_stop _ items (by simp), chainFrom_stop _ items (by simp)]
    · obtain ⟨t', turns', rfl⟩ :=
        List.exists_cons_of_length_pos ((Nat.zero_lt_succ _).trans_le hturns')
      rw [List.length_cons, List.length_cons] at hturns hturns'
      cases hstep : step kind with
      | none =>
        have hstop : ∀ k, (kind :: ahead).head? = some k → step k = none := by
          rintro k ⟨⟩
          exact hstep
        rw [chainFrom_stop _ items hstop, chainFrom_stop _ items hstop]
      | some link =>
        cases hcontent : link.2 (kind :: ahead) with
        | error stop => rw [chainFrom_error hstep hcontent, chainFrom_error hstep hcontent]
        | ok found =>
          have hlt := htakes kind link.1 link.2 hstep (kind :: ahead) rfl found.1 found.2 hcontent
          rw [List.length_cons] at hlt
          rw [chainFrom_turn hstep hcontent, chainFrom_turn hstep hcontent]
          exact ih _ (by omega) (by omega)

/-- **A chain is a link, and then again a chain**, or nothing. -/
theorem chained_eq (items : List Derivation) (ahead : List TokenKind) :
    chained step items ahead =
      match ahead.head?.bind step with
      | none => .ok (items, ahead)
      | some (kind, content) =>
        bind (content ahead) fun more rest => chained step [.node kind items more] rest := by
  rcases ahead with - | ⟨next, ahead⟩
  · rfl
  rw [List.head?_cons, Option.bind_some]
  cases hstep : step next with
  | none =>
    refine chainFrom_stop _ items ?_
    rintro k ⟨⟩
    exact hstep
  | some link =>
    obtain ⟨kind, content⟩ := link
    simp only
    cases hcontent : content (next :: ahead) with
    | error stop => exact chainFrom_error hstep hcontent
    | ok found =>
      have hlt := htakes next kind content hstep (next :: ahead) rfl found.1 found.2 hcontent
      rw [chained, chainFrom_turn hstep hcontent]
      exact chainFrom_turns htakes _ (Nat.le_of_lt_succ hlt) le_rfl

end Chain

end Reader

end ModuleLint
