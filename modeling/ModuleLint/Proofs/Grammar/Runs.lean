/-
ModuleLint/Proofs/Grammar/Runs.lean

When readers succeed, and when they do not.  `Runs r p front items after` says of a
reader `r` and the tokens `front`, with behind them what `after` asks for: if `p` holds,
`r` makes `items` of `front` and leaves the rest; if `p` does not hold, `r` stops with an
error.

The rules follow the ways in which readers are put together.  Repetitions and chains go
on for as long as they can; they are taken a turn at a time.
-/
import ModuleLint.Grammar.Reader

namespace ModuleLint

namespace Reader

/-- **A reader takes these tokens into these items** if `p` holds, and stops with an
error if not.  What is behind the tokens has to be as `after` says. -/
structure Runs (r : Reader) (p : Prop) (front : List TokenKind) (items : List Derivation)
    (after : List TokenKind → Prop) : Prop where
  ok : p → ∀ rest, after rest → r (front ++ rest) = .ok (items, rest)
  error : ¬ p → ∀ rest, after rest → ∃ stop, r (front ++ rest) = .error stop

/-- No condition on what is behind. -/
def Anything : List TokenKind → Prop := fun _ => True

/-- The next token is not of the given kind. -/
def NotNext (kind : TokenKind) (rest : List TokenKind) : Prop := rest.head? ≠ some kind

namespace Runs

variable {r r' : Reader} {p q : Prop} {front front' : List TokenKind}
  {items items' : List Derivation} {after after' : List TokenKind → Prop}

theorem congr (h : Runs r p front items after) (hqp : q ↔ p) : Runs r q front items after :=
  ⟨fun hq => h.ok (hqp.mp hq), fun hq => h.error (mt hqp.mpr hq)⟩

theorem weaken (h : Runs r p front items after) (hafter : ∀ rest, after' rest → after rest) :
    Runs r p front items after' :=
  ⟨fun hp rest hrest => h.ok hp rest (hafter rest hrest),
    fun hp rest hrest => h.error hp rest (hafter rest hrest)⟩

theorem of_ok (h : ∀ rest, after rest → r (front ++ rest) = .ok (items, rest)) :
    Runs r True front items after :=
  ⟨fun _ => h, fun hp => absurd trivial hp⟩

/-- A reader that does the same on these tokens. -/
theorem of_eq (h : Runs r p front items after)
    (heq : ∀ rest, r' (front ++ rest) = r (front ++ rest)) : Runs r' p front items after where
  ok := by
    intro hp rest hrest
    rw [heq]
    exact h.ok hp rest hrest
  error := by
    intro hp rest hrest
    rw [heq]
    exact h.error hp rest hrest

theorem take (kind : TokenKind) : Runs take True [kind] [.token kind] Anything :=
  of_ok fun _ _ => rfl

/-- **One reader after the other.** -/
theorem andThen (h : Runs r p front items after) (h' : Runs r' q front' items' after')
    (hafter : ∀ rest, after' rest → after (front' ++ rest)) :
    Runs (r >> r') (p ∧ q) (front ++ front') (items ++ items') after' where
  ok := by
    rintro ⟨hp, hq⟩ rest hrest
    change Reader.andThen r r' (front ++ front' ++ rest) = _
    rw [Reader.andThen, List.append_assoc, h.ok hp _ (hafter rest hrest)]
    simp only
    rw [h'.ok hq rest hrest]
  error := by
    -- the first reader stops with an error, or it succeeds and the second one does
    intro hpq rest hrest
    change ∃ stop, Reader.andThen r r' (front ++ front' ++ rest) = _
    rw [Reader.andThen, List.append_assoc]
    by_cases hp : p
    · obtain ⟨stop, hstop⟩ := h'.error (fun hq => hpq ⟨hp, hq⟩) rest hrest
      rw [h.ok hp _ (hafter rest hrest)]
      simp only
      rw [hstop]
      exact ⟨stop, rfl⟩
    · obtain ⟨stop, hstop⟩ := h.error hp _ (hafter rest hrest)
      rw [hstop]
      exact ⟨stop, rfl⟩

/-- A reader that always succeeds, and another one. -/
theorem andThen_right (h : Runs r True front items Anything)
    (h' : Runs r' q front' items' after') :
    Runs (r >> r') q (front ++ front') (items ++ items') after' :=
  (h.andThen h' fun _ _ => trivial).congr ⟨fun hq => ⟨trivial, hq⟩, And.right⟩

/-- A reader, and another one that always succeeds. -/
theorem andThen_left (h : Runs r p front items after) (h' : Runs r' True front' items' after')
    (hafter : ∀ rest, after' rest → after (front' ++ rest)) :
    Runs (r >> r') p (front ++ front') (items ++ items') after' :=
  (h.andThen h' hafter).congr ⟨fun hp => ⟨hp, trivial⟩, And.left⟩

theorem node (h : Runs r p front items after) (kind : NodeKind) :
    Runs (node kind r) p front [.node kind [] items] after where
  ok := by
    intro hp rest hrest
    rw [Reader.node, h.ok hp rest hrest]
  error := by
    intro hp rest hrest
    obtain ⟨stop, hstop⟩ := h.error hp rest hrest
    rw [Reader.node, hstop]
    exact ⟨stop, rfl⟩

/-- The first token chooses. -/
theorem peek {kind : TokenKind} {choice : Option TokenKind → Reader}
    (h : Runs (choice (some kind)) p (kind :: front) items after) :
    Runs (peek choice) p (kind :: front) items after :=
  h.of_eq fun _ => rfl

theorem ifNext_pos {kind : TokenKind} {test : TokenKind → Bool} (htest : test kind = true)
    (h : Runs r p (kind :: front) items after) :
    Runs (ifNext test r r') p (kind :: front) items after := by
  refine h.of_eq fun rest => ?_
  rw [ifNext, ifAhead, if_pos]
  exact htest

theorem ifNext_neg {kind : TokenKind} {test : TokenKind → Bool} (htest : test kind = false)
    (h : Runs r' p (kind :: front) items after) :
    Runs (ifNext test r r') p (kind :: front) items after := by
  refine h.of_eq fun rest => ?_
  rw [ifNext, ifAhead, if_neg]
  exact Bool.eq_false_iff.mp htest

/-- What may be missing is missing, if something else follows. -/
theorem ifNext_pass (kind : TokenKind) (r : Reader) :
    Runs (ifNext (· == kind) r Reader.pass) True [] [] (NotNext kind) := by
  refine of_ok fun rest hrest => ?_
  rw [List.nil_append, ifNext, ifAhead, if_neg]
  · rfl
  · rcases rest with - | ⟨k, rest⟩
    · exact Bool.false_ne_true
    · intro hk
      exact hrest (congrArg some (beq_iff_eq.mp hk))

theorem expect (kind : TokenKind) : Runs (expect kind) True [kind] [.token kind] Anything :=
  ifNext_pos (beq_self_eq_true kind) (take kind)

/-- **A node around a lead**, chosen by the token behind the lead. -/
theorem wrap {kind : TokenKind} {node : NodeKind} {content : Reader}
    {choice : Option TokenKind → Except Expected (NodeKind × Reader)}
    (h : Runs r True front items after)
    (hafter : ∀ rest, after' rest → after (kind :: front' ++ rest))
    (hchoice : choice (some kind) = .ok (node, content))
    (h' : Runs content q (kind :: front') items' after') :
    Runs (wrap r choice) q (front ++ kind :: front') [.node node items items'] after' where
  ok := by
    intro hq rest hrest
    rw [Reader.wrap, List.append_assoc, h.ok trivial _ (hafter rest hrest)]
    simp only [List.cons_append, List.head?_cons, hchoice]
    rw [← List.cons_append, h'.ok hq rest hrest]
  error := by
    intro hq rest hrest
    obtain ⟨stop, hstop⟩ := h'.error hq rest hrest
    rw [Reader.wrap, List.append_assoc, h.ok trivial _ (hafter rest hrest)]
    simp only [List.cons_append, List.head?_cons, hchoice]
    rw [← List.cons_append, hstop]
    exact ⟨stop, rfl⟩

end Runs

/-! ### Repetitions and chains, one turn at a time -/

/-- A chain stops where no continuation is named, however many turns it has left. -/
theorem chainFrom_stop {step : TokenKind → Option (NodeKind × Reader)} (turns : List TokenKind)
    (items : List Derivation) {rest : List TokenKind}
    (hstop : ∀ kind, rest.head? = some kind → step kind = none) :
    chainFrom step turns items rest = .ok (items, rest) := by
  cases turns with
  | nil => rfl
  | cons t turns =>
    have hnone : rest.head?.bind step = none := by
      rcases rest with - | ⟨kind, rest⟩
      · rfl
      · exact hstop kind rfl
    rw [chainFrom, hnone]

/-- A chain goes on with a continuation, which makes a node around what it holds. -/
theorem chainFrom_turn {step : TokenKind → Option (NodeKind × Reader)} {turn kind : TokenKind}
    {turns ahead rest : List TokenKind} {node : NodeKind} {content : Reader}
    {lead items : List Derivation} (hstep : step kind = some (node, content))
    (hcontent : content (kind :: ahead) = .ok (items, rest)) :
    chainFrom step (turn :: turns) lead (kind :: ahead) =
      chainFrom step turns [.node node lead items] rest := by
  rw [chainFrom, List.head?_cons, Option.bind_some, hstep]
  simp only
  rw [hcontent]

theorem chainFrom_error {step : TokenKind → Option (NodeKind × Reader)} {turn kind : TokenKind}
    {turns ahead : List TokenKind} {node : NodeKind} {content : Reader} {lead : List Derivation}
    {stop : Stop} (hstep : step kind = some (node, content))
    (hcontent : content (kind :: ahead) = .error stop) :
    chainFrom step (turn :: turns) lead (kind :: ahead) = .error stop := by
  rw [chainFrom, List.head?_cons, Option.bind_some, hstep]
  simp only
  rw [hcontent]

/-- A repetition stops where its test fails, however many turns it has left. -/
theorem manyFrom_stop {test : List TokenKind → Bool} {content : Reader} (turns : List TokenKind)
    (found : List Derivation) {rest : List TokenKind} (hstop : test rest = false) :
    manyFrom test content turns found rest = .ok (found.reverse, rest) := by
  cases turns with
  | nil => rfl
  | cons t turns =>
    rw [manyFrom, if_neg]
    exact Bool.eq_false_iff.mp hstop

/-- A repetition goes on with what its content takes. -/
theorem manyFrom_turn {test : List TokenKind → Bool} {content : Reader} {turn : TokenKind}
    {turns ahead rest : List TokenKind} {found items : List Derivation}
    (htest : test ahead = true) (hcontent : content ahead = .ok (items, rest)) :
    manyFrom test content (turn :: turns) found ahead =
      manyFrom test content turns (items.reverse ++ found) rest := by
  rw [manyFrom, if_pos htest, hcontent]

theorem manyFrom_error {test : List TokenKind → Bool} {content : Reader} {turn : TokenKind}
    {turns ahead : List TokenKind} {found : List Derivation} {stop : Stop}
    (htest : test ahead = true) (hcontent : content ahead = .error stop) :
    manyFrom test content (turn :: turns) found ahead = .error stop := by
  rw [manyFrom, if_pos htest, hcontent]

/-- A repetition that is over after one turn. -/
theorem Runs.many_once {kind : TokenKind} {test : TokenKind → Bool} {r : Reader}
    {front : List TokenKind} {items : List Derivation} {after after' : List TokenKind → Prop}
    (htest : test kind = true) (h : Runs r True (kind :: front) items after)
    (hafter : ∀ rest, after' rest → after rest ∧ nextIs test rest = false) :
    Runs (many (nextIs test) r) True (kind :: front) items after' := by
  refine of_ok fun rest hrest => ?_
  obtain ⟨hturn, hstop⟩ := hafter rest hrest
  have hfirst := h.ok trivial rest hturn
  rw [List.cons_append] at hfirst ⊢
  rw [many, manyFrom_turn htest hfirst, manyFrom_stop _ _ hstop, List.append_nil,
    List.reverse_reverse]

end Reader

end ModuleLint
