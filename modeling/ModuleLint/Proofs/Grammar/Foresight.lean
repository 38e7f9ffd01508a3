/-
ModuleLint/Proofs/Grammar/Foresight.lean

How far readers look ahead.  `LooksAhead k r` says that what a reader `r` makes of the
tokens ahead is settled by those that it takes, or that it has taken where it stops, and by
the `k` tokens behind them: if others follow these, `r` does the same.

One token is enough for each way of putting readers together, so it is enough for the
declarations and the blocks of a module.  The module itself looks at two, to tell whether
`Async` begins a method.

Main result: `Grammar.looksAhead_module`.
-/
import ModuleLint.Proofs.Grammar.Closure

namespace ModuleLint

open Grammar

namespace Reader

/-- What was found, and the tokens that are left behind it. -/
def leaving (found : Except Expected (List Derivation)) (rest : List TokenKind) :
    Except Stop (List Derivation × List TokenKind) :=
  match found with
  | .error expected => .error ⟨rest.length, expected⟩
  | .ok items => .ok (items, rest)

/-- **What a reader does here is settled** by the tokens that it takes and by `k` more. -/
def Settled (k : Nat) (r : Reader) (ahead : List TokenKind) : Prop :=
  ∃ front rest found, front ++ rest = ahead ∧
    ∀ rest', rest'.take k = rest.take k → r (front ++ rest') = leaving found rest'

/-- **A reader looks no more than `k` tokens ahead** of those that it takes. -/
def LooksAhead (k : Nat) (r : Reader) : Prop := ∀ ahead, Settled k r ahead

variable {k : Nat} {r r' : Reader} {ahead ahead' : List TokenKind}

/-- What agrees for a while does so behind the same tokens. -/
theorem take_append_congr (front : List TokenKind) {rest rest' : List TokenKind}
    (h : rest'.take k = rest.take k) : (front ++ rest').take k = (front ++ rest).take k := by
  have hshorter (l : List TokenKind) :
      l.take (k - front.length) = (l.take k).take (k - front.length) := by
    rw [List.take_take, Nat.min_eq_left (Nat.sub_le _ _)]
  rw [List.take_append, List.take_append, hshorter rest', h, ← hshorter rest]

theorem head?_congr (hk : 1 ≤ k) (h : ahead'.take k = ahead.take k) :
    ahead'.head? = ahead.head? := by
  have hhead (l : List TokenKind) : (l.take k).head? = l.head? := by
    rw [List.head?_take, if_neg (Nat.ne_of_gt hk)]
  rw [← hhead ahead', h, hhead]

theorem nextIs_congr (hk : 1 ≤ k) (test : TokenKind → Bool) (h : ahead'.take k = ahead.take k) :
    nextIs test ahead' = nextIs test ahead := by
  have hhead (l : List TokenKind) : nextIs test l = l.head?.any test := by
    cases l <;> rfl
  rw [hhead, hhead, head?_congr hk h]

/-! ### One reader at one place -/

/-- A reader that does the same as long as `k` tokens agree. -/
theorem Settled.congr (h : Settled k r ahead)
    (heq : ∀ ahead', ahead'.take k = ahead.take k → r' ahead' = r ahead') :
    Settled k r' ahead := by
  obtain ⟨front, rest, found, rfl, hfound⟩ := h
  refine ⟨front, rest, found, rfl, fun rest' hrest' => ?_⟩
  rw [heq _ (take_append_congr front hrest'), hfound rest' hrest']

/-- What takes nothing. -/
theorem Settled.here (found : Except Expected (List Derivation))
    (h : ∀ ahead', ahead'.take k = ahead.take k → r ahead' = leaving found ahead') :
    Settled k r ahead :=
  ⟨[], ahead, found, rfl, h⟩

/-- What does not depend on a token that it takes. -/
theorem Settled.cons (kind : TokenKind) (h : Settled k (fun ahead => r (kind :: ahead)) ahead) :
    Settled k r (kind :: ahead) := by
  obtain ⟨front, rest, found, rfl, hfound⟩ := h
  exact ⟨kind :: front, rest, found, rfl, hfound⟩

/-- **Reading, and going on with what was read.** -/
theorem Settled.bind
    {next : List Derivation → List TokenKind → Except Stop (List Derivation × List TokenKind)}
    (h : Settled k r ahead)
    (hnext : ∀ items rest, r ahead = .ok (items, rest) → Settled k (next items) rest) :
    Settled k (fun ahead => Reader.bind (r ahead) next) ahead := by
  obtain ⟨front, rest, found, rfl, hfound⟩ := h
  cases found with
  | error expected =>
    refine ⟨front, rest, .error expected, rfl, fun rest' hrest' => ?_⟩
    show Reader.bind (r (front ++ rest')) next = _
    rw [hfound rest' hrest']
    rfl
  | ok items =>
    obtain ⟨front', rest, found, rfl, hfound'⟩ := hnext items rest (hfound rest rfl)
    refine ⟨front ++ front', rest, found, List.append_assoc _ _ _, fun rest' hrest' => ?_⟩
    show Reader.bind (r (front ++ front' ++ rest')) next = _
    rw [List.append_assoc, hfound _ (take_append_congr front' hrest')]
    exact hfound' rest' hrest'

/-- Making something else of what was read. -/
theorem Settled.map (f : List Derivation → List Derivation) (h : Settled k r ahead) :
    Settled k (fun ahead => Reader.bind (r ahead) fun items rest => .ok (f items, rest)) ahead :=
  h.bind fun items _ _ => .here (.ok (f items)) fun _ _ => rfl

/-! ### Ways of putting readers together -/

theorem looksAhead_take (hk : 1 ≤ k) : LooksAhead k take := by
  rintro (- | ⟨kind, ahead⟩)
  · refine .here (.ok []) fun ahead' hahead' => ?_
    rw [List.head?_eq_none_iff.mp (head?_congr hk hahead')]
    rfl
  · exact .cons kind (.here (.ok [.token kind]) fun _ _ => rfl)

theorem LooksAhead.andThen (h : LooksAhead k r) (h' : LooksAhead k r') :
    LooksAhead k (r >> r') :=
  fun ahead => (h ahead).bind fun items rest _ => (h' rest).map (items ++ ·)

theorem LooksAhead.node (kind : NodeKind) (h : LooksAhead k r) : LooksAhead k (node kind r) :=
  fun ahead => (h ahead).map fun items => [.node kind [] items]

/-- What is read does not change with what follows, if something was left unread. -/
theorem LooksAhead.append {r : Reader} {ahead rest : List TokenKind} {kind : TokenKind}
    {items : List Derivation} (h : LooksAhead 1 r) (hr : r ahead = .ok (items, kind :: rest))
    (more : List TokenKind) : r (ahead ++ more) = .ok (items, kind :: rest ++ more) := by
  obtain ⟨front, behind, found, rfl, hfound⟩ := h ahead
  rw [hfound behind rfl] at hr
  cases found with
  | error expected => cases hr
  | ok items' =>
    cases hr
    rw [List.append_assoc, hfound (kind :: rest ++ more) rfl]
    rfl

/-- **A repetition looks as far ahead** as its test and its content do. -/
theorem LooksAhead.many {test : List TokenKind → Bool} (hnil : test [] = false)
    (htest : ∀ ahead ahead', ahead'.take k = ahead.take k → test ahead' = test ahead)
    (htakes : TakesAt (fun ahead => test ahead = true) r) (h : LooksAhead k r) :
    LooksAhead k (many test r) := by
  intro ahead
  -- by induction on the number of tokens ahead, of which each turn takes one
  induction hn : ahead.length using Nat.strong_induction_on generalizing ahead with
  | h n ih =>
    subst hn
    by_cases hyes : test ahead = true
    · have hturn := (h ahead).bind fun items rest hr =>
        (ih rest.length (htakes ahead hyes items rest hr) rest rfl).map (items ++ ·)
      refine hturn.congr fun ahead' hahead' => ?_
      rw [many_eq hnil htakes, htest _ _ hahead', if_pos hyes]
    · refine .here (.ok []) fun ahead' hahead' => ?_
      rw [many_eq hnil htakes, htest _ _ hahead', if_neg hyes]
      rfl

/-- **A chain looks as far ahead** as its links do. -/
theorem looksAhead_chained {step : TokenKind → Option (NodeKind × Reader)} (hk : 1 ≤ k)
    (hstep : ∀ next kind content, step next = some (kind, content) →
      LooksAhead k content ∧ TakesAt (Next next) content) (items : List Derivation) :
    LooksAhead k (chained step items) := by
  have htakes := fun next kind content h => (hstep next kind content h).2
  intro ahead
  induction hn : ahead.length using Nat.strong_induction_on generalizing items ahead with
  | h n ih =>
    subst hn
    cases hnext : ahead.head?.bind step with
    | none =>
      refine .here (.ok items) fun ahead' hahead' => ?_
      rw [chained_eq htakes, head?_congr hk hahead', hnext]
      rfl
    | some link =>
      obtain ⟨kind, content⟩ := link
      obtain ⟨next, hhead, hlink⟩ := Option.bind_eq_some_iff.mp hnext
      obtain ⟨hlooks, hshorter⟩ := hstep next kind content hlink
      have hturn := (hlooks ahead).bind fun more rest hr =>
        ih rest.length (hshorter ahead hhead more rest hr) [.node kind items more] rest rfl
      refine hturn.congr fun ahead' hahead' => ?_
      rw [chained_eq htakes, head?_congr hk hahead', hnext]

/-- The second token may be asked for as well, where the first one is taken in any case. -/
theorem LooksAhead.peekSecond (hk : 1 ≤ k) (test : TokenKind → Bool) (kind kind' : NodeKind)
    (h : LooksAhead k r) (h' : LooksAhead k r') :
    LooksAhead k (ifAhead (fun ahead => nextIs test ahead.tail) (Reader.node kind (take >> r))
      (Reader.node kind' (take >> r'))) := by
  rintro (- | ⟨first, ahead⟩)
  · refine Settled.congr ((LooksAhead.andThen (looksAhead_take hk) h').node kind' [])
      fun ahead' hahead' => ?_
    rw [List.head?_eq_none_iff.mp (head?_congr hk hahead')]
    rfl
  · refine Settled.cons first ?_
    have htaken {s : Reader} (hs : LooksAhead k s) :
        Settled k (fun ahead => (take >> s) (first :: ahead)) ahead :=
      (hs ahead).map ([Derivation.token first] ++ ·)
    have hsecond {ahead' : List TokenKind} (hahead' : ahead'.take k = ahead.take k) :
        nextIs test ahead' = nextIs test ahead := nextIs_congr hk test hahead'
    cases htest : nextIs test ahead with
    | true =>
      refine ((htaken h).map fun items => [.node kind [] items]).congr fun ahead' hahead' => ?_
      rw [ifAhead, List.tail_cons, hsecond hahead', if_pos htest]
      rfl
    | false =>
      refine ((htaken h').map fun items => [.node kind' [] items]).congr fun ahead' hahead' => ?_
      rw [ifAhead, List.tail_cons, hsecond hahead', if_neg (Bool.eq_false_iff.mp htest)]
      rfl

/-- **Looking ahead is kept** by the ways of putting readers together. -/
theorem closed_looksAhead (hk : 1 ≤ k) : Closed fun r _ => LooksAhead k r where
  pass := fun ahead => .here (.ok []) fun _ _ => rfl
  stop := fun expected ahead => .here (.error expected) fun _ _ => rfl
  take := looksAhead_take hk
  andThen := LooksAhead.andThen
  node := fun kind _ _ h => h.node kind
  peek := by
    intro choice _ h ahead
    refine Settled.congr (h ahead.head? ahead) fun ahead' hahead' => ?_
    rw [peek, head?_congr hk hahead']
  peekSecond := fun test kind kind' _ _ _ _ h h' => h.peekSecond hk test kind kind' h'
  many := fun test _ _ h htakes => h.many rfl (fun _ _ => nextIs_congr hk test) htakes
  wrap := by
    intro r _ choice choice' h hchoice ahead
    refine (h ahead).bind fun items rest _ => ?_
    cases hnode : choice rest.head? with
    | error expected => 
      refine .here (.error expected) fun ahead' hahead' => ?_
      rw [head?_congr hk hahead', hnode]
      rfl
    | ok node =>
      obtain ⟨_, -, hcontent⟩ := SameNode.of_ok (hnode ▸ hchoice rest.head?)
      refine ((hcontent rest).map fun more => [.node node.1 items more]).congr ?_
      intro ahead' hahead'
      rw [head?_congr hk hahead', hnode]
      rfl
  chain := by
    intro r _ step step' h hstep ahead
    refine (h ahead).bind fun items rest _ => ?_
    refine looksAhead_chained hk (fun next kind content hlink => ?_) items rest
    obtain ⟨_, -, hcontent⟩ := SameLink.of_some (hlink ▸ hstep next)
    exact hcontent

end Reader

namespace Grammar

open Reader

/-! ### Modules -/

/-- Two tokens tell whether a declaration begins. -/
theorem beginsDeclaration_take (ahead : List TokenKind) :
    beginsDeclaration (ahead.take 2) = beginsDeclaration ahead := by
  rcases ahead with - | ⟨first, - | ⟨second, rest⟩⟩
  · rfl
  · rfl
  · show beginsDeclaration [first, second] = _
    cases first with
    | keyword word =>
      cases word with
      | Async =>
        -- only here does the second token play a part
        cases second with
        | keyword word => cases word <;> rfl
        | _ => rfl
      | _ => rfl
    | _ => rfl

/-- **A module looks two tokens ahead.** -/
theorem looksAhead_module (n : Nat) : LooksAhead 2 (module (below n)) := by
  have hclosed : Closed fun r _ => LooksAhead 2 r := closed_looksAhead (by decide)
  have hi := hclosed.nested_below n
  refine .node _ (.andThen ?_ (hclosed.block hi []))
  refine LooksAhead.many rfl (fun ahead ahead' hahead' => ?_) (takesAt_declaration n)
    (hclosed.declaration hi)
  rw [← beginsDeclaration_take ahead', hahead', beginsDeclaration_take]

/-- **A module goes wrong in front of a token**, or behind the last one: it has taken some of
the tokens and left the others. -/
theorem exists_unread_of_derive {kinds : List TokenKind} {stop : Stop}
    (h : derive kinds = .error stop) :
    ∃ front rest, front ++ rest = kinds ∧ stop.unread = rest.length ∧
      ∀ rest', rest'.take 2 = rest.take 2 →
        derive (front ++ rest') = .error ⟨rest'.length, stop.expected⟩ := by
  obtain ⟨front, rest, found, rfl, hfound⟩ := looksAhead_module nestingLimit kinds
  unfold derive at h ⊢
  rw [hfound rest rfl] at h
  cases found with
  | ok items => cases h
  | error expected =>
    cases h
    refine ⟨front, rest, rfl, rfl, fun rest' hrest' => ?_⟩
    rw [hfound rest' hrest']
    rfl

theorem unread_le_of_derive {kinds : List TokenKind} {stop : Stop}
    (h : derive kinds = .error stop) : stop.unread ≤ kinds.length := by
  obtain ⟨front, rest, rfl, hunread, -⟩ := exists_unread_of_derive h
  rw [hunread, List.length_append]
  exact Nat.le_add_left _ _

/-- **What is behind an error does not matter**, two tokens apart: kinds that begin alike go
wrong alike. -/
theorem derive_of_take {kinds kinds' : List TokenKind} {i : Nat} {expected : Expected}
    (h : derive kinds = .error ⟨kinds.length - i, expected⟩) (hi : i ≤ kinds.length)
    (hkinds : kinds.take (i + 2) = kinds'.take (i + 2)) :
    i ≤ kinds'.length ∧ derive kinds' = .error ⟨kinds'.length - i, expected⟩ := by
  obtain ⟨front, rest, rfl, hunread, hsame⟩ := exists_unread_of_derive h
  obtain rfl : front.length = i := by
    change (front ++ rest).length - i = rest.length at hunread
    rw [List.length_append] at hunread hi
    omega
  have hfront : kinds'.take front.length = front := by
    have htake := congrArg (List.take front.length) hkinds
    rw [List.take_take, List.take_take, Nat.min_eq_left (Nat.le_add_right _ 2)] at htake
    rw [← htake, List.take_left]
  have hrest : (kinds'.drop front.length).take 2 = rest.take 2 := by
    rw [List.take_drop, ← hkinds, ← List.take_drop, List.drop_left]
  have hderive := hsame _ hrest
  have hsplit : front ++ kinds'.drop front.length = kinds' := by
    conv_rhs => rw [← List.take_append_drop front.length kinds', hfront]
  rw [hsplit, List.length_drop] at hderive
  refine ⟨?_, hderive⟩
  have hlength := congrArg List.length hfront
  rw [List.length_take] at hlength
  exact min_eq_left_iff.mp hlength

end Grammar

end ModuleLint
