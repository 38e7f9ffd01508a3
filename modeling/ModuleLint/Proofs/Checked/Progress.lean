/-
ModuleLint/Proofs/Checked/Progress.lean

What a machine leaves as it was, and that it goes ahead.  `Frame input s least s'` says that
from `s` at least `least` tokens were taken up to `s'`, at the same depth of nesting, and that
what was laid out lies below the node that was open in `s`.

`Advances input depth pre least m` says that wherever `pre` holds of what lies ahead, the
machine `m` ends in such a state or with a report.  It is asked of every input, also of tokens
that are not those of the source; there a report may have nothing to slice out, which is the
only way for a machine to have no value.

There is one lemma for each way of putting machines together.  The two kinds of loops, those
that repeat a machine and those that wrap what came first, are one loop here (`looping`): by
what lies ahead it takes a turn or exits.  Where each turn takes a token (`Turning`), the turns
do not run out.
-/
import ModuleLint.Proofs.Checked.Grammar

namespace ModuleLint

namespace Checked

open Reader (Next nextIs)

/-! ### One loop for both kinds -/

/-- **A loop**: the turn it takes by what lies ahead, or none where it exits.  A turn is told the
checkpoint from before the loop. -/
abbrev Loop := List TokenKind → Option (Checkpoint → Machine)

namespace Machine

/-- Repeats a machine while what lies ahead satisfies the test. -/
def repeating (test : List TokenKind → Bool) (content : Machine) : Loop := fun ahead =>
  if test ahead then some fun _ => content else none

/-- Wraps what came first while the next token names a node to wrap it in. -/
def wrapping (step : TokenKind → Option (NodeKind × Machine)) : Loop := fun ahead =>
  (ahead.head?.bind step).map fun (kind, content) mark => nodeAt mark kind content

/-- Takes turns, in at most so many of them. -/
def loopFrom (loop : Loop) (mark : Checkpoint) : Nat → Machine
  | 0 => overrun
  | n + 1 => fun input s =>
    match loop (input.ahead s) with
    | some turn => (turn mark >> loopFrom loop mark n) input s
    | none => skip input s

section

variable {loop : Loop} {mark : Checkpoint} {n : Nat} {input : Input} {s : State}

theorem loopFrom_turn {turn : Checkpoint → Machine} (h : loop (input.ahead s) = some turn) :
    loopFrom loop mark (n + 1) input s = (turn mark >> loopFrom loop mark n) input s := by
  simp only [loopFrom, h]

theorem loopFrom_exit (h : loop (input.ahead s) = none) :
    loopFrom loop mark (n + 1) input s = some (.ok s) := by
  simp only [loopFrom, h, skip]

end

/-- **A machine and a loop behind it**, with the checkpoint before both. -/
def looping (first : Machine) (loop : Loop) : Machine :=
  marked fun mark => first >> turns (loopFrom loop mark)

variable (test : List TokenKind → Bool) (first item content : Machine)
  (step : TokenKind → Option (NodeKind × Machine)) (mark : Checkpoint)

theorem manyFrom_eq (n : Nat) :
    manyFrom test content n = loopFrom (repeating test content) mark n := by
  induction n with
  | zero => rfl
  | succ n ih =>
    funext input s
    rw [manyFrom, ifAhead, ih]
    cases htest : test (input.ahead s) <;> simp [loopFrom, repeating, htest]

theorem chainFrom_eq (n : Nat) : chainFrom step mark n = loopFrom (wrapping step) mark n := by
  induction n with
  | zero => rfl
  | succ n ih =>
    funext input s
    rw [chainFrom, peek, ih]
    cases hstep : (input.ahead s).head?.bind step <;> simp [loopFrom, wrapping, hstep, follow]

theorem many_eq : many test content = looping skip (repeating test content) := by
  funext input s
  exact congrFun (congrFun (congrArg turns (funext fun n =>
    manyFrom_eq test content s.builder.checkpoint n)) input) s

theorem commaSeparated_eq : commaSeparated item =
    looping item (repeating (nextIs (· == .comma)) (bump >> item)) := by
  funext input s
  exact congrFun (congrFun (congrArg (item >> turns ·) (funext fun n =>
    manyFrom_eq _ (bump >> item) s.builder.checkpoint n)) input) s

theorem chain_eq : chain first step = looping first (wrapping step) := by
  funext input s
  exact congrFun (congrFun (congrArg (first >> turns ·) (funext fun n =>
    chainFrom_eq step s.builder.checkpoint n)) input) s

end Machine

/-! ### Frames -/

/-- **`s'` lies ahead of `s` in its frame**: at least `least` tokens further and at the same
depth, with outlines laid out for them below the node that was open. -/
structure Frame (input : Input) (s : State) (least : Nat) (s' : State) : Prop where
  taken_le : s'.taken ≤ input.lexed.tokens.size
  least_le : s.taken + least ≤ s'.taken
  depth_eq : s'.depth = s.depth
  gains : ∃ os, Builder.Gains s.builder s'.builder (s'.taken - s.taken) os

variable {input : Input} {depth k k' : Nat} {s s' s₁ s₂ : State}

theorem Frame.refl (h : s.taken ≤ input.lexed.tokens.size) : Frame input s 0 s where
  taken_le := h
  least_le := Nat.le_refl _
  depth_eq := rfl
  gains := by
    rw [Nat.sub_self]
    exact ⟨[], Builder.Gains.refl _⟩

theorem Frame.trans (hs : s.builder.Ready) (h : Frame input s k s₁) (h' : Frame input s₁ k' s₂) :
    Frame input s (k + k') s₂ where
  taken_le := h'.taken_le
  least_le := by
    have := h.least_le
    have := h'.least_le
    omega
  depth_eq := h'.depth_eq.trans h.depth_eq
  gains := by
    obtain ⟨os, hos⟩ := h.gains
    obtain ⟨os', hos'⟩ := h'.gains
    have hwidth : s₂.taken - s.taken = s₁.taken - s.taken + (s₂.taken - s₁.taken) := by
      have := h.least_le
      have := h'.least_le
      omega
    rw [hwidth]
    exact ⟨os ++ os', hos.trans hs hos'⟩

theorem Frame.mono (h : Frame input s k s') (hle : k' ≤ k) : Frame input s k' s' :=
  { h with least_le := Nat.le_trans (Nat.add_le_add_left hle _) h.least_le }

theorem Frame.valid (hs : s.Valid input depth) (h : Frame input s k s') :
    s'.Valid input depth := by
  obtain ⟨os, hos⟩ := h.gains
  refine ⟨h.taken_le, h.depth_eq.trans hs.depth_eq, hos.ready hs.ready, ?_⟩
  rw [hos.opened]
  exact hs.opened_ne

/-- **A run ends ahead in its frame**, or with a report.  It has no value only where a report
had nothing to slice out. -/
inductive Outcome (input : Input) (s : State) (least : Nat) :
    Option (Except SourceError State) → Prop
  | ok {s' : State} (h : Frame input s least s') : Outcome input s least (some (.ok s'))
  | error (e : SourceError) : Outcome input s least (some (.error e))
  | unsliced (h : ¬ input.Sliceable) : Outcome input s least none

variable {result : Option (Except SourceError State)}

theorem Outcome.bind {go : State → Option (Except SourceError State)}
    (h : Outcome input s k result)
    (hgo : ∀ s', Frame input s k s' → Outcome input s k' (go s')) :
    Outcome input s k' (Machine.resume go result) := by
  cases h with
  | ok h => exact hgo _ h
  | error e => exact .error e
  | unsliced h => exact .unsliced h

theorem Outcome.after (hs : s.builder.Ready) (h : Frame input s k s')
    (h' : Outcome input s' k' result) : Outcome input s (k + k') result := by
  cases h' with
  | ok h' => exact .ok (h.trans hs h')
  | error e => exact .error e
  | unsliced h' => exact .unsliced h'

theorem Outcome.mono (h : Outcome input s k result) (hle : k' ≤ k) :
    Outcome input s k' result := by
  cases h with
  | ok h => exact .ok (h.mono hle)
  | error e => exact .error e
  | unsliced h => exact .unsliced h

/-- Of what lies ahead nothing is asked. -/
abbrev Anywhere : List TokenKind → Prop := fun _ => True

/-- **A machine goes ahead in its frame** by at least `least` tokens, wherever `pre` holds of what
lies ahead. -/
def Advances (input : Input) (depth : Nat) (pre : List TokenKind → Prop) (least : Nat)
    (m : Machine) : Prop :=
  ∀ s : State, s.Valid input depth → pre (input.ahead s) → Outcome input s least (m input s)

/-- **Each turn of a loop takes a token**, from every state that lies ahead of the one where the
checkpoint was made. -/
def Turning (input : Input) (depth : Nat) (loop : Loop) : Prop :=
  ∀ (s₀ s : State) (k : Nat) (turn : Checkpoint → Machine), s₀.Valid input depth →
    Frame input s₀ k s → loop (input.ahead s) = some turn →
    Outcome input s₀ (s.taken - s₀.taken + 1) (turn s₀.builder.checkpoint input s)

variable {pre pre' : List TokenKind → Prop} {m m' first content : Machine} {kind : NodeKind}
  {next : TokenKind} {loop : Loop}

/-- What is next is ahead. -/
theorem Input.taken_lt (h : input.ahead s ≠ []) : s.taken < input.lexed.tokens.size := by
  have hlength := input.length_ahead s
  have := List.length_pos_iff.mpr h
  omega

namespace Advances

/-! ### One machine after the other -/

theorem mono (h : Advances input depth pre k m) (hle : k' ≤ k) : Advances input depth pre k' m :=
  fun s hs hpre => (h s hs hpre).mono hle

theorem everywhere (h : Advances input depth Anywhere k m) : Advances input depth pre k m :=
  fun s hs _ => h s hs trivial

/-- A token is ahead of whatever kind it is. -/
theorem of_next (hne : ∀ ahead, pre ahead → ahead ≠ [])
    (h : ∀ next, Advances input depth (Next next) k m) : Advances input depth pre k m := by
  intro s hs hpre
  obtain ⟨next, rest, hahead⟩ := List.exists_cons_of_ne_nil (hne _ hpre)
  refine h next s hs ?_
  rw [hahead]
  rfl

theorem skip : Advances input depth pre 0 Machine.skip :=
  fun _ hs _ => .ok (.refl hs.taken_le)

theorem bump_of_ne (h : ∀ ahead, pre ahead → ahead ≠ []) :
    Advances input depth pre 1 Machine.bump := by
  intro s hs hpre
  have hlt : s.taken < input.lexed.tokens.size := Input.taken_lt (h _ hpre)
  have hframe : Frame input s 1 { s with taken := s.taken + 1, builder := s.builder.token } := by
    refine ⟨hlt, Nat.le_refl _, rfl, [], ?_⟩
    rw [Nat.add_sub_cancel_left]
    exact Builder.gains_token s.builder
  rw [Machine.bump, if_pos hlt]
  exact .ok hframe

theorem ne_nil_of_next {ahead : List TokenKind} (h : Next next ahead) : ahead ≠ [] := by
  rintro rfl
  cases h

theorem bump : Advances input depth (Next next) 1 Machine.bump :=
  bump_of_ne fun _ => ne_nil_of_next

/-- **A machine that makes a report does not come back.** -/
theorem unexpected_cases (input : Input) (expected : Expected) (s : State) :
    (∃ e, Machine.unexpected expected input s = some (.error e)) ∨
      Machine.unexpected expected input s = none ∧ ¬ input.Sliceable := by
  rw [Machine.unexpected]
  cases htoken : input.lexed.tokens[s.taken]? with
  | some token =>
    dsimp only
    cases hslice : slice? input.source token.position.offset token.stop with
    | some text => exact .inl ⟨_, rfl⟩
    | none =>
      refine .inr ⟨rfl, fun hinput => ?_⟩
      rw [hinput token (Array.mem_of_getElem? htoken)] at hslice
      cases hslice
  | none =>
    cases input.lexed.tokens.back? with
    | some last => exact .inl ⟨_, rfl⟩
    | none => exact .inl ⟨_, rfl⟩

theorem outcome_unexpected (expected : Expected) (s : State) :
    Outcome input s' k (Machine.unexpected expected input s) := by
  obtain ⟨e, he⟩ | ⟨hnone, hinput⟩ := unexpected_cases input expected s
  · rw [he]
    exact .error e
  · rw [hnone]
    exact .unsliced hinput

theorem unexpected (expected : Expected) :
    Advances input depth pre k (Machine.unexpected expected) :=
  fun s _ _ => outcome_unexpected expected s

/-- Both go ahead. -/
theorem both (h : Advances input depth pre k m) (h' : Advances input depth Anywhere k' m') :
    Advances input depth pre (k + k') (m >> m') := by
  intro s hs hpre
  refine (h s hs hpre).bind fun s' hframe => ?_
  exact (h' s' (hframe.valid hs) trivial).after hs.ready hframe

/-- The first goes ahead as far as is asked. -/
theorem seq (h : Advances input depth pre k m) (h' : Advances input depth Anywhere k' m') :
    Advances input depth pre k (m >> m') :=
  (h.both h').mono (Nat.le_add_right k k')

/-- The second goes ahead as far as is asked. -/
theorem seq_right (h : Advances input depth pre k m)
    (h' : Advances input depth Anywhere k' m') : Advances input depth pre k' (m >> m') :=
  (h.both h').mono (Nat.le_add_left k' k)

/-- What is asked behind the next token is asked of the tokens behind it. -/
theorem bump_seq (h : ∀ ahead, pre ahead → ahead ≠ [] ∧ pre' ahead.tail)
    (h' : Advances input depth pre' k m) : Advances input depth pre 1 (Machine.bump >> m) := by
  intro s hs hpre
  obtain ⟨hne, htail⟩ := h _ hpre
  have hlt : s.taken < input.lexed.tokens.size := Input.taken_lt hne
  have hbump : Advances input depth pre 1 Machine.bump := bump_of_ne fun ahead h' => (h ahead h').1
  have hrun := hbump s hs hpre
  change Outcome input s 1 (Machine.resume (m input) (Machine.bump input s))
  rw [Machine.bump, if_pos hlt] at hrun ⊢
  cases hrun with
  | ok hframe =>
    rw [Input.ahead, List.tail_drop] at htail
    exact ((h' _ (hframe.valid hs) htail).after hs.ready hframe).mono (Nat.le_add_right 1 k)

theorem peek {choice : Option TokenKind → Machine}
    (h : ∀ next, Advances input depth (Next next) k (choice (some next)))
    (h' : Advances input depth pre k (choice none)) :
    Advances input depth pre k (Machine.peek choice) := by
  intro s hs hpre
  rw [Machine.peek]
  cases hhead : (input.ahead s).head? with
  | none => exact h' s hs hpre
  | some next => exact h next s hs hhead

theorem ifAhead {test : List TokenKind → Bool}
    (h : Advances input depth (fun ahead => pre ahead ∧ test ahead = true) k m)
    (h' : Advances input depth pre k m') :
    Advances input depth pre k (Machine.ifAhead test m m') := by
  intro s hs hpre
  rw [Machine.ifAhead]
  split
  · rename_i htest
    exact h s hs ⟨hpre, htest⟩
  · exact h' s hs hpre

/-- Where a test of the next token is passed, there is one that passes it. -/
theorem next_of_nextIs {p : TokenKind → Bool} {ahead : List TokenKind} (h : nextIs p ahead = true) :
    ∃ next, p next = true ∧ Next next ahead := by
  cases ahead with
  | nil => cases h
  | cons next rest => exact ⟨next, h, rfl⟩

theorem ifNext {p : TokenKind → Bool}
    (h : ∀ next, p next = true → Advances input depth (Next next) k m)
    (h' : Advances input depth pre k m') :
    Advances input depth pre k (Machine.ifNext p m m') := by
  refine ifAhead (fun s hs hpre => ?_) h'
  obtain ⟨next, hp, hnext⟩ := next_of_nextIs hpre.2
  exact h next hp s hs hnext

/-- What is done only where a test is passed may not be done. -/
theorem optional {p : TokenKind → Bool}
    (h : ∀ next, p next = true → Advances input depth (Next next) k m) :
    Advances input depth pre 0 (Machine.ifNext p m Machine.skip) :=
  ifNext (fun next hp => (h next hp).mono (Nat.zero_le k)) skip

theorem accept (token : TokenKind) : Advances input depth pre 0 (Machine.accept token) :=
  optional fun _ _ => bump

theorem expectAs (token : TokenKind) (expected : Expected) :
    Advances input depth pre 1 (Machine.expectAs token expected) :=
  ifNext (fun _ _ => bump) (unexpected expected)

theorem expect (token : TokenKind) : Advances input depth pre 1 (Machine.expect token) :=
  expectAs token _

/-! ### Nodes -/

/-- **What is done in an open node** is done in the frame around it once the node is closed. -/
theorem closed {b : Builder} {id w : Nat} {os : List Outline}
    (hs : s.depth = depth) (hlead : Frame input s k s')
    (hwidth : w = s'.taken - s.taken) (hopens : Builder.Opens s.builder b id kind w os)
    (hpre : pre (input.ahead s')) (h : Advances input depth pre k' m) :
    Outcome input s (k + k') ((m >> Machine.finish) input (s'.on b)) := by
  have hvalid : (s'.on b).Valid input depth := by
    refine ⟨hlead.taken_le, hlead.depth_eq.trans hs, hopens.ready, ?_⟩
    rw [State.on, hopens.opened]
    exact List.cons_ne_nil _ _
  have hrun := h (s'.on b) hvalid hpre
  change Outcome input s (k + k') (Machine.resume (Machine.finish input) (m input (s'.on b)))
  generalize m input (s'.on b) = result at hrun
  cases hrun with
  | error e => exact .error e
  | unsliced h => exact .unsliced h
  | @ok s'' hframe =>
    have hfinish := Builder.finish?_eq (hframe.valid hvalid).ready
    obtain ⟨os', hgains⟩ := hframe.gains
    have hleast : s'.taken + k' ≤ s''.taken := hframe.least_le
    have hlead_le := hlead.least_le
    have hgains' : ∃ os, Builder.Gains s.builder s''.builder.finish (s''.taken - s.taken) os := by
      have hsum : s''.taken - s.taken = w + (s''.taken - s'.taken) := by omega
      rw [hsum]
      exact ⟨_, hopens.close hgains⟩
    have hsum : s.taken + (k + k') ≤ s''.taken := by omega
    have hclosed : Frame input s (k + k') (s''.on s''.builder.finish) :=
      ⟨hframe.taken_le, hsum, hframe.depth_eq.trans hlead.depth_eq, hgains'⟩
    simp only [Machine.resume, Machine.finish, hfinish, Option.map_some]
    exact .ok hclosed

/-- A node that is opened here; the root is opened so, where no other node is open. -/
theorem outcome_node (hs : s.taken ≤ input.lexed.tokens.size) (hdepth : s.depth = depth)
    (hready : s.builder.Ready) (hpre : pre (input.ahead s)) (h : Advances input depth pre k m) :
    Outcome input s k (Machine.node kind m input s) := by
  have hstart : Machine.start kind input s = some (.ok (s.on (s.builder.start kind))) := by
    rw [Machine.start, Builder.start?_eq hready, Option.map_some]
  change Outcome input s k
    (Machine.resume ((m >> Machine.finish) input) (Machine.start kind input s))
  rw [hstart]
  have hclosed := closed hdepth (.refl hs) (Nat.sub_self _).symm
    (Builder.opens_start hready kind) hpre h
  rwa [Nat.zero_add] at hclosed

theorem node (h : Advances input depth pre k m) :
    Advances input depth pre k (Machine.node kind m) :=
  fun _ hs hpre => outcome_node hs.taken_le hs.depth_eq hs.ready hpre h

/-- **A node around what came first** is opened at the checkpoint before it. -/
theorem outcome_nodeAt (hs : s.Valid input depth) (hlead : Frame input s k s')
    (hpre : pre (input.ahead s')) (h : Advances input depth pre k' m) :
    Outcome input s (k + k') (Machine.nodeAt s.builder.checkpoint kind m input s') := by
  obtain ⟨os, hgains⟩ := hlead.gains
  have hstart : Machine.startAt s.builder.checkpoint kind input s' =
      some (.ok (s'.on (s'.builder.startAt s.builder.checkpoint kind))) := by
    rw [Machine.startAt, hgains.startAt?_eq hs.ready hs.opened_ne, Option.map_some]
  change Outcome input s (k + k')
    (Machine.resume ((m >> Machine.finish) input) (Machine.startAt _ kind input s'))
  rw [hstart]
  exact closed hs.depth_eq hlead rfl (hgains.opens_startAt hs.ready hs.opened_ne kind) hpre h

/-- The content of the node that is chosen takes `k'` tokens at least. -/
theorem wrap {choice : Option TokenKind → Except Expected (NodeKind × Machine)} (k' : Nat)
    (h : Advances input depth pre k m)
    (hchoice : ∀ next kind content, choice next = .ok (kind, content) →
      Advances input depth (fun ahead => ahead.head? = next) k' content) :
    Advances input depth pre (k + k') (Machine.wrap m choice) := by
  intro s hs hpre
  refine (h s hs hpre).bind fun s' hframe => ?_
  change Outcome input s (k + k')
    (Machine.choose s.builder.checkpoint (choice (input.ahead s').head?) input s')
  cases hchosen : choice (input.ahead s').head? with
  | error expected => exact outcome_unexpected expected s'
  | ok chosen =>
    refine outcome_nodeAt hs hframe ?_ (hchoice _ chosen.1 chosen.2 hchosen)
    rfl

end Advances

/-! ### Turns -/

namespace Turning

theorem repeating {test : List TokenKind → Bool}
    (h : Advances input depth (fun ahead => test ahead = true) 1 content) :
    Turning input depth (Machine.repeating test content) := by
  intro s₀ s k turn hs₀ hframe hturn
  rw [Machine.repeating, Option.ite_none_right_eq_some] at hturn
  obtain ⟨htest, hcontent⟩ := hturn
  obtain rfl := Option.some.inj hcontent
  have hlead : Frame input s₀ (s.taken - s₀.taken) s :=
    { hframe with least_le := by have := hframe.least_le; omega }
  exact (h s (hframe.valid hs₀) htest).after hs₀.ready hlead

theorem repeating_next {p : TokenKind → Bool}
    (h : ∀ next, p next = true → Advances input depth (Next next) 1 content) :
    Turning input depth (Machine.repeating (nextIs p) content) := by
  refine repeating fun s hs htest => ?_
  obtain ⟨next, hp, hnext⟩ := Advances.next_of_nextIs htest
  exact h next hp s hs hnext

theorem wrapping {step : TokenKind → Option (NodeKind × Machine)}
    (h : ∀ next kind content, step next = some (kind, content) →
      Advances input depth (Next next) 1 content) :
    Turning input depth (Machine.wrapping step) := by
  intro s₀ s k turn hs₀ hframe hturn
  obtain ⟨⟨kind, content⟩, hstep, rfl⟩ := Option.map_eq_some_iff.mp hturn
  obtain ⟨next, hnext, hstep⟩ := Option.bind_eq_some_iff.mp hstep
  have hlead : Frame input s₀ (s.taken - s₀.taken) s :=
    { hframe with least_le := by have := hframe.least_le; omega }
  exact Advances.outcome_nodeAt hs₀ hlead hnext (h next kind content hstep)

/-- **The turns do not run out**: each of them takes a token. -/
theorem outcome_loopFrom (hloop : Turning input depth loop) (hs : s.Valid input depth) (n : Nat)
    (hframe : Frame input s k s') (hn : (input.ahead s').length < n) :
    Outcome input s k (Machine.loopFrom loop s.builder.checkpoint n input s') := by
  induction n generalizing s' with
  | zero => exact absurd hn (Nat.not_lt_zero _)
  | succ n ih =>
    cases hturn : loop (input.ahead s') with
    | none =>
      rw [Machine.loopFrom_exit hturn]
      exact .ok hframe
    | some turn =>
      rw [Machine.loopFrom_turn hturn]
      refine (hloop s s' k turn hs hframe hturn).bind fun s'' hframe' => ?_
      have hleast := hframe.least_le
      have hleast' := hframe'.least_le
      have hlength := input.length_ahead s'
      have hlength' := input.length_ahead s''
      have hle := hframe'.taken_le
      exact ih (hframe'.mono (by omega)) (by omega)

end Turning

namespace Advances

theorem looping (h : Advances input depth pre k first) (hloop : Turning input depth loop) :
    Advances input depth pre k (Machine.looping first loop) := by
  intro s hs hpre
  refine (h s hs hpre).bind fun s' hframe => ?_
  exact hloop.outcome_loopFrom hs _ hframe (Nat.lt_succ_self _)

/-- Where the first turn is taken, a loop takes a token. -/
theorem looping_skip (hloop : Turning input depth loop)
    (hpre : ∀ ahead, pre ahead → (loop ahead).isSome) :
    Advances input depth pre 1 (Machine.looping Machine.skip loop) := by
  intro s hs hahead
  change Outcome input s 1
    (Machine.loopFrom loop s.builder.checkpoint ((input.ahead s).length + 1) input s)
  obtain ⟨turn, hturn⟩ := Option.isSome_iff_exists.mp (hpre _ hahead)
  rw [Machine.loopFrom_turn hturn]
  refine (hloop s s 0 turn hs (.refl hs.taken_le) hturn).bind fun s' hframe => ?_
  have hframe : Frame input s 1 s' := hframe.mono (Nat.le_add_left 1 _)
  have hlength := input.length_ahead s
  have hlength' := input.length_ahead s'
  have hleast := hframe.least_le
  have hle := hframe.taken_le
  exact hloop.outcome_loopFrom hs _ hframe (by omega)

end Advances

end Checked

end ModuleLint
