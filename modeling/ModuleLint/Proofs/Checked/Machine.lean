/-
ModuleLint/Proofs/Checked/Machine.lean

The parser step by step, with every operation checked.  A machine works on a state: how many
tokens are taken, how many levels of nesting are open, and the forest under construction.
There is no next state (`none`) where it would take a token behind the last one, close a level
when none is open, use the number of a node that is not there, keep more children than there
are, or slice the source where no characters begin and end; nor is there one where a loop or
the nesting of machines does not come to an end.

Machines are put together as readers are:

    reader                    machine
    take                      bump
    stop                      unexpected, with the text of the token sliced out
    node kind r               start kind >> m >> finish
    wrap first, chain first   a checkpoint, first, and startAt that checkpoint
    deeper inner              enter >> m >> leave

`Agrees input depth need m r` says that at the given depth of nesting, with at least `need`
tokens ahead, the machine `m` has a value and does what `r` reads: it stops with the report on
where `r` stops, or takes the same tokens and lays out what `r` has read.  There is one lemma
for each way of putting machines together; a loop asks that each turn takes a token.
-/
import ModuleLint.Proofs.Grammar.Turns
import ModuleLint.Proofs.Grammar.Parsed
import ModuleLint.Proofs.Text.Bytes

namespace ModuleLint

open ModuleLint.Derivation (emit emitAll gains_emitAll)

/-! ### Forests with the numbers of nodes checked -/

namespace Builder

/-- Opens a node, whose parent has to be there. -/
def start? (b : Builder) (kind : NodeKind) : Option Builder :=
  if b.opened.head?.all (· < b.nodes.size + 1) then some (b.start kind) else none

/-- Closes the innermost open node, which has to be there. -/
def finish? (b : Builder) : Option Builder :=
  if b.opened.head?.all (· < b.nodes.size) then some b.finish else none

/-- Opens a node at a checkpoint.  Its parent and the children it adopts have to be there, and
the parent must have as many children left as it had at the checkpoint. -/
def startAt? (b : Builder) (mark : Checkpoint) (kind : NodeKind) : Option Builder :=
  let siblings := ((b.nodes[mark.parent]?).map Node.children).getD []
  if mark.parent < b.nodes.size + 1 ∧ mark.childCount ≤ siblings.length ∧
      ∀ child ∈ siblings.drop mark.childCount, child < b.nodes.size + 1 then
    some (b.startAt mark kind)
  else none

/-- Closes every node that is still open. -/
def finishAll? (b : Builder) : Option Builder :=
  b.opened.foldlM (fun b _ => b.finish?) b

variable {b b₁ : Builder} {w : Nat} {os : List Outline} {id : Nat} {kind : NodeKind}

theorem start?_eq (hb : b.Ready) (kind : NodeKind) : b.start? kind = some (b.start kind) := by
  refine if_pos ?_
  cases hopen : b.opened.head? with
  | none => rfl
  | some p => exact decide_eq_true (Nat.lt_succ_of_lt (hb p hopen))

theorem finish?_eq (hb : b.Ready) : b.finish? = some b.finish := by
  refine if_pos ?_
  cases hopen : b.opened.head? with
  | none => rfl
  | some p => exact decide_eq_true (hb p hopen)

/-- **A checkpoint stays good** while outlines are laid out below the node that was open. -/
theorem Gains.startAt?_eq (hb : b.Ready) (hopen : b.opened ≠ []) (h : Gains b b₁ w os)
    (kind : NodeKind) : b₁.startAt? b.checkpoint kind = some (b₁.startAt b.checkpoint kind) := by
  obtain ⟨p, rest, hop⟩ := List.exists_cons_of_ne_nil hopen
  have hp : p < b.nodes.size := hb p (by rw [hop, List.head?_cons])
  obtain ⟨n, hn⟩ : ∃ n, b.nodes[p]? = some n := ⟨_, Array.getElem?_eq_getElem hp⟩
  have hmark : b.checkpoint = ⟨p, n.children.length, b.tokens⟩ := by
    simp [checkpoint, hop, hn]
  have hsiblings : b₁.nodes[p]? = some (n.adopt (os.map Outline.number)) := by
    rw [h.kept p n hn]
    simp [receive, hop]
  rw [startAt?, hmark]
  simp only [hsiblings, Option.map_some, Option.getD_some, Node.adopt, List.drop_left]
  refine if_pos ⟨?_, ?_, fun child hchild => ?_⟩
  · have := h.size
    omega
  · rw [List.length_append]
    exact Nat.le_add_right _ _
  · obtain ⟨o, ho, rfl⟩ := List.mem_map.mp hchild
    exact Nat.lt_succ_of_lt (h.number_lt ho (Outline.self_mem_preorder o))

/-- A checkpoint with more children than there are is no good. -/
example : (Builder.empty.start .module).startAt? ⟨0, 1, 0⟩ .codeBlock = none := by decide

end Builder

namespace Checked

/-! ### Machines -/

/-- What a machine reads: a source and its tokens. -/
structure Input where
  source : List Char
  lexed : Lexed

/-- **Where a machine stands**: how many tokens are taken, how many levels of nesting are open,
and the forest under construction. -/
structure State where
  taken : Nat
  depth : Nat
  builder : Builder

/-- The same state with another forest. -/
def State.on (s : State) (b : Builder) : State := { s with builder := b }

/-- The kinds of the tokens that are not taken.  Looking at them fails nowhere. -/
def Input.ahead (input : Input) (s : State) : List TokenKind :=
  input.lexed.kinds.drop s.taken

/-- A machine goes on to a further state or stops with a report; it has no value where an
operation fails. -/
abbrev Machine := Input → State → Option (Except SourceError State)

namespace Machine

/-- Does nothing. -/
def skip : Machine := fun _ s => some (.ok s)

/-- What must never be reached. -/
def overrun : Machine := fun _ _ => none

/-- **Takes the next token**, which has to be there. -/
def bump : Machine := fun input s =>
  if s.taken < input.lexed.tokens.size then
    some (.ok { s with taken := s.taken + 1, builder := s.builder.token })
  else none

/-- **Stops with a report** on the next token, whose text is sliced out of the source. -/
def unexpected (expected : Expected) : Machine := fun input s =>
  let wording := "expected " ++ expected.wording ++ ", found "
  match input.lexed.tokens[s.taken]? with
  | some token =>
    (slice? input.source token.position.offset token.stop).map fun text =>
      .error ⟨wording ++ "'" ++ String.ofList text ++ "'",
        token.position.line, token.position.column⟩
  | none =>
    match input.lexed.tokens.back? with
    | some last =>
      some (.error ⟨wording ++ "end of input", last.position.line, last.position.column + 1⟩)
    | none => some (.error ⟨wording ++ "end of input", 1, 1⟩)

/-- Goes on from the state that was reached. -/
def resume (go : State → Option (Except SourceError State)) :
    Option (Except SourceError State) → Option (Except SourceError State)
  | some (.ok s) => go s
  | some (.error e) => some (.error e)
  | none => none

/-- One machine after the other. -/
def seq (first second : Machine) : Machine := fun input s =>
  resume (second input) (first input s)

instance : AndThen Machine := ⟨fun first second => seq first (second ())⟩

/-- Opens a node. -/
def start (kind : NodeKind) : Machine := fun _ s =>
  (s.builder.start? kind).map fun b => .ok (s.on b)

/-- Opens a node at a checkpoint. -/
def startAt (mark : Checkpoint) (kind : NodeKind) : Machine := fun _ s =>
  (s.builder.startAt? mark kind).map fun b => .ok (s.on b)

/-- Closes the innermost open node. -/
def finish : Machine := fun _ s =>
  s.builder.finish?.map fun b => .ok (s.on b)

/-- Makes a checkpoint for what follows. -/
def marked (content : Checkpoint → Machine) : Machine := fun input s =>
  content s.builder.checkpoint input s

/-- **One node** around what a machine lays out. -/
def node (kind : NodeKind) (content : Machine) : Machine :=
  start kind >> content >> finish

/-- Chooses a machine by the next token. -/
def peek (choice : Option TokenKind → Machine) : Machine := fun input s =>
  choice (input.ahead s).head? input s

/-- Chooses between two machines by what lies ahead. -/
def ifAhead (test : List TokenKind → Bool) (yes no : Machine) : Machine := fun input s =>
  if test (input.ahead s) then yes input s else no input s

/-- Chooses between two machines by whether the next token satisfies `p`. -/
def ifNext (p : TokenKind → Bool) (yes no : Machine) : Machine :=
  ifAhead (Reader.nextIs p) yes no

/-- Takes a token of the given kind if it is next. -/
def accept (kind : TokenKind) : Machine := ifNext (· == kind) bump skip

/-- Takes a token of the given kind, or stops and tells what was expected. -/
def expectAs (kind : TokenKind) (expected : Expected) : Machine :=
  ifNext (· == kind) bump (unexpected expected)

/-- **Takes a token of the given kind**, or stops. -/
def expect (kind : TokenKind) : Machine := expectAs kind (.token kind)

/-- Gives a loop as many turns as there are tokens ahead, and one more to see that none is. -/
def turns (loop : Nat → Machine) : Machine := fun input s =>
  loop ((input.ahead s).length + 1) input s

/-- Repeats a machine while what lies ahead satisfies the test, in at most so many turns. -/
def manyFrom (test : List TokenKind → Bool) (content : Machine) : Nat → Machine
  | 0 => overrun
  | n + 1 => ifAhead test (content >> manyFrom test content n) skip

/-- **Repeats a machine** while what lies ahead satisfies the test. -/
def many (test : List TokenKind → Bool) (content : Machine) : Machine :=
  turns (manyFrom test content)

/-- One item, and further ones after commas. -/
def commaSeparated (item : Machine) : Machine :=
  item >> many (Reader.nextIs (· == .comma)) (bump >> item)

/-- A node that is opened at a checkpoint and goes on from here. -/
def nodeAt (mark : Checkpoint) (kind : NodeKind) (content : Machine) : Machine :=
  startAt mark kind >> content >> finish

/-- Opens the node that was chosen, or stops. -/
def choose (mark : Checkpoint) : Except Expected (NodeKind × Machine) → Machine
  | .error expected => unexpected expected
  | .ok (kind, content) => nodeAt mark kind content

/-- **Wraps what came first**, in a node of the kind that the next token decides. -/
def wrap (first : Machine) (choice : Option TokenKind → Except Expected (NodeKind × Machine)) :
    Machine :=
  marked fun mark => first >> peek fun next => choose mark (choice next)

/-- Opens the node that goes on a chain, and what follows it, if there is one. -/
def follow (mark : Checkpoint) (more : Machine) : Option (NodeKind × Machine) → Machine
  | none => skip
  | some (kind, content) => nodeAt mark kind content >> more

/-- Wraps again and again from one checkpoint, in at most so many turns. -/
def chainFrom (step : TokenKind → Option (NodeKind × Machine)) (mark : Checkpoint) :
    Nat → Machine
  | 0 => overrun
  | n + 1 => peek fun next => follow mark (chainFrom step mark n) (next.bind step)

/-- **A chain that grows to the left**: `first`, wrapped once for each continuation that
`step` names, each time from the checkpoint before `first`. -/
def chain (first : Machine) (step : TokenKind → Option (NodeKind × Machine)) : Machine :=
  marked fun mark => first >> turns (chainFrom step mark)

/-- **Opens a level of nesting**, or stops where the limit is reached. -/
def enter : Machine := fun input s =>
  let s := { s with depth := s.depth + 1 }
  if Grammar.nestingLimit < s.depth then
    unexpected (.nesting Grammar.nestingLimit) input s
  else some (.ok s)

/-- Closes a level of nesting, of which one has to be open. -/
def leave : Machine := fun _ s =>
  if s.depth = 0 then none else some (.ok { s with depth := s.depth - 1 })

end Machine

/-! ### What it means to do what a reader reads -/

/-- Each token is what its source has at the place of the token. -/
def Input.Sliceable (input : Input) : Prop :=
  ∀ token ∈ input.lexed.tokens,
    slice? input.source token.position.offset token.stop = some token.text

/-- A state at the given depth of nesting from which a machine can run: no more tokens are
taken than there are, and some node is open and there. -/
structure State.Valid (input : Input) (depth : Nat) (s : State) : Prop where
  taken_le : s.taken ≤ input.lexed.tokens.size
  depth_eq : s.depth = depth
  ready : s.builder.Ready
  opened_ne : s.builder.opened ≠ []

/-- **A state is reached by laying out** what was read. -/
structure Reaches (input : Input) (s : State) (items : List Derivation) (s' : State) : Prop where
  taken_le : s'.taken ≤ input.lexed.tokens.size
  depth_eq : s'.depth = s.depth
  builder_eq : s'.builder = emitAll items s.builder

/-- **A run ends as reading does**, with the report on where it stopped or with what was read
laid out and the rest still ahead. -/
inductive Ends (input : Input) (s : State) :
    Except Stop (List Derivation × List TokenKind) → Option (Except SourceError State) → Prop
  | error (stop : Stop) :
    Ends input s (.error stop) (some (.error (Grammar.report input.lexed stop)))
  | ok {items : List Derivation} {s' : State} (h : Reaches input s items s') :
    Ends input s (.ok (items, input.ahead s')) (some (.ok s'))

/-- **A machine does what a reader reads**, from all states at a depth of nesting with at least
`need` tokens ahead. -/
def Agrees (input : Input) (depth need : Nat) (m : Machine) (r : Reader) : Prop :=
  ∀ s : State, s.Valid input depth → need ≤ (input.ahead s).length →
    Ends input s (r (input.ahead s)) (m input s)

variable {input : Input} {depth need : Nat} {s s' s₁ s₂ : State} {m m' : Machine}
  {r r' : Reader} {items more : List Derivation} {kind : NodeKind}

theorem emitAll_append (ds es : List Derivation) (b : Builder) :
    emitAll (ds ++ es) b = emitAll es (emitAll ds b) := by
  induction ds generalizing b with
  | nil => rfl
  | cons d ds ih => exact ih (emit d b)

theorem Reaches.refl (h : s.Valid input depth) : Reaches input s [] s where
  taken_le := h.taken_le
  depth_eq := rfl
  builder_eq := rfl

theorem Reaches.trans (h : Reaches input s items s₁) (h' : Reaches input s₁ more s₂) :
    Reaches input s (items ++ more) s₂ where
  taken_le := h'.taken_le
  depth_eq := by rw [h'.depth_eq, h.depth_eq]
  builder_eq := by rw [h'.builder_eq, h.builder_eq, emitAll_append]

theorem Reaches.valid (hs : s.Valid input depth) (h : Reaches input s items s') :
    s'.Valid input depth := by
  have hgains := gains_emitAll items s.builder hs.ready hs.opened_ne
  refine ⟨h.taken_le, by rw [h.depth_eq, hs.depth_eq], ?_, ?_⟩
  · rw [h.builder_eq]
    exact hgains.ready hs.ready
  · rw [h.builder_eq, hgains.opened]
    exact hs.opened_ne

/-- Going on ends as going on with reading does. -/
theorem Ends.bind {read : Except Stop (List Derivation × List TokenKind)}
    {result : Option (Except SourceError State)}
    {next : List Derivation → List TokenKind → Except Stop (List Derivation × List TokenKind)}
    {go : State → Option (Except SourceError State)} (h : Ends input s read result)
    (hnext : ∀ items s', Reaches input s items s' → read = .ok (items, input.ahead s') →
      Ends input s (next items (input.ahead s')) (go s')) :
    Ends input s (Reader.bind read next) (Machine.resume go result) := by
  cases h with
  | error stop => exact .error stop
  | ok h => exact hnext _ _ h rfl

/-- What is read from a state that was reached is read behind what was read before. -/
theorem Ends.after {read : Except Stop (List Derivation × List TokenKind)}
    {result : Option (Except SourceError State)} (h : Reaches input s items s')
    (h' : Ends input s' read result) :
    Ends input s (Reader.bind read fun more rest => .ok (items ++ more, rest)) result := by
  cases h' with
  | error stop => exact .error stop
  | ok h' => exact .ok (h.trans h')

theorem Input.length_ahead (input : Input) (s : State) :
    (input.ahead s).length = input.lexed.tokens.size - s.taken := by
  rw [Input.ahead, List.length_drop, Lexed.length_kinds]

namespace Agrees

/-! ### One agreement after the other -/

theorem mono {more : Nat} (h : Agrees input depth need m r) (hle : need ≤ more) :
    Agrees input depth more m r :=
  fun s hs hneed => h s hs (Nat.le_trans hle hneed)

theorem skip : Agrees input depth need Machine.skip Reader.pass :=
  fun _ hs _ => .ok (.refl hs)

/-- A token is taken where one is ahead. -/
theorem bump : Agrees input depth 1 Machine.bump Reader.take := by
  intro s hs hneed
  rw [Input.length_ahead] at hneed
  have hlt : s.taken < input.lexed.tokens.size := by omega
  have hkinds : s.taken < input.lexed.kinds.length := by
    rwa [Lexed.length_kinds]
  rw [Machine.bump, if_pos hlt, Input.ahead, List.drop_eq_getElem_cons hkinds]
  have htaken : Reaches input s [.token input.lexed.kinds[s.taken]]
      { s with taken := s.taken + 1, builder := s.builder.token } := ⟨hlt, rfl, rfl⟩
  exact .ok htaken

/-- Behind the last token there is none to take. -/
example : Machine.bump ⟨[], ⟨#[], #[]⟩⟩ ⟨0, 0, Builder.empty⟩ = none := rfl

/-- **The report slices out the text of the token found.** -/
theorem unexpected (hinput : input.Sliceable) (expected : Expected) :
    Agrees input depth need (Machine.unexpected expected) (Reader.stop expected) := by
  intro s hs _
  have hunread : input.lexed.tokens.size - (input.ahead s).length = s.taken := by
    rw [Input.length_ahead, Nat.sub_sub_self hs.taken_le]
  have hreport : Machine.unexpected expected input s =
      some (.error (Grammar.report input.lexed ⟨(input.ahead s).length, expected⟩)) := by
    rw [Machine.unexpected, Grammar.report, hunread]
    cases htoken : input.lexed.tokens[s.taken]? with
    | some token =>
      simp only [hinput token (Array.mem_of_getElem? htoken), Option.map_some]
    | none =>
      simp only
      cases input.lexed.tokens.back? with
      | some last => rfl
      | none => rfl
  rw [hreport]
  exact .error _

theorem seq (h : Agrees input depth need m r) (h' : Agrees input depth 0 m' r') :
    Agrees input depth need (m >> m') (r >> r') := by
  intro s hs hneed
  refine (h s hs hneed).bind fun items s' hreach _ => ?_
  exact (h' s' (hreach.valid hs) (Nat.zero_le _)).after hreach

/-- Behind a token that is taken one less is needed. -/
theorem bump_seq (h : Agrees input depth need m r) :
    Agrees input depth (need + 1) (Machine.bump >> m) (Reader.take >> r) := by
  intro s hs hneed
  have hbump := bump s hs (Nat.le_trans (Nat.le_add_left 1 need) hneed)
  refine hbump.bind fun items s' hreach hread => ?_
  have hlength : (input.ahead s').length + 1 = (input.ahead s).length := by
    cases hahead : input.ahead s with
    | nil =>
      rw [hahead] at hneed
      cases hneed
    | cons kind rest =>
      rw [hahead] at hread
      rw [← (Prod.mk.inj (Except.ok.inj hread)).2, List.length_cons]
  exact (h s' (hreach.valid hs) (by omega)).after hreach

theorem peek {choice : Option TokenKind → Machine} {choice' : Option TokenKind → Reader}
    (h : ∀ kind, Agrees input depth 1 (choice (some kind)) (choice' (some kind)))
    (h' : Agrees input depth 0 (choice none) (choice' none)) :
    Agrees input depth 0 (Machine.peek choice) (Reader.peek choice') := by
  intro s hs hneed
  cases hhead : (input.ahead s).head? with
  | none =>
    rw [Machine.peek, Reader.peek, hhead]
    exact h' s hs hneed
  | some kind =>
    obtain ⟨rest, hahead⟩ := List.head?_eq_some_iff.mp hhead
    have hone : 1 ≤ (input.ahead s).length := by
      rw [hahead]
      exact Nat.le_add_left 1 _
    rw [Machine.peek, Reader.peek, hhead]
    exact h kind s hs hone

/-- A test that is passed may tell that more tokens are ahead. -/
theorem ifAhead {test : List TokenKind → Bool} {more : Nat}
    (htest : ∀ ahead, test ahead = true → more ≤ ahead.length)
    (h : Agrees input depth more m r) (h' : Agrees input depth need m' r') :
    Agrees input depth need (Machine.ifAhead test m m') (Reader.ifAhead test r r') := by
  intro s hs hneed
  rw [Machine.ifAhead, Reader.ifAhead]
  split
  · rename_i hyes
    exact h s hs (htest _ hyes)
  · exact h' s hs hneed

theorem ifNext (test : TokenKind → Bool) (h : Agrees input depth 1 m r)
    (h' : Agrees input depth need m' r') :
    Agrees input depth need (Machine.ifNext test m m') (Reader.ifNext test r r') := by
  refine ifAhead (fun ahead htest => ?_) h h'
  cases ahead with
  | nil => cases htest
  | cons kind rest => exact Nat.le_add_left 1 _

theorem accept (kind : TokenKind) :
    Agrees input depth need (Machine.accept kind) (Reader.accept kind) :=
  ifNext _ bump skip

theorem expectAs (hinput : input.Sliceable) (kind : TokenKind) (expected : Expected) :
    Agrees input depth need (Machine.expectAs kind expected) (Reader.expectAs kind expected) :=
  ifNext _ bump (unexpected hinput expected)

theorem expect (hinput : input.Sliceable) (kind : TokenKind) :
    Agrees input depth need (Machine.expect kind) (Reader.expect kind) :=
  expectAs hinput kind _

/-! ### Nodes -/

/-- **What is read into an open node** ends with the node closed around it. -/
theorem closed {opened : Builder} {id w : Nat} {os : List Outline} (lead : List Derivation)
    (hreach : Reaches input s lead s') (hdepth : s.depth = depth)
    (hopens : Builder.Opens s.builder opened id kind w os)
    (hemit : ∀ items, emit (.node kind lead items) s.builder = (emitAll items opened).finish)
    (h : Agrees input depth need m r) (hneed : need ≤ (input.ahead s').length) :
    Ends input s (Reader.bind (r (input.ahead s')) fun items rest =>
      .ok ([.node kind lead items], rest)) ((m >> Machine.finish) input (s'.on opened)) := by
  have hvalid : (s'.on opened).Valid input depth := by
    refine ⟨hreach.taken_le, hreach.depth_eq.trans hdepth, hopens.ready, ?_⟩
    rw [State.on, hopens.opened]
    exact List.cons_ne_nil _ _
  have hrun := h (s'.on opened) hvalid hneed
  change Ends input s (Reader.bind (r (input.ahead (s'.on opened))) _)
    (Machine.resume (Machine.finish input) (m input (s'.on opened)))
  generalize r (input.ahead (s'.on opened)) = read at hrun
  generalize m input (s'.on opened) = result at hrun
  cases hrun with
  | error stop => exact .error stop
  | @ok items s'' hreach' =>
    have hfinish := Builder.finish?_eq (hreach'.valid hvalid).ready
    simp only [Machine.resume, Machine.finish, hfinish, Option.map_some, Reader.bind]
    have hclosed : Reaches input s [.node kind lead items] (s''.on s''.builder.finish) := by
      refine ⟨hreach'.taken_le, hreach'.depth_eq.trans hreach.depth_eq, ?_⟩
      rw [State.on, hreach'.builder_eq, State.on, ← hemit]
      rfl
    exact .ok hclosed

/-- A node that is opened here; the root is opened so, where no other node is open. -/
theorem ends_node (h : Agrees input depth need m r) (hs : s.taken ≤ input.lexed.tokens.size)
    (hdepth : s.depth = depth) (hready : s.builder.Ready)
    (hneed : need ≤ (input.ahead s).length) :
    Ends input s (Reader.node kind r (input.ahead s)) (Machine.node kind m input s) := by
  have hstart : Machine.start kind input s =
      some (.ok (s.on (s.builder.start kind))) := by
    rw [Machine.start, Builder.start?_eq hready, Option.map_some]
  change Ends input s _ (Machine.resume ((m >> Machine.finish) input) (Machine.start kind input s))
  rw [hstart]
  exact closed [] ⟨hs, rfl, rfl⟩ hdepth (Builder.opens_start hready kind)
    (fun _ => rfl) h hneed

theorem node (kind : NodeKind) (h : Agrees input depth need m r) :
    Agrees input depth need (Machine.node kind m) (Reader.node kind r) :=
  fun _ hs hneed => ends_node h hs.taken_le hs.depth_eq hs.ready hneed

/-- A node is opened at the checkpoint before its lead, also where the lead is empty. -/
theorem emit_node (b : Builder) (hb : b.Ready) (hopen : b.opened ≠ []) (kind : NodeKind)
    (lead items : List Derivation) :
    emit (.node kind lead items) b =
      (emitAll items ((emitAll lead b).startAt b.checkpoint kind)).finish := by
  cases lead with
  | nil =>
    rw [emitAll, Builder.startAt_checkpoint hb hopen]
    rfl
  | cons d lead => rfl

/-- **Behind its lead a node is opened at the checkpoint before it.** -/
theorem wrapped {lead : List Derivation} (kind : NodeKind) (hs : s.Valid input depth)
    (hreach : Reaches input s lead s') (h : Agrees input depth need m r)
    (hneed : need ≤ (input.ahead s').length) :
    Ends input s (Reader.bind (r (input.ahead s')) fun items rest =>
        .ok ([.node kind lead items], rest))
      (Machine.nodeAt s.builder.checkpoint kind m input s') := by
  have hgains := gains_emitAll lead s.builder hs.ready hs.opened_ne
  have hstart : Machine.startAt s.builder.checkpoint kind input s' =
      some (.ok (s'.on ((emitAll lead s.builder).startAt s.builder.checkpoint kind))) := by
    rw [Machine.startAt, hreach.builder_eq, hgains.startAt?_eq hs.ready hs.opened_ne,
      Option.map_some]
  change Ends input s _
    (Machine.resume ((m >> Machine.finish) input) (Machine.startAt _ kind input s'))
  rw [hstart]
  exact closed lead hreach hs.depth_eq (hgains.opens_startAt hs.ready hs.opened_ne kind)
    (emit_node s.builder hs.ready hs.opened_ne kind lead) h hneed

/-! ### Wrapping and loops -/

/-- The choices of a machine and of a reader name the same node, or expect the same. -/
inductive SameChoice (input : Input) (depth need : Nat) :
    Except Expected (NodeKind × Machine) → Except Expected (NodeKind × Reader) → Prop
  | error (expected : Expected) : SameChoice input depth need (.error expected) (.error expected)
  | ok {m : Machine} {r : Reader} (kind : NodeKind) (h : Agrees input depth need m r) :
    SameChoice input depth need (.ok (kind, m)) (.ok (kind, r))

theorem wrap {choice : Option TokenKind → Except Expected (NodeKind × Machine)}
    {choice' : Option TokenKind → Except Expected (NodeKind × Reader)}
    (hinput : input.Sliceable) (h : Agrees input depth need m r)
    (hchoice : ∀ next, SameChoice input depth next.toList.length (choice next) (choice' next)) :
    Agrees input depth need (Machine.wrap m choice) (Reader.wrap r choice') := by
  intro s hs hneed
  refine (h s hs hneed).bind fun items s' hreach _ => ?_
  have hnext : (input.ahead s').head?.toList.length ≤ (input.ahead s').length := by
    cases input.ahead s' with
    | nil => exact Nat.le_refl 0
    | cons kind rest => exact Nat.le_add_left 1 _
  have hsame := hchoice (input.ahead s').head?
  change Ends input s _
    (Machine.choose s.builder.checkpoint (choice (input.ahead s').head?) input s')
  generalize choice (input.ahead s').head? = chosen at hsame
  generalize choice' (input.ahead s').head? = chosen' at hsame
  cases hsame with
  | error expected =>
    have hstop : Ends input s' _ (Machine.unexpected expected input s') :=
      unexpected hinput expected s' (hreach.valid hs) (Nat.zero_le _)
    change Ends input s _ (Machine.unexpected expected input s')
    generalize Machine.unexpected expected input s' = result at hstop
    cases hstop with
    | error => exact .error _
  | ok kind hcontent => exact wrapped kind hs hreach hcontent hnext

/-- The steps of two chains name the same node, or none; its content takes a token. -/
inductive SameStep (input : Input) (depth : Nat) (next : TokenKind) :
    Option (NodeKind × Machine) → Option (NodeKind × Reader) → Prop
  | none : SameStep input depth next none none
  | some {m : Machine} {r : Reader} (kind : NodeKind) (h : Agrees input depth 1 m r)
    (htakes : Reader.TakesAt (Reader.Next next) r) :
    SameStep input depth next (some (kind, m)) (some (kind, r))

/-- What a turn leaves is what its content leaves. -/
theorem exists_of_bind_ok {read : Except Stop (List Derivation × List TokenKind)}
    {rest : List TokenKind} {wrapping : List Derivation → List Derivation}
    (h : Reader.bind read (fun more rest => .ok (wrapping more, rest)) = .ok (items, rest)) :
    ∃ more, read = .ok (more, rest) := by
  rcases read with stop | ⟨more, rest⟩
  · cases h
  · cases h
    exact ⟨more, rfl⟩

/-- **The turns of a chain do not run out**: each of them takes a token. -/
theorem ends_chainFrom {step : TokenKind → Option (NodeKind × Machine)}
    {step' : TokenKind → Option (NodeKind × Reader)}
    (hstep : ∀ next, SameStep input depth next (step next) (step' next))
    (hs : s.Valid input depth) (n : Nat) (turns : List TokenKind)
    (hreach : Reaches input s items s') (hturns : (input.ahead s').length ≤ turns.length)
    (hn : (input.ahead s').length < n) :
    Ends input s (Reader.chainFrom step' turns items (input.ahead s'))
      (Machine.chainFrom step s.builder.checkpoint n input s') := by
  induction n generalizing turns items s' with
  | zero => exact absurd hn (Nat.not_lt_zero _)
  | succ n ih =>
    change Ends input s _ (Machine.follow _ _ ((input.ahead s').head?.bind step) input s')
    cases hhead : (input.ahead s').head? with
    | none =>
      have hstop : Reader.chainFrom step' turns items (input.ahead s') =
          .ok (items, input.ahead s') := by
        cases turns with
        | nil => rfl
        | cons t turns => rw [Reader.chainFrom, hhead, Option.bind_none]
      rw [hstop]
      exact .ok hreach
    | some next =>
      obtain ⟨rest, hrest⟩ := List.head?_eq_some_iff.mp hhead
      have hlength := congrArg List.length hrest
      rw [List.length_cons] at hlength
      cases turns with
      | nil =>
        rw [List.length_nil] at hturns
        omega
      | cons t turns =>
        rw [Reader.chainFrom, hhead, Option.bind_some, Option.bind_some]
        have hsame := hstep next
        generalize step next = found at hsame
        generalize step' next = found' at hsame
        cases hsame with
        | none => exact .ok hreach
        | @some m r kind hcontent htakes =>
          -- one turn, and the others from where it ends
          have hturn := wrapped kind hs hreach hcontent (by omega)
          have hall : Ends input s
              (Reader.bind (Reader.bind (r (input.ahead s')) fun more rest =>
                .ok ([.node kind items more], rest)) (Reader.chainFrom step' turns))
              (Machine.resume (Machine.chainFrom step s.builder.checkpoint n input)
                (Machine.nodeAt s.builder.checkpoint kind m input s')) := by
            refine hturn.bind fun items' s'' hreach' hread => ?_
            obtain ⟨more, hmore⟩ := exists_of_bind_ok hread
            have hlt := htakes _ hhead _ _ hmore
            rw [List.length_cons] at hturns
            exact ih turns hreach' (by omega) (by omega)
          rw [Reader.bind_bind] at hall
          exact hall

theorem chain {step : TokenKind → Option (NodeKind × Machine)}
    {step' : TokenKind → Option (NodeKind × Reader)} (h : Agrees input depth need m r)
    (hstep : ∀ next, SameStep input depth next (step next) (step' next)) :
    Agrees input depth need (Machine.chain m step) (Reader.chain r step') := by
  intro s hs hneed
  refine (h s hs hneed).bind fun items s' hreach _ => ?_
  exact ends_chainFrom hstep hs _ _ hreach (Nat.le_refl _) (Nat.lt_succ_self _)

/-- **The turns of a repetition do not run out**: each of them takes a token. -/
theorem ends_manyFrom {test : List TokenKind → Bool} (htest : test [] = false)
    (h : Agrees input depth 1 m r) (htakes : Reader.TakesAt (fun ahead => test ahead = true) r)
    (hs : s.Valid input depth) (n : Nat) (turns : List TokenKind)
    (hreach : Reaches input s items s') (hturns : (input.ahead s').length ≤ turns.length)
    (hn : (input.ahead s').length < n) :
    Ends input s (Reader.manyFrom test r turns items.reverse (input.ahead s'))
      (Machine.manyFrom test m n input s') := by
  induction n generalizing turns items s' with
  | zero => exact absurd hn (Nat.not_lt_zero _)
  | succ n ih =>
    rw [Machine.manyFrom, Machine.ifAhead]
    split
    · rename_i hyes
      have hone : 1 ≤ (input.ahead s').length := by
        refine List.length_pos_iff.mpr fun hnil => ?_
        rw [hnil, htest] at hyes
        cases hyes
      cases turns with
      | nil => exact absurd (Nat.le_trans hone hturns) (Nat.not_succ_le_zero 0)
      | cons t turns =>
        rw [Reader.manyFrom, if_pos hyes]
        -- one turn, and the others from where it ends
        have hturn := (h s' (hreach.valid hs) hone).after hreach
        have hall : Ends input s
            (Reader.bind
              (Reader.bind (r (input.ahead s')) fun more rest => .ok (items ++ more, rest))
              fun all rest => Reader.manyFrom test r turns all.reverse rest)
            (Machine.resume (Machine.manyFrom test m n input) (m input s')) := by
          refine hturn.bind fun all s'' hreach' hread => ?_
          obtain ⟨more, hmore⟩ := exists_of_bind_ok hread
          have hlt := htakes _ hyes _ _ hmore
          rw [List.length_cons] at hturns
          exact ih turns hreach' (by omega) (by omega)
        rw [Reader.bind_bind] at hall
        simp only [Reader.bind, List.reverse_append] at hall
        exact hall
    · rename_i hno
      have hstop : Reader.manyFrom test r turns items.reverse (input.ahead s') =
          .ok (items, input.ahead s') := by
        cases turns with
        | nil => rw [Reader.manyFrom, List.reverse_reverse]
        | cons t turns => rw [Reader.manyFrom, if_neg hno, List.reverse_reverse]
      rw [hstop]
      exact .ok hreach

theorem many {test : List TokenKind → Bool} (htest : test [] = false)
    (h : Agrees input depth 1 m r)
    (htakes : Reader.TakesAt (fun ahead => test ahead = true) r) :
    Agrees input depth need (Machine.many test m) (Reader.many test r) := by
  intro s hs _
  exact ends_manyFrom htest h htakes hs _ _ (.refl hs) (Nat.le_refl _) (Nat.lt_succ_self _)

/-- The same for a test of the next token. -/
theorem many_next {test : TokenKind → Bool} (h : Agrees input depth 1 m r)
    (htakes : ∀ next, test next = true → Reader.TakesAt (Reader.Next next) r) :
    Agrees input depth need (Machine.many (Reader.nextIs test) m)
      (Reader.many (Reader.nextIs test) r) := by
  refine many rfl h ?_
  rintro (- | ⟨next, rest⟩) htest
  · cases htest
  · exact htakes next htest (next :: rest) rfl

/-- Each further item is behind its comma, so no turn is without a token. -/
theorem commaSeparated {l : Language Symbol} (h : Agrees input depth 0 m r)
    (hreads : Reader.Reads r l) :
    Agrees input depth need (Machine.commaSeparated m) (Reader.commaSeparated r) := by
  refine (h.mono (Nat.zero_le _)).seq (many_next h.bump_seq fun next _ => ?_)
  exact (Reader.readsAt_take.andThen hreads).takesAt ((Visible.tok next).left l)

end Agrees

end Checked

end ModuleLint
