/-
ModuleLint/Proofs/Grammar/Reads.lean

What readers read.  `ReadsAt p r l` says of a reader `r` and a language `l`: where
what lies ahead satisfies `p`, success means that

* nothing is lost: the tokens of the items and what is left over are what lay ahead;
* the items spell a word of `l`;
* every node among and below them spells a word of its production.

The rules follow the ways in which readers are put together: one after the other is
a product, a choice is a sum, `many` is a repetition, and `node` turns a word of a
production into a letter.  The two readers that wrap what came first (`wrap` and
`chain`) have rules that look at the node they make.
-/
import ModuleLint.Proofs.Grammar.Production

namespace ModuleLint

open scoped Computability
open Production ModuleLint.Derivation

/-- What a reader has done: no token is lost, the items spell a word of the language,
and all nodes are sound. -/
structure Read (l : Language Symbol) (ahead : List TokenKind) (items : List Derivation)
    (rest : List TokenKind) : Prop where
  tokens : tokensAll items ++ rest = ahead
  word : items.map symbol ∈ l
  sound : SoundAll items

namespace Reader

/-- **A reader reads a language** where what lies ahead satisfies `p`. -/
def ReadsAt (p : List TokenKind → Prop) (r : Reader) (l : Language Symbol) : Prop :=
  ∀ ahead, p ahead → ∀ items rest, r ahead = .ok (items, rest) → Read l ahead items rest

/-- A reader reads a language wherever it succeeds. -/
def Reads (r : Reader) (l : Language Symbol) : Prop := ReadsAt (fun _ => True) r l

/-- The next token is of the given kind. -/
def Next (kind : TokenKind) (ahead : List TokenKind) : Prop := ahead.head? = some kind

variable {p q : List TokenKind → Prop} {r r' : Reader} {l m : Language Symbol}

/-! ### Rules -/

theorem ReadsAt.mono (h : ReadsAt p r l) (hle : l ≤ m) : ReadsAt p r m := by
  intro ahead hp items rest hr
  have hread := h ahead hp items rest hr
  exact ⟨hread.tokens, hle hread.word, hread.sound⟩

theorem ReadsAt.where (h : ReadsAt p r l) (hqp : ∀ ahead, q ahead → p ahead) : ReadsAt q r l :=
  fun ahead hq => h ahead (hqp ahead hq)

theorem Reads.at (h : Reads r l) : ReadsAt p r l :=
  ReadsAt.where h fun _ _ => trivial

theorem Reads.mono (h : Reads r l) (hle : l ≤ m) : Reads r m :=
  ReadsAt.mono h hle

theorem readsAt_pass : ReadsAt p pass 1 := by
  rintro ahead - items rest hr
  obtain ⟨rfl, rfl⟩ := Prod.mk.inj (Except.ok.inj hr)
  exact ⟨rfl, rfl, soundAll_nil⟩

theorem readsAt_stop {expected : Expected} : ReadsAt p (stop expected) l := by
  rintro ahead - items rest hr
  cases hr

theorem readsAt_take {kind : TokenKind} : ReadsAt (Next kind) take (tok kind) := by
  rintro (- | ⟨k, ahead⟩) hp items rest hr
  · cases hp
  · obtain rfl := Option.some.inj hp
    obtain ⟨rfl, rfl⟩ := Prod.mk.inj (Except.ok.inj hr)
    exact ⟨rfl, rfl, trivial, trivial⟩

/-- The two parts of a success. -/
theorem andThen_ok {ahead rest : List TokenKind} {items : List Derivation}
    (hr : (r >> r') ahead = .ok (items, rest)) :
    ∃ first middle second, r ahead = .ok (first, middle) ∧ r' middle = .ok (second, rest) ∧
      items = first ++ second := by
  change Reader.andThen r r' ahead = _ at hr
  unfold Reader.andThen at hr
  split at hr
  · cases hr
  · rename_i first middle hfirst
    split at hr
    · cases hr
    · rename_i second rest' hsecond
      obtain ⟨rfl, rfl⟩ := Prod.mk.inj (Except.ok.inj hr)
      exact ⟨first, middle, second, hfirst, hsecond, rfl⟩

/-- **One reader after the other** reads a product. -/
theorem ReadsAt.andThen (h : ReadsAt p r l) (h' : Reads r' m) : ReadsAt p (r >> r') (l * m) := by
  intro ahead hp items rest hr
  obtain ⟨first, middle, second, hfirst, hsecond, rfl⟩ := andThen_ok hr
  have h₁ := h ahead hp first middle hfirst
  have h₂ := h' middle trivial second rest hsecond
  refine ⟨?_, ?_, soundAll_append.mpr ⟨h₁.sound, h₂.sound⟩⟩
  · rw [tokensAll_append, List.append_assoc, h₂.tokens, h₁.tokens]
  · rw [List.map_append]
    exact Language.append_mem_mul h₁.word h₂.word

/-- A token may be taken before a reader that knows what lies ahead of it. -/
theorem readsAt_take_andThen {kind : TokenKind} (h : ReadsAt q r l) :
    ReadsAt (fun ahead => Next kind ahead ∧ q ahead.tail) (take >> r) (tok kind * l) := by
  rintro (- | ⟨k, ahead⟩) ⟨hp, hq⟩ items rest hr
  · cases hp
  · obtain rfl := Option.some.inj hp
    obtain ⟨first, middle, more, hfirst, hmore, rfl⟩ := andThen_ok hr
    obtain ⟨rfl, rfl⟩ := Prod.mk.inj (Except.ok.inj hfirst)
    have hread := h ahead hq more rest hmore
    refine ⟨congrArg (k :: ·) hread.tokens, ?_, ⟨trivial, hread.sound⟩⟩
    exact Language.append_mem_mul (a := [Symbol.token k]) rfl hread.word

theorem Reads.andThen (h : Reads r l) (h' : Reads r' m) : Reads (r >> r') (l * m) :=
  ReadsAt.andThen h h'

/-- A node is a letter, if its content spells a word of its production. -/
theorem ReadsAt.node_shape {kind : NodeKind} {shape : Shape}
    (h : ReadsAt p r (production shape))
    (hshape : ∀ items, items.map symbol ∈ production shape →
      shape = ⟨kind, operator kind items⟩) :
    ReadsAt p (node kind r) {[.node shape]} := by
  intro ahead hp items rest hr
  unfold node at hr
  split at hr
  · cases hr
  · rename_i content rest' hcontent
    have hread := h ahead hp content rest' hcontent
    have hs := hshape content hread.word
    obtain ⟨rfl, rfl⟩ := Prod.mk.inj (Except.ok.inj hr)
    refine ⟨?_, ?_, ⟨?_, soundAll_nil, hread.sound⟩, trivial⟩
    · rw [tokensAll_cons, tokens, tokensAll_nil, List.nil_append, List.append_nil, hread.tokens]
    · rw [hs]
      rfl
    · rw [List.nil_append, ← hs]
      exact hread.word

/-- A kind with a production that needs no operator has none: the production of the other
two kinds is empty without one. -/
theorem operator_eq_none {kind : NodeKind} {w : List Symbol} (hw : w ∈ production ⟨kind, none⟩)
    (items : List Derivation) : operator kind items = none := by
  cases kind <;> first | rfl | exact hw.elim

/-- **A node of a kind without operators** is a letter. -/
theorem ReadsAt.node {kind : NodeKind} (h : ReadsAt p r l) (hl : l ≤ production ⟨kind, none⟩) :
    ReadsAt p (node kind r) (sub kind) := by
  refine (h.mono hl).node_shape fun items hw => ?_
  rw [operator_eq_none hw]

theorem ReadsAt.ifAhead {test : List TokenKind → Bool}
    (h : ReadsAt (fun ahead => p ahead ∧ test ahead) r l) (h' : ReadsAt p r' m) :
    ReadsAt p (ifAhead test r r') (l + m) := by
  intro ahead hp items rest hr
  unfold Reader.ifAhead at hr
  split at hr
  · rename_i htest
    exact (h.mono le_self_add) ahead ⟨hp, htest⟩ items rest hr
  · exact (h'.mono le_add_self) ahead hp items rest hr

/-- A choice by the next token, where each kind of it has its own language. -/
theorem ReadsAt.ifNext {test : TokenKind → Bool}
    (h : ∀ kind, test kind → ReadsAt (Next kind) r l) (h' : ReadsAt p r' m) :
    ReadsAt p (ifNext test r r') (l + m) := by
  refine ReadsAt.ifAhead ?_ h'
  rintro (- | ⟨kind, ahead⟩) ⟨-, htest⟩ items rest hr
  · cases htest
  · exact h kind htest (kind :: ahead) rfl items rest hr

/-- A choice by whether the next token is of one kind. -/
theorem ReadsAt.ifNextIs {kind : TokenKind} (h : ReadsAt (Next kind) r l) (h' : ReadsAt p r' m) :
    ReadsAt p (Reader.ifNext (· == kind) r r') (l + m) :=
  ReadsAt.ifNext (fun _ htest => beq_iff_eq.mp htest ▸ h) h'

theorem readsAt_peek {choice : Option TokenKind → Reader}
    (h : ∀ kind, ReadsAt (Next kind) (choice (some kind)) l)
    (h' : ReadsAt (fun ahead => ahead = []) (choice none) l) : Reads (peek choice) l := by
  rintro (- | ⟨kind, ahead⟩) - items rest hr
  · exact h' [] rfl items rest hr
  · exact h kind (kind :: ahead) rfl items rest hr

theorem reads_accept (kind : TokenKind) : Reads (accept kind) (opt (tok kind)) := by
  rw [opt, add_comm]
  exact readsAt_take.ifNextIs readsAt_pass

theorem reads_expectAs (kind : TokenKind) (expected : Expected) :
    Reads (expectAs kind expected) (tok kind) := by
  rw [← add_zero (tok kind)]
  exact readsAt_take.ifNextIs readsAt_stop

theorem reads_expect (kind : TokenKind) : Reads (expect kind) (tok kind) :=
  reads_expectAs kind _

/-- What may be missing, told by the next token. -/
theorem reads_optional {test : TokenKind → Bool}
    (h : ∀ kind, test kind → ReadsAt (Next kind) r l) :
    Reads (ifNext test r pass) (opt l) := by
  rw [opt, add_comm]
  exact ReadsAt.ifNext h readsAt_pass

/-! ### Repetitions -/

theorem read_manyFrom {test : List TokenKind → Bool}
    (h : ReadsAt (fun ahead => test ahead = true) r l) (turns : List TokenKind)
    (found : List Derivation) {ahead rest : List TokenKind} {items : List Derivation}
    (hr : manyFrom test r turns found ahead = .ok (items, rest)) :
    ∃ more, items = found.reverse ++ more ∧ Read l∗ ahead more rest := by
  -- by induction on the turns, whatever was found before
  induction turns generalizing found ahead with
  | nil =>
    obtain ⟨rfl, rfl⟩ := Prod.mk.inj (Except.ok.inj hr)
    exact ⟨[], by simp, rfl, Language.nil_mem_kstar l, soundAll_nil⟩
  | cons t turns ih =>
    unfold manyFrom at hr
    split at hr
    · rename_i htest
      split at hr
      · cases hr
      · rename_i first middle hfirst
        obtain ⟨more, rfl, hmore⟩ := ih _ hr
        have hread := h ahead htest first middle hfirst
        refine ⟨first ++ more, by simp, ?_, ?_, soundAll_append.mpr ⟨hread.sound, hmore.sound⟩⟩
        · rw [tokensAll_append, List.append_assoc, hmore.tokens, hread.tokens]
        · rw [List.map_append]
          have hstar : l * l∗ ≤ l∗ := mul_kstar_le_kstar
          exact hstar (Language.append_mem_mul hread.word hmore.word)
    · obtain ⟨rfl, rfl⟩ := Prod.mk.inj (Except.ok.inj hr)
      exact ⟨[], by simp, rfl, Language.nil_mem_kstar l, soundAll_nil⟩

/-- **A repetition** reads any number of words. -/
theorem reads_many {test : List TokenKind → Bool}
    (h : ReadsAt (fun ahead => test ahead = true) r l) : Reads (many test r) l∗ := by
  intro ahead _ items rest hr
  obtain ⟨more, rfl, hmore⟩ := read_manyFrom h ahead [] hr
  exact hmore

/-- A repetition for as long as the next token tells it. -/
theorem reads_many_next {test : TokenKind → Bool}
    (h : ∀ kind, test kind → ReadsAt (Next kind) r l) : Reads (many (nextIs test) r) l∗ := by
  refine reads_many ?_
  rintro (- | ⟨kind, ahead⟩) htest items rest hr
  · cases htest
  · exact h kind htest (kind :: ahead) rfl items rest hr

/-- A repetition of one kind of token takes a token where one is next. -/
theorem readsAt_many_take (kind : TokenKind) :
    ReadsAt (Next kind) (many (nextIs (· == kind)) take) (tok kind * (tok kind)∗) := by
  have htake : ReadsAt (fun ahead => nextIs (· == kind) ahead = true) take (tok kind) := by
    rintro (- | ⟨k, ahead⟩) htest items rest hr
    · cases htest
    · obtain rfl := beq_iff_eq.mp htest
      exact readsAt_take (k :: ahead) rfl items rest hr
  rintro (- | ⟨k, ahead⟩) hp items rest hr
  · cases hp
  · obtain rfl := Option.some.inj hp
    have hr : manyFrom (nextIs (· == k)) take ahead [.token k] ahead = .ok (items, rest) := by
      simpa [many, manyFrom, nextIs, take] using hr
    obtain ⟨more, rfl, hmore⟩ := read_manyFrom htake ahead _ hr
    refine ⟨?_, ?_, trivial, hmore.sound⟩
    · exact congrArg (k :: ·) hmore.tokens
    · exact Language.append_mem_mul (a := [Symbol.token k]) rfl hmore.word

theorem reads_commaSeparated (h : Reads r l) : Reads (commaSeparated r) (list l) := by
  refine h.andThen (reads_many_next fun kind htest => ?_)
  obtain rfl := beq_iff_eq.mp htest
  exact readsAt_take.andThen h

/-! ### Progress -/

/-- A reader takes a token whenever it succeeds, where what lies ahead satisfies `p`. -/
def TakesAt (p : List TokenKind → Prop) (r : Reader) : Prop :=
  ∀ ahead, p ahead → ∀ items rest, r ahead = .ok (items, rest) → rest.length < ahead.length

/-- What reads visible words takes tokens. -/
theorem ReadsAt.takesAt (h : ReadsAt p r l) (hvisible : Visible l) : TakesAt p r := by
  intro ahead hp items rest hr
  have hread := h ahead hp items rest hr
  have hne := tokensAll_ne_nil hvisible hread.word fun d hd =>
    (hread.sound.of_mem hd).tokens_ne_nil
  have hpos := List.length_pos_of_ne_nil hne
  rw [← hread.tokens, List.length_append]
  omega

/-- **A repetition stops** where the test fails or nothing is left: its turns do not run
out before, because each takes a token. -/
theorem manyFrom_rest {test : List TokenKind → Bool}
    (h : TakesAt (fun ahead => test ahead = true) r) (turns : List TokenKind)
    (found : List Derivation) {ahead rest : List TokenKind} {items : List Derivation}
    (hturns : ahead.length ≤ turns.length)
    (hr : manyFrom test r turns found ahead = .ok (items, rest)) :
    rest = [] ∨ test rest = false := by
  induction turns generalizing found ahead with
  | nil =>
    obtain ⟨rfl, rfl⟩ := Prod.mk.inj (Except.ok.inj hr)
    exact .inl (List.eq_nil_of_length_eq_zero (Nat.le_zero.mp hturns))
  | cons t turns ih =>
    unfold manyFrom at hr
    split at hr
    · rename_i htest
      split at hr
      · cases hr
      · -- a token was taken, so the turns that are left are still enough
        rename_i first middle hfirst
        have hlt := h ahead htest first middle hfirst
        rw [List.length_cons] at hturns
        exact ih _ (by omega) hr
    · rename_i htest
      obtain ⟨rfl, rfl⟩ := Prod.mk.inj (Except.ok.inj hr)
      exact .inr (Bool.eq_false_iff.mpr htest)

theorem many_rest {test : List TokenKind → Bool}
    (h : TakesAt (fun ahead => test ahead = true) r) {ahead rest : List TokenKind}
    {items : List Derivation} (hr : many test r ahead = .ok (items, rest)) :
    rest = [] ∨ test rest = false :=
  manyFrom_rest h ahead [] le_rfl hr

/-! ### Wrapping -/

/-- A node around a lead is sound, if it spells a word of its production. -/
theorem read_wrap {k m : Language Symbol} {kind : NodeKind}
    {ahead middle rest : List TokenKind} {lead more : List Derivation}
    (hlead : Read k ahead lead middle) (hmore : Read m middle more rest)
    (hword : (lead ++ more).map symbol ∈ production ⟨kind, operator kind more⟩) :
    Read {[.node ⟨kind, operator kind more⟩]} ahead [.node kind lead more] rest := by
  refine ⟨?_, rfl, ⟨hword, hlead.sound, hmore.sound⟩, trivial⟩
  rw [tokensAll_cons, tokens, tokensAll_nil, List.append_nil, List.append_assoc, hmore.tokens,
    hlead.tokens]

/-- **A continuation of a chain that reads `l`**: with the content that the next token
asks for, a lead becomes a node that is a word of `l` again. -/
def Continues (l : Language Symbol) (next : TokenKind) (kind : NodeKind) (content : Reader) :
    Prop :=
  ∃ m shape, ReadsAt (Next next) content m ∧ [.node shape] ∈ l ∧
    ∀ lead more : List Derivation, lead.map symbol ∈ l → more.map symbol ∈ m →
      shape = ⟨kind, operator kind more⟩ ∧ (lead ++ more).map symbol ∈ production shape

/-- A continuation that makes a node of a kind without operators. -/
theorem continues_of_le {next : TokenKind} {kind : NodeKind} {content : Reader}
    (h : ReadsAt (Next next) content m) (hletter : sub kind ≤ l)
    (hproduction : l * m ≤ production ⟨kind, none⟩) : Continues l next kind content := by
  refine ⟨m, ⟨kind, none⟩, h, hletter rfl, fun lead more hlead hmore => ?_⟩
  have hw := hproduction (Language.append_mem_mul hlead hmore)
  exact ⟨by rw [operator_eq_none hw], by rwa [List.map_append]⟩

/-- **A chain** reads what its first part reads, if each continuation makes a node that
is such a word again. -/
theorem ReadsAt.chain {step : TokenKind → Option (NodeKind × Reader)} (h : ReadsAt p r l)
    (hstep : ∀ next kind content, step next = some (kind, content) →
      Continues l next kind content) : ReadsAt p (chain r step) l := by
  -- the lead of each turn spells a word of the language, as the first part did
  have hfrom : ∀ (turns : List TokenKind) (start middle rest : List TokenKind)
      (lead items : List Derivation), Read l start lead middle →
      chainFrom step turns lead middle = .ok (items, rest) → Read l start items rest := by
    intro turns
    induction turns with
    | nil =>
      intro start middle rest lead items hlead hr
      obtain ⟨rfl, rfl⟩ := Prod.mk.inj (Except.ok.inj hr)
      exact hlead
    | cons t turns ih =>
      intro start middle rest lead items hlead hr
      unfold chainFrom at hr
      split at hr
      · obtain ⟨rfl, rfl⟩ := Prod.mk.inj (Except.ok.inj hr)
        exact hlead
      · rename_i kind content hnext
        split at hr
        · cases hr
        · rename_i more rest' hmore
          obtain ⟨next, hhead, hs⟩ := Option.bind_eq_some_iff.mp hnext
          obtain ⟨m, shape, hcontent, hletter, hword⟩ := hstep next kind content hs
          have hread := hcontent middle hhead more rest' hmore
          obtain ⟨rfl, hproduction⟩ := hword lead more hlead.word hread.word
          have hwrapped := read_wrap hlead hread hproduction
          refine ih start rest' rest _ items ⟨hwrapped.tokens, ?_, hwrapped.sound⟩ hr
          exact hletter
  intro ahead hp items rest hr
  unfold Reader.chain at hr
  split at hr
  · cases hr
  · rename_i first middle hfirst
    exact hfrom middle ahead middle rest first items (h ahead hp first middle hfirst) hr

/-- **Wrapping what came first** makes a node of a kind that the next token decides. -/
theorem ReadsAt.wrap {choice : Option TokenKind → Except Expected (NodeKind × Reader)}
    {k : Language Symbol} (h : ReadsAt p r k)
    (hchoice : ∀ next kind content, choice next = .ok (kind, content) →
      ∃ m, ReadsAt (fun ahead => ahead.head? = next) content m ∧
        k * m ≤ production ⟨kind, none⟩ ∧ sub kind ≤ l) :
    ReadsAt p (wrap r choice) l := by
  intro ahead hp items rest hr
  unfold Reader.wrap at hr
  split at hr
  · cases hr
  · rename_i lead middle hlead
    split at hr
    · cases hr
    · rename_i kind content hkind
      split at hr
      · cases hr
      · rename_i more rest' hmore
        obtain ⟨m, hcontent, hproduction, hletter⟩ := hchoice _ kind content hkind
        have h₁ := h ahead hp lead middle hlead
        have h₂ := hcontent middle rfl more rest' hmore
        obtain ⟨rfl, rfl⟩ := Prod.mk.inj (Except.ok.inj hr)
        have hword := hproduction (Language.append_mem_mul h₁.word h₂.word)
        have hoperator : operator kind more = none := operator_eq_none hword more
        have hwrapped := read_wrap h₁ h₂ (by rwa [hoperator, List.map_append])
        rw [hoperator] at hwrapped
        exact ⟨hwrapped.tokens, hletter hwrapped.word, hwrapped.sound⟩

end Reader

end ModuleLint
