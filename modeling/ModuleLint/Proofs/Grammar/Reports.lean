/-
ModuleLint/Proofs/Grammar/Reports.lean

Where a report says that a source goes wrong.  The grammar stops in front of a token or at
the end of input (`FailsAt`), and every report is made in one way from that: in front of a
token it names the place of the token; at the end of input it names the column behind the
*first* character of the last token, on the line where that token begins.  That is the
place behind the last token if the token is one character long, and no other place is named
right at the end of input: a longer token ends further right, or on a later line.

What is behind the place does not matter: sources that agree up to the token there and the
one behind it go wrong at the same token, and for the same reason.

Main results: `report_stands`, with the exact condition under which the place is right, and
`first_error_final`.
-/
import ModuleLint.Proofs.Grammar.Kinds

namespace ModuleLint

namespace Lexed

/-- The place behind the last token, which is the start where there is none. -/
def finish (lexed : Lexed) : Position :=
  match lexed.tokens.back? with
  | some last => last.finish
  | none => .start

/-- **The place of a token** by its number, and behind the last token at the end of input. -/
def placeOf (lexed : Lexed) (i : Nat) : Position :=
  match lexed.tokens[i]? with
  | some token => token.position
  | none => lexed.finish

end Lexed

/-- A report names the line and the column of a place. -/
def SourceError.StandsAt (e : SourceError) (p : Position) : Prop :=
  e.line = p.line ∧ e.column = p.column

variable {source : List Char} {lexed : Lexed} {e : SourceError} {i : Nat} {expected : Expected}
  {t : Token} {p : Position}

/-! ### Behind a token -/

/-- A text that does not leave its line moves the column by its length. -/
theorem Position.column_after {text : List Char} (h : '\n' ∉ text) :
    (p.after text).column = p.column + text.length := by
  induction text generalizing p with
  | nil => rfl
  | cons c text ih =>
    rw [List.mem_cons, not_or] at h
    rw [after_cons, ih h.2, next, if_neg (Ne.symm h.1), List.length_cons]
    show p.column + 1 + text.length = _
    omega

/-- A token begins with no end of line. -/
theorem exists_text_of_tokenize (h : tokenize source = .ok lexed) (ht : t ∈ lexed.tokens) :
    ∃ c word, t.text = c :: word ∧ c ≠ '\n' := by
  obtain ⟨touched, c, word, htext, hmunch⟩ := munched_of_tokenize h ht
  refine ⟨c, word, htext, ?_⟩
  rintro rfl
  cases hmunch

/-- **One column behind the first character of a token** is the place behind the token if
and only if that character is all of it. -/
theorem column_succ_iff (h : tokenize source = .ok lexed) (ht : t ∈ lexed.tokens) :
    (t.position.line = t.finish.line ∧ t.position.column + 1 = t.finish.column) ↔
      t.text.length = 1 := by
  obtain ⟨c, word, htext, hc⟩ := exists_text_of_tokenize h ht
  rw [Token.finish]
  constructor
  · rintro ⟨hline, hcolumn⟩
    rw [Position.line_after, Nat.left_eq_add] at hline
    rw [Position.column_after (List.count_eq_zero.mp hline)] at hcolumn
    omega
  · intro hlength
    obtain rfl : word = [] := by
      rw [htext, List.length_cons] at hlength
      exact List.eq_nil_of_length_eq_zero (by omega)
    have hline : '\n' ∉ t.text := by
      rw [htext, List.mem_singleton]
      exact Ne.symm hc
    rw [Position.line_after, Position.column_after hline, List.count_eq_zero.mpr hline, hlength]
    exact ⟨rfl, rfl⟩

/-! ### The place of a report -/

/-- A report in front of a token stands at that token. -/
theorem report_of_getElem? (hi : i ≤ lexed.tokens.size) (ht : lexed.tokens[i]? = some t) :
    (Grammar.report lexed ⟨lexed.tokens.size - i, expected⟩).StandsAt t.position := by
  rw [Grammar.report]
  simp only [Nat.sub_sub_self hi, ht]
  exact ⟨rfl, rfl⟩

/-- A report at the end of input stands behind the last token if that is one character
long, and only then. -/
theorem report_of_getElem?_none (h : tokenize source = .ok lexed)
    (hi : i ≤ lexed.tokens.size) (hend : lexed.tokens[i]? = none) :
    (Grammar.report lexed ⟨lexed.tokens.size - i, expected⟩).StandsAt lexed.finish ↔
      ∀ last ∈ lexed.tokens.back?, last.text.length = 1 := by
  rw [Grammar.report, Lexed.finish]
  simp only [Nat.sub_sub_self hi, hend]
  cases hback : lexed.tokens.back? with
  | none => simp [SourceError.StandsAt, Position.start]
  | some last =>
    have hlast : last ∈ lexed.tokens := Array.mem_of_back? hback
    simpa [SourceError.StandsAt] using column_succ_iff h hlast

/-- A source that is tokenized and not parsed goes wrong somewhere. -/
theorem exists_failsAt (hlexed : tokenize source = .ok lexed) (h : parse source = .error e) :
    ∃ i expected, FailsAt source i expected := by
  unfold parse at h
  rw [hlexed] at h
  cases hderive : Grammar.derive lexed.kinds with
  | ok items =>
    simp only [hderive] at h
    cases h
  | error stop => exact ⟨_, _, failsAt_of_derive hlexed hderive⟩

/-- **A report names the place where the source goes wrong**, that of the token in front of
which the grammar stops or the place behind the last token, if and only if it stops in front
of a token, or there is no token, or the last token is one character long. -/
theorem report_stands (hlexed : tokenize source = .ok lexed) (h : parse source = .error e) :
    (∃ i expected, FailsAt source i expected) ∧
      ∀ i expected, FailsAt source i expected → (e.StandsAt (lexed.placeOf i) ↔
        i < lexed.tokens.size ∨ ∀ last ∈ lexed.tokens.back?, last.text.length = 1) := by
  refine ⟨exists_failsAt hlexed h, ?_⟩
  rintro i expected ⟨lexed', hlexed', hi, -, hreport⟩
  obtain rfl := Except.ok.inj (hlexed'.symm.trans hlexed)
  obtain rfl := Except.error.inj (hreport.symm.trans h)
  rw [Lexed.placeOf]
  cases hi? : lexed'.tokens[i]? with
  | some t =>
    have hlt : i < lexed'.tokens.size := (Array.getElem?_eq_some_iff.mp hi?).1
    exact iff_of_true (report_of_getElem? hi hi?) (.inl hlt)
  | none =>
    have hge : lexed'.tokens.size ≤ i := Array.getElem?_eq_none_iff.mp hi?
    rw [or_iff_right (Nat.not_lt_of_ge hge)]
    exact report_of_getElem?_none hlexed' hi hi?

/-- A source that ends in a word where more is expected. -/
def unclosedIf : List Char := "If a Then".toList

/-- Its tokens. -/
def unclosedIfLexed : Lexed :=
  ⟨#[⟨.keyword .If, "If".toList, ⟨0, 1, 1⟩⟩, ⟨.identifier, ['a'], ⟨3, 1, 4⟩⟩,
      ⟨.keyword .Then, "Then".toList, ⟨5, 1, 6⟩⟩], #[]⟩

/-- **A report at the end of input need not stand there**: behind `Then` it stands behind
the first letter. -/
theorem not_forall_report_stands :
    ¬ ∀ source lexed e i expected, tokenize source = .ok lexed → parse source = .error e →
      FailsAt source i expected → e.StandsAt (lexed.placeOf i) := by
  intro h
  have htokenize : tokenize unclosedIf = .ok unclosedIfLexed := by decide +kernel
  have hparse : parse unclosedIf = .error ⟨"expected 'EndIf', found end of input", 1, 7⟩ := by
    decide +kernel
  have hfails : FailsAt unclosedIf 3 (.token (.keyword .EndIf)) :=
    ⟨unclosedIfLexed, htokenize, by decide +kernel, rfl, hparse⟩
  exact absurd (h _ _ _ _ _ htokenize hparse hfails).2 (by decide +kernel)

/-- A source that ends in a word of one letter. -/
def shortIf : List Char := "If a".toList

def shortIfLexed : Lexed :=
  ⟨#[⟨.keyword .If, "If".toList, ⟨0, 1, 1⟩⟩, ⟨.identifier, ['a'], ⟨3, 1, 4⟩⟩], #[]⟩

theorem report_stands_shortIf :
    tokenize shortIf = .ok shortIfLexed ∧
    parse shortIf = .error ⟨"expected 'Then', found end of input", 1, 5⟩ ∧
    (∃ i expected, FailsAt shortIf i expected) ∧
      ∀ i expected, FailsAt shortIf i expected →
        (SourceError.StandsAt ⟨"expected 'Then', found end of input", 1, 5⟩
          (shortIfLexed.placeOf i) ↔
        i < shortIfLexed.tokens.size ∨
          ∀ last ∈ shortIfLexed.tokens.back?, last.text.length = 1) := by
  have htokenize : tokenize shortIf = .ok shortIfLexed := by decide +kernel
  have hparse : parse shortIf = .error ⟨"expected 'Then', found end of input", 1, 5⟩ := by
    decide +kernel
  exact ⟨htokenize, hparse, report_stands htokenize hparse⟩

/-! ### What is behind the place of a report -/

/-- **The first error is final.**  A source that agrees with one that goes wrong, up to the
token where that does and the one behind it, goes wrong at the same token, with the same
wording of what was expected. -/
theorem first_error_final (hlexed : tokenize source = .ok lexed) (h : parse source = .error e) :
    (∃ i expected, FailsAt source i expected) ∧
      ∀ i expected, FailsAt source i expected → ∀ source' lexed',
        tokenize source' = .ok lexed' → (∀ j ≤ i + 1, lexed.kinds[j]? = lexed'.kinds[j]?) →
          FailsAt source' i expected := by
  refine ⟨exists_failsAt hlexed h, ?_⟩
  rintro i expected ⟨lexed', hlexed', hi, hderive, -⟩ source' lexed'' hlexed'' hagree
  obtain rfl := Except.ok.inj (hlexed'.symm.trans hlexed)
  have htake : lexed'.kinds.take (i + 2) = lexed''.kinds.take (i + 2) := by
    ext1 j
    rw [List.getElem?_take, List.getElem?_take]
    split
    · exact hagree j (by omega)
    · rfl
  rw [← Lexed.length_kinds] at hi hderive
  obtain ⟨hle, hderive'⟩ := Grammar.derive_of_take hderive hi htake
  have hfails := failsAt_of_derive hlexed'' hderive'
  rwa [Nat.sub_sub_self hle] at hfails

/-- An assignment without a value, and a name behind it. -/
def noValue : List Char := "a=;b".toList

def noValueLexed : Lexed :=
  ⟨#[⟨.identifier, ['a'], ⟨0, 1, 1⟩⟩, ⟨.eq, ['='], ⟨1, 1, 2⟩⟩, ⟨.semicolon, [';'], ⟨2, 1, 3⟩⟩,
      ⟨.identifier, ['b'], ⟨3, 1, 4⟩⟩], #[]⟩

/-- The same with other names, and more behind them. -/
def noValueThenCall : List Char := "x=;y((1".toList

def noValueThenCallLexed : Lexed :=
  ⟨#[⟨.identifier, ['x'], ⟨0, 1, 1⟩⟩, ⟨.eq, ['='], ⟨1, 1, 2⟩⟩, ⟨.semicolon, [';'], ⟨2, 1, 3⟩⟩,
      ⟨.identifier, ['y'], ⟨3, 1, 4⟩⟩, ⟨.lParen, ['('], ⟨4, 1, 5⟩⟩, ⟨.lParen, ['('], ⟨5, 1, 6⟩⟩,
      ⟨.number, ['1'], ⟨6, 1, 7⟩⟩], #[]⟩

theorem first_error_final_noValue :
    tokenize noValue = .ok noValueLexed ∧
    parse noValue = .error ⟨"expected expression, found ';'", 1, 3⟩ ∧
    FailsAt noValue 2 .expression ∧
    tokenize noValueThenCall = .ok noValueThenCallLexed ∧
    (∀ j ≤ 3, noValueLexed.kinds[j]? = noValueThenCallLexed.kinds[j]?) ∧
    FailsAt noValueThenCall 2 .expression := by
  have htokenize : tokenize noValue = .ok noValueLexed := by decide +kernel
  have hparse : parse noValue = .error ⟨"expected expression, found ';'", 1, 3⟩ := by
    decide +kernel
  have hfails : FailsAt noValue 2 .expression :=
    ⟨noValueLexed, htokenize, by decide, rfl, hparse⟩
  have htokenize' : tokenize noValueThenCall = .ok noValueThenCallLexed := by decide +kernel
  have hagree : ∀ j ≤ 3, noValueLexed.kinds[j]? = noValueThenCallLexed.kinds[j]? := by decide
  exact ⟨htokenize, hparse, hfails, htokenize', hagree,
    (first_error_final htokenize hparse).2 2 .expression hfails _ _ htokenize' hagree⟩

end ModuleLint
