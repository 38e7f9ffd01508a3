/-
ModuleLint/Proofs/Grammar/Kinds.lean

Parsing looks at the kinds of tokens only.  Two sources with the same kinds of tokens
parse alike: both give the same nodes, or both go wrong at the same token.  Texts, blanks,
comments and line ends play no part; and neither does the way in which reserved words are
spelled, because other spellings leave the kinds of tokens as they are.

Main result: `parse_by_kinds`.
-/
import ModuleLint.Proofs.Grammar.Foresight
import ModuleLint.Proofs.Grammar.Parsed
import ModuleLint.Proofs.Lexical.Respelling

namespace ModuleLint

/-- **A source goes wrong at its token number `i`**, or at the end of input if that is the
number of its tokens: the grammar stops in front of it, and this is what is reported. -/
def FailsAt (source : List Char) (i : Nat) (expected : Expected) : Prop :=
  ∃ lexed, tokenize source = .ok lexed ∧ i ≤ lexed.tokens.size ∧
    Grammar.derive lexed.kinds = .error ⟨lexed.tokens.size - i, expected⟩ ∧
    parse source = .error (Grammar.report lexed ⟨lexed.tokens.size - i, expected⟩)

/-- **Two sources parse alike**: to trees with the same nodes, of the same kinds and with
the same parents, children and ranges of tokens, or both go wrong at the same token. -/
def ParsesAlike (source source' : List Char) : Prop :=
  (∃ t t', parse source = .ok t ∧ parse source' = .ok t' ∧ t.nodes = t'.nodes) ∨
  (∃ i expected, FailsAt source i expected ∧ FailsAt source' i expected)

variable {source source' : List Char} {lexed lexed' : Lexed}

/-- A source goes wrong where the grammar stops. -/
theorem failsAt_of_derive {stop : Stop} (hlexed : tokenize source = .ok lexed)
    (hderive : Grammar.derive lexed.kinds = .error stop) :
    FailsAt source (lexed.kinds.length - stop.unread) stop.expected := by
  have hunread := Grammar.unread_le_of_derive hderive
  have hparse : parse source = .error (Grammar.report lexed stop) := by
    unfold parse
    rw [hlexed]
    simp only [hderive]
  -- no more tokens are left unread than there are
  have hstop : (⟨lexed.tokens.size - (lexed.kinds.length - stop.unread), stop.expected⟩ : Stop) =
      stop := by
    rw [← Lexed.length_kinds, Nat.sub_sub_self hunread]
  refine ⟨lexed, hlexed, ?_, ?_, ?_⟩
  · rw [← Lexed.length_kinds]
    exact Nat.sub_le _ _
  · rw [hstop]
    exact hderive
  · rw [hstop]
    exact hparse

/-- **Sources with the same kinds of tokens parse alike.** -/
theorem parsesAlike_of_kinds (hlexed : tokenize source = .ok lexed)
    (hlexed' : tokenize source' = .ok lexed') (hkinds : lexed.kinds = lexed'.kinds) :
    ParsesAlike source source' := by
  cases hderive : Grammar.derive lexed.kinds with
  | ok items =>
    have hderive' : Grammar.derive lexed'.kinds = .ok items := by
      rw [← hkinds, hderive]
    exact .inl ⟨_, _, parse_eq_ok hlexed hderive, parse_eq_ok hlexed' hderive', rfl⟩
  | error stop =>
    have hderive' : Grammar.derive lexed'.kinds = .error stop := by
      rw [← hkinds, hderive]
    refine .inr ⟨_, _, failsAt_of_derive hlexed hderive, ?_⟩
    rw [hkinds]
    exact failsAt_of_derive hlexed' hderive'

/-- A source with the kinds of tokens of one that parses does so too, to the same nodes. -/
theorem exists_parse_of_kinds {t : Tree} (h : parse source = .ok t)
    (hlexed' : tokenize source' = .ok lexed') (hkinds : t.lexed.kinds = lexed'.kinds) :
    ∃ t', parse source' = .ok t' ∧ t'.lexed = lexed' ∧ t.nodes = t'.nodes := by
  obtain ⟨content, hcontent⟩ := parse_derived h
  have hderive := hcontent.derives
  have hlayout := parse_eq_ok hcontent.lexed hderive
  rw [h, Except.ok.injEq] at hlayout
  rw [hkinds] at hderive
  refine ⟨_, parse_eq_ok hlexed' hderive, rfl, ?_⟩
  rw [hlayout]
  rfl

/-! ### A source in two languages -/

/-- A source in Russian. -/
def russian : List Char := "ЕСЛИ(1)Тогда КонецЕсли//да".toList

/-- Its tokens and its comment. -/
def russianLexed : Lexed :=
  ⟨#[⟨.keyword .If, "ЕСЛИ".toList, ⟨0, 1, 1⟩⟩, ⟨.lParen, ['('], ⟨8, 1, 5⟩⟩,
      ⟨.number, ['1'], ⟨9, 1, 6⟩⟩, ⟨.rParen, [')'], ⟨10, 1, 7⟩⟩,
      ⟨.keyword .Then, "Тогда".toList, ⟨11, 1, 8⟩⟩,
      ⟨.keyword .EndIf, "КонецЕсли".toList, ⟨22, 1, 14⟩⟩],
    #[⟨.comment, "//да".toList, ⟨40, 1, 23⟩⟩]⟩

theorem tokenize_russian : tokenize russian = .ok russianLexed := by decide +kernel

/-- English spellings for some reserved words. -/
def english (t : Token) : List Char :=
  match t.kind with
  | .keyword .If => "iF".toList
  | .keyword .Then => "THEN".toList
  | .keyword .EndIf => "EndIf".toList
  | _ => t.text

theorem respelling_english (lexed : Lexed) : lexed.Respelling english := by
  intro t _
  unfold english
  split
  · rename_i hkind
    exact .inr ⟨.If, hkind, "if", by decide, by decide⟩
  · rename_i hkind
    exact .inr ⟨.Then, hkind, "then", by decide, by decide⟩
  · rename_i hkind
    exact .inr ⟨.EndIf, hkind, "endif", by decide, by decide⟩
  · exact .inl rfl

/-! ### Parsing -/

/-- **The kinds of tokens decide how a source is parsed**, and reserved words may be spelled
in any way: other spellings give the same kinds. -/
theorem parse_by_kinds :
    (∀ source source' lexed lexed', tokenize source = .ok lexed → tokenize source' = .ok lexed' →
      lexed.kinds = lexed'.kinds → ParsesAlike source source') ∧
    (∀ source lexed new, tokenize source = .ok lexed → lexed.Respelling new →
      (∃ lexed', tokenize (lexed.respelled new source) = .ok lexed' ∧
        lexed'.kinds = lexed.kinds) ∧
      ParsesAlike source (lexed.respelled new source)) := by
  constructor
  · intro source source' lexed lexed' hlexed hlexed' hkinds
    exact parsesAlike_of_kinds hlexed hlexed' hkinds
  · intro source lexed new hlexed hnew
    obtain ⟨lexed', hlexed', hkinds⟩ := tokenize_respelled hlexed hnew
    exact ⟨⟨lexed', hlexed', hkinds⟩, parsesAlike_of_kinds hlexed hlexed' hkinds.symm⟩

/-- The source in Russian, and the same source with English words, parse alike. -/
theorem parse_by_kinds_english :
    tokenize russian = .ok russianLexed ∧
      russianLexed.respelled english russian = "iF(1)THEN EndIf//да".toList ∧
      ParsesAlike russian (russianLexed.respelled english russian) := by
  refine ⟨tokenize_russian, by decide +kernel, ?_⟩
  exact (parse_by_kinds.2 _ _ english tokenize_russian (respelling_english _)).2

end ModuleLint
