/-
ModuleLint/Proofs/Lexical/Spread.lean

A word that is read across tokens.  The text of a node is the texts of its tokens with
nothing between them.  A word that occurs in it up to case occurs in one of them, or is
*spread* over several: it begins in the first, ends in the last, and holds all between
(`mem_or_spread_of_occurs`).

Which tokens can a given word be spread over?  For the word that guards a place by
default each of them is a name, a number, or one of three reserved words, because it has no
character that signs, strings and dates begin or end with (`SpreadOver.front`,
`SpreadOver.back`), and `In` can only be the second one, behind a single letter
(`SpreadOver.in_second`).
-/
import ModuleLint.Proofs.Grammar.Seams
import ModuleLint.Proofs.Lexical.Places
import ModuleLint.Proofs.Lexical.Respelling
import ModuleLint.Text.Folding

namespace ModuleLint

open Lexical

/-! ### Words over several tokens -/

/-- **A word is spread over some tokens**, up to case: it begins in the first of them, ends in
the last, and holds all that is between. -/
inductive SpreadOver (word : List Char) : List Token → Prop
  | intro {a b : Token} {middle : List Token} {front back : List Char} (hfront : front ≠ [])
      (hback : back ≠ []) (hfirst : front <:+ foldText a.text) (hlast : back <+: foldText b.text)
      (hword : word = front ++ foldText (middle.flatMap Token.text) ++ back) :
      SpreadOver word (a :: (middle ++ [b]))

theorem foldText_append (s t : List Char) : foldText (s ++ t) = foldText s ++ foldText t :=
  List.map_append

/-- What the texts of some tokens begin with ends in one of them. -/
theorem exists_last_of_begins {back : List Char} (hback : back ≠ []) {tokens : List Token}
    (h : back <+: foldText (tokens.flatMap Token.text)) :
    ∃ middle b behind rest, tokens = middle ++ b :: behind ∧ rest ≠ [] ∧
      rest <+: foldText b.text ∧ back = foldText (middle.flatMap Token.text) ++ rest := by
  induction tokens generalizing back with
  | nil => exact absurd (List.prefix_nil.mp h) hback
  | cons b tokens ih =>
    obtain ⟨more, hmore⟩ := h
    rw [List.flatMap_cons, foldText_append] at hmore
    rcases List.append_eq_append_iff.mp hmore with ⟨u, hu, -⟩ | ⟨u, rfl, hu⟩
    · exact ⟨[], b, tokens, back, rfl, hback, ⟨u, hu.symm⟩, rfl⟩
    · -- the first token is used up, unless the word ends with it
      by_cases hnil : u = []
      · refine ⟨[], b, tokens, foldText b.text, rfl, ?_, List.prefix_rfl, ?_⟩
        · simpa [hnil] using hback
        · simp [hnil, foldText]
      · obtain ⟨middle, c, behind, rest, rfl, hrest, hlast, rfl⟩ := ih hnil ⟨more, hu.symm⟩
        refine ⟨b :: middle, c, behind, rest, rfl, hrest, hlast, ?_⟩
        rw [List.flatMap_cons, foldText_append, List.append_assoc]

/-- **A word that occurs in the texts of some tokens** occurs in one of them, or is spread over
several. -/
theorem mem_or_spread_of_occurs {word : List Char} {tokens : List Token} (hword : word ≠ [])
    (h : word <:+: foldText (tokens.flatMap Token.text)) :
    (∃ token ∈ tokens, word <:+: foldText token.text) ∨
      ∃ before run behind, tokens = before ++ (run ++ behind) ∧ SpreadOver word run := by
  induction tokens with
  | nil => exact absurd (List.infix_nil.mp h) hword
  | cons a tokens ih =>
    rw [List.flatMap_cons, foldText_append, List.infix_append_iff_ne_nil] at h
    rcases h with hown | hrest | ⟨front, back, hfront, hback, rfl, hfirst, hlast⟩
    · exact .inl ⟨a, List.mem_cons_self, hown⟩
    · rcases ih hrest with ⟨token, htoken, hin⟩ | ⟨before, run, behind, rfl, hspread⟩
      · exact .inl ⟨token, List.mem_cons_of_mem _ htoken, hin⟩
      · exact .inr ⟨a :: before, run, behind, rfl, hspread⟩
    · obtain ⟨middle, b, behind, rest, rfl, hrest, hend, rfl⟩ := exists_last_of_begins hback hlast
      refine .inr ⟨[], a :: (middle ++ [b]), behind, by simp, ?_⟩
      exact .intro hfront hrest hfirst hend (List.append_assoc _ _ _).symm

/-! ### What tokens begin and end with -/

namespace Lexical

variable {touched : Bool} {c : Char} {word : List Char} {n : Nat} {kind : TokenKind}

/-- A string ends with its closing quote. -/
theorem getLast?_of_stringLength (h : stringLength n word = some (n + word.length)) :
    '"' ∈ word.getLast? := by
  fun_induction stringLength n word with
  | case1 n rest ih =>
    refine List.mem_getLast?_cons (List.mem_getLast?_cons (ih ?_))
    rw [h, List.length_cons, List.length_cons]
    congr 1
    omega
  | case2 n rest =>
    have hlength := Option.some.inj h
    rw [List.length_cons] at hlength
    obtain rfl := List.length_eq_zero_iff.mp (show rest.length = 0 by omega)
    rfl
  | case3 n d rest _ _ ih =>
    refine List.mem_getLast?_cons (ih ?_)
    rw [h, List.length_cons]
    congr 1
    omega
  | case4 n => cases h

/-- A date ends with its closing quote. -/
theorem getLast?_of_dateLength (h : dateLength word = some word.length) :
    '\'' ∈ word.getLast? := by
  induction word with
  | nil => cases h
  | cons d rest ih =>
    rw [dateLength_cons, List.length_cons] at h
    split at h
    · rename_i hquote
      obtain rfl := List.length_eq_zero_iff.mp (Nat.succ.inj (Option.some.inj h)).symm
      rw [hquote]
      rfl
    · split at h
      · cases h
      · obtain ⟨m, hm, hlength⟩ := Option.map_eq_some_iff.mp h
        rw [Nat.succ.inj hlength] at hm
        exact List.mem_getLast?_cons (ih hm)

/-- A sign has one character or two, and none of them stands in a word. -/
theorem isWordPart_of_sign? (h : sign? c word = some (kind, word.length)) :
    isWordPart c = false ∧ ∃ z ∈ (c :: word).getLast?, isWordPart z = false := by
  have hone : ∀ {sign : TokenKind}, some (sign, 0) = some (kind, word.length) →
      isWordPart c = false →
        isWordPart c = false ∧ ∃ z ∈ (c :: word).getLast?, isWordPart z = false := by
    intro sign heq hc
    obtain ⟨-, hlength⟩ := Prod.mk.inj (Option.some.inj heq)
    obtain rfl := List.length_eq_zero_iff.mp hlength.symm
    exact ⟨hc, c, rfl, hc⟩
  have htwo : ∀ {sign : TokenKind} {d : Char} {more : List Char}, word = d :: more →
      some (sign, 1) = some (kind, word.length) → isWordPart c = false → isWordPart d = false →
        isWordPart c = false ∧ ∃ z ∈ (c :: word).getLast?, isWordPart z = false := by
    rintro sign d more rfl heq hc hd
    obtain ⟨-, hlength⟩ := Prod.mk.inj (Option.some.inj heq)
    obtain rfl := List.length_eq_zero_iff.mp (Nat.succ.inj hlength).symm
    exact ⟨hc, d, rfl, hd⟩
  unfold sign? at h
  split at h
  case h_7 | h_8 => split at h <;> first | exact htwo rfl h rfl rfl | exact hone h rfl
  all_goals first | exact hone h rfl | cases h

/-- **A token is a word, a number, or is bounded by marks**: neither its first character
nor its last one can stand in a word. -/
theorem munch_token (h : munch touched c word = .ok (.token kind, word.length)) :
    kind = wordKind (c :: word) ∨ kind = .number ∨
      isWordPart c = false ∧ ∃ z ∈ (c :: word).getLast?, isWordPart z = false := by
  unfold munch at h
  split at h
  · cases h
  split at h
  · cases h
  split at h
  · cases h
  split at h
  · obtain ⟨hkind, hlength⟩ := Prod.mk.inj (Except.ok.inj h)
    rw [hlength, List.take_length] at hkind
    exact .inl (PieceKind.token.inj hkind).symm
  split at h
  · obtain ⟨hkind, -⟩ := Prod.mk.inj (Except.ok.inj h)
    exact .inr (.inl (PieceKind.token.inj hkind).symm)
  split at h
  · rename_i hquote
    obtain ⟨-, hlength⟩ := literal_eq_ok_iff.mp h
    obtain rfl := beq_iff_eq.mp hquote
    have hlast := getLast?_of_stringLength (n := 0) (by rw [Nat.zero_add]; exact hlength)
    exact .inr (.inr ⟨rfl, '"', List.mem_getLast?_cons hlast, rfl⟩)
  split at h
  · rename_i hquote
    obtain ⟨-, hlength⟩ := literal_eq_ok_iff.mp h
    obtain rfl := beq_iff_eq.mp hquote
    have hlast := getLast?_of_dateLength hlength
    exact .inr (.inr ⟨rfl, '\'', List.mem_getLast?_cons hlast, rfl⟩)
  · obtain ⟨sign, hkind, hsign⟩ := sign_eq_ok_iff.mp h
    obtain rfl := PieceKind.token.inj hkind
    exact .inr (.inr (isWordPart_of_sign? hsign))

end Lexical

/-! ### The letters of the guard word -/

/-- The word that guards a place by default, in lower case. -/
def guardWord : List Char := ['l', 'i', 'n', 'u', 'x', '_', 'x', '8', '6']

/-- Folding leaves a character as it is, or moves it as a run of letters says. -/
theorem foldChar_cases (c : Char) : foldChar c = c ∨ ∃ run ∈ foldingRuns,
    run.first ≤ c.toNat ∧ c.toNat ≤ run.last ∧
      foldChar c = Char.ofNat (run.target + (c.toNat - run.first)) := by
  unfold foldChar
  split
  · rename_i run hrun
    have hholds := List.find?_some hrun
    simp only [FoldingRun.holds, Bool.and_eq_true, Nat.ble_eq] at hholds
    exact .inr ⟨run, List.mem_of_find?_eq_some hrun, hholds.1.1, hholds.1.2, rfl⟩
  · exact .inl rfl

/-- The runs of letters: the Latin capitals, two letters alone, and those that folding takes
behind the Latin letters of the guard word. -/
theorem foldingRuns_cases : ∀ run ∈ foldingRuns,
    (run.first = 0x41 ∧ run.last = 0x5A ∧ run.target = 0x61) ∨
      (run.first = run.last ∧ (run.target = 0x73 ∨ run.target = 0x6B)) ∨ 0x78 < run.target := by
  decide +kernel

theorem lowerChar_capital : ∀ n < 26, Keyword.lowerChar (Char.ofNat (0x41 + n)) =
    Char.ofNat (0x61 + n) ∧ isWordPart (Char.ofNat (0x41 + n)) = true := by
  decide +kernel

/-- The letters of the guard word lie up to `x`, without `s` and `k`; they are small, and can
stand in a word. -/
theorem letters_guardWord {c : Char} (h : c ∈ guardWord) :
    (c.toNat ≤ 0x78 ∧ c.toNat ≠ 0 ∧ c.toNat ≠ 0x73 ∧ c.toNat ≠ 0x6B) ∧
      Keyword.lowerChar c = c ∧ isWordPart c = true := by
  simp only [guardWord, List.mem_cons, List.not_mem_nil, or_false] at h
  rcases h with rfl | rfl | rfl | rfl | rfl | rfl | rfl | rfl | rfl <;> decide

/-- **The forms of a letter of the guard word** are the letter and its capital: lower case takes
them to the same letter as folding, and they can stand in a word. -/
theorem lowerChar_of_foldChar {c : Char} (h : foldChar c ∈ guardWord) :
    Keyword.lowerChar c = foldChar c ∧ isWordPart c = true := by
  obtain ⟨⟨hle, hzero, hs, hk⟩, -⟩ := letters_guardWord h
  rcases foldChar_cases c with hsame | ⟨run, hrun, hfirst, hlast, hmoved⟩
  · rw [hsame] at h ⊢
    exact (letters_guardWord h).2
  · obtain ⟨n, hn⟩ := Nat.exists_eq_add_of_le hfirst
    rw [hn, Nat.add_sub_cancel_left] at hmoved
    have hnat : (foldChar c).toNat = run.target + n := by
      rw [hmoved, Char.toNat_ofNat] at hzero ⊢
      exact if_pos (by by_contra hinvalid; exact hzero (if_neg hinvalid))
    rcases foldingRuns_cases run hrun with
      ⟨hcapital, hend, htarget⟩ | ⟨hsingle, htarget⟩ | htarget
    · have hc : c = Char.ofNat (0x41 + n) := by rw [← hcapital, ← hn, Char.ofNat_toNat]
      rw [hmoved, htarget, hc]
      exact lowerChar_capital n (by omega)
    · omega
    · omega

/-! ### Tokens that the guard word is spread over -/

/-- A reserved word is looked up by a spelling of it. -/
theorem Keyword.spelledBy_of_lookup {word : List Char} {k : Keyword}
    (h : Keyword.lookup word = some k) : k.SpelledBy word := by
  obtain ⟨entry, hentry, rfl⟩ := Option.map_eq_some_iff.mp h
  have hspelling := List.find?_some hentry
  exact ⟨entry.1, List.mem_of_find?_eq_some hentry, (beq_iff_eq.mp hspelling).symm⟩

namespace Token.Munched

variable {token : Token} {before part behind : List Char}

theorem text_ne_nil (h : token.Munched) : token.text ≠ [] := by
  obtain ⟨_, c, word, htext, -⟩ := h
  rw [htext]
  exact List.cons_ne_nil c word

/-- **A token that begins or ends with letters of the guard word** is a name or a number, or
spells a reserved word with the same letters there. -/
theorem kind_of_part (h : token.Munched) (htext : token.text = before ++ (part ++ behind))
    (hletters : ∀ c ∈ part, foldChar c ∈ guardWord) (hpart : part ≠ [])
    (hedge : before = [] ∨ behind = []) :
    token.kind = .identifier ∨ token.kind = .number ∨ ∃ entry ∈ Keyword.spellings,
      token.kind = .keyword entry.2 ∧ entry.1.toList =
        before.map Keyword.lowerChar ++ (foldText part ++ behind.map Keyword.lowerChar) := by
  obtain ⟨_, c, word, hcons, hmunch⟩ := h
  rcases munch_token hmunch with hkind | hnumber | ⟨hfirst, z, hz, hlast⟩
  · rw [← hcons] at hkind
    unfold wordKind at hkind
    split at hkind
    · rename_i k hlookup
      obtain ⟨s, hmem, hlower⟩ := Keyword.spelledBy_of_lookup hlookup
      refine .inr (.inr ⟨(s, k), hmem, hkind, ?_⟩)
      have hfold : part.map Keyword.lowerChar = foldText part :=
        List.map_congr_left fun c hc => (lowerChar_of_foldChar (hletters c hc)).1
      rw [← hlower, htext, List.map_append, List.map_append, hfold]
    · exact .inl hkind
  · exact .inr (.inl hnumber)
  · -- a mark is no letter of the guard word
    have hmark : ∀ d ∈ part, isWordPart d = true := fun d hd =>
      (lowerChar_of_foldChar (hletters d hd)).2
    rw [← hcons, htext] at hz
    rw [htext] at hcons
    rcases hedge with rfl | rfl
    · obtain ⟨d, rest, rfl⟩ := List.exists_cons_of_ne_nil hpart
      obtain rfl := (List.cons.inj hcons).1
      rw [hmark d List.mem_cons_self] at hfirst
      cases hfirst
    · obtain ⟨front, d, rfl⟩ := (part.eq_nil_or_concat').resolve_left hpart
      rw [List.append_nil, ← List.append_assoc, List.getLast?_concat] at hz
      obtain rfl := Option.some.inj hz
      rw [hmark d (List.mem_append_right _ List.mem_cons_self)] at hlast
      cases hlast

end Token.Munched

/-- The reserved words that end with the beginning of the guard word. -/
theorem spelling_front : ∀ entry ∈ Keyword.spellings, ∀ n < 9,
    guardWord.take (n + 1) <:+ entry.1.toList → entry.2 = .Val ∨ entry.2 = .Null := by
  decide +kernel

/-- No reserved word begins with the end of the guard word. -/
theorem spelling_back : ∀ entry ∈ Keyword.spellings, ∀ n < 9,
    ¬ guardWord.drop n <+: entry.1.toList := by
  decide +kernel

/-- The only reserved word inside the guard word. -/
theorem spelling_middle : ∀ entry ∈ Keyword.spellings,
    entry.1.toList <:+: guardWord → entry = ("in", .In) := by
  decide +kernel

/-- It stands there behind the first letter. -/
theorem in_guardWord : ∀ n < 9, ['i', 'n'] <+: guardWord.drop n → n = 1 := by
  decide +kernel

/-- So one letter stands before it. -/
theorem length_before_in {letters rest : List Char}
    (h : guardWord = letters ++ (['i', 'n'] ++ rest)) : letters.length = 1 := by
  have hlength : 9 = letters.length + (2 + rest.length) := by
    have hboth := congrArg List.length h
    rwa [List.length_append, List.length_append] at hboth
  refine in_guardWord _ (by omega) ?_
  rw [h, List.drop_left]
  exact List.prefix_append _ _

theorem letters_of_occurs {part : List Char} (h : foldText part <:+: guardWord) :
    ∀ c ∈ part, foldChar c ∈ guardWord :=
  fun _ hc => h.subset (List.mem_map_of_mem hc)

namespace Token.Munched

variable {token : Token} {front back : List Char}

/-- **Where the guard word begins** there is a name or a number, or one of two reserved words. -/
theorem kind_front (h : token.Munched) (hne : front ≠ []) (hfront : front <+: guardWord)
    (hend : front <:+ foldText token.text) :
    token.kind.isFront = true ∧ token.kind ≠ .keyword .In := by
  obtain ⟨part, ⟨before, htext⟩, heq⟩ := List.suffix_map_iff.mp hend
  obtain rfl : front = foldText part := heq
  have hpart : part ≠ [] := fun hnil => hne (by rw [hnil]; rfl)
  have hsplit : token.text = before ++ (part ++ []) := by rw [List.append_nil, htext]
  rcases h.kind_of_part hsplit (letters_of_occurs hfront.isInfix) hpart (.inr rfl) with
    hkind | hkind | ⟨entry, hentry, hkind, hspelling⟩
  · rw [hkind]
    exact ⟨rfl, nofun⟩
  · rw [hkind]
    exact ⟨rfl, nofun⟩
  · -- the letters are the first ones of the guard word
    obtain ⟨n, hn⟩ : ∃ n, (foldText part).length = n + 1 :=
      Nat.exists_eq_add_one_of_ne_zero fun hzero => hne (List.length_eq_zero_iff.mp hzero)
    have htake := List.prefix_iff_eq_take.mp hfront
    have hle : n + 1 ≤ 9 := hn ▸ hfront.length_le
    rw [hn] at htake
    rw [List.map_nil, List.append_nil, htake] at hspelling
    rw [hkind]
    rcases spelling_front entry hentry n hle ⟨_, hspelling.symm⟩ with hval | hnull
    · rw [hval]
      exact ⟨rfl, nofun⟩
    · rw [hnull]
      exact ⟨rfl, nofun⟩

/-- **Where the guard word ends** there is a name or a number. -/
theorem kind_back (h : token.Munched) (hne : back ≠ []) (hback : back <:+ guardWord)
    (hbegin : back <+: foldText token.text) :
    token.kind.isBack = true ∧ token.kind ≠ .keyword .In := by
  obtain ⟨part, ⟨behind, htext⟩, heq⟩ := List.prefix_map_iff.mp hbegin
  obtain rfl : back = foldText part := heq
  have hpart : part ≠ [] := fun hnil => hne (by rw [hnil]; rfl)
  rcases h.kind_of_part htext.symm (letters_of_occurs hback.isInfix) hpart (.inl rfl) with
    hkind | hkind | ⟨entry, hentry, -, hspelling⟩
  · rw [hkind]
    exact ⟨rfl, nofun⟩
  · rw [hkind]
    exact ⟨rfl, nofun⟩
  · have hlength := hback.length_le
    have hpos := List.length_pos_of_ne_nil hne
    have hdrop := List.suffix_iff_eq_drop.mp hback
    rw [hdrop] at hspelling
    exact absurd ⟨_, hspelling.symm⟩ (spelling_back entry hentry _ (Nat.sub_lt (by decide) hpos))

/-- **Inside the guard word** there are names and numbers, and `In` with its English
spelling. -/
theorem kind_middle (h : token.Munched) (hmiddle : foldText token.text <:+: guardWord) :
    token.kind.isFront = true ∧ token.kind.isBack = true ∧
      (token.kind = .keyword .In → foldText token.text = ['i', 'n']) := by
  have hsplit : token.text = [] ++ (token.text ++ []) := by simp
  rcases h.kind_of_part hsplit (letters_of_occurs hmiddle) h.text_ne_nil (.inl rfl) with
    hkind | hkind | ⟨entry, hentry, hkind, hspelling⟩
  · rw [hkind]
    exact ⟨rfl, rfl, nofun⟩
  · rw [hkind]
    exact ⟨rfl, rfl, nofun⟩
  · rw [List.map_nil, List.nil_append, List.append_nil] at hspelling
    rw [← hspelling] at hmiddle ⊢
    rw [hkind, spelling_middle entry hentry hmiddle]
    exact ⟨rfl, rfl, fun _ => rfl⟩

end Token.Munched

/-- A word that is spread over tokens around one in the middle. -/
theorem word_around {word front back : List Char} {before behind : List Token} {token : Token}
    (h : word = front ++ foldText ((before ++ token :: behind).flatMap Token.text) ++ back) :
    word = (front ++ foldText (before.flatMap Token.text)) ++
      (foldText token.text ++ (foldText (behind.flatMap Token.text) ++ back)) := by
  rw [h, List.flatMap_append, List.flatMap_cons, foldText_append, foldText_append]
  simp only [List.append_assoc]

namespace SpreadOver

variable {run : List Token}

/-- **The tokens that the guard word is spread over** let it run on from each to the next. -/
theorem openAt (h : SpreadOver guardWord run) (hrun : ∀ token ∈ run, token.Munched) {n : Nat}
    (hpos : 0 < n) (hn : n < run.length) : OpenAt (run.map Token.kind) n := by
  obtain ⟨hfront, hback, hfirst, hlast, hword⟩ := h
  rename_i a b middle front back
  have hmiddle : ∀ token ∈ middle, foldText token.text <:+: guardWord := by
    intro token htoken
    obtain ⟨before, behind, rfl⟩ := List.append_of_mem htoken
    exact ⟨_, _, (List.append_assoc _ _ _).trans (word_around hword).symm⟩
  -- all but the last can stand in front, and all but the first behind
  have hfronts : ∀ token ∈ a :: middle, token.kind.isFront = true := by
    intro token htoken
    rcases List.mem_cons.mp htoken with rfl | htoken
    · exact ((hrun token (by simp)).kind_front hfront
        ⟨_, by rw [hword, List.append_assoc]⟩ hfirst).1
    · exact ((hrun token (by simp [htoken])).kind_middle (hmiddle token htoken)).1
  have hbacks : ∀ token ∈ middle ++ [b], token.kind.isBack = true := by
    intro token htoken
    rcases List.mem_append.mp htoken with htoken | htoken
    · exact ((hrun token (by simp [htoken])).kind_middle (hmiddle token htoken)).2.1
    · obtain rfl := List.mem_singleton.mp htoken
      exact ((hrun token (by simp)).kind_back hback ⟨_, hword.symm⟩ hlast).1
  obtain ⟨m, rfl⟩ : ∃ m, n = m + 1 := ⟨n - 1, by omega⟩
  simp only [List.length_cons, List.length_append, List.length_nil] at hn
  have hm : m < (a :: middle).length := by
    simp only [List.length_cons]
    omega
  have hm' : m < (middle ++ [b]).length := by
    simp only [List.length_append, List.length_cons]
    omega
  refine ⟨hpos, ⟨(a :: middle)[m].kind, ?_, hfronts _ (List.getElem_mem hm)⟩,
    ⟨(middle ++ [b])[m].kind, ?_, hbacks _ (List.getElem_mem hm')⟩⟩
  · rw [Nat.add_sub_cancel, ← List.cons_append, List.getElem?_map, List.getElem?_append_left hm,
      List.getElem?_eq_getElem hm]
    rfl
  · rw [List.getElem?_map, List.getElem?_cons_succ, List.getElem?_eq_getElem hm']
    rfl

/-- **Before `In`** stands the first token alone. -/
theorem nil_before_in {front back : List Char} {before behind : List Token} {token : Token}
    (hword : guardWord =
      front ++ foldText ((before ++ token :: behind).flatMap Token.text) ++ back)
    (hfront : front ≠ []) (hbefore : ∀ other ∈ before, other.Munched) (htoken : token.Munched)
    (hkind : token.kind = .keyword .In) : before = [] := by
  have haround := word_around hword
  have hin := (htoken.kind_middle ⟨_, _, (List.append_assoc _ _ _).trans haround.symm⟩).2.2 hkind
  rw [hin] at haround
  -- the one letter before it is in the first token, and no token is empty
  have hone := length_before_in haround
  have hpos := List.length_pos_of_ne_nil hfront
  rw [List.length_append] at hone
  have hzero : (foldText (before.flatMap Token.text)).length = 0 := by omega
  have hnil := List.map_eq_nil_iff.mp (List.length_eq_zero_iff.mp hzero)
  refine List.eq_nil_iff_forall_not_mem.mpr fun other hother => ?_
  exact (hbefore other hother).text_ne_nil (List.flatMap_eq_nil_iff.mp hnil _ hother)

/-- **`In` is the second of at least three tokens**, if it is one of them. -/
theorem in_second (h : SpreadOver guardWord run) (hrun : ∀ token ∈ run, token.Munched) {n : Nat}
    {token : Token} (htoken : run[n]? = some token) (hkind : token.kind = .keyword .In) :
    n = 1 ∧ 3 ≤ run.length := by
  obtain ⟨hfront, hback, hfirst, hlast, hword⟩ := h
  rename_i a b middle front back
  -- it is neither the first token nor the last one
  have ha := ((hrun a (by simp)).kind_front hfront ⟨_, by rw [hword, List.append_assoc]⟩ hfirst).2
  have hb := ((hrun b (by simp)).kind_back hback ⟨_, hword.symm⟩ hlast).2
  cases n with
  | zero =>
    obtain rfl := Option.some.inj htoken
    exact absurd hkind ha
  | succ m =>
    rw [List.getElem?_cons_succ] at htoken
    by_cases hm : m < middle.length
    · rw [List.getElem?_append_left hm] at htoken
      obtain ⟨before, behind, rfl, rfl⟩ : ∃ before behind, middle = before ++ token :: behind ∧
          before.length = m := by
        obtain ⟨-, rfl⟩ := List.getElem?_eq_some_iff.mp htoken
        exact ⟨middle.take m, middle.drop (m + 1), by simp, by simp [Nat.le_of_lt hm]⟩
      obtain rfl := nil_before_in hword hfront (fun other hother => hrun other (by simp [hother]))
        (hrun token (by simp)) hkind
      exact ⟨rfl, by simp⟩
    · obtain ⟨hm', rfl⟩ := List.getElem?_eq_some_iff.mp htoken
      rw [List.getElem_append_right (Nat.le_of_not_lt hm), List.getElem_singleton] at hkind
      exact absurd hkind hb

end SpreadOver

end ModuleLint
