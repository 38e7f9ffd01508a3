/-
ModuleLint/Proofs/Lexical/Lengths.lean

How far words, numbers, literals and signs reach.  Each is measured on the text ahead,
all of it, and yet depends on very little of what follows: its length is the same in front
of any text that does not *prolong* it.  `prolongs` says for each kind of piece which
texts do.

For each measure there is one lemma about a word in front of a text (`_append_iff`) and
one that it reaches no further than the text (`_le`).
-/
import ModuleLint.Lexical.Piece

namespace ModuleLint

namespace Lexical

variable {p : Char → Bool} {c d : Char} {word rest more : List Char} {kind : PieceKind}
  {n m : Nat}

/-- A point with a digit behind it. -/
def beginsFraction (rest : List Char) : Bool :=
  rest.head? == some '.' && rest.tail.head?.any Char.isDigit

/-- **Whether a text would prolong a piece** that stands before it; `word` are the
characters of the piece behind its first one. -/
def prolongs (kind : PieceKind) (word rest : List Char) : Bool :=
  match kind with
  | .trivia _ => rest.head?.any (· != '\n')
  | .token (.keyword _) | .token .identifier => rest.head?.any isWordPart
  | .token .number =>
    rest.head?.any Char.isDigit || (!word.contains '.' && beginsFraction rest)
  | .token .string => rest.head? == some '"'
  | .token .slash => rest.head? == some '/'
  | .token .less => rest.head? == some '>' || rest.head? == some '='
  | .token .greater => rest.head? == some '='
  | _ => false

/-- It is told by the first character of the text, and by whether a fraction begins. -/
theorem prolongs_congr (hhead : rest.head? = more.head?)
    (hfraction : beginsFraction rest = beginsFraction more) :
    prolongs kind word rest = prolongs kind word more := by
  unfold prolongs
  rw [hhead, hfraction]

/-- A blank prolongs nothing but comments and preprocessor lines. -/
theorem prolongs_blank (hkind : ∀ trivia, kind ≠ .trivia trivia) :
    prolongs kind word (' ' :: rest) = false := by
  unfold prolongs
  split
  · rename_i trivia
    exact absurd rfl (hkind trivia)
  · rfl
  · rfl
  · exact Bool.and_false _
  all_goals rfl

/-! ### Runs of characters -/

theorem forall_of_length_takeWhile (h : (word.takeWhile p).length = word.length) :
    ∀ d ∈ word, p d = true := by
  have hall : (word.takeWhile p).all p = true := List.all_takeWhile
  rw [(List.takeWhile_prefix p).eq_of_length h] at hall
  exact List.all_eq_true.mp hall

/-- What begins a word could also continue one. -/
theorem isWordPart_of_isWordStart (h : isWordStart c = true) : isWordPart c = true := by
  rw [isWordStart, Bool.or_eq_true] at h
  rw [isWordPart, isAlphanumeric]
  rcases h with h | h
  · rw [h, Bool.true_or, Bool.true_or]
  · rw [h, Bool.or_true]

/-- A run of characters takes all of a word and no more, if what follows does not go on
with it. -/
theorem length_takeWhile_append_iff :
    ((word ++ rest).takeWhile p).length = word.length ↔
      (word.takeWhile p).length = word.length ∧ rest.head?.any p = false := by
  rw [List.takeWhile_append]
  split
  · rename_i hword
    cases rest with
    | nil => simp [hword]
    | cons d rest =>
      by_cases hd : p d = true
      · simp [hd, hword]
      · simp [hd, hword]
  · rename_i hword
    simp [hword]

/-- A line takes all of a word and no more, if it ends behind the word. -/
theorem lineLength_append_iff {kind : TriviaKind} :
    lineLength (word ++ rest) = word.length ↔
      lineLength word = word.length ∧ prolongs (.trivia kind) word rest = false :=
  length_takeWhile_append_iff

theorem wordLength_append_iff :
    wordLength (word ++ rest) = word.length ↔
      wordLength word = word.length ∧ rest.head?.any isWordPart = false :=
  length_takeWhile_append_iff

/-! ### Numbers -/

theorem digitCount_append_iff :
    digitCount (word ++ rest) = word.length ↔
      digitCount word = word.length ∧ rest.head?.any Char.isDigit = false :=
  length_takeWhile_append_iff

theorem digitCount_cons_of_pos (hd : d.isDigit = true) :
    digitCount (d :: rest) = digitCount rest + 1 := by
  simp [digitCount, hd]

theorem digitCount_cons_of_neg (hd : d.isDigit = false) : digitCount (d :: rest) = 0 := by
  simp [digitCount, hd]

theorem numberLength_cons_of_pos (hd : d.isDigit = true) :
    numberLength (d :: rest) = numberLength rest + 1 := by
  unfold numberLength
  rw [digitCount_cons_of_pos hd, List.drop_succ_cons]
  split
  · split
    · omega
    · rfl
  · rfl

/-- Behind its digits a number goes on with a fraction, or not at all. -/
theorem numberLength_cons_of_neg (hd : d.isDigit = false) :
    numberLength (d :: rest) =
      if beginsFraction (d :: rest) then digitCount rest + 1 else 0 := by
  unfold numberLength
  rw [digitCount_cons_of_neg hd, List.drop_zero]
  split
  · rename_i e more heq
    obtain ⟨rfl, rfl⟩ := List.cons.inj heq
    by_cases he : e.isDigit = true
    · have hfraction : beginsFraction ('.' :: e :: more) = true := by simp [beginsFraction, he]
      rw [if_pos he, if_pos hfraction, digitCount_cons_of_pos he]
      omega
    · simp [beginsFraction, he]
  · rename_i hnot
    rw [if_neg]
    intro hfraction
    cases rest with
    | nil => simp [beginsFraction] at hfraction
    | cons e more =>
      have hpoint : d = '.' := by
        simp [beginsFraction] at hfraction
        exact hfraction.1
      exact hnot e more (by rw [hpoint])

/-- A number takes nothing at all where neither a digit nor a fraction begins. -/
theorem numberLength_eq_zero_iff :
    numberLength rest = 0 ↔ rest.head?.any Char.isDigit = false ∧ beginsFraction rest = false := by
  cases rest with
  | nil => simp [numberLength, digitCount, beginsFraction]
  | cons d rest =>
    by_cases hd : d.isDigit = true
    · simp [numberLength_cons_of_pos hd, hd]
    · rw [Bool.not_eq_true] at hd
      rw [numberLength_cons_of_neg hd]
      by_cases hfraction : beginsFraction (d :: rest) = true
      · simp [hfraction]
      · simp [hfraction, hd]

/-- A number takes all of a word and no more, if what follows is no digit, and does not
add the fraction that the word lacks. -/
theorem numberLength_append_iff :
    numberLength (word ++ rest) = word.length ↔
      numberLength word = word.length ∧ rest.head?.any Char.isDigit = false ∧
        ('.' ∉ word → beginsFraction rest = false) := by
  -- by induction on the digits of the word, up to its point
  induction word with
  | nil => simpa [numberLength, digitCount] using numberLength_eq_zero_iff
  | cons d word ih =>
    rw [List.cons_append, List.length_cons]
    by_cases hd : d.isDigit = true
    · have hne : '.' ≠ d := by
        rintro rfl
        cases hd
      rw [numberLength_cons_of_pos hd, numberLength_cons_of_pos hd]
      simpa [hne] using ih
    · rw [Bool.not_eq_true] at hd
      rw [numberLength_cons_of_neg hd, numberLength_cons_of_neg hd]
      by_cases hpoint : d = '.'
      · subst hpoint
        cases word with
        | nil =>
          -- a point alone is never taken
          cases rest with
          | nil => simp [beginsFraction]
          | cons e rest =>
            by_cases he : e.isDigit = true
            · simp [beginsFraction, he, digitCount_cons_of_pos he]
            · simp [beginsFraction, he]
        | cons e word =>
          have hsame : beginsFraction ('.' :: (e :: word ++ rest)) =
              beginsFraction ('.' :: e :: word) := rfl
          rw [hsame]
          split
          · simpa only [Nat.add_right_cancel_iff, List.mem_cons_self, not_true_eq_false,
              false_implies, and_true] using digitCount_append_iff
          · simp
      · simp [beginsFraction, hpoint]

theorem prolongs_number :
    prolongs (.token .number) word rest = false ↔ rest.head?.any Char.isDigit = false ∧
      ('.' ∉ word → beginsFraction rest = false) := by
  by_cases hpoint : '.' ∈ word
  · simp [prolongs, hpoint]
  · simp [prolongs, hpoint]

/-! ### Literals in quotes -/

/-- A doubled quote is passed over. -/
theorem stringLength_quotes : stringLength n ('"' :: '"' :: rest) = stringLength (n + 2) rest := by
  rw [stringLength]

/-- A single quote closes the literal. -/
theorem stringLength_quote (hrest : rest.head? ≠ some '"') :
    stringLength n ('"' :: rest) = some (n + 1) := by
  cases rest with
  | nil => rw [stringLength]; simp
  | cons d rest =>
    have hd : d ≠ '"' := fun h => hrest (congrArg some h)
    rw [stringLength]
    simpa using hd

theorem stringLength_cons (hd : d ≠ '"') :
    stringLength n (d :: rest) = stringLength (n + 1) rest := by
  rw [stringLength]
  · exact fun _ heq _ => hd heq
  · exact hd

/-- A string literal has its closing quote. -/
theorem lt_of_stringLength (h : stringLength n rest = some m) : n < m := by
  fun_induction stringLength n rest with
  | case1 n rest ih => exact Nat.lt_of_succ_lt (Nat.lt_of_succ_lt (ih h))
  | case2 n rest => exact Option.some.inj h ▸ Nat.lt_succ_self n
  | case3 n d rest _ _ ih => exact Nat.lt_of_succ_lt (ih h)
  | case4 n => cases h

/-- A string literal takes all of a word and no more, if no further quote follows, which
would have doubled the closing one. -/
theorem stringLength_append_iff :
    stringLength n (word ++ rest) = some (n + word.length) ↔
      stringLength n word = some (n + word.length) ∧ rest.head? ≠ some '"' := by
  fun_induction stringLength n word with
  | case1 n word ih =>
    have hlength : n + ('"' :: '"' :: word).length = n + 2 + word.length := by
      simp only [List.length_cons]
      omega
    rw [List.cons_append, List.cons_append, stringLength_quotes, hlength]
    exact ih
  | case2 n word hword =>
    cases word with
    | nil =>
      by_cases hrest : rest.head? = some '"'
      · -- the quote that follows doubles the closing one
        obtain ⟨more, rfl⟩ := List.head?_eq_some_iff.mp hrest
        have hlong : stringLength n ('"' :: '"' :: more) ≠ some (n + 1) := by
          rw [stringLength_quotes]
          intro h
          have := lt_of_stringLength h
          omega
        simp [hlong]
      · simp [stringLength_quote hrest, hrest]
    | cons d word =>
      have hd : d ≠ '"' := by
        rintro rfl
        exact hword word rfl
      rw [List.cons_append, List.cons_append, stringLength_quote (by simpa using hd)]
      simp
  | case3 n d word h1 h2 ih =>
    have hlength : n + (d :: word).length = n + 1 + word.length := by
      simp only [List.length_cons]
      omega
    rw [List.cons_append, stringLength_cons h2, hlength]
    exact ih
  | case4 n =>
    have hlong : stringLength n rest ≠ some n := fun h =>
      Nat.lt_irrefl n (lt_of_stringLength h)
    simp [hlong]

/-- A date literal is read character by character. -/
theorem dateLength_cons :
    dateLength (d :: rest) = if d = '\'' then some 1 else if d = '\n' then none else
      (dateLength rest).map (· + 1) := by
  by_cases hquote : d = '\''
  · subst hquote
    simp [dateLength]
  · by_cases hline : d = '\n'
    · subst hline
      simp [dateLength]
    · have hd : (d != '\'' && d != '\n') = true := by simp [hquote, hline]
      rw [if_neg hquote, if_neg hline, dateLength, dateLength]
      simp only [List.takeWhile_cons, hd, if_true, List.length_cons, List.drop_succ_cons]
      split
      · rfl
      · rfl

/-- A date literal has its closing quote. -/
theorem dateLength_ne_zero : dateLength rest ≠ some 0 := by
  rw [dateLength]
  split
  · exact fun h => Nat.succ_ne_zero _ (Option.some.inj h)
  · exact fun h => nomatch h

/-- A date literal ends where its own characters say so. -/
theorem dateLength_append_iff :
    dateLength (word ++ rest) = some word.length ↔ dateLength word = some word.length := by
  induction word with
  | nil => exact iff_of_false dateLength_ne_zero dateLength_ne_zero
  | cons d word ih =>
    rw [List.cons_append, dateLength_cons, dateLength_cons, List.length_cons]
    split
    · rfl
    · split
      · rfl
      · simpa using ih

/-! ### Signs -/

theorem sign?_less :
    sign? '<' rest =
      if rest.head? = some '>' then some (.notEq, 1)
      else if rest.head? = some '=' then some (.lessEq, 1)
      else some (.less, 0) := by
  cases rest with
  | nil => rfl
  | cons d rest =>
    by_cases hgreater : d = '>'
    · simp [sign?, hgreater]
    · by_cases heq : d = '='
      · simp [sign?, heq]
      · simp [sign?, hgreater, heq]

theorem sign?_greater :
    sign? '>' rest =
      if rest.head? = some '=' then some (.greaterEq, 1) else some (.greater, 0) := by
  cases rest with
  | nil => rfl
  | cons d rest =>
    by_cases heq : d = '='
    · simp [sign?, heq]
    · simp [sign?, heq]

/-- Only two signs look ahead. -/
theorem sign?_congr (hless : c ≠ '<') (hgreater : c ≠ '>') : sign? c rest = sign? c [] := by
  unfold sign?
  split
  all_goals first | rfl | contradiction

/-- In front of nothing a sign is one character. -/
theorem sign?_nil {sign : TokenKind} (h : sign? c [] = some (sign, n)) : n = 0 := by
  unfold sign? at h
  split at h
  all_goals first | contradiction | (cases h; rfl)

/-- Only three signs can be prolonged. -/
theorem prolongs_sign {sign : TokenKind} (h : sign? c [] = some (sign, n)) (hslash : c ≠ '/')
    (hless : c ≠ '<') (hgreater : c ≠ '>') : prolongs (.token sign) word rest = false := by
  unfold sign? at h
  split at h
  all_goals first | contradiction | (cases h; rfl)

/-- A sign looks at no more than one character. -/
theorem sign?_cons_append : sign? c (d :: word ++ rest) = sign? c (d :: word) := by
  by_cases hless : c = '<'
  · rw [hless, sign?_less, sign?_less]
    rfl
  · by_cases hgreater : c = '>'
    · rw [hgreater, sign?_greater, sign?_greater]
      rfl
    · rw [sign?_congr hless hgreater]
      exact (sign?_congr hless hgreater).symm

/-- A sign of two characters cannot be prolonged. -/
theorem prolongs_long {sign : TokenKind} (h : sign? c more = some (sign, n + 1)) :
    prolongs (.token sign) word rest = false := by
  by_cases hless : c = '<'
  · rw [hless, sign?_less] at h
    split at h
    · cases h
      rfl
    · split at h
      · cases h
        rfl
      · cases h
  · by_cases hgreater : c = '>'
    · rw [hgreater, sign?_greater] at h
      split at h
      · cases h
        rfl
      · cases h
    · rw [sign?_congr hless hgreater] at h
      exact absurd (sign?_nil h) (Nat.succ_ne_zero n)

/-- A sign of one character stands alone, if what follows does not make it a longer one. -/
theorem sign?_eq_iff {sign : TokenKind} (hslash : c ≠ '/') :
    sign? c rest = some (sign, 0) ↔
      sign? c [] = some (sign, 0) ∧ prolongs (.token sign) [] rest = false := by
  by_cases hless : c = '<'
  · have halone : sign? '<' [] = some (.less, 0) := rfl
    rw [hless, halone, sign?_less]
    -- the second character of a longer sign is what prolongs the short one
    by_cases hrest : prolongs (.token .less) [] rest = true
    · refine iff_of_false ?_ ?_
      · rcases Bool.or_eq_true _ _ ▸ hrest with hrest | hrest
        · simp [beq_iff_eq.mp hrest]
        · simp [beq_iff_eq.mp hrest]
      · rintro ⟨hsign, hshort⟩
        cases hsign
        rw [hrest] at hshort
        cases hshort
    · have hshort : rest.head? ≠ some '>' ∧ rest.head? ≠ some '=' := by
        simpa [prolongs] using hrest
      rw [if_neg hshort.1, if_neg hshort.2]
      refine (and_iff_left_of_imp fun hsign => ?_).symm
      cases hsign
      exact Bool.eq_false_iff.mpr hrest
  · by_cases hgreater : c = '>'
    · have halone : sign? '>' [] = some (.greater, 0) := rfl
      rw [hgreater, halone, sign?_greater]
      by_cases hrest : rest.head? = some '='
      · rw [if_pos hrest]
        refine iff_of_false (by simp) ?_
        rintro ⟨hsign, hshort⟩
        cases hsign
        simp [prolongs, hrest] at hshort
      · rw [if_neg hrest]
        refine (and_iff_left_of_imp fun hsign => ?_).symm
        cases hsign
        simpa [prolongs] using hrest
    · rw [sign?_congr hless hgreater]
      exact (and_iff_left_of_imp fun hsign =>
        prolongs_sign hsign hslash hless hgreater).symm

theorem sign?_append_iff {sign : TokenKind} (hslash : c ≠ '/') :
    sign? c (word ++ rest) = some (sign, word.length) ↔
      sign? c word = some (sign, word.length) ∧ prolongs (.token sign) word rest = false := by
  cases word with
  | nil => exact sign?_eq_iff hslash
  | cons d word =>
    rw [sign?_cons_append]
    exact (and_iff_left_of_imp prolongs_long).symm

/-! ### Lengths within the text -/

theorem lineLength_le : lineLength rest ≤ rest.length := (List.takeWhile_prefix _).length_le

theorem wordLength_le : wordLength rest ≤ rest.length := (List.takeWhile_prefix _).length_le

theorem digitCount_le : digitCount rest ≤ rest.length := (List.takeWhile_prefix _).length_le

theorem numberLength_le : numberLength rest ≤ rest.length := by
  induction rest with
  | nil => exact Nat.le_refl 0
  | cons d rest ih =>
    rw [List.length_cons]
    by_cases hd : d.isDigit = true
    · rw [numberLength_cons_of_pos hd]
      exact Nat.succ_le_succ ih
    · rw [numberLength_cons_of_neg (Bool.eq_false_iff.mpr hd)]
      split
      · exact Nat.succ_le_succ digitCount_le
      · exact Nat.zero_le _

theorem stringLength_le (h : stringLength n rest = some m) : m ≤ n + rest.length := by
  fun_induction stringLength n rest with
  | case1 n rest ih =>
    have := ih h
    simp only [List.length_cons]
    omega
  | case2 n rest =>
    cases h
    simp only [List.length_cons]
    omega
  | case3 n d rest _ _ ih =>
    have := ih h
    simp only [List.length_cons]
    omega
  | case4 n => cases h

theorem dateLength_le (h : dateLength rest = some m) : m ≤ rest.length := by
  induction rest generalizing m with
  | nil => cases h
  | cons d rest ih =>
    rw [dateLength_cons] at h
    rw [List.length_cons]
    split at h
    · cases h
      exact Nat.succ_le_succ (Nat.zero_le _)
    · split at h
      · cases h
      · obtain ⟨n, hn, rfl⟩ := Option.map_eq_some_iff.mp h
        exact Nat.succ_le_succ (ih hn)

theorem sign?_le {sign : TokenKind} (h : sign? c rest = some (sign, n)) : n ≤ rest.length := by
  cases rest with
  | nil => exact Nat.le_of_eq (sign?_nil h)
  | cons d rest =>
    -- the longest signs have two characters
    have hone : n ≤ 1 := by
      by_cases hless : c = '<'
      · rw [hless, sign?_less] at h
        split at h
        · cases h
          exact Nat.le_refl 1
        · split at h
          · cases h
            exact Nat.le_refl 1
          · cases h
            exact Nat.zero_le 1
      · by_cases hgreater : c = '>'
        · rw [hgreater, sign?_greater] at h
          split at h
          · cases h
            exact Nat.le_refl 1
          · cases h
            exact Nat.zero_le 1
        · rw [sign?_congr hless hgreater] at h
          rw [sign?_nil h]
          exact Nat.zero_le 1
    exact Nat.le_trans hone (Nat.succ_le_succ (Nat.zero_le _))

/-- No sign is a reserved word. -/
theorem sign?_ne_keyword {reserved : Keyword} : sign? c rest ≠ some (.keyword reserved, n) := by
  intro h
  unfold sign? at h
  split at h
  all_goals first | cases h | (split at h; all_goals cases h)

end Lexical

end ModuleLint
