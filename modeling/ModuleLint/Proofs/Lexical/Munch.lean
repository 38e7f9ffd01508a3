/-
ModuleLint/Proofs/Lexical/Munch.lean

Where a piece ends.  `munch` looks ahead in the text, so how far a piece reaches could
depend on all that follows it.  It does not: a piece is a piece all by itself, and what
follows must not begin in a way that prolongs it.

Main result: `munch_append_iff`.  Some characters are munched in front of a text if and
only if they are munched at the end of input, and the text does not prolong them.
-/
import ModuleLint.Proofs.Lexical.Lengths

namespace ModuleLint

namespace Lexical

variable {c : Char} {word rest : List Char} {touched : Bool} {kind : PieceKind} {n m : Nat}

/-! ### Pieces -/

theorem prolongs_wordKind {name : List Char} :
    prolongs (.token (wordKind name)) word rest = rest.head?.any isWordPart := by
  unfold wordKind
  split
  · rfl
  · rfl

/-- A piece of a known kind ends with its word, if its length says so. -/
theorem ok_append_iff {found : PieceKind}
    (h : n = word.length ↔ m = word.length ∧ prolongs found word rest = false) :
    (.ok (found, n) : Except LexicalFault _) = .ok (kind, word.length) ↔
      (.ok (found, m) : Except LexicalFault _) = .ok (kind, word.length) ∧
        prolongs kind word rest = false := by
  simp only [Except.ok.injEq, Prod.mk.injEq, h]
  constructor
  · rintro ⟨rfl, hm, hrest⟩
    exact ⟨⟨rfl, hm⟩, hrest⟩
  · rintro ⟨⟨rfl, hm⟩, hrest⟩
    exact ⟨rfl, hm, hrest⟩

theorem literal_eq_ok_iff {found : PieceKind} {fault : LexicalFault} {length : Option Nat} :
    (match length with
      | some n => .ok (found, n)
      | none => .error fault : Except LexicalFault _) = .ok (kind, m) ↔
      found = kind ∧ length = some m := by
  cases length with
  | none => simp
  | some n => simp

/-- A literal ends with its word, if its closing quote does. -/
theorem literal_append_iff {found : PieceKind} {fault : LexicalFault} {a b : Option Nat}
    (h : a = some word.length ↔ b = some word.length ∧ prolongs found word rest = false) :
    (match a with
      | some n => .ok (found, n)
      | none => .error fault : Except LexicalFault _) = .ok (kind, word.length) ↔
      (match b with
        | some n => .ok (found, n)
        | none => .error fault : Except LexicalFault _) = .ok (kind, word.length) ∧
        prolongs kind word rest = false := by
  rw [literal_eq_ok_iff, literal_eq_ok_iff, h]
  constructor
  · rintro ⟨rfl, hb, hrest⟩
    exact ⟨⟨rfl, hb⟩, hrest⟩
  · rintro ⟨⟨rfl, hb⟩, hrest⟩
    exact ⟨rfl, hb, hrest⟩

theorem sign_eq_ok_iff {fault : LexicalFault} {found : Option (TokenKind × Nat)} :
    (match found with
      | some (sign, n) => .ok (.token sign, n)
      | none => .error fault : Except LexicalFault _) = .ok (kind, m) ↔
      ∃ sign, .token sign = kind ∧ found = some (sign, m) := by
  cases found with
  | none => simp
  | some entry =>
    obtain ⟨found, n⟩ := entry
    simp only [Except.ok.injEq, Prod.mk.injEq, Option.some.injEq]
    constructor
    · rintro ⟨hkind, hn⟩
      exact ⟨found, hkind, rfl, hn⟩
    · rintro ⟨sign, hkind, rfl, hn⟩
      exact ⟨hkind, hn⟩

/-- A sign ends with its word, if nothing that follows makes it a longer one. -/
theorem sign_append_iff {fault : LexicalFault} (hslash : c ≠ '/') :
    (match sign? c (word ++ rest) with
      | some (sign, n) => .ok (.token sign, n)
      | none => .error fault : Except LexicalFault _) = .ok (kind, word.length) ↔
      (match sign? c word with
        | some (sign, n) => .ok (.token sign, n)
        | none => .error fault : Except LexicalFault _) = .ok (kind, word.length) ∧
        prolongs kind word rest = false := by
  rw [sign_eq_ok_iff, sign_eq_ok_iff]
  constructor
  · rintro ⟨sign, rfl, hsign⟩
    obtain ⟨hword, hrest⟩ := (sign?_append_iff hslash).mp hsign
    exact ⟨⟨sign, rfl, hword⟩, hrest⟩
  · rintro ⟨⟨sign, rfl, hword⟩, hrest⟩
    exact ⟨sign, rfl, (sign?_append_iff hslash).mpr ⟨hword, hrest⟩⟩

/-- The kind of a word depends on the word alone. -/
theorem word_append_iff :
    (.ok (.token (wordKind (c :: (word ++ rest).take (wordLength (word ++ rest)))),
        wordLength (word ++ rest)) : Except LexicalFault _) = .ok (kind, word.length) ↔
      (.ok (.token (wordKind (c :: word.take (wordLength word))), wordLength word) :
        Except LexicalFault _) = .ok (kind, word.length) ∧ prolongs kind word rest = false := by
  simp only [Except.ok.injEq, Prod.mk.injEq]
  constructor
  · rintro ⟨hkind, hlength⟩
    obtain ⟨hword, hrest⟩ := wordLength_append_iff.mp hlength
    rw [hlength, List.take_left] at hkind
    rw [hword, List.take_length, ← hkind, prolongs_wordKind]
    exact ⟨⟨rfl, rfl⟩, hrest⟩
  · rintro ⟨⟨hkind, hword⟩, hrest⟩
    rw [hword, List.take_length] at hkind
    rw [← hkind, prolongs_wordKind] at hrest
    have hlength := wordLength_append_iff.mpr ⟨hword, hrest⟩
    rw [hlength, List.take_left]
    exact ⟨hkind, rfl⟩

/-- A slash is a sign, or the first half of what opens a comment. -/
theorem munch_slash :
    munch touched '/' rest =
      if rest.head? = some '/' then .ok (.trivia .comment, lineLength rest)
      else .ok (.token .slash, 0) := by
  have hseparator : isSeparator '/' = false := by decide
  have hword : isWordStart '/' = false := by decide
  by_cases hrest : rest.head? = some '/'
  · simp [munch, hseparator, hrest]
  · simp [munch, hseparator, hword, hrest, sign?]

/-- A slash in front of a word and a text. -/
theorem munch_slash_append_iff :
    munch touched '/' (word ++ rest) = .ok (kind, word.length) ↔
      munch touched '/' word = .ok (kind, word.length) ∧ prolongs kind word rest = false := by
  rw [munch_slash, munch_slash]
  cases word with
  | nil =>
    by_cases hrest : rest.head? = some '/'
    · -- the text begins with the second half of what opens a comment
      obtain ⟨more, rfl⟩ := List.head?_eq_some_iff.mp hrest
      refine iff_of_false (by simp [lineLength]) ?_
      rintro ⟨hsign, hshort⟩
      cases hsign
      cases hshort
    · rw [List.nil_append, if_neg hrest]
      refine (and_iff_left_of_imp fun hsign => ?_).symm
      cases hsign
      simpa [prolongs] using hrest
  | cons d word =>
    have hhead : (d :: word ++ rest).head? = (d :: word).head? := rfl
    rw [hhead]
    split
    · exact ok_append_iff lineLength_append_iff
    · simp

/-- **A piece is what it is by itself**, as long as nothing that follows prolongs it. -/
theorem munch_append_iff :
    munch touched c (word ++ rest) = .ok (kind, word.length) ↔
      munch touched c word = .ok (kind, word.length) ∧ prolongs kind word rest = false := by
  by_cases hslash : c = '/'
  · rw [hslash]
    exact munch_slash_append_iff
  have hcomment : ∀ more : List Char, (c == '/' && more.head? == some '/') = false := by
    simp [hslash]
  simp only [munch, hcomment]
  -- one case for each way in which `munch` can decide
  split
  · exact ok_append_iff (by simp [prolongs])
  split
  · contradiction
  split
  · exact ok_append_iff lineLength_append_iff
  split
  · exact word_append_iff
  split
  · exact ok_append_iff (by rw [prolongs_number]; exact numberLength_append_iff)
  split
  · have hstring := @stringLength_append_iff word rest 0
    rw [Nat.zero_add] at hstring
    exact literal_append_iff (by simpa [prolongs] using hstring)
  split
  · exact literal_append_iff (by simpa [prolongs] using dateLength_append_iff)
  · exact sign_append_iff hslash

/-! ### What a piece can be -/

/-- **What a piece can be**, and how far it then reaches. -/
inductive Munched (c : Char) (rest : List Char) : PieceKind → Nat → Prop
  | blank (h : isSeparator c = true) : Munched c rest .blank 0
  | trivia (kind : TriviaKind) (h : c ≠ '\n') : Munched c rest (.trivia kind) (lineLength rest)
  | word (h : isWordStart c = true) :
    Munched c rest (.token (wordKind (c :: rest.take (wordLength rest)))) (wordLength rest)
  | number (h : c.isDigit = true) : Munched c rest (.token .number) (numberLength rest)
  | string {n : Nat} (h : stringLength 0 rest = some n) : Munched c rest (.token .string) n
  | date {n : Nat} (h : dateLength rest = some n) : Munched c rest (.token .date) n
  | sign {kind : TokenKind} {n : Nat} (h : sign? c rest = some (kind, n)) :
    Munched c rest (.token kind) n

theorem munched_of_munch (h : munch touched c rest = .ok (kind, n)) : Munched c rest kind n := by
  unfold munch at h
  split at h
  · rename_i hseparator
    cases h
    exact .blank hseparator
  split at h
  · rename_i hslash
    cases h
    exact .trivia _ (beq_iff_eq.mp (Bool.and_eq_true_iff.mp hslash).1 ▸ by decide)
  split at h
  · rename_i hhash
    cases h
    exact .trivia _ (beq_iff_eq.mp (Bool.and_eq_true_iff.mp hhash).1 ▸ by decide)
  split at h
  · rename_i hstart
    cases h
    exact .word hstart
  split at h
  · rename_i hdigit
    cases h
    exact .number hdigit
  split at h
  · obtain ⟨rfl, hlength⟩ := literal_eq_ok_iff.mp h
    exact .string hlength
  split at h
  · obtain ⟨rfl, hlength⟩ := literal_eq_ok_iff.mp h
    exact .date hlength
  · obtain ⟨sign, rfl, hsign⟩ := sign_eq_ok_iff.mp h
    exact .sign hsign

/-- **A piece reaches no further than the text.** -/
theorem munch_le (h : munch touched c rest = .ok (kind, n)) : n ≤ rest.length := by
  cases munched_of_munch h with
  | blank => exact Nat.zero_le _
  | trivia => exact lineLength_le
  | word => exact wordLength_le
  | number => exact numberLength_le
  | string hlength =>
    have hle := stringLength_le hlength
    rwa [Nat.zero_add] at hle
  | date hlength => exact dateLength_le hlength
  | sign hsign => exact sign?_le hsign

/-- A blank is one character that separates. -/
theorem munch_blank (h : munch touched c rest = .ok (.blank, n)) :
    isSeparator c = true ∧ n = 0 := by
  cases munched_of_munch h with
  | blank hseparator => exact ⟨hseparator, rfl⟩

/-- A comment and a preprocessor line end before the end of the line. -/
theorem munch_trivia {trivia : TriviaKind} (h : munch touched c rest = .ok (.trivia trivia, n)) :
    c ≠ '\n' ∧ n = lineLength rest := by
  generalize hkind : PieceKind.trivia trivia = kind at h
  cases munched_of_munch h with
  | trivia kind hc => exact ⟨hc, rfl⟩
  | _ => cases hkind

/-- A reserved word begins as a word does. -/
theorem munch_keyword {reserved : Keyword}
    (h : munch touched c rest = .ok (.token (.keyword reserved), n)) : isWordStart c = true := by
  generalize hkind : PieceKind.token (.keyword reserved) = kind at h
  cases munched_of_munch h with
  | word hstart => exact hstart
  | sign hsign =>
    cases hkind
    exact absurd hsign sign?_ne_keyword
  | _ => cases hkind

end Lexical

end ModuleLint
