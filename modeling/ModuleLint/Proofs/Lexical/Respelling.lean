/-
ModuleLint/Proofs/Lexical/Respelling.lean

Reserved words may be spelled in another way.  A source keeps the kinds of its tokens if
any of its reserved words are replaced by other spellings of the same words, in either
language and any letter case.

A spelling is munched as the word it spells, wherever it stands, and the pieces before it
end where they did: they see that a word begins, and not which one.  `Alike` relates
texts that differ in nothing else.

Main result: `tokenize_respelled`.
-/
import Mathlib.Data.List.Forall2
import Mathlib.Data.List.TakeWhile
import ModuleLint.Proofs.Lexical.Places

namespace ModuleLint

open Lexical

/-! ### Spellings -/

namespace Keyword

/-- **A spelling of a reserved word**: one of those in the table, in any letter case. -/
def SpelledBy (k : Keyword) (word : List Char) : Prop :=
  ∃ s, (s, k) ∈ spellings ∧ word.map lowerChar = s.toList

/-- A letter that the spellings in the table are written in. -/
def isLetter (c : Char) : Bool :=
  ('a' ≤ c && c ≤ 'z') || ('а' ≤ c && c ≤ 'я')

theorem letters_of_mem : ∀ entry ∈ spellings,
    entry.1.toList ≠ [] ∧ entry.1.toList.all isLetter = true := by
  decide +kernel

/-- No spelling stands for two words. -/
theorem find?_spelling : ∀ entry ∈ spellings,
    spellings.find? (fun e => e.1.toList == entry.1.toList) = some entry := by
  decide +kernel

variable {k : Keyword} {word : List Char}

/-- **A spelling is looked up** as the word it spells. -/
theorem SpelledBy.lookup_eq (h : k.SpelledBy word) : lookup word = some k := by
  obtain ⟨s, hmem, hlower⟩ := h
  rw [lookup, hlower, find?_spelling _ hmem]
  rfl

theorem SpelledBy.ne_nil (h : k.SpelledBy word) : word ≠ [] := by
  rintro rfl
  obtain ⟨s, hmem, hlower⟩ := h
  exact (letters_of_mem _ hmem).1 hlower.symm

theorem SpelledBy.isLetter (h : k.SpelledBy word) {c : Char} (hc : c ∈ word) :
    isLetter (lowerChar c) = true := by
  obtain ⟨s, hmem, hlower⟩ := h
  refine List.all_eq_true.mp (letters_of_mem _ hmem).2 _ ?_
  rw [← hlower]
  exact List.mem_map_of_mem hc

/-- The letters of spellings in all their forms, by their code points. -/
theorem range_of_isLetter {c : Char} (h : Keyword.isLetter (lowerChar c) = true) :
    (0x41 ≤ c.toNat ∧ c.toNat ≤ 0x5A) ∨ (0x61 ≤ c.toNat ∧ c.toNat ≤ 0x7A) ∨
      (0x410 ≤ c.toNat ∧ c.toNat ≤ 0x44F) ∨ c.toNat = 0x212A := by
  unfold lowerChar at h
  split at h
  · rename_i hlatin
    exact .inl hlatin
  split at h
  · rename_i hrussian
    have hfirst : 0x410 ≤ c.toNat := hrussian.1
    have hlast : c.toNat ≤ 0x42F := hrussian.2
    omega
  split at h
  · rename_i hkelvin
    rw [hkelvin]
    decide
  · -- the lower-case letters themselves
    simp only [Keyword.isLetter, Bool.or_eq_true, Bool.and_eq_true, decide_eq_true_eq] at h
    rcases h with ⟨hfirst, hlast⟩ | ⟨hfirst, hlast⟩
    · exact .inr (.inl ⟨hfirst, hlast⟩)
    · have hfirst : 0x430 ≤ c.toNat := hfirst
      have hlast : c.toNat ≤ 0x44F := hlast
      omega

end Keyword

theorem inRanges_of_mem {ranges : List (Nat × Nat)} {first last n : Nat}
    (hmem : (first, last) ∈ ranges) (hfirst : first ≤ n) (hlast : n ≤ last) :
    inRanges ranges n = true := by
  refine List.any_eq_true.mpr ⟨(first, last), hmem, ?_⟩
  rw [Bool.and_eq_true]
  exact ⟨Nat.ble_eq.mpr hfirst, Nat.ble_eq.mpr hlast⟩

namespace Lexical

variable {touched : Bool} {c d : Char} {word rest s t : List Char} {kind : PieceKind}
  {k : Keyword}

/-- A Latin letter is one in upper or in lower case. -/
theorem isAlpha_eq (c : Char) : c.isAlpha = (c.isUpper || c.isLower) := rfl

/-- Spellings hold letters only. -/
theorem isWordStart_of_isLetter (h : Keyword.isLetter (Keyword.lowerChar c) = true) :
    isWordStart c = true := by
  have htable : ∀ first last : Nat, (first, last) ∈ alphabeticRanges → 0x80 ≤ first →
      first ≤ c.toNat → c.toNat ≤ last → isAlphabetic c = true := by
    intro first last hmem habove hfirst hlast
    rw [isAlphabetic, if_neg (by omega)]
    exact inRanges_of_mem hmem hfirst hlast
  have halphabetic : isAlphabetic c = true := by
    rcases Keyword.range_of_isLetter h with hupper | hlower | hrussian | hkelvin
    · rw [isAlphabetic, if_pos (by omega), isAlpha_eq, Bool.or_eq_true]
      exact .inl (decide_eq_true hupper)
    · rw [isAlphabetic, if_pos (by omega), isAlpha_eq, Bool.or_eq_true]
      exact .inr ((Bool.and_eq_true _ _).mpr
        ⟨decide_eq_true hlower.1, decide_eq_true hlower.2⟩)
    · exact htable 0x3F7 0x481 (by decide +kernel) (by decide) (by omega) (by omega)
    · exact htable 0x212A 0x212D (by decide +kernel) (by decide) (by omega) (by omega)
  rw [isWordStart, halphabetic, Bool.true_or]

/-- Spellings hold no separators. -/
theorem isSeparator_of_isLetter (h : Keyword.isLetter (Keyword.lowerChar c) = true) :
    isSeparator c = false := by
  have hrange := Keyword.range_of_isLetter h
  rw [← Bool.not_eq_true, isSeparator, Bool.or_eq_true, beq_iff_eq]
  rintro (hblank | rfl)
  · simp only [isBlank, inRanges, blankRanges, List.any_cons, List.any_nil, Bool.or_eq_true,
      Bool.and_eq_true, Nat.ble_eq, Bool.false_eq_true, or_false] at hblank
    omega
  · revert hrange
    decide

/-- Where a word begins there is no sign, no quote and no end of line. -/
theorem ne_of_isWordStart (h : isWordStart c = true) (hd : isWordStart d = false) : c ≠ d := by
  rintro rfl
  rw [h] at hd
  cases hd

/-- **A spelling is munched** as the word it spells. -/
theorem munch_spelling (h : k.SpelledBy (c :: word)) :
    munch touched c word = .ok (.token (.keyword k), word.length) := by
  have hletters : ∀ d ∈ c :: word, isWordStart d = true := fun d hd =>
    isWordStart_of_isLetter (h.isLetter hd)
  have hstart : isWordStart c = true := hletters c List.mem_cons_self
  have hseparator : isSeparator c = false :=
    isSeparator_of_isLetter (h.isLetter List.mem_cons_self)
  have hslash : (c == '/') = false :=
    beq_eq_false_iff_ne.mpr (ne_of_isWordStart hstart (by decide))
  have hhash : (c == '#') = false :=
    beq_eq_false_iff_ne.mpr (ne_of_isWordStart hstart (by decide))
  have hlength : wordLength word = word.length := by
    rw [wordLength, List.takeWhile_eq_self_iff.mpr]
    exact fun d hd => isWordPart_of_isWordStart (hletters d (List.mem_cons_of_mem c hd))
  have hkind : wordKind (c :: word) = .keyword k := by
    rw [wordKind, h.lookup_eq]
  rw [munch, hseparator, hslash, hhash, hstart, hlength, List.take_length, hkind]
  rfl

/-! ### Texts that differ in spelling -/

/-- **Texts that begin alike**: with the same characters, up to the end of both or to
words that begin with any two letters. -/
inductive Alike : List Char → List Char → Prop
  | nil : Alike [] []
  | word {c d : Char} {s t : List Char} (hc : isWordStart c = true) (hd : isWordStart d = true) :
      Alike (c :: s) (d :: t)
  | cons (c : Char) {s t : List Char} (h : Alike s t) : Alike (c :: s) (c :: t)

theorem Alike.append (word : List Char) (h : Alike s t) : Alike (word ++ s) (word ++ t) := by
  induction word with
  | nil => exact h
  | cons c word ih => exact .cons c ih

/-- A digit begins no word. -/
theorem isDigit_of_isWordStart (h : isWordStart c = true) : c.isDigit = false := by
  rw [← Bool.not_eq_true]
  intro hdigit
  refine absurd h ?_
  obtain ⟨hfirst, hlast⟩ := (Bool.and_eq_true _ _).mp hdigit
  have hfirst : 0x30 ≤ c.toNat := of_decide_eq_true hfirst
  have hlast : c.toNat ≤ 0x39 := of_decide_eq_true hlast
  have halpha : c.isAlpha = false := by
    rw [← Bool.not_eq_true, isAlpha_eq, Bool.or_eq_true]
    rintro (hupper | hlower)
    · have : 0x41 ≤ c.toNat := (of_decide_eq_true hupper).1
      omega
    · have : 0x61 ≤ c.toNat := of_decide_eq_true ((Bool.and_eq_true _ _).mp hlower).1
      omega
  have hne : c ≠ '_' := by
    rintro rfl
    exact absurd hlast (by decide)
  rw [isWordStart, isAlphabetic, if_pos (by omega), halpha, Bool.false_or, beq_iff_eq]
  exact hne

/-- **One word prolongs what any other word does**: words and lines, and nothing else. -/
theorem prolongs_wordStart (h : isWordStart c = true) :
    prolongs kind word (c :: s) = prolongs kind [] ['x'] := by
  have hdigit : c.isDigit = false := isDigit_of_isWordStart h
  have hpart : isWordPart c = true := isWordPart_of_isWordStart h
  have hx : isWordPart 'x' = true := by decide
  have hline : c ≠ '\n' := ne_of_isWordStart h (by decide)
  have hpoint : c ≠ '.' := ne_of_isWordStart h (by decide)
  have hquote : c ≠ '"' := ne_of_isWordStart h (by decide)
  have hslash : c ≠ '/' := ne_of_isWordStart h (by decide)
  have hequal : c ≠ '=' := ne_of_isWordStart h (by decide)
  have hgreater : c ≠ '>' := ne_of_isWordStart h (by decide)
  unfold prolongs
  split
  all_goals simp [beginsFraction, hdigit, hpart, hx, hline, hpoint, hquote, hslash, hequal,
    hgreater]

theorem Alike.isDigit_head (h : Alike s t) :
    s.head?.any Char.isDigit = t.head?.any Char.isDigit := by
  cases h with
  | nil => rfl
  | word hc hd =>
    rw [List.head?_cons, List.head?_cons, Option.any_some, Option.any_some,
      isDigit_of_isWordStart hc, isDigit_of_isWordStart hd]
  | cons c h => rfl

/-- **Alike texts prolong the same pieces.** -/
theorem prolongs_of_alike (h : Alike s t) : prolongs kind word s = prolongs kind word t := by
  cases h with
  | nil => rfl
  | word hc hd => rw [prolongs_wordStart hc, prolongs_wordStart hd]
  | cons c h =>
    refine prolongs_congr rfl ?_
    rw [beginsFraction, beginsFraction, List.tail_cons, List.tail_cons, h.isDigit_head]
    rfl

end Lexical

/-! ### Pieces spelled in another way -/

/-- **A piece in another spelling**: the same piece, or the same reserved word. -/
def Piece.Respells (a b : Piece) : Prop :=
  a.kind = b.kind ∧ (a.text = b.text ∨ ∃ k, a.kind = .token (.keyword k) ∧ k.SpelledBy b.text)

variable {touched : Bool} {text source : List Char} {scan : Scan} {pieces : List Piece}

/-- **A text in other spellings falls into the same pieces**, and cannot be told from the
first text by any piece before it. -/
theorem Scans.respelled (h : Scans touched text scan) (hfault : scan.fault = none)
    (hpieces : List.Forall₂ Piece.Respells scan.pieces pieces) :
    Scans touched (pieces.flatMap Piece.text) ⟨pieces, none⟩ ∧
      Alike text (pieces.flatMap Piece.text) := by
  induction h generalizing pieces with
  | done touched =>
    cases hpieces
    exact ⟨.done touched, .nil⟩
  | stuck hmunch => cases hfault
  | @piece touched c word rest kind scan hmunch hrest ih =>
    obtain ⟨halone, hprolongs⟩ := munch_append_iff.mp hmunch
    cases hpieces with
    | @cons _ b _ pieces hb hpieces =>
      obtain ⟨hscans, halike⟩ := ih hfault hpieces
      rw [prolongs_of_alike halike] at hprolongs
      obtain ⟨bkind, btext⟩ := b
      obtain ⟨rfl, rfl | ⟨k, hkind, hspelled⟩⟩ := hb
      · -- the same piece
        exact ⟨.piece (munch_append_iff.mpr ⟨halone, hprolongs⟩) hscans,
          halike.append (c :: word)⟩
      · -- another spelling of the word
        obtain ⟨d, other, rfl⟩ := List.exists_cons_of_ne_nil hspelled.ne_nil
        have hkind : kind = .token (.keyword k) := hkind
        subst hkind
        have hletter := isWordStart_of_isLetter (hspelled.isLetter List.mem_cons_self)
        exact ⟨.piece (munch_append_iff.mpr ⟨munch_spelling hspelled, hprolongs⟩) hscans,
          .word (munch_keyword halone) hletter⟩

/-! ### Sources spelled in another way -/

namespace Lexed

/-- **Other texts for tokens**: any reserved words in other spellings, and all other
tokens as they are. -/
def Respelling (lexed : Lexed) (new : Token → List Char) : Prop :=
  ∀ t ∈ lexed.tokens, new t = t.text ∨ ∃ k, t.kind = .keyword k ∧ k.SpelledBy (new t)

/-- Puts another text in the place of a token. -/
def replace (new : Token → List Char) (t : Token) (text : List Char) : List Char :=
  beforeByte t.position.offset text ++ new t ++ afterByte t.stop text

/-- **The source with other texts for its tokens.**  The last one is put in first, so the
offsets of those before it stay right. -/
def respelled (lexed : Lexed) (new : Token → List Char) (source : List Char) : List Char :=
  lexed.tokens.toList.foldr (replace new) source

end Lexed

/-- A placed piece with the new text of the token that it is. -/
def PlacedPiece.respelled (new : Token → List Char) (x : PlacedPiece) : Piece :=
  match x.token? with
  | some t => ⟨x.piece.kind, new t⟩
  | none => x.piece

variable {new : Token → List Char} {lexed : Lexed} {p : Position}

theorem replace_append {t : Token} {before behind : List Char}
    (hoffset : t.position.offset = byteLength before) :
    Lexed.replace new t (before ++ (t.text ++ behind)) = before ++ (new t ++ behind) := by
  have hstop : t.stop = byteLength (before ++ t.text) := by
    rw [Token.stop, Token.size, hoffset, byteLength_append]
  rw [Lexed.replace, hstop, hoffset, beforeByte_append, ← List.append_assoc, afterByte_append,
    List.append_assoc]

/-- Putting in the new texts leaves the pieces behind each other. -/
theorem foldr_replace (before : List Char) (pieces : List Piece) :
    let placed := Piece.placed (Position.start.after before) pieces
    (placed.filterMap PlacedPiece.token?).foldr (Lexed.replace new)
        (before ++ pieces.flatMap Piece.text) =
      before ++ (placed.map (PlacedPiece.respelled new)).flatMap Piece.text := by
  -- by induction on the pieces, whatever stands before them
  induction pieces generalizing before with
  | nil => rfl
  | cons piece rest ih =>
    have ih := ih (before ++ piece.text)
    simp only [Piece.placed, ← Position.after_append, List.flatMap_cons, List.map_cons] at ih ⊢
    rw [List.append_assoc, List.append_assoc] at ih
    cases htoken : PlacedPiece.token? ⟨piece, Position.start.after before⟩ with
    | none =>
      rw [List.filterMap_cons_none htoken, ih, PlacedPiece.respelled, htoken]
    | some t =>
      obtain ⟨hposition, htext, -⟩ := PlacedPiece.range_of_token? htoken
      have hoffset : t.position.offset = byteLength before := by
        rw [hposition, offset_start_after]
      rw [List.filterMap_cons_some htoken, List.foldr_cons, ih, PlacedPiece.respelled, htoken,
        ← htext, replace_append hoffset]

/-- The respelled source is made up of the respelled pieces. -/
theorem respelled_eq (h : Scans false source ⟨pieces, none⟩) :
    (Lexed.ofPlaced (Piece.placed Position.start pieces)).respelled new source =
      ((Piece.placed Position.start pieces).map (PlacedPiece.respelled new)).flatMap
        Piece.text := by
  rw [← h.flatMap_text rfl]
  exact foldr_replace [] pieces

/-- The kind of the token that a piece is. -/
def PieceKind.token? : PieceKind → Option TokenKind
  | .token kind => some kind
  | _ => none

/-- The kinds of tokens are told by the kinds of the pieces. -/
theorem kinds_ofPlaced (p : Position) (pieces : List Piece) :
    (Lexed.ofPlaced (Piece.placed p pieces)).kinds =
      (pieces.map Piece.kind).filterMap PieceKind.token? := by
  simp only [Lexed.kinds, Lexed.ofPlaced]
  induction pieces generalizing p with
  | nil => rfl
  | cons piece rest ih =>
    obtain ⟨kind, text⟩ := piece
    cases kind with
    | blank => exact ih _
    | trivia kind => exact ih _
    | token kind => exact congrArg (kind :: ·) (ih _)

/-- New texts for tokens are other spellings of the pieces. -/
theorem respells_placed
    (hnew : (Lexed.ofPlaced (Piece.placed p pieces)).Respelling new) :
    List.Forall₂ Piece.Respells pieces
      ((Piece.placed p pieces).map (PlacedPiece.respelled new)) := by
  have hplaced : ∀ x ∈ Piece.placed p pieces, x.piece.Respells (x.respelled new) := by
    intro x hx
    rw [PlacedPiece.respelled]
    cases htoken : x.token? with
    | none => exact ⟨rfl, .inl rfl⟩
    | some t =>
      refine ⟨rfl, ?_⟩
      rcases hnew t (mem_tokens_ofPlaced.mpr ⟨x, hx, htoken⟩) with hsame | ⟨k, hkind, hspelled⟩
      · exact .inl ((PlacedPiece.range_of_token? htoken).2.1.symm.trans hsame.symm)
      · refine .inr ⟨k, ?_, hspelled⟩
        rw [PlacedPiece.kind_of_token? htoken, hkind]
  have hboth : List.Forall₂ Piece.Respells ((Piece.placed p pieces).map PlacedPiece.piece)
      ((Piece.placed p pieces).map (PlacedPiece.respelled new)) := by
    rw [List.forall₂_map_left_iff, List.forall₂_map_right_iff]
    exact List.forall₂_same.mpr hplaced
  rwa [map_piece_placed] at hboth

theorem map_kind_of_respells {pieces' : List Piece}
    (h : List.Forall₂ Piece.Respells pieces pieces') :
    pieces.map Piece.kind = pieces'.map Piece.kind := by
  induction h with
  | nil => rfl
  | cons hpiece _ ih => rw [List.map_cons, List.map_cons, hpiece.1, ih]

/-- **A source in other spellings has the same kinds of tokens.** -/
theorem tokenize_respelled (h : tokenize source = .ok lexed) (hnew : lexed.Respelling new) :
    ∃ lexed', tokenize (lexed.respelled new source) = .ok lexed' ∧ lexed'.kinds = lexed.kinds := by
  obtain ⟨pieces, hscan, rfl⟩ := tokenize_eq_ok_iff.mp h
  have hpieces := respells_placed hnew
  obtain ⟨hrespelled, -⟩ := hscan.respelled rfl hpieces
  rw [respelled_eq hscan]
  refine ⟨_, tokenize_eq_ok_iff.mpr ⟨_, hrespelled, rfl⟩, ?_⟩
  rw [kinds_ofPlaced, kinds_ofPlaced, map_kind_of_respells hpieces]

end ModuleLint
