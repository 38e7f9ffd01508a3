/-
ModuleLint/Proofs/Grammar/Spacing.lean

A source written anew: its tokens in order, one blank between two of them.  Comments,
preprocessor lines, line ends and blanks are gone, and blanks stand where there were none.
A token is munched by itself and on any line (`munch_token_anywhere`), and a blank prolongs
no token (`prolongs_blank`).  So whatever two tokens stand side by side, a blank between
them keeps them apart, and the end of each of them where it was.

Main result: `tokenize_spaced`.  The new text has the tokens of the source and no trivia,
and it is parsed as the source is.
-/
import ModuleLint.Proofs.Grammar.Kinds
import ModuleLint.Proofs.Lexical.Excerpt

namespace ModuleLint

open Lexical PlacedPiece

/-- A blank, as a piece. -/
def Piece.space : Piece := ⟨.blank, [' ']⟩

namespace Token

/-- A token, as a piece. -/
def piece (t : Token) : Piece := ⟨.token t.kind, t.text⟩

/-- The tokens as pieces, with a blank between two of them. -/
def spacedPieces : List Token → List Piece
  | [] => []
  | [t] => [t.piece]
  | t :: u :: rest => t.piece :: .space :: spacedPieces (u :: rest)

end Token

/-- **The canonical spacing of a source**: the texts of its tokens, joined by single
blanks. -/
def Lexed.spaced (lexed : Lexed) : List Char :=
  [' '].intercalate (lexed.tokens.toList.map Token.text)

variable {touched : Bool} {source rest : List Char} {lexed : Lexed} {tokens : List Token}
  {t : Token} {x : Piece} {pieces : List Piece} {p : Position}

/-! ### Scanning tokens and blanks -/

/-- **A token comes first** in front of a text that does not prolong it. -/
theorem Scans.cons_token (halone : t.Munched)
    (hprolongs : ∀ word, prolongs (.token t.kind) word rest = false)
    (h : Scans true rest ⟨pieces, none⟩) :
    Scans touched (t.text ++ rest) ⟨t.piece :: pieces, none⟩ := by
  obtain ⟨touched', c, word, htext, hmunch⟩ := halone
  have hhere := munch_token_anywhere hmunch touched
  exact scans_cons_iff.mpr
    ⟨c, word, rest, htext, rfl, munch_append_iff.mpr ⟨hhere, hprolongs word⟩, h⟩

/-- **Tokens with blanks between them are found again.** -/
theorem scans_spaced (halone : ∀ t ∈ tokens, t.Munched) :
    Scans touched ([' '].intercalate (tokens.map Token.text))
      ⟨Token.spacedPieces tokens, none⟩ := by
  induction tokens using Token.spacedPieces.induct generalizing touched with
  | case1 => exact .done touched
  | case2 t =>
    -- the end of the text prolongs no token, as it would not if a blank stood there
    have hend : ∀ word, prolongs (.token t.kind) word [] = false := by
      intro word
      have hblank : prolongs (.token t.kind) word ([] ++ [' ']) = false :=
        prolongs_blank fun _ => PieceKind.noConfusion
      exact prolongs_of_append hblank
    have hlast : Scans touched (t.text ++ []) ⟨[t.piece], none⟩ :=
      Scans.cons_token (halone t List.mem_cons_self) hend (.done true)
    rw [List.append_nil] at hlast
    rw [List.map_singleton, List.intercalate_singleton]
    exact hlast
  | case3 t u rest ih =>
    have hblank : munch true ' ' ([] ++ [' '].intercalate ((u :: rest).map Token.text)) =
        .ok (.blank, 0) := rfl
    have hspaced := Scans.piece hblank (ih fun v hv => halone v (List.mem_cons_of_mem t hv))
    rw [List.map_cons, List.map_cons, List.intercalate_cons_cons, List.append_assoc]
    exact Scans.cons_token (halone t List.mem_cons_self)
      (fun word => prolongs_blank fun _ => PieceKind.noConfusion) hspaced

/-! ### The tokens of the new text -/

/-- The tokens among the pieces are those that were put there. -/
theorem lexemes_spacedPieces :
    (Token.spacedPieces tokens).filterMap Piece.lexeme? = tokens.map Token.lexeme := by
  induction tokens using Token.spacedPieces.induct with
  | case1 => rfl
  | case2 t => rfl
  | case3 t u rest ih => exact congrArg (t.lexeme :: ·) ih

/-- There is no trivia among the pieces. -/
theorem not_trivia_spacedPieces {kind : TriviaKind} (hx : x ∈ Token.spacedPieces tokens) :
    x.kind ≠ .trivia kind := by
  induction tokens using Token.spacedPieces.induct with
  | case1 => cases hx
  | case2 t =>
    rw [List.mem_singleton.mp hx]
    exact PieceKind.noConfusion
  | case3 t u rest ih =>
    rcases List.mem_cons.mp hx with rfl | hx
    · exact PieceKind.noConfusion
    rcases List.mem_cons.mp hx with rfl | hx
    · exact PieceKind.noConfusion
    · exact ih hx

/-- Pieces that are no trivia give none. -/
theorem trivia_ofPlaced_eq (h : ∀ x ∈ pieces, ∀ kind, x.kind ≠ .trivia kind) :
    (Lexed.ofPlaced (Piece.placed p pieces)).trivia = #[] := by
  have hnone : ∀ x ∈ Piece.placed p pieces, x.trivia? = none := by
    intro x hx
    unfold trivia?
    split
    · rename_i kind hkind
      exact absurd hkind (h _ (mem_of_mem_placed hx) kind)
    · rfl
  rw [Lexed.ofPlaced, List.filterMap_eq_nil_iff.mpr hnone]

/-- The kinds of tokens are told by their lexemes. -/
theorem kinds_eq_of_lexemes {lexed' : Lexed}
    (h : lexed'.tokens.toList.map Token.lexeme = lexed.tokens.toList.map Token.lexeme) :
    lexed'.kinds = lexed.kinds := by
  have hkinds := congrArg (List.map Prod.fst) h
  rw [List.map_map, List.map_map] at hkinds
  exact hkinds

/-- A source with no blank between its tokens, with a string literal over two lines, and with
a preprocessor line and a comment. -/
def crowded : List Char := "#x\nA=b/-1.5<>\"c\"\"\n|\"// z".toList

/-- Its tokens and its trivia. -/
def crowdedLexed : Lexed :=
  ⟨#[⟨.identifier, ['A'], ⟨3, 2, 1⟩⟩, ⟨.eq, ['='], ⟨4, 2, 2⟩⟩, ⟨.identifier, ['b'], ⟨5, 2, 3⟩⟩,
      ⟨.slash, ['/'], ⟨6, 2, 4⟩⟩, ⟨.minus, ['-'], ⟨7, 2, 5⟩⟩,
      ⟨.number, "1.5".toList, ⟨8, 2, 6⟩⟩, ⟨.notEq, "<>".toList, ⟨11, 2, 9⟩⟩,
      ⟨.string, "\"c\"\"\n|\"".toList, ⟨13, 2, 11⟩⟩],
    #[⟨.preprocessor, "#x".toList, ⟨0, 1, 1⟩⟩, ⟨.comment, "// z".toList, ⟨20, 3, 3⟩⟩]⟩

theorem tokenize_crowded : tokenize crowded = .ok crowdedLexed := by decide +kernel

/-- **Canonical spacing changes nothing but places**: the text with single blanks between
the tokens has the same tokens and no trivia, and it is parsed alike. -/
theorem tokenize_spaced (h : tokenize source = .ok lexed) :
    ∃ lexed', tokenize lexed.spaced = .ok lexed' ∧
      lexed'.tokens.toList.map Token.lexeme = lexed.tokens.toList.map Token.lexeme ∧
      lexed'.trivia = #[] ∧ ParsesAlike source lexed.spaced := by
  have hscan : Scans false lexed.spaced ⟨Token.spacedPieces lexed.tokens.toList, none⟩ :=
    scans_spaced fun t ht => munched_of_tokenize h (Array.mem_toList_iff.mp ht)
  have hspaced := tokenize_eq_ok_iff.mpr ⟨_, hscan, rfl⟩
  have hlexemes : (Lexed.ofPlaced (Piece.placed Position.start
      (Token.spacedPieces lexed.tokens.toList))).tokens.toList.map Token.lexeme =
        lexed.tokens.toList.map Token.lexeme := by
    rw [Lexed.ofPlaced, lexemes_filterMap, map_piece_placed, lexemes_spacedPieces]
  refine ⟨_, hspaced, hlexemes, trivia_ofPlaced_eq fun x hx kind => not_trivia_spacedPieces hx, ?_⟩
  exact parsesAlike_of_kinds h hspaced (kinds_eq_of_lexemes hlexemes).symm

theorem spaced_crowded : tokenize crowded = .ok crowdedLexed ∧
    crowdedLexed.spaced = "A = b / - 1.5 <> \"c\"\"\n|\"".toList ∧
    ∃ lexed', tokenize crowdedLexed.spaced = .ok lexed' ∧
      lexed'.tokens.toList.map Token.lexeme = crowdedLexed.tokens.toList.map Token.lexeme ∧
      lexed'.trivia = #[] ∧ ParsesAlike crowded crowdedLexed.spaced :=
  ⟨tokenize_crowded, by decide +kernel, tokenize_spaced tokenize_crowded⟩

end ModuleLint
