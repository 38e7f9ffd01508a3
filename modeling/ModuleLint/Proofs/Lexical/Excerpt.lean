/-
ModuleLint/Proofs/Lexical/Excerpt.lean

A part of a source that is tokenized by itself.  Where a source is cut in front of a piece,
the pieces behind the cut are found again, but for one thing: whether `#` opens a
preprocessor line depends on the tokens before it on its line.  In front of a token that
does not matter (`Scans.of_token`).  Where a source is cut behind a piece, the last piece
before the cut has less to look ahead at, and nothing less makes it longer
(`prolongs_of_append`).

Main result: `tokenize_excerpt`.  What lies between the first byte of one token and the last
byte of another has the tokens that it has in the source.
-/
import ModuleLint.Proofs.Lexical.Places

namespace ModuleLint

open Lexical PlacedPiece

/-- **What a token is wherever it stands**: its kind and its text. -/
def Token.lexeme (t : Token) : TokenKind × List Char := (t.kind, t.text)

/-- What a piece is if it is a token. -/
def Piece.lexeme? (piece : Piece) : Option (TokenKind × List Char) :=
  match piece.kind with
  | .token kind => some (kind, piece.text)
  | _ => none

variable {touched : Bool} {kind : PieceKind} {c : Char} {word rest more text source : List Char}
  {ps qs ms pieces : List Piece} {x : Piece} {placed : List PlacedPiece} {lexed : Lexed}

/-! ### Cutting behind a piece -/

/-- **What does not prolong a piece** does not if it is cut short either. -/
theorem prolongs_of_append (h : prolongs kind word (rest ++ more) = false) :
    prolongs kind word rest = false := by
  match rest with
  | [] =>
    unfold prolongs
    split <;> simp [beginsFraction]
  | [d] =>
    -- a point at the end begins no fraction
    have hfraction : beginsFraction [d] = false := Bool.and_false _
    unfold prolongs at h ⊢
    split at h
    · exact h
    · exact h
    · exact h
    · rw [hfraction, Bool.and_false, Bool.or_false]
      exact (Bool.or_eq_false_iff.mp h).1
    all_goals exact h
  | d :: e :: rest =>
    rw [← h]
    exact prolongs_congr rfl rfl

/-- **The first pieces of a text** are those of the text that they make up. -/
theorem Scans.take {fault : Option LexicalFault} (h : Scans touched text ⟨ps ++ qs, fault⟩) :
    Scans touched (ps.flatMap Piece.text) ⟨ps, none⟩ := by
  induction ps generalizing touched text with
  | nil => exact .done touched
  | cons x ps ih =>
    obtain ⟨c, word, rest, hx, -, hmunch, hrest⟩ := scans_cons_iff.mp h
    obtain ⟨halone, hprolongs⟩ := munch_append_iff.mp hmunch
    obtain ⟨more, rfl, -⟩ := hrest.behind
    have hshort := munch_append_iff.mpr ⟨halone, prolongs_of_append hprolongs⟩
    exact scans_cons_iff.mpr ⟨c, word, _, hx, List.flatMap_cons, hshort, ih hrest⟩

/-! ### Cutting in front of a piece -/

/-- A token is munched as such on any line. -/
theorem munch_token_anywhere {token : TokenKind} {n : Nat}
    (h : munch touched c rest = .ok (.token token, n)) (touched' : Bool) :
    munch touched' c rest = .ok (.token token, n) := by
  by_cases hhash : c = '#'
  · -- such a character is never a token, and on a new line it opens a preprocessor line
    subst hhash
    have hseparator : isSeparator '#' = false := by decide
    have hword : isWordStart '#' = false := by decide
    cases touched <;> simp [munch, hseparator, hword, sign?] at h
  · have hother : ∀ touched : Bool, (c == '#' && !touched) = false := by simp [hhash]
    unfold munch at h ⊢
    rw [hother] at h ⊢
    exact h

/-- **In front of a token** it does not matter what stands before on the line. -/
theorem Scans.of_token {token : TokenKind} (h : Scans touched text ⟨x :: pieces, none⟩)
    (hx : x.kind = .token token) : Scans false text ⟨x :: pieces, none⟩ := by
  obtain ⟨c, word, rest, htext, hsplit, hmunch, hrest⟩ := scans_cons_iff.mp h
  rw [hx] at hmunch hrest
  refine scans_cons_iff.mpr ⟨c, word, rest, htext, hsplit, ?_, ?_⟩
  · rw [hx]
    exact munch_token_anywhere hmunch false
  · rw [hx]
    exact hrest

/-- **Pieces from a token on, up to any other one**, are found again in the text that they make
up. -/
theorem Scans.excerpt {token : TokenKind} (h : Scans touched source ⟨ps ++ (x :: ms ++ qs), none⟩)
    (hx : x.kind = .token token) :
    Scans false ((x :: ms).flatMap Piece.text) ⟨x :: ms, none⟩ := by
  obtain ⟨rest, -, hbehind⟩ := h.behind
  exact hbehind.take.of_token hx

/-! ### Tokens among pieces -/

/-- The tokens among some pieces, but for their places. -/
theorem lexemes_filterMap (placed : List PlacedPiece) :
    (placed.filterMap token?).map Token.lexeme = (placed.map piece).filterMap Piece.lexeme? := by
  have hlexeme : ∀ x : PlacedPiece, x.token?.map Token.lexeme = x.piece.lexeme? := by
    rintro ⟨⟨kind, text⟩, position⟩
    cases kind <;> rfl
  rw [List.map_filterMap, List.filterMap_map]
  exact List.filterMap_congr fun x _ => hlexeme x

/-- The piece that a token is, and those before and behind it. -/
theorem exists_split_at_token {front behind : List Token} {token : Token}
    (h : placed.filterMap token? = front ++ token :: behind) :
    ∃ before x after, placed = before ++ x :: after ∧ before.filterMap token? = front ∧
      x.token? = some token ∧ after.filterMap token? = behind := by
  obtain ⟨first, second, rfl, hfirst, hsecond⟩ := List.filterMap_eq_append_iff.mp h
  obtain ⟨others, x, after, rfl, hothers, hx, hafter⟩ := List.filterMap_eq_cons_iff.mp hsecond
  refine ⟨first ++ others, x, after, (List.append_assoc _ _ _).symm, ?_, hx, hafter⟩
  rw [List.filterMap_append, hfirst, List.filterMap_eq_nil_iff.mpr hothers, List.append_nil]

/-! ### Excerpts -/

/-- What some placed pieces hold is sliced out of the source, from the first byte of the first
one to the last byte of the last one. -/
theorem slice?_between (h : Scans false source ⟨pieces, none⟩)
    {before middle rest : List PlacedPiece} {x y : PlacedPiece}
    (hplaced : Piece.placed Position.start pieces = before ++ (middle ++ rest))
    (hx : middle.head? = some x) (hy : middle.getLast? = some y) :
    slice? source x.range.start y.range.stop =
      some ((middle.map piece).flatMap Piece.text) := by
  obtain ⟨tail, rfl⟩ := List.head?_eq_some_iff.mp hx
  obtain ⟨init, hinit⟩ := List.getLast?_eq_some_iff.mp hy
  have hback : before ++ (x :: tail ++ rest) = before ++ init ++ y :: rest := by
    rw [hinit]
    simp only [List.append_assoc, List.singleton_append]
  have hstart := position_of_split hplaced
  have hstop := position_of_split (hplaced.trans hback)
  have hsource : (before.map piece).flatMap Piece.text ++
      ((x :: tail).map piece).flatMap Piece.text ++ (rest.map piece).flatMap Piece.text =
        source := by
    rw [← h.flatMap_text rfl, ← map_piece_placed Position.start pieces, hplaced]
    simp only [List.map_append, List.flatMap_append, List.append_assoc]
  have hslice := slice?_append ((before.map piece).flatMap Piece.text)
    (((x :: tail).map piece).flatMap Piece.text) ((rest.map piece).flatMap Piece.text)
  have hfirst : x.range.start = byteLength ((before.map piece).flatMap Piece.text) := by
    rw [range, hstart, offset_start_after]
  have hlast : y.range.stop = byteLength ((before.map piece).flatMap Piece.text) +
      byteLength (((x :: tail).map piece).flatMap Piece.text) := by
    rw [range, hstop, offset_start_after, hinit, ← byteLength_append, ← byteLength_append]
    simp only [List.map_append, List.flatMap_append, List.append_assoc, List.map_cons,
      List.flatMap_singleton, List.map_nil]
  rw [hsource] at hslice
  rw [hfirst, hlast, hslice]

/-- **An excerpt from one token to another** has the tokens that the source has there. -/
theorem tokenize_excerpt (h : tokenize source = .ok lexed) {front run behind : List Token}
    {a z : Token} (hsplit : lexed.tokens.toList = front ++ (run ++ behind))
    (ha : run.head? = some a) (hz : run.getLast? = some z) :
    ∃ excerpt part, slice? source a.position.offset z.stop = some excerpt ∧
      tokenize excerpt = .ok part ∧
        part.tokens.toList.map Token.lexeme = run.map Token.lexeme := by
  obtain ⟨pieces, hscan, rfl⟩ := tokenize_eq_ok_iff.mp h
  obtain ⟨more, rfl⟩ := List.head?_eq_some_iff.mp ha
  obtain ⟨run, hrun⟩ := List.getLast?_eq_some_iff.mp hz
  -- the pieces before the first token, and from there to the last one
  obtain ⟨before, x, after, hplaced, -, hx, hafter⟩ := exists_split_at_token hsplit
  have hbehind : (x :: after).filterMap token? = run ++ z :: behind := by
    rw [List.filterMap_cons_some hx, hafter, List.append_cons, ← hrun]
    rfl
  obtain ⟨middle, y, rest, hmiddle, htokens, hy, -⟩ := exists_split_at_token hbehind
  obtain ⟨inner, hinner⟩ : ∃ inner, middle ++ [y] = x :: inner := by
    cases middle with
    | nil => exact ⟨[], congrArg ([·]) (List.cons.inj hmiddle).1.symm⟩
    | cons w middle => exact ⟨middle ++ [y], congrArg (· :: _) (List.cons.inj hmiddle).1.symm⟩
  rw [hmiddle, List.append_cons, hinner] at hplaced
  have hpieces : before.map piece ++ (x.piece :: inner.map piece ++ rest.map piece) = pieces := by
    rw [← map_piece_placed Position.start pieces, hplaced, List.map_append, List.map_append]
    rfl
  rw [← hpieces] at hscan
  have hexcerpt := hscan.excerpt (kind_of_token? hx)
  refine ⟨_, _, ?_, tokenize_eq_ok_iff.mpr ⟨_, hexcerpt, rfl⟩, ?_⟩
  · have hslice := slice?_between (hpieces ▸ hscan) hplaced rfl (hinner ▸ List.getLast?_concat)
    rwa [← (range_of_token? hx).2.2, ← (range_of_token? hy).2.2] at hslice
  · have hsame : (x :: inner).filterMap token? = a :: more := by
      rw [← hinner, List.filterMap_append, htokens, List.filterMap_cons_some hy, hrun]
      rfl
    show (List.filterMap token? _).map _ = _
    rw [lexemes_filterMap, map_piece_placed, ← List.map_cons, ← lexemes_filterMap, hsame]

end ModuleLint
