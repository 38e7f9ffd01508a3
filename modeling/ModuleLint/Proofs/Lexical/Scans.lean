/-
ModuleLint/Proofs/Lexical/Scans.lean

How a text falls into pieces.  `Scan.walk` passes over characters one by one and keeps
count of those that a piece has already taken; the relation `Scans` forgets the count and
has one rule for each thing that can happen: the end of the text, a fault, or a piece and
then the rest.  All that is said of scans is said by induction on it.

Main results: `scans_iff`, the walk and the relation agree; and `tokenize_eq_ok_iff`,
a source is tokenized if and only if it falls into pieces without a fault, and the tokens
and the trivia are then those among the *placed* pieces, each with the place after all
that stands before it.
-/
import ModuleLint.Proofs.Lexical.Munch
import ModuleLint.Proofs.Text.Bytes
import ModuleLint.Lexical.Scan

namespace ModuleLint

open Lexical

/-- **A text falls into pieces**, up to its end or to a fault; `touched` tells whether a
token touches the line on which the text begins. -/
inductive Scans : Bool → List Char → Scan → Prop
  | done (touched : Bool) : Scans touched [] ⟨[], none⟩
  | stuck {touched : Bool} {c : Char} {rest : List Char} {fault : LexicalFault}
      (hmunch : munch touched c rest = .error fault) :
      Scans touched (c :: rest) ⟨[], some fault⟩
  | piece {touched : Bool} {c : Char} {word rest : List Char} {kind : PieceKind} {scan : Scan}
      (hmunch : munch touched c (word ++ rest) = .ok (kind, word.length))
      (hrest : Scans (touches touched kind c) rest scan) :
      Scans touched (c :: (word ++ rest)) ⟨⟨kind, c :: word⟩ :: scan.pieces, scan.fault⟩

variable {touched : Bool} {text source : List Char} {scan : Scan} {pieces : List Piece}

/-! ### The walk -/

/-- The walk passes over the characters that a piece has taken. -/
theorem walk_skip (found : List Piece) (touched : Bool) (word rest : List Char) :
    Scan.walk found touched word.length (word ++ rest) = Scan.walk found touched 0 rest := by
  induction word with
  | nil => rfl
  | cons c word ih => exact ih

theorem walk_piece {found : List Piece} {c : Char} {word rest : List Char} {kind : PieceKind}
    (hmunch : munch touched c (word ++ rest) = .ok (kind, word.length)) :
    Scan.walk found touched 0 (c :: (word ++ rest)) =
      Scan.walk (⟨kind, c :: word⟩ :: found) (touches touched kind c) 0 rest := by
  rw [Scan.walk, hmunch]
  simp only [List.take_left]
  exact walk_skip _ _ word rest

/-- The walk finds the pieces that the text falls into. -/
theorem Scans.walk_eq (h : Scans touched text scan) (found : List Piece) :
    Scan.walk found touched 0 text = ⟨found.reverse ++ scan.pieces, scan.fault⟩ := by
  induction h generalizing found with
  | done touched => rw [Scan.walk, List.append_nil]
  | stuck hmunch => rw [Scan.walk, hmunch, List.append_nil]
  | piece hmunch hrest ih =>
    rw [walk_piece hmunch, ih, List.reverse_cons, List.append_assoc]
    rfl

/-- Every text falls into pieces, up to its end or to a fault. -/
theorem exists_scans (touched : Bool) (text : List Char) : ∃ scan, Scans touched text scan := by
  -- by strong induction, because a piece can take more than one character
  induction hlength : text.length using Nat.strongRecOn generalizing touched text with
  | ind n ih =>
    cases text with
    | nil => exact ⟨_, .done touched⟩
    | cons c rest =>
      rcases hmunch : munch touched c rest with fault | ⟨kind, m⟩
      · exact ⟨_, .stuck hmunch⟩
      · have hle := munch_le hmunch
        have hshorter : (rest.drop m).length < n := by
          rw [← hlength, List.length_drop, List.length_cons]
          omega
        obtain ⟨scan, hscan⟩ := ih _ hshorter (touches touched kind c) (rest.drop m) rfl
        have htake : (rest.take m).length = m := by
          rw [List.length_take]
          exact Nat.min_eq_left hle
        have hsplit : munch touched c (rest.take m ++ rest.drop m) =
            .ok (kind, (rest.take m).length) := by
          rw [List.take_append_drop, htake]
          exact hmunch
        have hpiece := Scans.piece hsplit hscan
        rw [List.take_append_drop] at hpiece
        exact ⟨_, hpiece⟩

/-- **The pieces of a source** are those that it falls into. -/
theorem scans_iff : Scans false source scan ↔ Scan.of source = scan := by
  constructor
  · intro h
    exact h.walk_eq []
  · rintro rfl
    obtain ⟨scan, hscan⟩ := exists_scans false source
    rw [Scan.of, hscan.walk_eq []]
    exact hscan

/-! ### Pieces -/

/-- **Nothing is lost**: the texts of the pieces make up the source. -/
theorem Scans.flatMap_text (h : Scans touched text scan) (hfault : scan.fault = none) :
    scan.pieces.flatMap Piece.text = text := by
  induction h with
  | done touched => rfl
  | stuck hmunch => cases hfault
  | piece hmunch hrest ih =>
    rw [List.flatMap_cons, ih hfault]
    rfl

/-- **A piece is munched by itself**, wherever it stands. -/
theorem Scans.munched (h : Scans touched text scan) {piece : Piece} (hpiece : piece ∈ scan.pieces) :
    ∃ touched c word, piece.text = c :: word ∧
      munch touched c word = .ok (piece.kind, word.length) := by
  induction h with
  | done touched => cases hpiece
  | stuck hmunch => cases hpiece
  | piece hmunch hrest ih =>
    rcases List.mem_cons.mp hpiece with rfl | hpiece
    · exact ⟨_, _, _, rfl, (munch_append_iff.mp hmunch).1⟩
    · exact ih hpiece

/-- The first piece and the rest of a scan. -/
theorem scans_cons_iff {x : Piece} {fault : Option LexicalFault} :
    Scans touched text ⟨x :: pieces, fault⟩ ↔ ∃ c word rest, x.text = c :: word ∧
      text = x.text ++ rest ∧ munch touched c (word ++ rest) = .ok (x.kind, word.length) ∧
        Scans (touches touched x.kind c) rest ⟨pieces, fault⟩ := by
  constructor
  · intro h
    generalize hscan : (⟨x :: pieces, fault⟩ : Scan) = scan at h
    cases h with
    | done => cases hscan
    | stuck => cases hscan
    | @piece _ c word rest kind scan hmunch hrest =>
      obtain ⟨_, _⟩ := scan
      obtain ⟨⟨rfl, rfl⟩, rfl⟩ := hscan
      exact ⟨c, word, rest, rfl, rfl, hmunch, hrest⟩
  · obtain ⟨kind, _⟩ := x
    rintro ⟨c, word, rest, rfl, rfl, hmunch, hrest⟩
    exact .piece hmunch hrest

/-- Whether a token touches the line behind some pieces. -/
def touchedBehind (touched : Bool) : List Piece → Bool
  | [] => touched
  | x :: pieces => touchedBehind (x.text.head?.elim touched (touches touched x.kind)) pieces

/-- **What stands behind some pieces** is scanned from there on. -/
theorem Scans.behind {ps qs : List Piece} {fault : Option LexicalFault}
    (h : Scans touched text ⟨ps ++ qs, fault⟩) :
    ∃ rest, text = ps.flatMap Piece.text ++ rest ∧
      Scans (touchedBehind touched ps) rest ⟨qs, fault⟩ := by
  induction ps generalizing touched text with
  | nil => exact ⟨text, rfl, h⟩
  | cons x ps ih =>
    obtain ⟨c, word, more, hx, rfl, -, hmore⟩ := scans_cons_iff.mp h
    obtain ⟨rest, rfl, hrest⟩ := ih hmore
    refine ⟨rest, ?_, ?_⟩
    · rw [List.flatMap_cons, List.append_assoc]
    · rw [touchedBehind, hx]
      exact hrest

/-! ### Places -/

/-- A piece and the place where it begins. -/
structure PlacedPiece where
  piece : Piece
  position : Position

namespace PlacedPiece

/-- The token that a placed piece is. -/
def token? (x : PlacedPiece) : Option Token :=
  match x.piece.kind with
  | .token kind => some ⟨kind, x.piece.text, x.position⟩
  | _ => none

/-- The comment or preprocessor line that a placed piece is. -/
def trivia? (x : PlacedPiece) : Option Trivia :=
  match x.piece.kind with
  | .trivia kind => some ⟨kind, x.piece.text, x.position⟩
  | _ => none

end PlacedPiece

/-- **Pieces with the places where they begin**, the first of them at `p`. -/
def Piece.placed : Position → List Piece → List PlacedPiece
  | _, [] => []
  | p, piece :: rest => ⟨piece, p⟩ :: placed (p.after piece.text) rest

theorem map_piece_placed (p : Position) (pieces : List Piece) :
    (Piece.placed p pieces).map PlacedPiece.piece = pieces := by
  induction pieces generalizing p with
  | nil => rfl
  | cons piece rest ih => exact congrArg (piece :: ·) (ih _)

/-- The tokens and the trivia among placed pieces. -/
def Lexed.ofPlaced (placed : List PlacedPiece) : Lexed :=
  ⟨(placed.filterMap PlacedPiece.token?).toArray, (placed.filterMap PlacedPiece.trivia?).toArray⟩

/-- Adding pieces one by one places them one after the other. -/
theorem foldl_add (p : Position) (lexed : Lexed) (pieces : List Piece) :
    pieces.foldl Lexed.add (p, lexed) =
      (p.after (pieces.flatMap Piece.text),
        ⟨lexed.tokens ++ (Lexed.ofPlaced (Piece.placed p pieces)).tokens,
          lexed.trivia ++ (Lexed.ofPlaced (Piece.placed p pieces)).trivia⟩) := by
  induction pieces generalizing p lexed with
  | nil => simp [Lexed.ofPlaced, Piece.placed]
  | cons piece rest ih =>
    rw [List.foldl_cons, Lexed.add, ih, List.flatMap_cons, Position.after_append]
    simp only [Lexed.ofPlaced, Piece.placed, List.filterMap_cons, PlacedPiece.token?,
      PlacedPiece.trivia?]
    cases piece.kind with
    | blank => rfl
    | trivia kind => simp
    | token kind => simp

theorem ofPieces_eq (pieces : List Piece) :
    Lexed.ofPieces pieces = (Position.start.after (pieces.flatMap Piece.text),
      Lexed.ofPlaced (Piece.placed Position.start pieces)) := by
  rw [Lexed.ofPieces, foldl_add]
  simp

/-- The report on a fault at a place. -/
def LexicalFault.reportAt (fault : LexicalFault) (p : Position) : SourceError :=
  ⟨fault.message, p.line, p.column⟩

/-- **What tokenizing gives** is told by the pieces that the source falls into. -/
theorem Scans.tokenize_eq (h : Scans false source scan) :
    tokenize source = match scan.fault with
      | some fault =>
        .error (fault.reportAt (Position.start.after (scan.pieces.flatMap Piece.text)))
      | none => .ok (Lexed.ofPlaced (Piece.placed Position.start scan.pieces)) := by
  unfold tokenize
  simp only [scans_iff.mp h, ofPieces_eq]
  rfl

theorem tokenize_eq_ok_iff {lexed : Lexed} :
    tokenize source = .ok lexed ↔ ∃ pieces, Scans false source ⟨pieces, none⟩ ∧
      lexed = Lexed.ofPlaced (Piece.placed Position.start pieces) := by
  constructor
  · intro h
    obtain ⟨⟨pieces, fault⟩, hscan⟩ := exists_scans false source
    rw [hscan.tokenize_eq] at h
    cases fault with
    | some fault => cases h
    | none => exact ⟨pieces, hscan, (Except.ok.inj h).symm⟩
  · rintro ⟨pieces, hscan, rfl⟩
    exact hscan.tokenize_eq

end ModuleLint
