/-
ModuleLint/Proofs/Lexical/Join.lean

Two texts joined by an end of line are tokenized one by one.  No piece of the first text
reaches over the end of line, and behind it the walk is where it was at the start, only so
many bytes and lines further on; so nothing that was found before the end of line can
change what is found behind it.

Main result: `tokenize_join`.  Where the first text is tokenized, the joined text has its
tokens and trivia and then those of the second text, moved; or the fault of the second
text, moved.
-/
import ModuleLint.Proofs.Lexical.Scans

namespace ModuleLint

open Lexical

/-! ### Moving tokens -/

/-- The token that stands a number of bytes and of whole lines further on. -/
def Token.moved (t : Token) (bytes lines : Nat) : Token :=
  { t with position := t.position.moved bytes lines }

/-- The comment or preprocessor line that stands so much further on. -/
def Trivia.moved (t : Trivia) (bytes lines : Nat) : Trivia :=
  { t with position := t.position.moved bytes lines }

namespace Lexed

/-- All tokens and trivia so much further on. -/
def moved (lexed : Lexed) (bytes lines : Nat) : Lexed :=
  ⟨lexed.tokens.map (·.moved bytes lines), lexed.trivia.map (·.moved bytes lines)⟩

/-- The tokens and the trivia of one text, then those of another. -/
instance : Append Lexed where
  append a b := ⟨a.tokens ++ b.tokens, a.trivia ++ b.trivia⟩

theorem tokens_append (a b : Lexed) : (a ++ b).tokens = a.tokens ++ b.tokens := rfl

theorem trivia_append (a b : Lexed) : (a ++ b).trivia = a.trivia ++ b.trivia := rfl

theorem tokens_moved (a : Lexed) (bytes lines : Nat) :
    (a.moved bytes lines).tokens = a.tokens.map (·.moved bytes lines) := rfl

end Lexed

/-- The place so much further on of a piece. -/
def PlacedPiece.moved (x : PlacedPiece) (bytes lines : Nat) : PlacedPiece :=
  { x with position := x.position.moved bytes lines }

variable {touched : Bool} {kind : PieceKind} {word rest s t : List Char} {scan : Scan}
  {lexed : Lexed} {p : Position} {before behind : List Piece} {bytes lines : Nat}

/-- Behind some pieces, the next one stands at the place after them. -/
theorem placed_append :
    Piece.placed p (before ++ behind) =
      Piece.placed p before ++ Piece.placed (p.after (before.flatMap Piece.text)) behind := by
  induction before generalizing p with
  | nil => rfl
  | cons piece before ih =>
    rw [List.cons_append, Piece.placed, Piece.placed, ih, List.cons_append, List.flatMap_cons,
      Position.after_append]

theorem mem_placed_append {x : Piece} :
    ⟨x, p.after (before.flatMap Piece.text)⟩ ∈ Piece.placed p (before ++ x :: behind) := by
  rw [placed_append]
  exact List.mem_append_right _ List.mem_cons_self

/-- Pieces keep their distances. -/
theorem placed_moved :
    Piece.placed (p.moved bytes lines) behind =
      (Piece.placed p behind).map (·.moved bytes lines) := by
  induction behind generalizing p with
  | nil => rfl
  | cons piece behind ih =>
    rw [Piece.placed, Piece.placed, Position.moved_after, ih]
    rfl

theorem ofPlaced_append (xs ys : List PlacedPiece) :
    Lexed.ofPlaced (xs ++ ys) = Lexed.ofPlaced xs ++ Lexed.ofPlaced ys := by
  rw [Lexed.ofPlaced, List.filterMap_append, List.filterMap_append, ← List.append_toArray,
    ← List.append_toArray]
  rfl

theorem ofPlaced_moved (xs : List PlacedPiece) :
    Lexed.ofPlaced (xs.map (·.moved bytes lines)) = (Lexed.ofPlaced xs).moved bytes lines := by
  have htoken : ∀ x : PlacedPiece,
      (x.moved bytes lines).token? = x.token?.map (·.moved bytes lines) := by
    rintro ⟨⟨kind, text⟩, p⟩
    cases kind with
    | blank => rfl
    | trivia kind => rfl
    | token kind => rfl
  have htrivia : ∀ x : PlacedPiece,
      (x.moved bytes lines).trivia? = x.trivia?.map (·.moved bytes lines) := by
    rintro ⟨⟨kind, text⟩, p⟩
    cases kind with
    | blank => rfl
    | trivia kind => rfl
    | token kind => rfl
  simp only [Lexed.ofPlaced, Lexed.moved, List.filterMap_map, List.map_toArray, List.map_filterMap,
    Function.comp_def, htoken, htrivia]

/-! ### Joining texts -/

/-- An end of line makes no fraction begin. -/
theorem beginsFraction_join : beginsFraction (rest ++ '\n' :: t) = beginsFraction rest := by
  rcases rest with - | ⟨d, - | ⟨e, rest⟩⟩
  · rfl
  · -- behind a point at the end of the text there is still no digit
    exact (Bool.and_false _).trans (Bool.and_false _).symm
  · rfl

/-- An end of line prolongs no piece. -/
theorem prolongs_line : prolongs kind word ('\n' :: t) = false := by
  unfold prolongs
  split
  · rfl
  · rfl
  · rfl
  · exact Bool.and_false _
  all_goals rfl

/-- **No piece reaches over an end of line that its own text does not hold.** -/
theorem prolongs_join (h : prolongs kind word rest = false) :
    prolongs kind word (rest ++ '\n' :: t) = false := by
  cases rest with
  | nil => exact prolongs_line
  | cons d rest =>
    rw [← h]
    exact prolongs_congr rfl beginsFraction_join

/-- A text that falls into pieces does so in front of an end of line too, and what stands
behind the end of line falls into pieces as it does alone. -/
theorem Scans.join {before : Scan} (h : Scans touched s before) (hfault : before.fault = none)
    (ht : Scans false t scan) :
    Scans touched (s ++ '\n' :: t)
      ⟨before.pieces ++ ⟨.blank, ['\n']⟩ :: scan.pieces, scan.fault⟩ := by
  induction h with
  | done touched =>
    have hline : Scans touched ('\n' :: ([] ++ t)) ⟨⟨.blank, ['\n']⟩ :: scan.pieces, scan.fault⟩ :=
      .piece rfl ht
    exact hline
  | stuck hmunch => cases hfault
  | piece hmunch hrest ih =>
    obtain ⟨halone, hprolongs⟩ := munch_append_iff.mp hmunch
    have hjoined := munch_append_iff.mpr ⟨halone, prolongs_join (t := t) hprolongs⟩
    have hpiece := Scans.piece hjoined (ih hfault)
    rw [← List.append_assoc] at hpiece
    exact hpiece

/-- Behind the end of line, places are those of the second text alone, moved. -/
theorem start_after_join (s t : List Char) :
    Position.start.after (s ++ '\n' :: t) =
      (Position.start.after t).moved (byteLength s + 1) (s.count '\n' + 1) := by
  rw [List.append_cons, Position.after_append, Position.start_after_line, Position.moved_after]

/-- The pieces behind the end of line are placed as those of the second text alone, moved. -/
theorem placed_join (before behind : List Piece) :
    let s := before.flatMap Piece.text
    Piece.placed Position.start (before ++ ⟨.blank, ['\n']⟩ :: behind) =
      Piece.placed Position.start before ++ ⟨⟨.blank, ['\n']⟩, Position.start.after s⟩ ::
        (Piece.placed Position.start behind).map
          (·.moved (byteLength s + 1) (s.count '\n' + 1)) := by
  intro s
  rw [placed_append, Piece.placed, ← Position.after_append, Position.start_after_line,
    placed_moved]

/-- **Tokenizing goes line by line**: what is found in a text does not depend on a text
that stands before it and an end of line, but for its place. -/
theorem tokenize_join (h : tokenize s = .ok lexed) (t : List Char) :
    tokenize (s ++ '\n' :: t) = match tokenize t with
      | .ok behind => .ok (lexed ++ behind.moved (byteLength s + 1) (s.count '\n' + 1))
      | .error e => .error { e with line := e.line + (s.count '\n' + 1) } := by
  obtain ⟨pieces, hs, rfl⟩ := tokenize_eq_ok_iff.mp h
  obtain ⟨scan, ht⟩ := exists_scans false t
  have htext : pieces.flatMap Piece.text = s := hs.flatMap_text rfl
  rw [(hs.join rfl ht).tokenize_eq, ht.tokenize_eq]
  cases scan.fault with
  | some fault =>
    -- the fault is reported at the place behind all pieces
    have hplace : (pieces ++ ⟨.blank, ['\n']⟩ :: scan.pieces).flatMap Piece.text =
        s ++ '\n' :: scan.pieces.flatMap Piece.text := by
      rw [List.flatMap_append, htext]
      rfl
    simp only [hplace, start_after_join]
    rfl
  | none =>
    simp only [placed_join, ofPlaced_append, htext]
    rw [← ofPlaced_moved]
    rfl

/-- A text that ends in a token which more characters could prolong, before one that
begins with such characters. -/
theorem tokenize_join_number :
    tokenize "1.".toList = .ok ⟨#[⟨.number, ['1'], ⟨0, 1, 1⟩⟩, ⟨.dot, ['.'], ⟨1, 1, 2⟩⟩], #[]⟩ ∧
      tokenize ("1.".toList ++ '\n' :: "2".toList) =
        .ok ⟨#[⟨.number, ['1'], ⟨0, 1, 1⟩⟩, ⟨.dot, ['.'], ⟨1, 1, 2⟩⟩, ⟨.number, ['2'], ⟨3, 2, 1⟩⟩],
          #[]⟩ := by
  have hbefore : tokenize "1.".toList =
      .ok ⟨#[⟨.number, ['1'], ⟨0, 1, 1⟩⟩, ⟨.dot, ['.'], ⟨1, 1, 2⟩⟩], #[]⟩ := rfl
  have hbehind : tokenize "2".toList = .ok ⟨#[⟨.number, ['2'], ⟨0, 1, 1⟩⟩], #[]⟩ := rfl
  refine ⟨hbefore, ?_⟩
  rw [tokenize_join hbefore, hbehind]
  exact congrArg Except.ok (by decide +kernel)

end ModuleLint
