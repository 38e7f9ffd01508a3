/-
ModuleLint/Proofs/Lexical/Places.lean

Tokens and trivia as parts of the source.  `Lexed.Lossless` says that their byte ranges
lie in the source one after the other and leave out nothing but blanks;
`Lexed.Located` says that their lines and columns are those of the text before them.

Main results: `tokenize_lossless` and `tokenize_located`, for every source that is
tokenized.  Both come from the pieces: their texts make up the source, and each of them
stands at the place after all that comes before it (`exists_placed`).  So places go up from
token to token, whether they are told by bytes or by lines and columns (`pairwise_before`).
-/
import Mathlib.Data.List.Nodup
import ModuleLint.Proofs.Lexical.Scans

namespace ModuleLint

open Lexical

/-- A range of bytes, up to, not with, `stop`. -/
structure ByteRange where
  start : Nat
  stop : Nat
  deriving DecidableEq, Repr

/-- The bytes of a token. -/
def Token.range (t : Token) : ByteRange := ⟨t.position.offset, t.stop⟩

/-- The place behind a token. -/
def Token.finish (t : Token) : Position := t.position.after t.text

/-- The bytes of a comment or preprocessor line. -/
def Trivia.range (t : Trivia) : ByteRange :=
  ⟨t.position.offset, t.position.offset + byteLength t.text⟩

namespace Lexed

/-- **The ranges of tokens and trivia**, merged by offset. -/
def ranges (lexed : Lexed) : List ByteRange :=
  (lexed.tokens.toList.map Token.range).merge (lexed.trivia.toList.map Trivia.range)
    fun a b => a.start ≤ b.start

/-- **Nothing of a source is lost, doubled or overlapped** by its tokens and trivia. -/
structure Lossless (lexed : Lexed) (source : List Char) : Prop where
  /-- No range is empty. -/
  nonempty : ∀ r ∈ lexed.ranges, r.start < r.stop
  /-- The ranges follow one another and do not overlap. -/
  increasing : lexed.ranges.Pairwise fun a b => a.stop ≤ b.start
  /-- They begin and end between characters of the source. -/
  boundaries : ∀ r ∈ lexed.ranges, IsBoundary source r.start ∧ IsBoundary source r.stop
  /-- The tokens are in the order of the source. -/
  tokens_ordered : (lexed.tokens.toList.map Token.range).Pairwise fun a b => a.stop ≤ b.start
  /-- The trivia are in the order of the source. -/
  trivia_ordered : (lexed.trivia.toList.map Trivia.range).Pairwise fun a b => a.stop ≤ b.start
  /-- A token holds the text that the source has in its range. -/
  tokens_text : ∀ t ∈ lexed.tokens,
    ∃ before behind, source = before ++ t.text ++ behind ∧ byteLength before = t.position.offset
  /-- So does a comment or a preprocessor line. -/
  trivia_text : ∀ t ∈ lexed.trivia,
    ∃ before behind, source = before ++ t.text ++ behind ∧ byteLength before = t.position.offset
  /-- A character in none of the ranges is a blank or a byte order mark. -/
  outside : ∀ before c behind, source = before ++ c :: behind →
    (∀ r ∈ lexed.ranges, ¬ (r.start ≤ byteLength before ∧ byteLength before < r.stop)) →
    isBlank c = true ∨ c = '\ufeff'

/-- **Tokens and trivia know their places**: lines and columns count the text before. -/
structure Located (lexed : Lexed) (source : List Char) : Prop where
  token_line : ∀ t ∈ lexed.tokens,
    t.position.line = 1 + (beforeByte t.position.offset source).count '\n'
  token_column : ∀ t ∈ lexed.tokens,
    t.position.column = 1 + (Position.lastLine (beforeByte t.position.offset source)).length
  trivia_line : ∀ t ∈ lexed.trivia,
    t.position.line = 1 + (beforeByte t.position.offset source).count '\n'

end Lexed

variable {source : List Char} {lexed : Lexed} {pieces : List Piece} {p : Position}
  {x : PlacedPiece}

/-! ### The order of places -/

namespace Position

/-- **One place comes before another**, by its bytes and by its line and column. -/
structure Before (p q : Position) : Prop where
  offset : p.offset < q.offset
  place : p.line < q.line ∨ p.line = q.line ∧ p.column < q.column

theorem Before.trans {p q r : Position} (h : p.Before q) (h' : q.Before r) : p.Before r := by
  refine ⟨Nat.lt_trans h.offset h'.offset, ?_⟩
  have hpq := h.place
  have hqr := h'.place
  omega

theorem before_next (p : Position) (c : Char) : p.Before (p.next c) := by
  have hsize := Char.utf8Size_pos c
  constructor
  · rw [offset_next]
    omega
  · unfold next
    split
    · exact .inl (Nat.lt_succ_self _)
    · exact .inr ⟨rfl, Nat.lt_succ_self _⟩

/-- Reading goes up. -/
theorem before_after (p : Position) {text : List Char} (h : text ≠ []) :
    p.Before (p.after text) := by
  induction text generalizing p with
  | nil => exact absurd rfl h
  | cons c rest ih =>
    rw [after_cons]
    by_cases hrest : rest = []
    · rw [hrest]
      exact p.before_next c
    · exact (p.before_next c).trans (ih (p.next c) hrest)

end Position

/-! ### Placed pieces -/

namespace PlacedPiece

/-- The bytes of a placed piece. -/
def range (x : PlacedPiece) : ByteRange :=
  ⟨x.position.offset, x.position.offset + byteLength x.piece.text⟩

/-- The bytes of a placed piece that is no blank. -/
def content? (x : PlacedPiece) : Option ByteRange :=
  match x.piece.kind with
  | .blank => none
  | _ => some x.range

theorem kind_of_token? {t : Token} (h : x.token? = some t) :
    x.piece.kind = .token t.kind := by
  unfold token? at h
  split at h
  · rename_i kind hkind
    cases h
    exact hkind
  · cases h

theorem range_of_token? {t : Token} (h : x.token? = some t) :
    t.position = x.position ∧ t.text = x.piece.text ∧ t.range = x.range := by
  unfold token? at h
  split at h
  · cases h
    exact ⟨rfl, rfl, rfl⟩
  · cases h

theorem range_of_trivia? {t : Trivia} (h : x.trivia? = some t) :
    t.position = x.position ∧ t.text = x.piece.text ∧ t.range = x.range := by
  unfold trivia? at h
  split at h
  · cases h
    exact ⟨rfl, rfl, rfl⟩
  · cases h

theorem range_of_content? {r : ByteRange} (h : x.content? = some r) : r = x.range := by
  unfold content? at h
  split at h
  · cases h
  · exact (Option.some.inj h).symm

end PlacedPiece

open PlacedPiece

/-- A placed piece stands at the place after all pieces before it. -/
theorem position_of_split {front rest : List PlacedPiece}
    (h : Piece.placed p pieces = front ++ x :: rest) :
    x.position = p.after ((front.map PlacedPiece.piece).flatMap Piece.text) := by
  induction front generalizing p pieces with
  | nil =>
    cases pieces with
    | nil => cases h
    | cons piece pieces =>
      obtain ⟨rfl, -⟩ := List.cons.inj h
      rfl
  | cons y front ih =>
    cases pieces with
    | nil => cases h
    | cons piece pieces =>
      obtain ⟨rfl, hrest⟩ := List.cons.inj h
      rw [ih hrest, List.map_cons, List.flatMap_cons, Position.after_append]

/-- Each placed piece has some pieces before it. -/
theorem exists_placed (h : x ∈ Piece.placed p pieces) :
    ∃ before behind, pieces = before ++ x.piece :: behind ∧
      x.position = p.after (before.flatMap Piece.text) := by
  obtain ⟨front, rest, hsplit⟩ := List.append_of_mem h
  refine ⟨front.map piece, rest.map piece, ?_, position_of_split hsplit⟩
  rw [← map_piece_placed p pieces, hsplit, List.map_append, List.map_cons]

theorem mem_of_mem_placed (h : x ∈ Piece.placed p pieces) : x.piece ∈ pieces := by
  rw [← map_piece_placed p pieces]
  exact List.mem_map_of_mem h

/-- Placed pieces follow one another and do not overlap. -/
theorem pairwise_placed (p : Position) (pieces : List Piece) :
    (Piece.placed p pieces).Pairwise fun x y => x.range.stop ≤ y.range.start := by
  induction pieces generalizing p with
  | nil => exact List.Pairwise.nil
  | cons piece rest ih =>
    refine List.Pairwise.cons (fun y hy => ?_) (ih _)
    obtain ⟨before, behind, -, hposition⟩ := exists_placed hy
    have hoffset := congrArg Position.offset hposition
    rw [Position.offset_after, Position.offset_after] at hoffset
    change p.offset + byteLength piece.text ≤ y.position.offset
    omega

/-- Placed pieces go up, as long as none of them is empty. -/
theorem pairwise_before_placed (p : Position) (h : ∀ piece ∈ pieces, piece.text ≠ []) :
    (Piece.placed p pieces).Pairwise fun x y => x.position.Before y.position := by
  induction pieces generalizing p with
  | nil => exact List.Pairwise.nil
  | cons piece rest ih =>
    refine List.Pairwise.cons ?_ (ih _ fun q hq => h q (List.mem_cons_of_mem _ hq))
    intro y hy
    obtain ⟨before, behind, -, hposition⟩ := exists_placed hy
    rw [hposition, ← Position.after_append]
    apply Position.before_after
    exact List.append_ne_nil_of_left_ne_nil (h piece List.mem_cons_self) _

/-- Each character lies in a piece. -/
theorem exists_covering {before behind : List Char} {c : Char}
    (h : pieces.flatMap Piece.text = before ++ c :: behind) :
    ∃ x ∈ Piece.placed p pieces, c ∈ x.piece.text ∧
      x.range.start ≤ p.offset + byteLength before ∧
      p.offset + byteLength before < x.range.stop := by
  induction pieces generalizing p before with
  | nil => exact absurd h.symm (List.append_ne_nil_of_right_ne_nil _ (List.cons_ne_nil _ _))
  | cons piece rest ih =>
    rw [List.flatMap_cons] at h
    have hrest : ∀ more, before = piece.text ++ more →
        rest.flatMap Piece.text = more ++ c :: behind →
        ∃ x ∈ Piece.placed p (piece :: rest), c ∈ x.piece.text ∧
          x.range.start ≤ p.offset + byteLength before ∧
          p.offset + byteLength before < x.range.stop := by
      rintro more rfl hmore
      obtain ⟨x, hx, hc, hstart, hstop⟩ := ih (p := p.after piece.text) hmore
      rw [Position.offset_after] at hstart hstop
      refine ⟨x, List.mem_cons_of_mem _ hx, hc, ?_, ?_⟩
      · rw [byteLength_append, ← Nat.add_assoc]
        exact hstart
      · rw [byteLength_append, ← Nat.add_assoc]
        exact hstop
    -- the character lies behind the first piece, or in it
    rcases List.append_eq_append_iff.mp h with ⟨more, hbefore, hmore⟩ | ⟨more, htext, hmore⟩
    · exact hrest more hbefore hmore
    · cases more with
      | nil =>
        rw [List.append_nil] at htext
        exact hrest [] (by rw [htext, List.append_nil]) hmore.symm
      | cons d more =>
        obtain ⟨rfl, -⟩ := List.cons.inj hmore
        refine ⟨⟨piece, p⟩, List.mem_cons_self, ?_, Nat.le_add_right _ _, ?_⟩
        · rw [htext]
          exact List.mem_append_right _ List.mem_cons_self
        · change p.offset + byteLength before < p.offset + byteLength piece.text
          rw [htext, byteLength_append, byteLength_cons]
          have := Char.utf8Size_pos c
          omega

/-! ### Ranges -/

/-- The tokens and the trivia together are all pieces but the blanks. -/
theorem perm_content (placed : List PlacedPiece) :
    ((Lexed.ofPlaced placed).tokens.toList.map Token.range ++
      (Lexed.ofPlaced placed).trivia.toList.map Trivia.range).Perm
      (placed.filterMap content?) := by
  simp only [Lexed.ofPlaced]
  induction placed with
  | nil => exact List.Perm.nil
  | cons x rest ih =>
    simp only [List.filterMap_cons, token?, trivia?, content?]
    cases x.piece.kind with
    | blank => exact ih
    | trivia kind => exact List.perm_middle.trans (ih.cons _)
    | token kind => exact ih.cons _

theorem pairwise_content (p : Position) (pieces : List Piece) :
    ((Piece.placed p pieces).filterMap content?).Pairwise fun a b => a.stop ≤ b.start := by
  refine List.pairwise_filterMap.mpr ((pairwise_placed p pieces).imp ?_)
  intro x y hxy a ha b hb
  rw [range_of_content? ha, range_of_content? hb]
  exact hxy

/-- No scanned piece is empty. -/
theorem text_ne_nil_of_scans (h : Scans false source ⟨pieces, none⟩) {piece : Piece}
    (hpiece : piece ∈ pieces) : piece.text ≠ [] := by
  obtain ⟨touched, c, word, htext, -⟩ := h.munched hpiece
  rw [htext]
  exact List.cons_ne_nil c word

theorem range_nonempty (h : Scans false source ⟨pieces, none⟩)
    (hx : x ∈ Piece.placed p pieces) : x.range.start < x.range.stop := by
  exact Nat.lt_add_of_pos_right (byteLength_pos (text_ne_nil_of_scans h (mem_of_mem_placed hx)))

theorem nonempty_content (h : Scans false source ⟨pieces, none⟩) {r : ByteRange}
    (hr : r ∈ (Piece.placed p pieces).filterMap content?) : r.start < r.stop := by
  obtain ⟨x, hx, hr⟩ := List.mem_filterMap.mp hr
  rw [range_of_content? hr]
  exact range_nonempty h hx

/-- The tokens and the trivia stand in the order of the source. -/
theorem pairwise_tokens (p : Position) (pieces : List Piece) :
    ((Lexed.ofPlaced (Piece.placed p pieces)).tokens.toList.map Token.range).Pairwise
      fun a b => a.stop ≤ b.start := by
  refine List.pairwise_map.mpr (List.pairwise_filterMap.mpr ((pairwise_placed p pieces).imp ?_))
  intro x y hxy t ht t' ht'
  rw [(range_of_token? ht).2.2, (range_of_token? ht').2.2]
  exact hxy

theorem pairwise_trivia (p : Position) (pieces : List Piece) :
    ((Lexed.ofPlaced (Piece.placed p pieces)).trivia.toList.map Trivia.range).Pairwise
      fun a b => a.stop ≤ b.start := by
  refine List.pairwise_map.mpr (List.pairwise_filterMap.mpr ((pairwise_placed p pieces).imp ?_))
  intro x y hxy t ht t' ht'
  rw [(range_of_trivia? ht).2.2, (range_of_trivia? ht').2.2]
  exact hxy

/-- Ranges that are not empty and follow one another are in the order of their offsets. -/
theorem pairwise_start {ranges : List ByteRange} (hnonempty : ∀ r ∈ ranges, r.start < r.stop)
    (h : ranges.Pairwise fun a b => a.stop ≤ b.start) :
    ranges.Pairwise fun a b => a.start < b.start := by
  refine h.imp_of_mem ?_
  intro a b ha hb hab
  exact Nat.lt_of_lt_of_le (hnonempty a ha) hab

/-- Merging two parts of a list that is in order gives that list. -/
theorem merge_eq {xs ys zs : List ByteRange} (hperm : (xs ++ ys).Perm zs)
    (hxs : xs.Pairwise fun a b => a.start < b.start)
    (hys : ys.Pairwise fun a b => a.start < b.start)
    (hzs : zs.Pairwise fun a b => a.start < b.start) :
    (xs.merge ys fun a b => a.start ≤ b.start) = zs := by
  have hmerge := (List.merge_perm_append fun a b : ByteRange => decide (a.start ≤ b.start)).trans
    hperm
  refine List.Perm.eq_of_pairwise ?_ ?_ (hzs.imp Nat.le_of_lt) hmerge
  · -- no two ranges of the list begin at one offset
    have hnodup : (zs.map ByteRange.start).Nodup := List.pairwise_map.mpr (hzs.imp Nat.ne_of_lt)
    intro a b ha hb hab hba
    exact List.inj_on_of_nodup_map hnodup (hmerge.mem_iff.mp ha) hb (Nat.le_antisymm hab hba)
  · refine (List.pairwise_merge ?_ ?_ _ _ ?_ ?_).imp of_decide_eq_true
    · intro a b c hab hbc
      exact decide_eq_true (Nat.le_trans (of_decide_eq_true hab) (of_decide_eq_true hbc))
    · intro a b
      rcases Nat.le_total a.start b.start with hab | hba
      · rw [decide_eq_true hab, Bool.true_or]
      · rw [decide_eq_true hba, Bool.or_true]
    · exact hxs.imp fun hab => decide_eq_true (Nat.le_of_lt hab)
    · exact hys.imp fun hab => decide_eq_true (Nat.le_of_lt hab)

/-- **The merged ranges are those of the pieces that are no blanks**, in their order. -/
theorem ranges_eq (h : Scans false source ⟨pieces, none⟩) :
    (Lexed.ofPlaced (Piece.placed p pieces)).ranges =
      (Piece.placed p pieces).filterMap content? := by
  have hperm := perm_content (Piece.placed p pieces)
  refine merge_eq hperm ?_ ?_ ?_
  · refine pairwise_start (fun r hr => ?_) (pairwise_tokens p pieces)
    exact nonempty_content h (hperm.mem_iff.mp (List.mem_append_left _ hr))
  · refine pairwise_start (fun r hr => ?_) (pairwise_trivia p pieces)
    exact nonempty_content h (hperm.mem_iff.mp (List.mem_append_right _ hr))
  · exact pairwise_start (fun r hr => nonempty_content h hr) (pairwise_content p pieces)

/-! ### Tokens and trivia in the source -/

/-- Each piece stands at the place after all of the source that comes before it. -/
theorem exists_around (h : Scans false source ⟨pieces, none⟩)
    (hx : x ∈ Piece.placed Position.start pieces) :
    ∃ before behind, source = before ++ x.piece.text ++ behind ∧
      x.position = Position.start.after before := by
  obtain ⟨before, behind, rfl, hposition⟩ := exists_placed hx
  refine ⟨before.flatMap Piece.text, behind.flatMap Piece.text, ?_, hposition⟩
  rw [← h.flatMap_text rfl, List.flatMap_append, List.flatMap_cons, List.append_assoc]

theorem offset_start_after (before : List Char) :
    (Position.start.after before).offset = byteLength before := by
  rw [Position.offset_after, Position.start, Nat.zero_add]

/-- **The text of a piece is what the source has at its offset.** -/
theorem exists_text (h : Scans false source ⟨pieces, none⟩)
    (hx : x ∈ Piece.placed Position.start pieces) :
    ∃ before behind, source = before ++ x.piece.text ++ behind ∧
      byteLength before = x.position.offset := by
  obtain ⟨before, behind, hsource, hposition⟩ := exists_around h hx
  refine ⟨before, behind, hsource, ?_⟩
  rw [hposition, offset_start_after]

/-- A piece begins and ends between characters. -/
theorem isBoundary_range (h : Scans false source ⟨pieces, none⟩)
    (hx : x ∈ Piece.placed Position.start pieces) :
    IsBoundary source x.range.start ∧ IsBoundary source x.range.stop := by
  obtain ⟨before, behind, hsource, hoffset⟩ := exists_text h hx
  rw [PlacedPiece.range, ← hoffset, hsource]
  constructor
  · rw [List.append_assoc]
    exact isBoundary_append before _
  · rw [← byteLength_append]
    exact isBoundary_append (before ++ x.piece.text) behind

/-- The place of a piece is told by the source before its offset. -/
theorem position_eq (h : Scans false source ⟨pieces, none⟩)
    (hx : x ∈ Piece.placed Position.start pieces) :
    x.position = Position.start.after (beforeByte x.position.offset source) := by
  obtain ⟨before, behind, hsource, hposition⟩ := exists_around h hx
  have hbefore : beforeByte x.position.offset source = before := by
    rw [hposition, offset_start_after, hsource, List.append_assoc, beforeByte_append]
  rw [hbefore]
  exact hposition

theorem mem_tokens_ofPlaced {placed : List PlacedPiece} {t : Token} :
    t ∈ (Lexed.ofPlaced placed).tokens ↔ ∃ x ∈ placed, x.token? = some t := by
  rw [Lexed.ofPlaced, List.mem_toArray, List.mem_filterMap]

/-- A token is what `munch` finds in its text, on some line. -/
def Token.Munched (token : Token) : Prop :=
  ∃ touched c word, token.text = c :: word ∧
    munch touched c word = .ok (.token token.kind, word.length)

/-- **Each token of a source is munched by itself.** -/
theorem munched_of_tokenize (h : tokenize source = .ok lexed) {token : Token}
    (htoken : token ∈ lexed.tokens) : token.Munched := by
  obtain ⟨pieces, hscan, rfl⟩ := tokenize_eq_ok_iff.mp h
  obtain ⟨x, hx, htoken⟩ := mem_tokens_ofPlaced.mp htoken
  obtain ⟨touched, c, word, htext, hmunch⟩ := hscan.munched (mem_of_mem_placed hx)
  rw [kind_of_token? htoken] at hmunch
  exact ⟨touched, c, word, (range_of_token? htoken).2.1.trans htext, hmunch⟩

theorem mem_trivia_ofPlaced {placed : List PlacedPiece} {t : Trivia} :
    t ∈ (Lexed.ofPlaced placed).trivia ↔ ∃ x ∈ placed, x.trivia? = some t := by
  rw [Lexed.ofPlaced, List.mem_toArray, List.mem_filterMap]

/-- A piece that is a blank holds one separator. -/
theorem separator_of_blank (h : Scans false source ⟨pieces, none⟩)
    (hx : x ∈ Piece.placed p pieces) (hkind : x.piece.kind = .blank) {c : Char}
    (hc : c ∈ x.piece.text) : isSeparator c = true := by
  obtain ⟨touched, d, word, htext, hmunch⟩ := h.munched (mem_of_mem_placed hx)
  rw [hkind] at hmunch
  obtain ⟨hseparator, hlength⟩ := munch_blank hmunch
  rw [htext, List.eq_nil_of_length_eq_zero hlength, List.mem_singleton] at hc
  rw [hc]
  exact hseparator

/-- A piece that is no blank is among the ranges. -/
theorem range_mem_ranges (h : Scans false source ⟨pieces, none⟩)
    (hx : x ∈ Piece.placed p pieces) (hkind : x.piece.kind ≠ .blank) :
    x.range ∈ (Lexed.ofPlaced (Piece.placed p pieces)).ranges := by
  rw [ranges_eq h]
  refine List.mem_filterMap.mpr ⟨x, hx, ?_⟩
  unfold content?
  split
  · rename_i hblank
    exact absurd hblank hkind
  · rfl

/-- **What tokens and trivia leave out is blank.** -/
theorem outside_ranges (h : Scans false source ⟨pieces, none⟩) {before behind : List Char}
    {c : Char} (hsource : source = before ++ c :: behind)
    (hout : ∀ r ∈ (Lexed.ofPlaced (Piece.placed Position.start pieces)).ranges,
      ¬ (r.start ≤ byteLength before ∧ byteLength before < r.stop)) :
    isBlank c = true ∨ c = '\ufeff' := by
  obtain ⟨x, hx, hc, hstart, hstop⟩ :=
    exists_covering (p := Position.start) ((h.flatMap_text rfl).trans hsource)
  rw [Position.start, Nat.zero_add] at hstart hstop
  -- the piece that holds the character can only be a blank
  have hkind : x.piece.kind = .blank := by
    by_contra hkind
    exact hout _ (range_mem_ranges h hx hkind) ⟨hstart, hstop⟩
  have hseparator := separator_of_blank h hx hkind hc
  rw [isSeparator, Bool.or_eq_true, beq_iff_eq] at hseparator
  exact hseparator

/-- A source with a byte order mark, a preprocessor line, letters of two bytes, a string
literal over two lines and a comment. -/
def twoLines : List Char := "\ufeff#если\r\nx = \"я\n|\"\"ю\"; // ok".toList

/-- Its tokens and its trivia. -/
def twoLinesLexed : Lexed :=
  ⟨#[⟨.identifier, ['x'], ⟨14, 2, 1⟩⟩, ⟨.eq, ['='], ⟨16, 2, 3⟩⟩,
      ⟨.string, "\"я\n|\"\"ю\"".toList, ⟨18, 2, 5⟩⟩, ⟨.semicolon, [';'], ⟨28, 3, 6⟩⟩],
    #[⟨.preprocessor, "#если\r".toList, ⟨3, 1, 2⟩⟩, ⟨.comment, "// ok".toList, ⟨30, 3, 8⟩⟩]⟩

theorem tokenize_twoLines : tokenize twoLines = .ok twoLinesLexed := by decide +kernel

/-- **Nothing of a source is lost, doubled or overlapped** when it is tokenized. -/
theorem tokenize_lossless (h : tokenize source = .ok lexed) : lexed.Lossless source := by
  obtain ⟨pieces, hscan, rfl⟩ := tokenize_eq_ok_iff.mp h
  have hranges := ranges_eq (p := Position.start) hscan
  refine ⟨?_, ?_, ?_, pairwise_tokens _ pieces, pairwise_trivia _ pieces, ?_, ?_, ?_⟩
  · rw [hranges]
    exact fun r hr => nonempty_content hscan hr
  · rw [hranges]
    exact pairwise_content _ pieces
  · rw [hranges]
    intro r hr
    obtain ⟨x, hx, hr⟩ := List.mem_filterMap.mp hr
    rw [range_of_content? hr]
    exact isBoundary_range hscan hx
  · intro t ht
    obtain ⟨x, hx, ht⟩ := mem_tokens_ofPlaced.mp ht
    rw [(range_of_token? ht).1, (range_of_token? ht).2.1]
    exact exists_text hscan hx
  · intro t ht
    obtain ⟨x, hx, ht⟩ := mem_trivia_ofPlaced.mp ht
    rw [(range_of_trivia? ht).1, (range_of_trivia? ht).2.1]
    exact exists_text hscan hx
  · intro before c behind hsource hout
    exact outside_ranges hscan hsource hout

theorem lossless_twoLines : tokenize twoLines = .ok twoLinesLexed ∧
    twoLinesLexed.Lossless twoLines :=
  ⟨tokenize_twoLines, tokenize_lossless tokenize_twoLines⟩

/-- **Lines and columns are those of the text before.** -/
theorem tokenize_located (h : tokenize source = .ok lexed) : lexed.Located source := by
  obtain ⟨pieces, hscan, rfl⟩ := tokenize_eq_ok_iff.mp h
  refine ⟨?_, ?_, ?_⟩
  · intro t ht
    obtain ⟨x, hx, ht⟩ := mem_tokens_ofPlaced.mp ht
    have hline := congrArg Position.line (position_eq hscan hx)
    rw [Position.line_after] at hline
    rw [(range_of_token? ht).1]
    exact hline
  · intro t ht
    obtain ⟨x, hx, ht⟩ := mem_tokens_ofPlaced.mp ht
    have hcolumn := congrArg Position.column (position_eq hscan hx)
    rw [Position.column_start_after] at hcolumn
    rw [(range_of_token? ht).1]
    exact hcolumn
  · intro t ht
    obtain ⟨x, hx, ht⟩ := mem_trivia_ofPlaced.mp ht
    have hline := congrArg Position.line (position_eq hscan hx)
    rw [Position.line_after] at hline
    rw [(range_of_trivia? ht).1]
    exact hline

theorem located_twoLines : tokenize twoLines = .ok twoLinesLexed ∧
    twoLinesLexed.Located twoLines :=
  ⟨tokenize_twoLines, tokenize_located tokenize_twoLines⟩

/-- **Places go up** from token to token. -/
theorem pairwise_before (h : tokenize source = .ok lexed) :
    lexed.tokens.toList.Pairwise fun a b => a.position.Before b.position := by
  obtain ⟨pieces, hscan, rfl⟩ := tokenize_eq_ok_iff.mp h
  have hpieces := pairwise_before_placed Position.start fun _ hpiece =>
    text_ne_nil_of_scans hscan hpiece
  refine List.pairwise_filterMap.mpr (hpieces.imp ?_)
  intro x y hxy a ha b hb
  rw [(range_of_token? ha).1, (range_of_token? hb).1]
  exact hxy

/-! ### Texts sliced out -/

/-- What a piece holds is sliced out of the source between its bytes. -/
theorem slice?_placed (h : Scans false source ⟨pieces, none⟩)
    (hx : x ∈ Piece.placed Position.start pieces) :
    slice? source x.range.start x.range.stop = some x.piece.text := by
  obtain ⟨before, behind, hsource, hoffset⟩ := exists_text h hx
  have hslice := slice?_append before x.piece.text behind
  rwa [← hsource, hoffset] at hslice

theorem slice?_token (h : tokenize source = .ok lexed) {t : Token} (ht : t ∈ lexed.tokens) :
    slice? source t.position.offset t.stop = some t.text := by
  obtain ⟨pieces, hscan, rfl⟩ := tokenize_eq_ok_iff.mp h
  obtain ⟨x, hx, ht⟩ := mem_tokens_ofPlaced.mp ht
  obtain ⟨-, htext, hrange⟩ := range_of_token? ht
  have hslice := slice?_placed hscan hx
  rwa [← hrange, ← htext] at hslice

theorem slice?_trivia (h : tokenize source = .ok lexed) {t : Trivia} (ht : t ∈ lexed.trivia) :
    slice? source t.position.offset (t.position.offset + byteLength t.text) = some t.text := by
  obtain ⟨pieces, hscan, rfl⟩ := tokenize_eq_ok_iff.mp h
  obtain ⟨x, hx, ht⟩ := mem_trivia_ofPlaced.mp ht
  obtain ⟨-, htext, hrange⟩ := range_of_trivia? ht
  have hslice := slice?_placed hscan hx
  rwa [← hrange, ← htext] at hslice

/-- A token begins no earlier than one before it ends. -/
theorem stop_le_offset (h : tokenize source = .ok lexed) {i j : Nat} {a z : Token} (hij : i < j)
    (ha : lexed.tokens[i]? = some a) (hz : lexed.tokens[j]? = some z) :
    a.stop ≤ z.position.offset := by
  obtain ⟨pieces, hscan, rfl⟩ := tokenize_eq_ok_iff.mp h
  have hpairwise := List.pairwise_map.mp (pairwise_tokens Position.start pieces)
  rw [← Array.getElem?_toList] at ha hz
  obtain ⟨hi, rfl⟩ := List.getElem?_eq_some_iff.mp ha
  obtain ⟨hj, rfl⟩ := List.getElem?_eq_some_iff.mp hz
  exact List.pairwise_iff_getElem.mp hpairwise i j hi hj hij

theorem Token.offset_le_stop (t : Token) : t.position.offset ≤ t.stop := Nat.le_add_right _ _

/-- A token ends no earlier than a token before it begins. -/
theorem offset_le_stop (h : tokenize source = .ok lexed) {i j : Nat} {a z : Token} (hij : i ≤ j)
    (ha : lexed.tokens[i]? = some a) (hz : lexed.tokens[j]? = some z) :
    a.position.offset ≤ z.stop := by
  rcases Nat.lt_or_eq_of_le hij with hlt | rfl
  · have hbetween := stop_le_offset h hlt ha hz
    exact Nat.le_trans a.offset_le_stop (Nat.le_trans hbetween z.offset_le_stop)
  · obtain rfl := Option.some.inj (ha.symm.trans hz)
    exact a.offset_le_stop

/-- Nor does it end earlier than that one. -/
theorem stop_le_stop (h : tokenize source = .ok lexed) {i j : Nat} {a z : Token} (hij : i ≤ j)
    (ha : lexed.tokens[i]? = some a) (hz : lexed.tokens[j]? = some z) : a.stop ≤ z.stop := by
  rcases Nat.lt_or_eq_of_le hij with hlt | rfl
  · exact Nat.le_trans (stop_le_offset h hlt ha hz) z.offset_le_stop
  · obtain rfl := Option.some.inj (ha.symm.trans hz)
    exact Nat.le_refl _

end ModuleLint
