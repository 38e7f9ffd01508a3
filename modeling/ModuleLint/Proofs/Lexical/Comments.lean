/-
ModuleLint/Proofs/Lexical/Comments.lean

Which parts of a source are comments.  A comment is told by the source itself, once its tokens
and its preprocessor lines are known (`Lexed.Comment`): it begins with the first two slashes
on its line that none of these holds, and runs to the end of the line.  So slashes in a string
literal, also in one that goes on over lines, begin no comment, and neither do those on a
preprocessor line.

Each character lies in one piece (`exists_covering`, `PlacedPiece.eq_of_holds`), and a piece
that is a comment has all the rest of its line (`Scans.ends_line`); the rest follows from these
two.

Main results: `mem_commentsOnLine_iff`, and that there is at most one comment on a line
(`length_commentsOnLine_le`).
-/
import Mathlib.Data.List.Pairwise
import ModuleLint.Proofs.Lexical.TrailingComment
import ModuleLint.Tree.Basic

namespace ModuleLint

open Lexical

/-- A token or a preprocessor line holds the byte at an offset. -/
def Lexed.TakenAt (lexed : Lexed) (offset : Nat) : Prop :=
  (∃ token ∈ lexed.tokens, token.range.start ≤ offset ∧ offset < token.range.stop) ∨
    ∃ c ∈ lexed.trivia, c.kind = .preprocessor ∧ c.range.start ≤ offset ∧ offset < c.range.stop

/-- **A comment of a source**, with all that stands before and behind it. -/
structure Lexed.Comment (lexed : Lexed) (source before comment behind : List Char) : Prop where
  split : source = before ++ (comment ++ behind)
  /-- It begins with two slashes, -/
  slashes : "//".toList <+: comment
  /-- which no token and no preprocessor line holds, -/
  free : ¬ lexed.TakenAt (byteLength before)
  /-- the first such ones on their line, -/
  first : ∀ u v, before = u ++ v → v ≠ [] → '\n' ∉ v → "//".toList <+: v ++ comment →
    lexed.TakenAt (byteLength u)
  /-- and goes up to the end of the line. -/
  line : '\n' ∉ comment
  ends : behind = [] ∨ ∃ rest, behind = '\n' :: rest

/-- A text is the comment that begins on a line. -/
def Lexed.CommentOn (lexed : Lexed) (source : List Char) (line : Nat) (comment : List Char) :
    Prop :=
  ∃ before behind, lexed.Comment source before comment behind ∧ line = before.count '\n' + 1

variable {touched : Bool} {c : Char} {text rest source before comment behind : List Char}
  {line n offset : Nat} {kind : TriviaKind} {pieces ps qs : List Piece} {x y : PlacedPiece}
  {p : Position} {piece : Piece} {lexed : Lexed} {t : Tree}

/-! ### Pieces that are comments -/

/-- A comment begins with two slashes. -/
theorem Lexical.munch_comment (h : munch touched c rest = .ok (.trivia .comment, n)) :
    c = '/' ∧ rest.head? = some '/' := by
  by_contra hnot
  have hslash : (c == '/' && rest.head? == some '/') = false := by simpa using hnot
  simp only [munch, hslash] at h
  split at h
  · cases h
  split at h
  · contradiction
  split at h
  · cases h
  split at h
  · cases h
  split at h
  · cases h
  split at h
  · obtain ⟨hkind, -⟩ := literal_eq_ok_iff.mp h
    cases hkind
  split at h
  · obtain ⟨hkind, -⟩ := literal_eq_ok_iff.mp h
    cases hkind
  · obtain ⟨_, hkind, -⟩ := sign_eq_ok_iff.mp h
    cases hkind

/-- **A comment and a preprocessor line** have no end of line, and one comes behind them. -/
theorem Scans.ends_line (h : Scans touched text ⟨ps ++ piece :: qs, none⟩)
    (hkind : piece.kind = .trivia kind) :
    '\n' ∉ piece.text ∧
      (qs.flatMap Piece.text = [] ∨ ∃ rest, qs.flatMap Piece.text = '\n' :: rest) := by
  obtain ⟨more, -, hmore⟩ := h.behind
  obtain ⟨c, word, rest, hx, rfl, hmunch, hrest⟩ := scans_cons_iff.mp hmore
  obtain rfl := hrest.flatMap_text rfl
  rw [hkind] at hmunch
  obtain ⟨hc, hlength⟩ := munch_trivia hmunch
  obtain ⟨hword, hprolongs⟩ := (@lineLength_append_iff word _ kind).mp hlength.symm
  constructor
  · rw [hx, List.mem_cons, not_or]
    refine ⟨Ne.symm hc, fun hline => ?_⟩
    exact absurd (forall_of_length_takeWhile hword _ hline) (by decide)
  · cases hbehind : qs.flatMap Piece.text with
    | nil => exact .inl rfl
    | cons d rest =>
      rw [prolongs, hbehind] at hprolongs
      have hd : d = '\n' := by simpa using hprolongs
      exact .inr ⟨rest, by rw [hd]⟩

/-- A piece that is a comment begins with two slashes. -/
theorem Scans.slashes (h : Scans touched text ⟨pieces, none⟩) (hpiece : piece ∈ pieces)
    (hkind : piece.kind = .trivia .comment) : "//".toList <+: piece.text := by
  obtain ⟨_, c, word, htext, hmunch⟩ := h.munched hpiece
  rw [hkind] at hmunch
  obtain ⟨rfl, hhead⟩ := munch_comment hmunch
  obtain ⟨more, rfl⟩ := List.head?_eq_some_iff.mp hhead
  rw [htext]
  exact ⟨more, rfl⟩

/-! ### The piece at an offset -/

namespace PlacedPiece

/-- A piece holds the byte at an offset. -/
def Holds (x : PlacedPiece) (offset : Nat) : Prop :=
  x.range.start ≤ offset ∧ offset < x.range.stop

/-- **No byte is in two pieces.** -/
theorem eq_of_holds (hx : x ∈ Piece.placed p pieces) (hy : y ∈ Piece.placed p pieces)
    (hxo : x.Holds offset) (hyo : y.Holds offset) : x = y := by
  by_contra hne
  have hpairwise : (Piece.placed p pieces).Pairwise fun x y =>
      x.range.stop ≤ y.range.start ∨ y.range.stop ≤ x.range.start :=
    (pairwise_placed p pieces).imp .inl
  have : Std.Symm fun x y : PlacedPiece =>
      x.range.stop ≤ y.range.start ∨ y.range.stop ≤ x.range.start := ⟨fun _ _ h => h.symm⟩
  have hapart := hpairwise.forall hx hy hne
  obtain ⟨hxstart, hxstop⟩ := hxo
  obtain ⟨hystart, hystop⟩ := hyo
  omega

/-- An offset is taken if the piece that holds it is a token or a preprocessor line. -/
theorem takenAt_iff (hx : x ∈ Piece.placed p pieces) (hxo : x.Holds offset) :
    (Lexed.ofPlaced (Piece.placed p pieces)).TakenAt offset ↔
      (∃ kind, x.piece.kind = .token kind) ∨ x.piece.kind = .trivia .preprocessor := by
  constructor
  · rintro (⟨token, htoken, hrange⟩ | ⟨c, hc, hkind, hrange⟩)
    · obtain ⟨y, hy, htoken⟩ := mem_tokens_ofPlaced.mp htoken
      rw [(range_of_token? htoken).2.2] at hrange
      obtain rfl := eq_of_holds hx hy hxo hrange
      exact .inl ⟨_, kind_of_token? htoken⟩
    · obtain ⟨y, hy, hc⟩ := mem_trivia_ofPlaced.mp hc
      rw [(range_of_trivia? hc).2.2] at hrange
      obtain rfl := eq_of_holds hx hy hxo hrange
      unfold trivia? at hc
      split at hc
      · rename_i kind hpiece
        cases hc
        exact .inr (hkind ▸ hpiece)
      · cases hc
  · rintro (⟨kind, hkind⟩ | hkind)
    · have htoken : x.token? = some ⟨kind, x.piece.text, x.position⟩ := by
        unfold token?
        simp only [hkind]
      exact .inl ⟨_, mem_tokens_ofPlaced.mpr ⟨x, hx, htoken⟩, hxo⟩
    · have htrivia : x.trivia? = some ⟨.preprocessor, x.piece.text, x.position⟩ := by
        unfold trivia?
        simp only [hkind]
      exact .inr ⟨_, mem_trivia_ofPlaced.mpr ⟨x, hx, htrivia⟩, rfl, hxo⟩

end PlacedPiece

open PlacedPiece

/-- **Two slashes are in a comment**, unless a token or a preprocessor line holds the first. -/
theorem Scans.exists_comment (h : Scans false source ⟨pieces, none⟩)
    (hsource : source = before ++ '/' :: behind)
    (hfree : ¬ (Lexed.ofPlaced (Piece.placed Position.start pieces)).TakenAt (byteLength before)) :
    ∃ x ∈ Piece.placed Position.start pieces, x.piece.kind = .trivia .comment ∧
      x.Holds (byteLength before) := by
  obtain ⟨x, hx, hslash, hholds⟩ :=
    exists_covering (p := Position.start) ((h.flatMap_text rfl).trans hsource)
  rw [Position.start, Nat.zero_add] at hholds
  refine ⟨x, hx, ?_, hholds⟩
  rw [takenAt_iff hx hholds, not_or] at hfree
  cases hkind : x.piece.kind with
  | blank => exact absurd (separator_of_blank h hx hkind hslash) (by decide)
  | trivia kind =>
    cases kind with
    | comment => rfl
    | preprocessor => exact absurd hkind hfree.2
  | token kind => exact absurd ⟨kind, hkind⟩ hfree.1

/-! ### Texts and bytes -/

/-- A text that is longer in bytes goes on behind the other one. -/
theorem exists_append_of_byteLength {s u v w : List Char} (h : s ++ u = v ++ w)
    (hle : byteLength v ≤ byteLength s) : ∃ m, s = v ++ m ∧ w = m ++ u := by
  rcases List.append_eq_append_iff.mp h with ⟨m, hv, hu⟩ | ⟨m, hs, hw⟩
  · -- only by nothing at all
    have hm : m = [] := by
      by_contra hm
      have hpos := byteLength_pos hm
      rw [hv, byteLength_append] at hle
      omega
    rw [hm, List.append_nil] at hv
    rw [hm, List.nil_append] at hu
    exact ⟨[], by rw [hv, List.append_nil], by rw [hu, List.nil_append]⟩
  · exact ⟨m, hs, hw⟩

/-- Two texts up to the same end of line are the same. -/
theorem eq_of_ends_line {s u v w : List Char} (h : s ++ u = v ++ w) (hs : '\n' ∉ s) (hv : '\n' ∉ v)
    (hu : u = [] ∨ ∃ rest, u = '\n' :: rest) (hw : w = [] ∨ ∃ rest, w = '\n' :: rest) :
    s = v ∧ u = w := by
  have hlength : s.length = v.length := by
    rw [← lineLength_note hs hu, h, lineLength_note hv hw]
  exact List.append_inj h hlength

/-- Where a line ends in front of a text that does not end it, the end of line comes first. -/
theorem mem_of_ends_line {s u v : List Char} (h : s ++ (u ++ v) = [] ∨ ∃ rest, s ++ (u ++ v) =
    '\n' :: rest) (hne : u ≠ []) (hu : '\n' ∉ u) : '\n' ∈ s := by
  obtain ⟨c, word, rfl⟩ := List.exists_cons_of_ne_nil hne
  cases s with
  | nil =>
    rcases h with hnil | ⟨rest, hrest⟩
    · cases hnil
    · obtain ⟨rfl, -⟩ := List.cons.inj hrest
      exact absurd List.mem_cons_self hu
  | cons d s =>
    rcases h with hnil | ⟨rest, hrest⟩
    · cases hnil
    · obtain ⟨rfl, -⟩ := List.cons.inj hrest
      exact List.mem_cons_self

/-! ### Comments and their pieces -/

/-- What a piece behind some others holds. -/
theorem holds_behind_iff :
    PlacedPiece.Holds ⟨piece, Position.start.after (ps.flatMap Piece.text)⟩ n ↔
      byteLength (ps.flatMap Piece.text) ≤ n ∧
        n < byteLength (ps.flatMap Piece.text ++ piece.text) := by
  rw [Holds, range, offset_start_after, byteLength_append]

/-- The pieces around a placed one. -/
theorem exists_split_of_mem (hx : x ∈ Piece.placed Position.start pieces) :
    ∃ ps piece qs, pieces = ps ++ piece :: qs ∧
      x = ⟨piece, Position.start.after (ps.flatMap Piece.text)⟩ := by
  obtain ⟨ps, qs, hpieces, hposition⟩ := exists_placed hx
  exact ⟨ps, x.piece, qs, hpieces, by rw [← hposition]⟩

theorem Scans.source_eq (h : Scans false source ⟨ps ++ piece :: qs, none⟩) :
    source = ps.flatMap Piece.text ++ (piece.text ++ qs.flatMap Piece.text) := by
  rw [← h.flatMap_text rfl, List.flatMap_append, List.flatMap_cons]

/-- A piece holds the byte at which it begins. -/
theorem Scans.holds_self (h : Scans false source ⟨ps ++ piece :: qs, none⟩) :
    PlacedPiece.Holds ⟨piece, Position.start.after (ps.flatMap Piece.text)⟩
      (byteLength (ps.flatMap Piece.text)) := by
  have hpos := byteLength_pos (text_ne_nil_of_scans h (List.mem_append_right ps List.mem_cons_self))
  rw [holds_behind_iff, byteLength_append]
  omega

/-- No token and no preprocessor line holds the byte at which a comment begins. -/
theorem Scans.free (h : Scans false source ⟨ps ++ piece :: qs, none⟩)
    (hkind : piece.kind = .trivia .comment) :
    ¬ (Lexed.ofPlaced (Piece.placed Position.start (ps ++ piece :: qs))).TakenAt
      (byteLength (ps.flatMap Piece.text)) := by
  rw [takenAt_iff mem_placed_append h.holds_self, hkind]
  rintro (⟨_, hkind⟩ | hkind)
  · cases hkind
  · cases hkind

/-- A comment ends with its line, before a later piece that holds no end of line. -/
theorem Scans.line_between {ps' qs' : List Piece} {other : Piece}
    (h : Scans false source ⟨ps ++ piece :: qs, none⟩)
    (hpieces : ps ++ piece :: qs = ps' ++ other :: qs') (hline : '\n' ∉ piece.text)
    (hkind : other.kind = .trivia .comment)
    (hle : byteLength (ps'.flatMap Piece.text ++ other.text) ≤
      byteLength (ps.flatMap Piece.text)) :
    ∃ m, ps.flatMap Piece.text = ps'.flatMap Piece.text ++ other.text ++ m ∧ '\n' ∈ m := by
  have hother : Scans false source ⟨ps' ++ other :: qs', none⟩ := hpieces ▸ h
  obtain ⟨-, hends⟩ := hother.ends_line hkind
  have hsource := h.source_eq.symm.trans hother.source_eq
  rw [← List.append_assoc (ps'.flatMap Piece.text)] at hsource
  obtain ⟨m, hm, hbehind⟩ := exists_append_of_byteLength hsource hle
  rw [hbehind] at hends
  have hne := text_ne_nil_of_scans h (List.mem_append_right ps List.mem_cons_self)
  exact ⟨m, hm, mem_of_ends_line hends hne hline⟩

/-- **A piece that is a comment is one of the source.** -/
theorem Scans.comment_of_kind (h : Scans false source ⟨ps ++ piece :: qs, none⟩)
    (hkind : piece.kind = .trivia .comment) :
    (Lexed.ofPlaced (Piece.placed Position.start (ps ++ piece :: qs))).Comment source
      (ps.flatMap Piece.text) piece.text (qs.flatMap Piece.text) := by
  obtain ⟨hline, hends⟩ := h.ends_line hkind
  refine ⟨h.source_eq, h.slashes (List.mem_append_right _ List.mem_cons_self) hkind, h.free hkind,
    ?_, hline, hends⟩
  intro u v hbefore hv hvline hslashes
  by_contra hfree
  -- otherwise the slashes are in another comment, which holds no byte of this one
  obtain ⟨more, hmore⟩ := hslashes
  have hslash : source = u ++ '/' :: ('/' :: more ++ qs.flatMap Piece.text) := by
    rw [h.source_eq, hbefore, List.append_assoc, ← List.append_assoc v, ← hmore]
    rfl
  obtain ⟨y, hy, hykind, hyo⟩ := h.exists_comment hslash hfree
  obtain ⟨ps', other, qs', hpieces, rfl⟩ := exists_split_of_mem hy
  have hapart : ¬ PlacedPiece.Holds ⟨other, Position.start.after (ps'.flatMap Piece.text)⟩
      (byteLength (ps.flatMap Piece.text)) := by
    intro hboth
    have hsame := eq_of_holds hy mem_placed_append hboth h.holds_self
    have hpos := byteLength_pos hv
    rw [hsame, holds_behind_iff, hbefore, byteLength_append] at hyo
    omega
  rw [holds_behind_iff] at hyo hapart
  have hbefore' := congrArg byteLength hbefore
  rw [byteLength_append] at hbefore'
  -- so it ends with its line between the slashes and this one
  obtain ⟨m, hm, hmline⟩ := h.line_between hpieces hline hykind (by omega)
  rw [hbefore] at hm
  obtain ⟨w, -, hvm⟩ := exists_append_of_byteLength hm.symm hyo.2.le
  rw [hvm] at hvline
  exact hvline (List.mem_append_right w hmline)

/-- **A comment of the source is a piece.** -/
theorem Scans.exists_piece (h : Scans false source ⟨pieces, none⟩)
    (hcomment : (Lexed.ofPlaced (Piece.placed Position.start pieces)).Comment source before comment
      behind) :
    ∃ ps qs, pieces = ps ++ ⟨.trivia .comment, comment⟩ :: qs ∧ ps.flatMap Piece.text = before := by
  obtain ⟨note, hnote⟩ := hcomment.slashes
  have hslash : source = before ++ '/' :: ('/' :: note ++ behind) := by
    rw [hcomment.split, ← hnote]
    rfl
  obtain ⟨x, hx, hkind, hxo⟩ := h.exists_comment hslash hcomment.free
  obtain ⟨ps, piece, qs, rfl, rfl⟩ := exists_split_of_mem hx
  obtain ⟨hline, hends⟩ := h.ends_line hkind
  rw [holds_behind_iff] at hxo
  have hsource := h.source_eq.symm.trans hcomment.split
  obtain ⟨v, hbefore, hrest⟩ := exists_append_of_byteLength hsource.symm hxo.1
  -- no slashes stand on the line before, so the piece begins with those of the comment
  have hv : v = [] := by
    by_contra hv
    have hlong : byteLength v ≤ byteLength piece.text := by
      have hlt := hxo.2
      rw [hbefore, byteLength_append, byteLength_append] at hlt
      omega
    obtain ⟨w, hw, -⟩ := exists_append_of_byteLength hrest hlong
    have hbegins : "//".toList <+: v ++ comment := by
      have hpiece := h.slashes (List.mem_append_right ps List.mem_cons_self) hkind
      have hall := hpiece.trans (List.prefix_append piece.text (qs.flatMap Piece.text))
      rw [hrest, ← List.append_assoc] at hall
      refine List.prefix_of_prefix_length_le hall (List.prefix_append _ _) ?_
      rw [List.length_append]
      exact Nat.le_add_left_of_le hcomment.slashes.length_le
    exact h.free hkind (hcomment.first _ v hbefore hv
      (fun hmem => hline (hw ▸ List.mem_append_left w hmem)) hbegins)
  rw [hv, List.append_nil] at hbefore
  rw [hv, List.nil_append] at hrest
  obtain ⟨htext, -⟩ := eq_of_ends_line hrest hline hcomment.line hends hcomment.ends
  obtain ⟨kind, text⟩ := piece
  obtain rfl : kind = .trivia .comment := hkind
  obtain rfl : text = comment := htext
  exact ⟨ps, qs, rfl, hbefore.symm⟩

/-! ### Comments on a line -/

/-- **The comments that are listed for a line** are those of the source that begin on it. -/
theorem mem_commentsOnLine_iff (h : tokenize source = .ok t.lexed) :
    comment ∈ t.commentsOnLine line ↔ t.lexed.CommentOn source line comment := by
  obtain ⟨pieces, hscan, hlexed⟩ := tokenize_eq_ok_iff.mp h
  have hline : ∀ ps : List Piece, (Position.start.after (ps.flatMap Piece.text)).line =
      (ps.flatMap Piece.text).count '\n' + 1 := by
    intro ps
    rw [Position.line_after, Nat.add_comm]
    rfl
  simp only [Tree.commentsOnLine, List.mem_map, List.mem_filter, Bool.and_eq_true, beq_iff_eq]
  rw [hlexed]
  constructor
  · rintro ⟨c, ⟨hc, hkind, rfl⟩, rfl⟩
    obtain ⟨x, hx, hc⟩ := mem_trivia_ofPlaced.mp (Array.mem_toList_iff.mp hc)
    obtain ⟨ps, piece, qs, rfl, rfl⟩ := exists_split_of_mem hx
    obtain ⟨hposition, htext, -⟩ := range_of_trivia? hc
    unfold trivia? at hc
    split at hc
    · rename_i kind hpiece
      cases hc
      obtain rfl : kind = .comment := hkind
      exact ⟨_, _, hscan.comment_of_kind hpiece, hline ps⟩
    · cases hc
  · rintro ⟨before, behind, hcomment, rfl⟩
    obtain ⟨ps, qs, rfl, rfl⟩ := hscan.exists_piece hcomment
    refine ⟨⟨.comment, comment, Position.start.after (ps.flatMap Piece.text)⟩, ⟨?_, rfl, hline ps⟩,
      rfl⟩
    exact Array.mem_toList_iff.mpr (mem_trivia_ofPlaced.mpr ⟨_, mem_placed_append, rfl⟩)

/-- **Comments and preprocessor lines begin on different lines**, each on a later one. -/
theorem Scans.pairwise_line (h : Scans touched text ⟨pieces, none⟩) (p : Position) :
    (Piece.placed p pieces).Pairwise fun x y => ∀ c d, x.trivia? = some c → y.trivia? = some d →
      c.position.line < d.position.line := by
  induction pieces generalizing touched text p with
  | nil => exact List.Pairwise.nil
  | cons piece pieces ih =>
    obtain ⟨_, _, _, _, -, -, hrest⟩ := scans_cons_iff.mp h
    refine (ih hrest _).cons ?_
    intro y hy c d hc hd
    obtain ⟨ms, qs, rfl, hposition⟩ := exists_placed hy
    rw [(range_of_trivia? hc).1, (range_of_trivia? hd).1, hposition, Position.line_after,
      Position.line_after]
    have hkind : ∀ {z : PlacedPiece} {e}, z.trivia? = some e →
        ∃ kind, z.piece.kind = .trivia kind := by
      intro z e he
      unfold trivia? at he
      split at he
      · exact ⟨_, ‹_›⟩
      · cases he
    obtain ⟨kind, hpiece⟩ := hkind hc
    obtain ⟨kind', hy⟩ := hkind hd
    -- between the two there is the end of the first line
    have hfirst : Scans touched text ⟨[] ++ piece :: (ms ++ y.piece :: qs), none⟩ := h
    have hends := (hfirst.ends_line hpiece).2
    rw [List.flatMap_append, List.flatMap_cons] at hends
    obtain ⟨_, e, word, htext, -⟩ := hrest.munched (List.mem_append_right ms List.mem_cons_self)
    have hcount : '\n' ∈ ms.flatMap Piece.text :=
      mem_of_ends_line hends (htext ▸ List.cons_ne_nil e word) (hrest.ends_line hy).1
    have hpos := List.count_pos_iff.mpr hcount
    show p.line < _
    omega

/-- **At most one comment begins on a line.** -/
theorem length_commentsOnLine_le (h : tokenize source = .ok t.lexed) (line : Nat) :
    (t.commentsOnLine line).length ≤ 1 := by
  obtain ⟨pieces, hscan, hlexed⟩ := tokenize_eq_ok_iff.mp h
  have hpairwise : t.lexed.trivia.toList.Pairwise fun c d => c.position.line < d.position.line := by
    rw [hlexed]
    refine List.pairwise_filterMap.mpr ((hscan.pairwise_line Position.start).imp ?_)
    exact fun hxy c hc d hd => hxy c d hc hd
  have hfiltered := hpairwise.filter fun c => c.kind == .comment && c.position.line == line
  rw [Tree.commentsOnLine, List.length_map]
  cases hfound : t.lexed.trivia.toList.filter
      fun c => c.kind == .comment && c.position.line == line with
  | nil => exact Nat.zero_le 1
  | cons c more =>
    cases more with
    | nil => exact Nat.le_refl 1
    | cons d more =>
      rw [hfound] at hfiltered
      have honline : ∀ e ∈ c :: d :: more, e.position.line = line := by
        intro e he
        rw [← hfound, List.mem_filter, Bool.and_eq_true] at he
        exact beq_iff_eq.mp he.2.2
      have hlt := List.rel_of_pairwise_cons hfiltered List.mem_cons_self
      rw [honline c (by simp), honline d (by simp)] at hlt
      exact absurd hlt (Nat.lt_irrefl line)

end ModuleLint
