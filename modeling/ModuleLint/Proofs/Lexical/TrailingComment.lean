/-
ModuleLint/Proofs/Lexical/TrailingComment.lean

A comment put at the end of a line.  Where the end of a line lies in no string literal, and
no comment or preprocessor line reaches it, it lies between two pieces: of all pieces only
string literals hold an end of line behind their first character (`string_of_line`).  There
a blank and a comment fit in.  They prolong no piece that stands before them, and the pieces
behind them are found again, only so many bytes further on: the end of line that comes first
puts the columns back to where they were.

Main result: `tokenize_trailing`.
-/
import Mathlib.Data.List.TakeWhile
import ModuleLint.Proofs.Lexical.Join
import ModuleLint.Proofs.Lexical.Places

namespace ModuleLint

open Lexical

/-- **A line of a text ends** between two parts of it: in front of an end of line, or at the
end of the text. -/
structure EndsLine (line : Nat) (before behind : List Char) : Prop where
  number : line = before.count '\n' + 1
  ends : behind = [] ∨ ∃ rest, behind = '\n' :: rest

/-- **A place is open**: it lies inside of no string literal, and neither a comment nor a
preprocessor line holds or reaches it. -/
structure Lexed.OpenAt (lexed : Lexed) (offset : Nat) : Prop where
  string : ∀ t ∈ lexed.tokens, t.kind = .string →
    ¬ (t.range.start < offset ∧ offset < t.range.stop)
  trivia : ∀ c ∈ lexed.trivia, ¬ (c.range.start ≤ offset ∧ offset ≤ c.range.stop)

namespace Lexical

variable {p : Char → Bool} {c d : Char} {word rest more : List Char} {touched : Bool}
  {kind : PieceKind}

/-! ### Pieces over an end of line -/

/-- A number is written in digits and a point. -/
theorem isDigit_of_numberLength (h : numberLength word = word.length) :
    ∀ d ∈ word, d.isDigit = true ∨ d = '.' := by
  induction word with
  | nil => simp
  | cons e word ih =>
    rw [List.length_cons] at h
    by_cases he : e.isDigit = true
    · rw [numberLength_cons_of_pos he, Nat.add_right_cancel_iff] at h
      intro d hd
      rcases List.mem_cons.mp hd with rfl | hd
      · exact .inl he
      · exact ih h d hd
    · rw [numberLength_cons_of_neg (Bool.eq_false_iff.mpr he)] at h
      split at h
      · -- a point, and then digits only
        rename_i hfraction
        rw [Nat.add_right_cancel_iff] at h
        have hpoint : e = '.' := by
          simp only [beginsFraction, List.head?_cons, Bool.and_eq_true, beq_iff_eq,
            Option.some.injEq] at hfraction
          exact hfraction.1
        intro d hd
        rcases List.mem_cons.mp hd with rfl | hd
        · exact .inr hpoint
        · exact .inl (forall_of_length_takeWhile h d hd)
      · exact absurd h.symm (Nat.succ_ne_zero _)

/-- A date literal does not leave its line. -/
theorem notMem_of_dateLength (h : dateLength word = some word.length) : '\n' ∉ word := by
  induction word with
  | nil => exact List.not_mem_nil
  | cons e word ih =>
    rw [dateLength_cons, List.length_cons] at h
    by_cases hquote : e = '\''
    · -- the closing apostrophe is the last character
      rw [if_pos hquote, Option.some.injEq] at h
      have hnil : word = [] := List.eq_nil_of_length_eq_zero (by omega)
      rw [hquote, hnil]
      decide
    · rw [if_neg hquote] at h
      by_cases hline : e = '\n'
      · rw [if_pos hline] at h
        cases h
      · rw [if_neg hline] at h
        obtain ⟨n, hn, hlength⟩ := Option.map_eq_some_iff.mp h
        obtain rfl : n = word.length := by omega
        rw [List.mem_cons, not_or]
        exact ⟨Ne.symm hline, ih hn⟩

/-- The second character of a sign is no end of line. -/
theorem notMem_of_sign? {sign : TokenKind} (h : sign? c word = some (sign, word.length)) :
    '\n' ∉ word := by
  cases word with
  | nil => exact List.not_mem_nil
  | cons e word =>
    rw [List.length_cons] at h
    have hlong : e = '>' ∨ e = '=' := by
      by_cases hless : c = '<'
      · rw [hless, sign?_less, List.head?_cons] at h
        split at h
        · rename_i hgreater
          exact .inl (Option.some.inj hgreater)
        · split at h
          · rename_i heq
            exact .inr (Option.some.inj heq)
          · cases h
      · by_cases hgreater : c = '>'
        · rw [hgreater, sign?_greater, List.head?_cons] at h
          split at h
          · rename_i heq
            exact .inr (Option.some.inj heq)
          · cases h
        · rw [sign?_congr hless hgreater] at h
          exact absurd (sign?_nil h) (Nat.succ_ne_zero _)
    -- and there is no third one
    have hnil : word = [] := by
      have hshort : sign? c ([e] ++ word) = some (sign, word.length + 1) := h
      have hone : sign? c [e] = some (sign, word.length + 1) := by
        rw [← hshort]
        exact sign?_cons_append.symm
      have hle := sign?_le hone
      exact List.eq_nil_of_length_eq_zero (by simpa using hle)
    rw [hnil]
    rcases hlong with rfl | rfl
    · decide
    · decide

/-- **Only a string literal reaches over an end of line.** -/
theorem string_of_line (h : munch touched c word = .ok (kind, word.length))
    (hline : '\n' ∈ word) : kind = .token .string := by
  generalize hlength : word.length = n at h
  cases munched_of_munch h with
  | blank =>
    rw [List.eq_nil_of_length_eq_zero hlength] at hline
    cases hline
  | trivia => exact absurd (forall_of_length_takeWhile hlength.symm _ hline) (by decide)
  | word => exact absurd (forall_of_length_takeWhile hlength.symm _ hline) (by decide)
  | number => exact absurd (isDigit_of_numberLength hlength.symm _ hline) (by decide)
  | string => rfl
  | date hdate =>
    rw [← hlength] at hdate
    exact absurd hline (notMem_of_dateLength hdate)
  | sign hsign =>
    rw [← hlength] at hsign
    exact absurd hline (notMem_of_sign? hsign)

/-! ### Pieces before a blank -/

/-- A blank makes no fraction begin. -/
theorem beginsFraction_blank (hends : more = [] ∨ ∃ rest, more = '\n' :: rest) :
    beginsFraction (d :: word ++ ' ' :: rest) = beginsFraction (d :: word ++ more) := by
  cases word with
  | nil =>
    -- behind a point there is no digit, with the blank and without it
    rcases hends with rfl | ⟨rest, rfl⟩
    · exact (Bool.and_false _).trans (Bool.and_false _).symm
    · exact (Bool.and_false _).trans (Bool.and_false _).symm
  | cons e word => rfl

end Lexical

/-! ### Splitting a scan -/

variable {touched : Bool} {source before behind note : List Char} {pieces ps qs : List Piece}
  {x : Piece} {lexed : Lexed} {p : Position}

/-- A comment or preprocessor line does not end at an open place. -/
theorem not_trivia_of_openAt {trivia : TriviaKind}
    (hopen : (Lexed.ofPlaced (Piece.placed Position.start (ps ++ x :: qs))).OpenAt
      (byteLength (ps.flatMap Piece.text ++ x.text))) : x.kind ≠ .trivia trivia := by
  intro hkind
  have htrivia : PlacedPiece.trivia? ⟨x, Position.start.after (ps.flatMap Piece.text)⟩ =
      some ⟨trivia, x.text, Position.start.after (ps.flatMap Piece.text)⟩ := by
    unfold PlacedPiece.trivia?
    simp only [hkind]
  refine hopen.trivia _ (mem_trivia_ofPlaced.mpr ⟨_, mem_placed_append, htrivia⟩) ?_
  simp only [Trivia.range, offset_start_after, byteLength_append]
  omega

/-- A string literal does not go over an open place. -/
theorem not_string_of_openAt {u v : List Char} (hu : u ≠ []) (hv : v ≠ []) (hx : x.text = u ++ v)
    (hopen : (Lexed.ofPlaced (Piece.placed Position.start (ps ++ x :: qs))).OpenAt
      (byteLength (ps.flatMap Piece.text ++ u))) : x.kind ≠ .token .string := by
  intro hkind
  have htoken : PlacedPiece.token? ⟨x, Position.start.after (ps.flatMap Piece.text)⟩ =
      some ⟨.string, x.text, Position.start.after (ps.flatMap Piece.text)⟩ := by
    unfold PlacedPiece.token?
    simp only [hkind]
  refine hopen.string _ (mem_tokens_ofPlaced.mpr ⟨_, mem_placed_append, htoken⟩) rfl ?_
  have hupos := byteLength_pos hu
  have hvpos := byteLength_pos hv
  simp only [Token.range, Token.stop, Token.size, offset_start_after, byteLength_append, hx]
  omega

/-- **An open end of line lies between two pieces.** -/
theorem Scans.exists_split (h : Scans false (before ++ behind) ⟨pieces, none⟩)
    (hends : behind = [] ∨ ∃ rest, behind = '\n' :: rest)
    (hopen : (Lexed.ofPlaced (Piece.placed Position.start pieces)).OpenAt (byteLength before)) :
    ∃ ps qs, pieces = ps ++ qs ∧ ps.flatMap Piece.text = before ∧
      qs.flatMap Piece.text = behind := by
  have htext := h.flatMap_text rfl
  rw [List.flatMap_def, List.flatten_eq_append_iff] at htext
  rcases htext with ⟨as, bs, hmap, hbefore, hbehind⟩ | ⟨as, u, c, v, bs, hmap, hbefore, hbehind⟩
  · -- the two parts are made up of whole pieces
    obtain ⟨ps, qs, rfl, rfl, rfl⟩ := List.map_eq_append_iff.mp hmap
    exact ⟨ps, qs, rfl, hbefore.symm, hbehind.symm⟩
  · -- a piece has characters of both parts, the first of them behind an end of line
    obtain ⟨ps, rest, rfl, rfl, hrest⟩ := List.map_eq_append_iff.mp hmap
    obtain ⟨x, qs, rfl, hx, rfl⟩ := List.map_eq_cons_iff.mp hrest
    rcases hends with rfl | ⟨rest, rfl⟩
    · cases hbehind
    obtain ⟨rfl, -⟩ := List.cons.inj hbehind
    cases u with
    | nil =>
      refine ⟨ps, x :: qs, rfl, ?_, ?_⟩
      · rw [hbefore, List.append_nil, List.flatMap_def]
      · rw [hbehind, List.flatMap_cons, hx, List.nil_append, List.flatMap_def]
    | cons d u =>
      obtain ⟨touched, e, word, htext, hmunch⟩ :=
        h.munched (List.mem_append_right ps List.mem_cons_self)
      have hline : '\n' ∈ word := by
        rw [hx, List.cons_append, List.cons.injEq] at htext
        rw [← htext.2]
        exact List.mem_append_right u List.mem_cons_self
      have hkind := string_of_line hmunch hline
      rw [hbefore, ← List.flatMap_def] at hopen
      exact absurd hkind
        (not_string_of_openAt (List.cons_ne_nil d u) (List.cons_ne_nil '\n' v) hx hopen)

/-! ### Putting in a comment -/

/-- The pieces of a blank and a comment. -/
def remark (note : List Char) : List Piece :=
  [⟨.blank, [' ']⟩, ⟨.trivia .comment, '/' :: '/' :: note⟩]

/-- The characters of a blank and a comment. -/
def remarkText (note : List Char) : List Char := ' ' :: '/' :: '/' :: note

theorem flatMap_remark : (remark note).flatMap Piece.text = remarkText note := by
  simp [remark, remarkText]

/-- A comment ends where its line does. -/
theorem lineLength_note (hnote : '\n' ∉ note)
    (hends : behind = [] ∨ ∃ rest, behind = '\n' :: rest) :
    lineLength (note ++ behind) = note.length := by
  refine (@lineLength_append_iff note behind .comment).mpr ⟨?_, ?_⟩
  · rw [lineLength, List.takeWhile_eq_self_iff.mpr]
    intro c hc
    rw [bne_iff_ne]
    rintro rfl
    exact hnote hc
  · rcases hends with rfl | ⟨rest, rfl⟩
    · rfl
    · rfl

/-- In front of an end of line a blank and a comment are two pieces, and leave the rest as it
is. -/
theorem Scans.remark (h : Scans touched behind ⟨qs, none⟩) (hnote : '\n' ∉ note)
    (hends : behind = [] ∨ ∃ rest, behind = '\n' :: rest) :
    Scans touched (remarkText note ++ behind) ⟨ModuleLint.remark note ++ qs, none⟩ := by
  have hslash : munch touched '/' ('/' :: note ++ behind) =
      .ok (.trivia .comment, ('/' :: note).length) := by
    rw [munch_slash, if_pos (by rfl)]
    have hline : '\n' ∉ '/' :: note := by
      rw [List.mem_cons, not_or]
      exact ⟨by decide, hnote⟩
    rw [lineLength_note hline hends]
  have hcomment : Scans touched ('/' :: ('/' :: note ++ behind)) _ := .piece hslash h
  have hblank : munch touched ' ' ([] ++ '/' :: ('/' :: note ++ behind)) =
      .ok (.blank, ([] : List Char).length) := rfl
  exact .piece hblank hcomment

/-- **A scan goes on** through a comment at the end of a line. -/
theorem Scans.insert (h : Scans touched (before ++ behind) ⟨ps ++ qs, none⟩)
    (hps : ps.flatMap Piece.text = before) (hnote : '\n' ∉ note)
    (hends : behind = [] ∨ ∃ rest, behind = '\n' :: rest)
    (hlast : ∀ x ∈ ps.getLast?, ∀ trivia, x.kind ≠ .trivia trivia) :
    Scans touched (before ++ (remarkText note ++ behind))
      ⟨ps ++ (ModuleLint.remark note ++ qs), none⟩ := by
  -- by induction on the pieces that stand before the comment
  induction ps generalizing touched before with
  | nil =>
    obtain rfl := hps
    exact h.remark hnote hends
  | cons x ps ih =>
    obtain ⟨c, word, rest, hx, htext, hmunch, hrest⟩ := scans_cons_iff.mp h
    -- behind the first piece there are the other ones
    have hbehind : ps.flatMap Piece.text ++ behind = rest := by
      rw [← hps, List.flatMap_cons, List.append_assoc] at htext
      exact List.append_cancel_left htext
    subst hbehind hps
    have hlast' : ∀ x ∈ ps.getLast?, ∀ trivia, x.kind ≠ .trivia trivia := by
      intro y hy
      refine hlast y ?_
      rw [Option.mem_def] at hy ⊢
      rw [List.getLast?_cons, hy]
      rfl
    have hscans := ih hrest rfl hlast'
    obtain ⟨halone, hprolongs⟩ := munch_append_iff.mp hmunch
    have hsame : prolongs x.kind word (ps.flatMap Piece.text ++ (remarkText note ++ behind)) =
        false := by
      cases hfirst : ps.flatMap Piece.text with
      | nil =>
        -- no piece is empty, so this is the last one
        have hnil : ps = [] := by
          cases ps with
          | nil => rfl
          | cons y ps =>
            obtain ⟨_, d, more, hy, -⟩ := hrest.munched List.mem_cons_self
            rw [List.flatMap_cons, hy] at hfirst
            cases hfirst
        refine prolongs_blank fun trivia => ?_
        refine hlast x ?_ trivia
        rw [hnil]
        rfl
      | cons d more =>
        rw [hfirst] at hprolongs
        rw [← hprolongs]
        exact prolongs_congr rfl (beginsFraction_blank hends)
    refine scans_cons_iff.mpr ⟨c, word, _, hx, ?_, munch_append_iff.mpr ⟨halone, hsame⟩, hscans⟩
    rw [List.flatMap_cons, List.append_assoc]

/-! ### Tokens and trivia -/

/-- The piece in front of which a line ends is the end of line itself. -/
theorem Scans.eq_line {source : List Char} (h : Scans touched source ⟨ps ++ x :: qs, none⟩)
    (hends : (x :: qs).flatMap Piece.text = [] ∨
      ∃ rest, (x :: qs).flatMap Piece.text = '\n' :: rest) : x = ⟨.blank, ['\n']⟩ := by
  obtain ⟨touched', c, word, htext, hmunch⟩ :=
    h.munched (List.mem_append_right ps List.mem_cons_self)
  rw [List.flatMap_cons, htext, List.cons_append] at hends
  rcases hends with hends | ⟨rest, hends⟩
  · cases hends
  · obtain ⟨rfl, -⟩ := List.cons.inj hends
    have hline : munch touched' '\n' word = .ok (.blank, 0) := rfl
    rw [hline, Except.ok.injEq, Prod.mk.injEq] at hmunch
    obtain ⟨hkind, hlength⟩ := hmunch
    rw [List.eq_nil_of_length_eq_zero hlength.symm] at htext
    obtain ⟨kind, text⟩ := x
    obtain rfl : PieceKind.blank = kind := hkind
    obtain rfl : text = ['\n'] := htext
    rfl

/-- What stands behind a longer line stands so many bytes further on, at the same lines and
columns. -/
theorem Scans.ofPlaced_behind {source : List Char} (h : Scans touched source ⟨ps ++ qs, none⟩)
    (hends : qs.flatMap Piece.text = [] ∨ ∃ rest, qs.flatMap Piece.text = '\n' :: rest)
    (p : Position) {word : List Char} (hword : '\n' ∉ word) :
    Lexed.ofPlaced (Piece.placed (p.after word) qs) =
      (Lexed.ofPlaced (Piece.placed p qs)).moved (byteLength word) 0 := by
  cases qs with
  | nil => simp [Lexed.ofPlaced, Piece.placed, Lexed.moved]
  | cons x qs =>
    obtain rfl := h.eq_line hends
    have hcount : word.count '\n' = 0 := List.count_eq_zero.mpr hword
    -- behind the end of line the columns count anew
    have hnext : (p.after word).after ['\n'] = (p.after ['\n']).moved (byteLength word) 0 := by
      rw [Position.after_singleton, Position.after_singleton, Position.next, Position.next,
        if_pos rfl, if_pos rfl, Position.moved, Position.offset_after, Position.line_after, hcount]
      simp only [Position.mk.injEq, and_true]
      omega
    rw [← ofPlaced_moved, Piece.placed, Piece.placed, hnext, placed_moved]
    rfl

/-- **A comment at the end of a line changes no token.**  The text is tokenized as it was,
with the comment among the trivia; what stands behind it has moved by so many bytes. -/
theorem tokenize_trailing (h : tokenize (before ++ behind) = .ok lexed)
    (hends : behind = [] ∨ ∃ rest, behind = '\n' :: rest)
    (hopen : lexed.OpenAt (byteLength before)) (hnote : '\n' ∉ note) :
    ∃ first second : Lexed, lexed = first ++ second ∧
      tokenize (before ++ (remarkText note ++ behind)) = .ok (first ++ (⟨#[],
        #[⟨.comment, '/' :: '/' :: note, (Position.start.after before).next ' '⟩]⟩ ++
          second.moved (byteLength (remarkText note)) 0)) := by
  obtain ⟨pieces, hscans, rfl⟩ := tokenize_eq_ok_iff.mp h
  obtain ⟨ps, qs, rfl, hps, hqs⟩ := hscans.exists_split hends hopen
  have hlast : ∀ x ∈ ps.getLast?, ∀ trivia, x.kind ≠ .trivia trivia := by
    intro x hx trivia
    obtain ⟨ps', rfl⟩ := List.getLast?_eq_some_iff.mp hx
    rw [List.append_assoc, ← hps, List.flatMap_append, List.flatMap_singleton] at hopen
    exact not_trivia_of_openAt hopen
  have hinserted := hscans.insert hps hnote hends hlast
  refine ⟨Lexed.ofPlaced (Piece.placed Position.start ps),
    Lexed.ofPlaced (Piece.placed (Position.start.after before) qs), ?_, ?_⟩
  · rw [placed_append, ofPlaced_append, hps]
  · rw [hinserted.tokenize_eq]
    have hword : '\n' ∉ remarkText note := by
      simp [remarkText, hnote]
    rw [← hqs] at hends
    have hbehind := hscans.ofPlaced_behind hends (Position.start.after before) hword
    rw [placed_append, ofPlaced_append, hps, placed_append, ofPlaced_append, flatMap_remark,
      hbehind]
    rfl

end ModuleLint
