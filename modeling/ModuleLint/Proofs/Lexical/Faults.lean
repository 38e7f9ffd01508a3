/-
ModuleLint/Proofs/Lexical/Faults.lean

Why a source is not tokenized, told without the scanner.  At three kinds of places no piece
can begin: at a quote that opens a literal which is never closed, at an apostrophe that is
not followed by another one on its line, and at a character which begins nothing.  Among
the last, `#` depends on what stands before: it begins a preprocessor line where no token
starts or ends on the line so far.  The scanner keeps one flag for that, and `LineState`
says what the flag knows; it is kept by each piece (`LineState.step`) and so by all of them
(`Scans.lineState`).

Main result: `tokenize_faults`.  A source is refused at a faulty place and with what is
wrong there, and the text in front of that place is tokenized.  Conversely a faulty place
behind a blank, or at the start, is where the source is refused.
-/
import ModuleLint.Proofs.Lexical.Excerpt
import ModuleLint.Proofs.Lexical.Join

namespace ModuleLint

open Lexical PlacedPiece

/-! ### Faulty places -/

/-- The inside of a string literal, where a quote is written as two. -/
inductive StringBody : List Char → Prop
  | nil : StringBody []
  | char {d : Char} {body : List Char} (hd : d ≠ '"') (h : StringBody body) :
    StringBody (d :: body)
  | quotes {body : List Char} (h : StringBody body) : StringBody ('"' :: '"' :: body)

/-- **A string literal closes** in a text behind its opening quote. -/
def StringCloses (rest : List Char) : Prop :=
  ∃ body behind, rest = body ++ '"' :: behind ∧ StringBody body ∧ behind.head? ≠ some '"'

/-- **A date literal closes** in a text behind its opening apostrophe: there is another one
on the line. -/
def DateCloses (rest : List Char) : Prop :=
  ∃ body behind, rest = body ++ '\'' :: behind ∧ '\n' ∉ body

/-- The characters that operators and punctuation are written with. -/
def operators : List Char :=
  ['+', '-', '*', '/', '%', '=', '<', '>', '(', ')', '[', ']', ',', ';', ':', '.', '?', '&', '~']

namespace Lexed

/-- No token starts or ends on a line. -/
def FreshLine (lexed : Lexed) (line : Nat) : Prop :=
  ∀ t ∈ lexed.tokens, t.position.line ≠ line ∧ t.finish.line ≠ line

/-- **Characters that something begins with**; `#` is one of them on a line without tokens. -/
inductive Acceptable (lexed : Lexed) (line : Nat) : Char → Prop
  | blank {c : Char} (h : isBlank c = true) : Acceptable lexed line c
  | mark : Acceptable lexed line '\ufeff'
  | letter {c : Char} (h : isAlphabetic c = true) : Acceptable lexed line c
  | underscore : Acceptable lexed line '_'
  | digit {c : Char} (h : c.isDigit = true) : Acceptable lexed line c
  | quote : Acceptable lexed line '"'
  | apostrophe : Acceptable lexed line '\''
  | operator {c : Char} (h : c ∈ operators) : Acceptable lexed line c
  | hash (h : lexed.FreshLine line) : Acceptable lexed line '#'

/-- **A place is faulty**: no piece can begin there, for one of three reasons.  The text is
that from the place on, and the tokens are those before it. -/
inductive Faulty (lexed : Lexed) (line : Nat) : List Char → LexicalFault → Prop
  | string {rest : List Char} (h : ¬ StringCloses rest) :
    Faulty lexed line ('"' :: rest) .unterminatedString
  | date {rest : List Char} (h : ¬ DateCloses rest) :
    Faulty lexed line ('\'' :: rest) .unterminatedDate
  | character {c : Char} {rest : List Char} (h : ¬ lexed.Acceptable line c) :
    Faulty lexed line (c :: rest) (.unexpected c)

/-- A text ends in a blank that lies in none of its tokens and trivia. -/
def EndsBlank (lexed : Lexed) (text : List Char) : Prop :=
  ∃ front c, text = front ++ [c] ∧ isBlank c = true ∧
    ∀ r ∈ lexed.ranges, ¬ (r.start ≤ byteLength front ∧ byteLength front < r.stop)

end Lexed

/-- The report on a fault behind a text. -/
def LexicalFault.reportBehind (fault : LexicalFault) (before : List Char) : SourceError :=
  ⟨fault.message, 1 + before.count '\n', 1 + (Position.lastLine before).length⟩

variable {touched : Bool} {c d : Char} {word rest more text before behind : List Char} {n : Nat}
  {fault : LexicalFault} {lexed : Lexed} {line : Nat} {tokens : List Token} {p q : Position}
  {pieces ps : List Piece} {x : Piece} {scan : Scan}

/-! ### Literals that do not close -/

theorem stringCloses_quotes_iff : StringCloses ('"' :: '"' :: rest) ↔ StringCloses rest := by
  constructor
  · rintro ⟨body, behind, hrest, hbody, hbehind⟩
    cases hbody with
    | nil =>
      obtain ⟨-, rfl⟩ := List.cons.inj hrest
      exact absurd rfl hbehind
    | char hd => exact absurd (List.cons.inj hrest).1.symm hd
    | @quotes body hbody =>
      exact ⟨body, behind, (List.cons.inj (List.cons.inj hrest).2).2, hbody, hbehind⟩
  · rintro ⟨body, behind, rfl, hbody, hbehind⟩
    exact ⟨_, behind, rfl, hbody.quotes, hbehind⟩

theorem stringCloses_cons_iff (hd : d ≠ '"') : StringCloses (d :: rest) ↔ StringCloses rest := by
  constructor
  · rintro ⟨body, behind, hrest, hbody, hbehind⟩
    cases hbody with
    | nil => exact absurd (List.cons.inj hrest).1 hd
    | @char e body he hbody => exact ⟨body, behind, (List.cons.inj hrest).2, hbody, hbehind⟩
    | quotes => exact absurd (List.cons.inj hrest).1 hd
  · rintro ⟨body, behind, rfl, hbody, hbehind⟩
    exact ⟨_, behind, rfl, hbody.char hd, hbehind⟩

theorem stringLength_eq_none_iff : stringLength n rest = none ↔ ¬ StringCloses rest := by
  fun_induction stringLength n rest with
  | case1 n rest ih => rw [ih, stringCloses_quotes_iff]
  | case2 n rest hrest =>
    have hcloses : StringCloses ('"' :: rest) := by
      refine ⟨[], rest, rfl, .nil, fun hquote => ?_⟩
      obtain ⟨more, rfl⟩ := List.head?_eq_some_iff.mp hquote
      exact hrest more rfl
    exact iff_of_false (Option.some_ne_none _) (not_not_intro hcloses)
  | case3 n d rest _ hd ih => rw [ih, stringCloses_cons_iff hd]
  | case4 n =>
    refine iff_of_true rfl ?_
    rintro ⟨body, behind, hrest, -⟩
    exact List.append_ne_nil_of_right_ne_nil body (List.cons_ne_nil _ _) hrest.symm

theorem dateLength_eq_none_iff : dateLength rest = none ↔ ¬ DateCloses rest := by
  induction rest with
  | nil =>
    refine iff_of_true rfl ?_
    rintro ⟨body, behind, hrest, -⟩
    exact List.append_ne_nil_of_right_ne_nil body (List.cons_ne_nil _ _) hrest.symm
  | cons d rest ih =>
    rw [dateLength_cons]
    split
    · rename_i hquote
      have hcloses : DateCloses (d :: rest) := ⟨[], rest, by rw [hquote]; rfl, List.not_mem_nil⟩
      exact iff_of_false (Option.some_ne_none _) (not_not_intro hcloses)
    rename_i hquote
    split
    · rename_i hline
      refine iff_of_true rfl ?_
      rintro ⟨body, behind, hrest, hbody⟩
      cases body with
      | nil => exact hquote (List.cons.inj hrest).1
      | cons e body =>
        obtain ⟨rfl, -⟩ := List.cons.inj hrest
        exact hbody (hline ▸ List.mem_cons_self)
    · rename_i hline
      rw [Option.map_eq_none_iff, ih, not_iff_not]
      constructor
      · rintro ⟨body, behind, rfl, hbody⟩
        refine ⟨d :: body, behind, rfl, ?_⟩
        rw [List.mem_cons, not_or]
        exact ⟨Ne.symm hline, hbody⟩
      · rintro ⟨body, behind, hrest, hbody⟩
        cases body with
        | nil => exact absurd (List.cons.inj hrest).1 hquote
        | cons e body =>
          exact ⟨body, behind, (List.cons.inj hrest).2, fun h => hbody (List.mem_cons_of_mem e h)⟩

/-! ### Where no piece begins -/

theorem sign?_eq_none_iff : sign? c rest = none ↔ c ∉ operators := by
  unfold sign?
  split
  all_goals try split
  all_goals simp_all [operators]

/-- A literal that does not close is no piece. -/
theorem munch_of_not_stringCloses (h : ¬ StringCloses rest) :
    munch touched '"' rest = .error .unterminatedString := by
  have hseparator : isSeparator '"' = false := by decide
  have hword : isWordStart '"' = false := by decide
  simp [munch, hseparator, hword, stringLength_eq_none_iff.mpr h]

theorem munch_of_not_dateCloses (h : ¬ DateCloses rest) :
    munch touched '\'' rest = .error .unterminatedDate := by
  have hseparator : isSeparator '\'' = false := by decide
  have hword : isWordStart '\'' = false := by decide
  simp [munch, hseparator, hword, dateLength_eq_none_iff.mpr h]

/-- No piece begins at a character which is not acceptable. -/
theorem munch_of_not_acceptable (hfresh : touched = false ↔ lexed.FreshLine line)
    (h : ¬ lexed.Acceptable line c) : munch touched c rest = .error (.unexpected c) := by
  have hseparator : isSeparator c = false := by
    rw [isSeparator, Bool.or_eq_false_iff, beq_eq_false_iff_ne]
    refine ⟨Bool.eq_false_iff.mpr fun hc => h (.blank hc), ?_⟩
    rintro rfl
    exact h .mark
  have hslash : c ≠ '/' := by
    rintro rfl
    exact h (.operator (by decide))
  have hhash : (c == '#' && !touched) = false := by
    rw [Bool.and_eq_false_iff, beq_eq_false_iff_ne, Bool.not_eq_false', or_iff_not_imp_left,
      not_not]
    rintro rfl
    exact Bool.not_eq_false _ |>.mp fun htouched => h (.hash (hfresh.mp htouched))
  have hstart : isWordStart c = false := by
    rw [isWordStart, Bool.or_eq_false_iff, beq_eq_false_iff_ne]
    refine ⟨Bool.eq_false_iff.mpr fun hc => h (.letter hc), ?_⟩
    rintro rfl
    exact h .underscore
  have hdigit : c.isDigit = false := Bool.eq_false_iff.mpr fun hc => h (.digit hc)
  have hquote : c ≠ '"' := by
    rintro rfl
    exact h .quote
  have hapostrophe : c ≠ '\'' := by
    rintro rfl
    exact h .apostrophe
  have hsign : sign? c rest = none := sign?_eq_none_iff.mpr fun hc => h (.operator hc)
  simp [munch, hseparator, hslash, hhash, hstart, hdigit, hquote, hapostrophe, hsign]

/-- **No piece begins at a faulty place, and only there.** -/
theorem munch_eq_error_iff (hfresh : touched = false ↔ lexed.FreshLine line) :
    munch touched c rest = .error fault ↔ lexed.Faulty line (c :: rest) fault := by
  constructor
  · intro h
    unfold munch at h
    split at h
    · cases h
    rename_i hseparator
    split at h
    · cases h
    split at h
    · cases h
    rename_i hhash
    split at h
    · cases h
    rename_i hstart
    split at h
    · cases h
    rename_i hdigit
    split at h
    · rename_i hquote
      split at h
      · cases h
      · rename_i hlength
        cases h
        rw [beq_iff_eq.mp hquote]
        exact .string (stringLength_eq_none_iff.mp hlength)
    rename_i hquote
    split at h
    · rename_i hapostrophe
      split at h
      · cases h
      · rename_i hlength
        cases h
        rw [beq_iff_eq.mp hapostrophe]
        exact .date (dateLength_eq_none_iff.mp hlength)
    rename_i hapostrophe
    split at h
    · cases h
    rename_i hsign
    cases h
    -- each character that is acceptable would have begun a piece
    refine .character fun hc => ?_
    cases hc with
    | blank hblank => exact hseparator (by rw [isSeparator, hblank, Bool.true_or])
    | mark => exact hseparator (by decide)
    | letter hletter => exact hstart (by rw [isWordStart, hletter, Bool.true_or])
    | underscore => exact hstart (by decide)
    | digit h => exact hdigit h
    | quote => exact hquote rfl
    | apostrophe => exact hapostrophe rfl
    | operator hc => exact sign?_eq_none_iff.mp hsign hc
    | hash h => exact hhash (by rw [hfresh.mpr h]; rfl)
  · intro h
    cases h with
    | string hopen => exact munch_of_not_stringCloses hopen
    | date hopen => exact munch_of_not_dateCloses hopen
    | character hother => exact munch_of_not_acceptable hfresh hother

/-! ### The line of a place -/

/-- **What the flag of the scanner knows** at a place: whether one of the tokens before it
starts or ends on its line. -/
structure LineState (touched : Bool) (tokens : List Token) (p : Position) : Prop where
  /-- Tokens before a place lie on no later line. -/
  reached : ∀ t ∈ tokens, t.position.line ≤ p.line ∧ t.finish.line ≤ p.line
  touched_iff : touched = true ↔ ∃ t ∈ tokens, t.position.line = p.line ∨ t.finish.line = p.line

namespace LineState

/-- At the start of a source no token stands before. -/
theorem start : LineState false [] Position.start :=
  ⟨fun _ ht => absurd ht List.not_mem_nil, by simp⟩

/-- On the same line the state is the same. -/
theorem sameLine (h : LineState touched tokens p) (hline : q.line = p.line) :
    LineState touched tokens q := by
  constructor
  · rw [hline]
    exact h.reached
  · rw [hline]
    exact h.touched_iff

/-- No token has touched the next line. -/
theorem nextLine (h : LineState touched tokens p) (hline : q.line = p.line + 1) :
    LineState false tokens q := by
  constructor
  · intro t ht
    have hreached := h.reached t ht
    omega
  · refine iff_of_false Bool.false_ne_true ?_
    rintro ⟨t, ht, hsame⟩
    have hreached := h.reached t ht
    omega

/-- A token touches the line on which it ends. -/
theorem token (h : LineState touched tokens p) {t : Token} (ht : t.position = p) :
    LineState true (tokens ++ [t]) t.finish := by
  have hforward : p.line ≤ t.finish.line := by
    rw [Token.finish, ht, Position.line_after]
    exact Nat.le_add_right _ _
  constructor
  · intro u hu
    rcases List.mem_append.mp hu with hu | hu
    · have hreached := h.reached u hu
      omega
    · rw [List.mem_singleton.mp hu, ht]
      exact ⟨hforward, Nat.le_refl _⟩
  · exact iff_of_true rfl ⟨t, List.mem_append_right _ List.mem_cons_self, .inr rfl⟩

/-- **A piece keeps what the flag knows.** -/
theorem step (h : LineState touched tokens p) (hx : x.text = c :: word)
    (hmunch : munch touched c word = .ok (x.kind, word.length)) :
    LineState (touches touched x.kind c) (tokens ++ (token? ⟨x, p⟩).toList)
      (p.after x.text) := by
  obtain ⟨kind, text⟩ := x
  obtain rfl : text = c :: word := hx
  cases kind with
  | blank =>
    obtain rfl := List.eq_nil_of_length_eq_zero (munch_blank hmunch).2
    rw [show (token? ⟨⟨.blank, [c]⟩, p⟩).toList = [] from rfl, List.append_nil]
    by_cases hline : c = '\n'
    · have hflag : touches touched .blank c = false := by simp [touches, hline]
      rw [hflag]
      refine h.nextLine ?_
      rw [Position.line_after, hline, List.count_singleton_self]
    · have hflag : touches touched .blank c = touched := by simp [touches, hline]
      rw [hflag]
      refine h.sameLine ?_
      rw [Position.line_after, List.count_singleton, if_neg (by simpa using hline), Nat.add_zero]
  | trivia kind =>
    obtain ⟨hline, hlength⟩ := munch_trivia hmunch
    have hword : '\n' ∉ word := fun hmem =>
      absurd (forall_of_length_takeWhile hlength.symm _ hmem) (by decide)
    have hflag : touches touched (.trivia kind) c = touched := by simp [touches, hline]
    rw [show (token? ⟨⟨.trivia kind, c :: word⟩, p⟩).toList = [] from rfl, List.append_nil, hflag]
    refine h.sameLine ?_
    rw [Position.line_after, List.count_cons_of_ne hline, List.count_eq_zero.mpr hword,
      Nat.add_zero]
  | token kind => exact h.token rfl

end LineState

/-- **All pieces keep what the flag knows.** -/
theorem Scans.lineState {stop : Option LexicalFault} (h : Scans touched text ⟨ps, stop⟩)
    (hstate : LineState touched tokens p) :
    LineState (touchedBehind touched ps) (tokens ++ (Piece.placed p ps).filterMap token?)
      (p.after (ps.flatMap Piece.text)) := by
  induction ps generalizing touched text tokens p with
  | nil =>
    rw [Piece.placed, List.filterMap_nil, List.append_nil]
    exact hstate
  | cons x ps ih =>
    obtain ⟨c, word, rest, hx, -, hmunch, hrest⟩ := scans_cons_iff.mp h
    have hbehind := ih hrest (hstate.step hx (munch_append_iff.mp hmunch).1)
    have htokens : (Piece.placed p (x :: ps)).filterMap token? =
        (token? ⟨x, p⟩).toList ++ (Piece.placed (p.after x.text) ps).filterMap token? := by
      rw [Piece.placed, List.filterMap_cons]
      cases token? ⟨x, p⟩ with
      | none => rfl
      | some t => rfl
    rw [touchedBehind, hx, htokens, ← List.append_assoc, List.flatMap_cons, Position.after_append]
    exact hbehind

/-- Behind a text that is tokenized, the flag tells whether the line is without tokens. -/
theorem Scans.touchedBehind_iff (h : Scans false text ⟨ps, none⟩) :
    touchedBehind false ps = false ↔
      (Lexed.ofPlaced (Piece.placed Position.start ps)).FreshLine (1 + text.count '\n') := by
  have hstate := h.lineState LineState.start
  have hline : (Position.start.after (ps.flatMap Piece.text)).line = 1 + text.count '\n' := by
    rw [h.flatMap_text rfl, Position.line_after]
    rfl
  rw [List.nil_append] at hstate
  rw [← Bool.not_eq_true, hstate.touched_iff, hline]
  simp only [Lexed.FreshLine, Lexed.ofPlaced, List.mem_toArray, not_exists, not_and, not_or]

/-! ### Behind a blank -/

/-- A text that does not end in a point prolongs a piece no more if it goes on. -/
theorem prolongs_append_of_getLast? {kind : PieceKind} (h : rest.getLast? = some d)
    (hd : d ≠ '.') : prolongs kind word (rest ++ more) = prolongs kind word rest := by
  match rest with
  | [] => cases h
  | [e] =>
    have he : e ≠ '.' := by
      rintro rfl
      exact hd (Option.some.inj h).symm
    refine prolongs_congr rfl ?_
    simp [beginsFraction, he]
  | e :: f :: rest => exact prolongs_congr rfl rfl

/-- **A text that ends in a blank** falls into the same pieces in front of any other one. -/
theorem Scans.append (h : Scans touched before ⟨ps, none⟩)
    (hblank : ∀ x ∈ ps.getLast?, x.kind = .blank) (hlast : ∀ c ∈ before.getLast?, c ≠ '.')
    (hbehind : Scans (touchedBehind touched ps) behind scan) :
    Scans touched (before ++ behind) ⟨ps ++ scan.pieces, scan.fault⟩ := by
  induction ps generalizing touched before with
  | nil =>
    rw [show before = [] from (h.flatMap_text rfl).symm]
    exact hbehind
  | cons x ps ih =>
    obtain ⟨c, word, rest, hx, rfl, hmunch, hrest⟩ := scans_cons_iff.mp h
    obtain ⟨halone, hprolongs⟩ := munch_append_iff.mp hmunch
    rw [touchedBehind, hx] at hbehind
    have hgoes : prolongs x.kind word (rest ++ behind) = false ∧
        Scans (touches touched x.kind c) (rest ++ behind) ⟨ps ++ scan.pieces, scan.fault⟩ := by
      cases ps with
      | nil =>
        -- the last piece is a blank, and nothing prolongs a blank
        obtain rfl : rest = [] := (hrest.flatMap_text rfl).symm
        have hkind : x.kind = .blank := hblank x rfl
        rw [hkind]
        rw [hkind] at hbehind
        exact ⟨rfl, hbehind⟩
      | cons y ps =>
        obtain ⟨d, more, hy⟩ : ∃ d more, rest = d :: more := by
          obtain ⟨d, more, tail, hy, hrest, -⟩ := scans_cons_iff.mp hrest
          exact ⟨d, more ++ tail, by rw [hrest, hy]; rfl⟩
        obtain ⟨e, he⟩ : ∃ e, rest.getLast? = some e := by
          rw [hy, List.getLast?_cons]
          exact ⟨_, rfl⟩
        rw [List.getLast?_append, he, Option.some_or] at hlast
        refine ⟨?_, ih hrest ?_ ?_ hbehind⟩
        · rw [prolongs_append_of_getLast? he (hlast e rfl)]
          exact hprolongs
        · rw [List.getLast?_cons_cons] at hblank
          exact hblank
        · rw [he]
          exact hlast
    rw [List.append_assoc]
    exact scans_cons_iff.mpr
      ⟨c, word, _, hx, rfl, munch_append_iff.mpr ⟨halone, hgoes.1⟩, hgoes.2⟩

/-- The last piece of a text that ends in a blank is that blank. -/
theorem Lexed.EndsBlank.kind_eq (h : Scans false text ⟨ps, none⟩)
    (hends : (Lexed.ofPlaced (Piece.placed Position.start ps)).EndsBlank text) :
    ∀ x ∈ ps.getLast?, x.kind = .blank := by
  intro x hx
  obtain ⟨init, rfl⟩ := List.getLast?_eq_some_iff.mp hx
  obtain ⟨front, c, htext, -, hout⟩ := hends
  by_contra hkind
  -- otherwise the last piece would hold the last character
  refine hout _ (range_mem_ranges h mem_placed_append hkind) ?_
  obtain ⟨word, d, hword⟩ := (List.eq_nil_or_concat' x.text).resolve_left
    (text_ne_nil_of_scans h (List.mem_append_right _ List.mem_cons_self))
  have hfront : front = init.flatMap Piece.text ++ word := by
    have hwhole := (h.flatMap_text rfl).trans htext
    rw [List.flatMap_append, List.flatMap_singleton, hword, ← List.append_assoc] at hwhole
    exact (List.append_inj' hwhole rfl).1.symm
  have hsize := Char.utf8Size_pos d
  rw [range, offset_start_after, hfront, hword]
  simp only [byteLength_append, byteLength_cons, byteLength_nil]
  omega

/-- A blank is no point. -/
theorem Lexed.EndsBlank.getLast?_ne (h : lexed.EndsBlank text) :
    ∀ c ∈ text.getLast?, c ≠ '.' := by
  obtain ⟨front, d, rfl, hd, -⟩ := h
  rw [List.getLast?_concat]
  rintro c hc rfl
  obtain rfl := Option.some.inj hc
  exact absurd hd (by decide)

/-! ### Refused sources -/

/-- The report on a fault names the place behind all that was scanned. -/
theorem LexicalFault.reportAt_after :
    fault.reportAt (Position.start.after before) = fault.reportBehind before := by
  rw [reportAt, reportBehind, Position.line_after, Position.column_start_after]
  rfl

/-- A source with a preprocessor line and a string literal over two lines, and then a sign
that would begin another preprocessor line if the literal did not end on its line. -/
def lateHash : List Char := "#x\na = \"b\n|\" ".toList

/-- Its tokens and its trivia. -/
def lateHashLexed : Lexed :=
  ⟨#[⟨.identifier, ['a'], ⟨3, 2, 1⟩⟩, ⟨.eq, ['='], ⟨5, 2, 3⟩⟩,
      ⟨.string, "\"b\n|\"".toList, ⟨7, 2, 5⟩⟩],
    #[⟨.preprocessor, "#x".toList, ⟨0, 1, 1⟩⟩]⟩

theorem tokenize_lateHash : tokenize lateHash = .ok lateHashLexed := by decide +kernel

theorem faulty_lateHash : lateHashLexed.Faulty 3 ['#'] (.unexpected '#') := by
  refine .character fun h => ?_
  cases h with
  | blank h => exact absurd h (by decide)
  | letter h => exact absurd h (by decide)
  | digit h => exact absurd h (by decide)
  | operator h => exact absurd h (by decide)
  | hash h => exact (h ⟨.string, "\"b\n|\"".toList, ⟨7, 2, 5⟩⟩ (by decide +kernel)).2 rfl

theorem endsBlank_lateHash : lateHashLexed.EndsBlank lateHash := by
  have hout : ∀ r ∈ lateHashLexed.tokens.toList.map Token.range ++
      lateHashLexed.trivia.toList.map Trivia.range, ¬ (r.start ≤ 12 ∧ 12 < r.stop) := by
    decide +kernel
  refine ⟨"#x\na = \"b\n|\"".toList, ' ', by decide, by decide, fun r hr => ?_⟩
  exact hout r (List.mem_append.mpr (List.mem_merge.mp hr))

/-- **Sources are refused at faulty places.**  In front of the place of the report the source
is tokenized, there it is faulty, and the report says how.  And where a place at the start
or behind a blank is faulty, and the source before it is tokenized, it is refused there. -/
theorem tokenize_faults :
    (∀ source e, tokenize source = .error e → ∃ before behind lexed fault,
      source = before ++ behind ∧ tokenize before = .ok lexed ∧
        lexed.Faulty (1 + before.count '\n') behind fault ∧ e = fault.reportBehind before) ∧
    (∀ before behind lexed fault, tokenize before = .ok lexed →
      lexed.Faulty (1 + before.count '\n') behind fault →
      (before = [] ∨ lexed.EndsBlank before) →
        tokenize (before ++ behind) = .error (fault.reportBehind before)) := by
  constructor
  · intro source e h
    obtain ⟨⟨ps, stop⟩, hscan⟩ := exists_scans false source
    rw [hscan.tokenize_eq] at h
    cases stop with
    | none => cases h
    | some fault =>
      obtain rfl := Except.error.inj h
      rw [← List.append_nil ps] at hscan
      obtain ⟨rest, hsource, hrest⟩ := hscan.behind
      have hbefore := hscan.take
      cases hrest with
      | @stuck _ c rest _ hmunch =>
        refine ⟨_, _, _, fault, hsource, tokenize_eq_ok_iff.mpr ⟨ps, hbefore, rfl⟩, ?_, ?_⟩
        · exact (munch_eq_error_iff hbefore.touchedBehind_iff).mp hmunch
        · exact LexicalFault.reportAt_after
  · intro before behind lexed fault h hfaulty hends
    obtain ⟨ps, hscan, rfl⟩ := tokenize_eq_ok_iff.mp h
    obtain ⟨c, rest, rfl⟩ : ∃ c rest, behind = c :: rest := by
      cases hfaulty with
      | string => exact ⟨_, _, rfl⟩
      | date => exact ⟨_, _, rfl⟩
      | character => exact ⟨_, _, rfl⟩
    have hstuck := Scans.stuck ((munch_eq_error_iff hscan.touchedBehind_iff).mpr hfaulty)
    have hwhole : Scans false (before ++ c :: rest) ⟨ps ++ [], some fault⟩ := by
      rcases hends with rfl | hends
      · obtain rfl : ps = [] := (congrArg Scan.pieces (scans_iff.mp hscan)).symm
        exact hstuck
      · exact hscan.append (hends.kind_eq hscan) hends.getLast?_ne hstuck
    rw [hwhole.tokenize_eq, List.append_nil, hscan.flatMap_text rfl]
    exact congrArg Except.error LexicalFault.reportAt_after

theorem faults_lateHash :
    (tokenize (lateHash ++ ['#']) = .error ⟨"unexpected character '#'", 3, 4⟩ ∧
      ∃ before behind lexed fault, lateHash ++ ['#'] = before ++ behind ∧
        tokenize before = .ok lexed ∧ lexed.Faulty (1 + before.count '\n') behind fault ∧
          ⟨"unexpected character '#'", 3, 4⟩ = fault.reportBehind before) ∧
    (tokenize lateHash = .ok lateHashLexed ∧
      lateHashLexed.Faulty (1 + lateHash.count '\n') ['#'] (.unexpected '#') ∧
      lateHashLexed.EndsBlank lateHash ∧
      tokenize (lateHash ++ ['#']) =
        .error ((LexicalFault.unexpected '#').reportBehind lateHash)) :=
  have herror : tokenize (lateHash ++ ['#']) = .error ⟨"unexpected character '#'", 3, 4⟩ := by
    decide +kernel
  ⟨⟨herror, tokenize_faults.1 _ _ herror⟩, tokenize_lateHash, faulty_lateHash, endsBlank_lateHash,
    tokenize_faults.2 _ _ _ _ tokenize_lateHash faulty_lateHash (.inr endsBlank_lateHash)⟩

end ModuleLint
