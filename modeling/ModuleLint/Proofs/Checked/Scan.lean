/-
ModuleLint/Proofs/Checked/Scan.lean

Tokenizing with every slice checked.  A cursor knows its byte in the source and nothing of
the text itself; it looks ahead by slicing the source from there to the end, and the texts of
words and pieces are sliced out between two such bytes.  A slice out of range, or inside a
character, has no value (`none`), and neither has a loop that does not come to an end.

Main result: `Checked.tokenize_eq`.  Neither happens on any source, and what is found are the
tokens and trivia of the source.

The invariant is `Cursor.At`: the cursor stands between what it has passed and what lies
ahead, and its place is the one after all it has passed.
-/
import ModuleLint.Proofs.Lexical.Scans

namespace ModuleLint

open Lexical

namespace Checked

/-- Where the walk over a source stands, and whether a token touches the current line. -/
structure Cursor where
  position : Position
  touched : Bool
  deriving DecidableEq, Repr

namespace Cursor

/-! ### Moving over a source -/

/-- Behind one more character. -/
def next (c : Cursor) (ch : Char) : Cursor :=
  ⟨c.position.next ch, if ch == '\n' then false else c.touched⟩

/-- Behind a text. -/
def after (c : Cursor) (text : List Char) : Cursor :=
  text.foldl next c

section

variable (source : List Char)

/-- Everything from the current byte on. -/
def ahead? (c : Cursor) : Option (List Char) :=
  slice? source c.position.offset (byteLength source)

/-- The next character, if there is one. -/
def peek? (c : Cursor) : Option (Option Char) := do
  let ahead ← c.ahead? source
  return ahead.head?

/-- The character after the next one. -/
def peekSecond? (c : Cursor) : Option (Option Char) := do
  let ahead ← c.ahead? source
  return ahead.tail.head?

/-- **Takes the next character**, if there is one. -/
def bump? (c : Cursor) : Option (Option Char × Cursor) := do
  match ← c.peek? source with
  | some ch => return (some ch, c.next ch)
  | none => return (none, c)

/-- Enough turns for a loop that takes a character in each. -/
def turns : Nat := source.length + 1

/-- Takes characters that satisfy `p`, in at most so many turns. -/
def eatWhile? (p : Char → Bool) : Nat → Cursor → Option Cursor
  | 0, _ => none
  | n + 1, c => do
    match ← c.peek? source with
    | some ch =>
      if p ch then
        let (_, c) ← c.bump? source
        eatWhile? p n c
      else return c
    | none => return c

/-- Takes what is left of a string literal, to its closing quote if there is one. -/
def closeString? : Nat → Cursor → Option (Option Cursor)
  | 0, _ => none
  | n + 1, c => do
    match ← c.bump? source with
    | (some '"', c) =>
      match ← c.peek? source with
      | some '"' =>
        let (_, c) ← c.bump? source
        closeString? n c
      | _ => return some c
    | (some _, c) => closeString? n c
    | (none, _) => return none

/-- Takes a number: digits, and then a point with digits behind it. -/
def number? (c : Cursor) : Option Cursor := do
  let c ← c.eatWhile? source Char.isDigit (turns source)
  let point ← c.peek? source
  let digit ← c.peekSecond? source
  if point == some '.' && digit.any Char.isDigit then
    let (_, c) ← c.bump? source
    c.eatWhile? source Char.isDigit (turns source)
  else return c

/-- Takes a date literal, if it is closed on its line. -/
def date? (c : Cursor) : Option (Option Cursor) := do
  let (_, c) ← c.bump? source
  let c ← c.eatWhile? source (fun ch => ch != '\'' && ch != '\n') (turns source)
  match ← c.bump? source with
  | (some '\'', c) => return some c
  | _ => return none

/-- Takes what belongs to the sign that `ch` begins, which is already taken. -/
def sign? (ch : Char) (c : Cursor) : Option (Option (TokenKind × Cursor)) := do
  match ch with
  | '<' =>
    match ← c.peek? source with
    | some '>' =>
      let (_, c) ← c.bump? source
      return some (.notEq, c)
    | some '=' =>
      let (_, c) ← c.bump? source
      return some (.lessEq, c)
    | _ => return some (.less, c)
  | '>' =>
    match ← c.peek? source with
    | some '=' =>
      let (_, c) ← c.bump? source
      return some (.greaterEq, c)
    | _ => return some (.greater, c)
  | ch => return (Lexical.sign? ch []).map fun sign => (sign.1, c)

/-- **Takes the piece that begins at `ch`.** -/
def munch? (ch : Char) (c : Cursor) : Option (Except LexicalFault (PieceKind × Cursor)) := do
  if isSeparator ch then
    let (_, c) ← c.bump? source
    return .ok (.blank, c)
  else
    let second ← c.peekSecond? source
    if ch == '/' && second == some '/' then
      let c ← c.eatWhile? source (fun ch => ch != '\n') (turns source)
      return .ok (.trivia .comment, c)
    else if ch == '#' && !c.touched then
      let c ← c.eatWhile? source (fun ch => ch != '\n') (turns source)
      return .ok (.trivia .preprocessor, c)
    else if isWordStart ch then
      let stop ← c.eatWhile? source isWordPart (turns source)
      let word ← slice? source c.position.offset stop.position.offset
      return .ok (.token (wordKind word), stop)
    else if ch.isDigit then
      let c ← c.number? source
      return .ok (.token .number, c)
    else if ch == '"' then
      let (_, c) ← c.bump? source
      match ← c.closeString? source (turns source) with
      | some c => return .ok (.token .string, c)
      | none => return .error .unterminatedString
    else if ch == '\'' then
      match ← c.date? source with
      | some c => return .ok (.token .date, c)
      | none => return .error .unterminatedDate
    else
      let (_, c) ← c.bump? source
      match ← c.sign? source ch with
      | some (kind, c) => return .ok (.token kind, c)
      | none => return .error (.unexpected ch)

/-- Takes piece after piece and keeps the tokens and the trivia. -/
def scan? : Nat → Cursor → Lexed → Option (Except SourceError Lexed)
  | 0, _, _ => none
  | n + 1, c, lexed => do
    match ← c.peek? source with
    | none => return .ok lexed
    | some ch =>
      match ← c.munch? source ch with
      | .error fault => return .error (fault.reportAt c.position)
      | .ok (kind, stop) =>
        let text ← slice? source c.position.offset stop.position.offset
        match kind with
        | .blank => scan? n stop lexed
        | .trivia kind =>
          scan? n stop { lexed with trivia := lexed.trivia.push ⟨kind, text, c.position⟩ }
        | .token kind =>
          scan? n { stop with touched := true }
            { lexed with tokens := lexed.tokens.push ⟨kind, text, c.position⟩ }

end

end Cursor

/-- **The tokens and trivia of a source**, found with every slice checked. -/
def tokenize (source : List Char) : Option (Except SourceError Lexed) :=
  Cursor.scan? source (Cursor.turns source) ⟨Position.start, false⟩ ⟨#[], #[]⟩

namespace Cursor

/-! ### A cursor between what was passed and what lies ahead -/

/-- **The cursor stands behind `before`**, and `ahead` is left of the source. -/
structure At (source before ahead : List Char) (c : Cursor) : Prop where
  source_eq : source = before ++ ahead
  position_eq : c.position = Position.start.after before

variable {source before ahead text rest word : List Char} {c : Cursor} {ch : Char} {n : Nat}
  {p : Char → Bool}

theorem At.offset (h : At source before ahead c) : c.position.offset = byteLength before := by
  rw [h.position_eq, Position.offset_after, Position.start, Nat.zero_add]

theorem At.length_lt (h : At source before ahead c) : ahead.length < turns source := by
  rw [turns, h.source_eq, List.length_append]
  omega

theorem At.ahead? (h : At source before ahead c) : c.ahead? source = some ahead := by
  have hslice := slice?_append before ahead []
  rw [List.append_nil, ← h.source_eq, ← byteLength_append, ← h.source_eq] at hslice
  rw [Cursor.ahead?, h.offset, hslice]

theorem At.peek? (h : At source before ahead c) : c.peek? source = some ahead.head? := by
  rw [Cursor.peek?, h.ahead?]
  rfl

theorem At.peekSecond? (h : At source before ahead c) :
    c.peekSecond? source = some ahead.tail.head? := by
  rw [Cursor.peekSecond?, h.ahead?]
  rfl

theorem At.bump? (h : At source before (ch :: rest) c) :
    c.bump? source = some (some ch, c.next ch) := by
  rw [Cursor.bump?, h.peek?]
  rfl

theorem At.bump?_nil (h : At source before [] c) : c.bump? source = some (none, c) := by
  rw [Cursor.bump?, h.peek?]
  rfl

theorem At.next (h : At source before (ch :: rest) c) :
    At source (before ++ [ch]) rest (c.next ch) where
  source_eq := by rw [h.source_eq, List.append_assoc, List.singleton_append]
  position_eq := by
    rw [Position.after_append, Position.after_singleton, ← h.position_eq, Cursor.next]

theorem after_cons (c : Cursor) (ch : Char) (text : List Char) :
    c.after (ch :: text) = (c.next ch).after text := rfl

theorem after_append (c : Cursor) (text rest : List Char) :
    c.after (text ++ rest) = (c.after text).after rest := List.foldl_append

theorem position_after (c : Cursor) (text : List Char) :
    (c.after text).position = c.position.after text := by
  induction text generalizing c with
  | nil => rfl
  | cons ch text ih => exact ih (c.next ch)

theorem At.after (h : At source before (text ++ rest) c) :
    At source (before ++ text) rest (c.after text) := by
  induction text generalizing before c with
  | nil =>
    rw [List.append_nil]
    exact h
  | cons ch text ih =>
    have h := ih h.next
    rwa [List.append_assoc, List.singleton_append] at h

/-- The text passed since an earlier place can be sliced out. -/
theorem At.slice? (h : At source before (text ++ rest) c) :
    slice? source c.position.offset (c.after text).position.offset = some text := by
  rw [h.offset, h.after.offset, byteLength_append, h.source_eq, ← List.append_assoc]
  exact slice?_append before text rest

/-- No line ends in a text, so a token that touches the line still does behind it. -/
theorem touched_after (c : Cursor) (h : '\n' ∉ text) : (c.after text).touched = c.touched := by
  induction text generalizing c with
  | nil => rfl
  | cons ch text ih =>
    obtain ⟨hch, htext⟩ := not_or.mp (mt List.mem_cons.mpr h)
    rw [after_cons, ih (c.next ch) htext, Cursor.next, beq_false_of_ne (Ne.symm hch)]
    rfl

/-! ### Loops -/

/-- **Enough turns take all that satisfies the test.** -/
theorem At.eatWhile? (h : At source before ahead c) (p : Char → Bool) (hn : ahead.length < n) :
    c.eatWhile? source p n = some (c.after (ahead.takeWhile p)) := by
  induction n generalizing before ahead c with
  | zero => exact absurd hn (Nat.not_lt_zero _)
  | succ n ih =>
    cases ahead with
    | nil =>
      rw [Cursor.eatWhile?, h.peek?]
      rfl
    | cons ch rest =>
      rw [Cursor.eatWhile?, h.peek?]
      simp only [List.head?_cons, Option.bind_eq_bind, Option.bind_some]
      cases hp : p ch with
      | false =>
        rw [List.takeWhile_cons_of_neg (by rw [hp]; exact Bool.false_ne_true)]
        rfl
      | true =>
        rw [if_pos rfl, h.bump?, List.takeWhile_cons_of_pos hp, after_cons]
        exact ih h.next (Nat.lt_of_succ_lt_succ hn)

/-- **A string literal is taken to its closing quote**; `word` is what was taken of it. -/
theorem At.closeString? (h : At source before (word ++ ahead) c) (hn : ahead.length < n) :
    (c.after word).closeString? source n =
      some ((stringLength word.length ahead).map fun m => c.after ((word ++ ahead).take m)) := by
  induction n generalizing word ahead with
  | zero => exact absurd hn (Nat.not_lt_zero _)
  | succ n ih =>
    -- the same with more of the literal taken
    have hmore : ∀ more rest : List Char, more ≠ [] → ahead = more ++ rest →
        (c.after (word ++ more)).closeString? source n =
          some ((stringLength (word.length + more.length) rest).map fun m =>
            c.after ((word ++ ahead).take m)) := by
      rintro more rest hmore rfl
      have hpos := List.length_pos_iff.mpr hmore
      rw [List.length_append] at hn
      rw [← List.append_assoc] at h ⊢
      rw [ih h (by omega), List.length_append]
    cases ahead with
    | nil =>
      rw [Cursor.closeString?, h.after.bump?_nil, stringLength]
      rfl
    | cons ch rest =>
      rw [Cursor.closeString?, h.after.bump?]
      have hone := hmore [ch] rest (List.cons_ne_nil _ _) rfl
      rw [after_append] at hone
      by_cases hch : ch = '"'
      · subst hch
        simp only [Option.bind_eq_bind, Option.bind_some, h.after.next.peek?]
        by_cases hrest : rest.head? = some '"'
        · obtain ⟨rest, rfl⟩ := List.head?_eq_some_iff.mp hrest
          have htwo := hmore ['"', '"'] rest (List.cons_ne_nil _ _) rfl
          rw [after_append] at htwo
          rw [stringLength_quotes]
          simp only [List.head?_cons, h.after.next.bump?, Option.bind_some]
          exact htwo
        · -- a quote that no other follows closes the literal
          rw [stringLength_quote hrest, Option.map_some]
          have htake : (word ++ '"' :: rest).take (word.length + 1) = word ++ ['"'] := by
            rw [List.take_append, List.take_of_length_le (Nat.le_succ _),
              Nat.add_sub_cancel_left]
            rfl
          rw [htake, after_append]
          cases rest with
          | nil => rfl
          | cons d rest =>
            have hd : d ≠ '"' := fun hd => hrest (congrArg some hd)
            simp only [List.head?_cons]
            split
            · rename_i hsome
              exact absurd (Option.some.inj hsome) hd
            · rfl
      · rw [stringLength_cons hch]
        simp only [Option.bind_eq_bind, Option.bind_some]
        exact hone

/-! ### Pieces -/

/-- A run of characters that begins with the next one is taken whole. -/
theorem At.eatRun? (h : At source before (ch :: rest) c) {p : Char → Bool} (hch : p ch = true) :
    c.eatWhile? source p (turns source) =
      some (c.after (ch :: rest.take (rest.takeWhile p).length)) := by
  rw [h.eatWhile? p h.length_lt, List.takeWhile_cons_of_pos hch,
    ← List.prefix_iff_eq_take.mp (List.takeWhile_prefix p)]

/-- A number goes on behind its first digits if a fraction begins there. -/
theorem numberLength_digits {digits tail : List Char}
    (h : (digits ++ tail).takeWhile Char.isDigit = digits) :
    numberLength (digits ++ tail) =
      if beginsFraction tail then digits.length + 1 + digitCount tail.tail else digits.length := by
  rw [numberLength, digitCount, h, List.drop_left]
  split
  · rename_i d more
    have hfraction : beginsFraction ('.' :: d :: more) = d.isDigit := rfl
    rw [hfraction]
    split
    · rename_i hd
      rw [List.tail_cons, digitCount, digitCount, List.takeWhile_cons_of_pos hd,
        List.length_cons]
      omega
    · rfl
  · rename_i hpoint
    rw [if_neg]
    intro hfraction
    obtain ⟨hhead, hdigit⟩ := Bool.and_eq_true_iff.mp hfraction
    obtain ⟨more, rfl⟩ := List.head?_eq_some_iff.mp (beq_iff_eq.mp hhead)
    cases more with
    | nil => cases hdigit
    | cons d more => exact hpoint d more rfl

theorem At.number? (h : At source before (ch :: rest) c) (hch : ch.isDigit = true) :
    c.number? source = some (c.after (ch :: rest.take (numberLength rest))) := by
  obtain ⟨digits, tail, hdigits, rfl⟩ : ∃ digits tail, rest.takeWhile Char.isDigit = digits ∧
      rest = digits ++ tail := ⟨_, _, rfl, List.takeWhile_append_dropWhile.symm⟩
  have hat : At source (before ++ ch :: digits) tail (c.after (ch :: digits)) :=
    At.after (show At source before (ch :: digits ++ tail) c from h)
  have hrun := h.eatRun? hch
  rw [hdigits, List.take_left] at hrun
  have hfraction : (tail.head? == some '.' && tail.tail.head?.any Char.isDigit) =
      beginsFraction tail := rfl
  unfold Cursor.number?
  simp only [hrun, hat.peek?, hat.peekSecond?, Option.bind_eq_bind, Option.bind_some, hfraction,
    numberLength_digits hdigits]
  split
  · -- the point is taken, and the digits behind it
    rename_i hbegins
    obtain ⟨more, rfl⟩ := List.head?_eq_some_iff.mp
      (beq_iff_eq.mp (Bool.and_eq_true_iff.mp hbegins).1)
    rw [hat.bump?, Option.bind_some, hat.next.eatWhile? Char.isDigit hat.next.length_lt,
      Nat.add_assoc, List.take_length_add_append, List.tail_cons, Nat.add_comm 1,
      List.take_succ_cons, digitCount, ← List.prefix_iff_eq_take.mp (List.takeWhile_prefix _),
      ← List.cons_append, after_append]
    rfl
  · rw [List.take_left]
    rfl

theorem At.date? (h : At source before ('\'' :: rest) c) :
    c.date? source = some ((dateLength rest).map fun n => c.after ('\'' :: rest.take n)) := by
  obtain ⟨run, tail, hrun, rfl⟩ : ∃ run tail,
      rest.takeWhile (fun ch => ch != '\'' && ch != '\n') = run ∧ rest = run ++ tail :=
    ⟨_, _, rfl, List.takeWhile_append_dropWhile.symm⟩
  have hat : At source (before ++ '\'' :: run) tail (c.after ('\'' :: run)) :=
    At.after (show At source before ('\'' :: run ++ tail) c from h)
  have heat := h.next.eatWhile? (fun ch => ch != '\'' && ch != '\n') h.next.length_lt
  rw [hrun, ← after_cons] at heat
  unfold Cursor.date? dateLength
  simp only [h.bump?, heat, hrun, List.drop_left, Option.bind_eq_bind, Option.bind_some]
  cases tail with
  | nil =>
    rw [hat.bump?_nil]
    rfl
  | cons last tail =>
    rw [hat.bump?]
    by_cases hlast : last = '\''
    · subst hlast
      simp only [Option.bind_some, Option.map_some, List.take_length_add_append]
      rw [← List.cons_append, after_append]
      rfl
    · simp only [Option.bind_some]
      split
      · rename_i hsome
        exact absurd (Option.some.inj (congrArg Prod.fst hsome)) hlast
      · split
        · rename_i hcons
          exact absurd (List.cons.inj hcons).1 hlast
        · rfl

theorem At.sign? (h : At source before (ch :: rest) c) :
    (c.next ch).sign? source ch =
      some ((Lexical.sign? ch rest).map fun sign => (sign.1, c.after (ch :: rest.take sign.2)))
    := by
  by_cases hless : ch = '<'
  · subst hless
    rw [sign?_less, Cursor.sign?, h.next.peek?]
    cases rest with
    | nil => rfl
    | cons d rest =>
      rw [h.next.bump?]
      by_cases hgreater : d = '>'
      · subst hgreater
        rfl
      · by_cases heq : d = '='
        · subst heq
          rfl
        · simp [hgreater, heq, Cursor.after]
  · by_cases hgreater : ch = '>'
    · subst hgreater
      rw [sign?_greater, Cursor.sign?, h.next.peek?]
      cases rest with
      | nil => rfl
      | cons d rest =>
        rw [h.next.bump?]
        by_cases heq : d = '='
        · subst heq
          rfl
        · simp [heq, Cursor.after]
    · rw [sign?_congr hless hgreater, Cursor.sign?]
      · cases hsign : Lexical.sign? ch [] with
        | none => rfl
        | some sign =>
          obtain ⟨kind, n⟩ := sign
          rw [sign?_nil hsign]
          rfl
      · exact hless
      · exact hgreater

/-- **A piece is taken as it is munched.** -/
theorem At.munch? (h : At source before (ch :: rest) c) :
    c.munch? source ch =
      some ((munch c.touched ch rest).map fun found => (found.1, c.after (ch :: rest.take found.2)))
    := by
  have hline : ch ≠ '\n' → c.eatWhile? source (fun ch => ch != '\n') (turns source) =
      some (c.after (ch :: rest.take (lineLength rest))) := fun hch =>
    h.eatRun? (bne_iff_ne.mpr hch)
  unfold Cursor.munch? munch
  simp only [h.peekSecond?, h.bump?, List.tail_cons, Option.bind_eq_bind, Option.bind_some]
  split
  · rfl
  split
  · rename_i hslash
    rw [hline (beq_iff_eq.mp (Bool.and_eq_true_iff.mp hslash).1 ▸ by decide)]
    rfl
  split
  · rename_i hhash
    rw [hline (beq_iff_eq.mp (Bool.and_eq_true_iff.mp hhash).1 ▸ by decide)]
    rfl
  split
  · rename_i hword
    have hrun : c.eatWhile? source isWordPart (turns source) =
        some (c.after (ch :: rest.take (wordLength rest))) :=
      h.eatRun? (isWordPart_of_isWordStart hword)
    have hsplit : At source before (ch :: rest.take (wordLength rest) ++
        rest.drop (wordLength rest)) c := by
      rw [List.cons_append, List.take_append_drop]
      exact h
    rw [hrun, Option.bind_some, hsplit.slice?]
    rfl
  split
  · rename_i hdigit
    rw [h.number? hdigit]
    rfl
  split
  · rename_i hquote
    obtain rfl := beq_iff_eq.mp hquote
    have hclose : (c.next '"').closeString? source (turns source) =
        some ((stringLength 0 rest).map fun n => (c.next '"').after (rest.take n)) :=
      At.closeString? (show At source (before ++ ['"']) ([] ++ rest) (c.next '"') from h.next)
        h.next.length_lt
    rw [hclose]
    cases stringLength 0 rest with
    | none => rfl
    | some n => rfl
  split
  · rename_i hquote
    obtain rfl := beq_iff_eq.mp hquote
    rw [h.date?]
    cases dateLength rest with
    | none => rfl
    | some n => rfl
  · rw [h.sign?]
    cases Lexical.sign? ch rest with
    | none => rfl
    | some sign => rfl

/-! ### The whole source -/

/-- The end of line in a piece is seen by the cursor as it is told by the kind of the piece. -/
theorem touched_piece {kind : PieceKind}
    (hmunch : munch c.touched ch (word ++ rest) = .ok (kind, word.length))
    (hkind : ∀ token, kind ≠ .token token) :
    (c.after (ch :: word)).touched = touches c.touched kind ch := by
  cases kind with
  | blank =>
    obtain rfl := List.eq_nil_of_length_eq_zero (munch_blank hmunch).2
    rfl
  | trivia kind =>
    obtain ⟨hch, hlength⟩ := munch_trivia (munch_append_iff.mp hmunch).1
    have hword : '\n' ∉ word := fun hline =>
      absurd (forall_of_length_takeWhile hlength.symm _ hline) (by decide)
    rw [touched_after c (List.not_mem_cons_of_ne_of_not_mem (Ne.symm hch) hword)]
    simp [touches, hch]
  | token kind => exact absurd rfl (hkind kind)

/-- What the pieces of a scan come to, behind a place and what was found before it. -/
def outcome (placed : Position × Lexed) (scan : Scan) : Except SourceError Lexed :=
  match scan.fault with
  | some fault => .error (fault.reportAt (scan.pieces.foldl Lexed.add placed).1)
  | none => .ok (scan.pieces.foldl Lexed.add placed).2

/-- **Enough turns find all pieces of what lies ahead.** -/
theorem At.scan? {touched : Bool} {scan : Scan} (hscan : Scans touched ahead scan)
    (h : At source before ahead c) (htouched : c.touched = touched) (hn : ahead.length < n)
    (lexed : Lexed) :
    c.scan? source n lexed = some (outcome (c.position, lexed) scan) := by
  induction hscan generalizing before c n lexed with
  | done touched =>
    obtain ⟨n, rfl⟩ := Nat.exists_eq_succ_of_ne_zero (Nat.ne_zero_of_lt hn)
    rw [Cursor.scan?, h.peek?]
    rfl
  | stuck hmunch =>
    obtain ⟨n, rfl⟩ := Nat.exists_eq_succ_of_ne_zero (Nat.ne_zero_of_lt hn)
    rw [Cursor.scan?, h.peek?]
    simp only [List.head?_cons, Option.bind_eq_bind, Option.bind_some, h.munch?, htouched, hmunch]
    rfl
  | @piece touched ch word rest kind scan hmunch hrest ih =>
    obtain ⟨n, rfl⟩ := Nat.exists_eq_succ_of_ne_zero (Nat.ne_zero_of_lt hn)
    subst htouched
    have hpiece : At source before (ch :: word ++ rest) c := h
    have hmore : rest.length < n := by
      simp only [List.length_cons, List.length_append] at hn
      omega
    rw [Cursor.scan?, h.peek?]
    simp only [List.head?_cons, Option.bind_eq_bind, Option.bind_some, h.munch?, hmunch,
      Except.map, List.take_left, hpiece.slice?]
    cases kind with
    | blank =>
      have htouches := touched_piece hmunch nofun
      rw [ih hpiece.after htouches hmore, position_after]
      rfl
    | trivia kind =>
      have htouches := touched_piece hmunch nofun
      simp only [ih hpiece.after htouches hmore, position_after]
      rfl
    | token kind =>
      -- a token touches its line even if a line ends in it
      have htoken : At source (before ++ ch :: word) rest ⟨(c.after (ch :: word)).position, true⟩ :=
        ⟨hpiece.after.source_eq, hpiece.after.position_eq⟩
      refine (ih htoken rfl hmore _).trans ?_
      rw [position_after]
      rfl

end Cursor

/-- **Tokenizing slices nothing that is not there.** -/
theorem tokenize_eq (source : List Char) : tokenize source = some (ModuleLint.tokenize source) := by
  obtain ⟨scan, hscan⟩ := exists_scans false source
  have hat : Cursor.At source [] source ⟨Position.start, false⟩ := ⟨rfl, rfl⟩
  rw [tokenize, hat.scan? hscan rfl hat.length_lt, ModuleLint.tokenize, scans_iff.mp hscan]
  rfl

end Checked

end ModuleLint
