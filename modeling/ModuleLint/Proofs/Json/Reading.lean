/-
ModuleLint/Proofs/Json/Reading.lean

Every text that spells a value is read as this value.  A value is read in front of any text, as
long as that text does not prolong a number (`EndsNumber`); what stands behind a value between
brackets never does.  The readers count down, and the length of a text is enough for them, since
each element and each entry is shorter than what it stands in.

The proof is an induction on `SpelledAs`: an array is read if its elements are, an object if the
values of its entries are, and the lemma on what stands behind the first piece is the induction
on `Continued` in each case.

Main result: `read?_of_textOf`, for all values, plain or not.
-/
import Mathlib.Tactic.IntervalCases
import ModuleLint.Proofs.Json.Grammar
import ModuleLint.Proofs.Text.Trim

namespace ModuleLint

namespace JsonValue

variable {n : Nat} {c : Char} {v : JsonValue} {blanks text rest digits : List Char}

/-! ### Blanks -/

theorem isJsonBlank_iff : isJsonBlank c = true ↔ c ∈ [' ', '\t', '\n', '\r'] := by
  simp [isJsonBlank, or_assoc, or_left_comm]

theorem skipBlanks_append (h : AllBlank blanks) (text : List Char) :
    skipBlanks (blanks ++ text) = skipBlanks text :=
  List.dropWhile_append_of_pos fun c hc => isJsonBlank_iff.mpr (h c hc)

theorem skipBlanks_cons (h : isJsonBlank c = false) (text : List Char) :
    skipBlanks (c :: text) = c :: text := by
  rw [skipBlanks, List.dropWhile_cons_of_neg]
  simp [h]

/-- A value is read behind blanks as it is without them. -/
theorem readValue_append (h : AllBlank blanks) (n : Nat) (text : List Char) :
    readValue n (blanks ++ text) = readValue n text := by
  cases n with
  | zero => rfl
  | succ n => simp only [readValue, skipBlanks_append h]

theorem readElements_append (h : AllBlank blanks) (n : Nat) (text : List Char) :
    readElements n (blanks ++ text) = readElements n text := by
  cases n with
  | zero => rfl
  | succ n => simp only [readElements, skipBlanks_append h]

theorem readEntries_append (h : AllBlank blanks) (n : Nat) (text : List Char) :
    readEntries n (blanks ++ text) = readEntries n text := by
  cases n with
  | zero => rfl
  | succ n => simp only [readEntries, skipBlanks_append h]

/-! ### Numbers -/

/-- Nothing at the start of a text would prolong a number before it. -/
def EndsNumber (rest : List Char) : Prop :=
  ∀ c, rest.head? = some c → c.isDigit = false ∧ c ≠ '.' ∧ c ≠ 'e' ∧ c ≠ 'E'

theorem splitDigits_append (hdigits : ∀ c ∈ digits, c.isDigit = true) (hrest : EndsNumber rest) :
    splitDigits (digits ++ rest) = (digits, rest) := by
  have hstop : rest.takeWhile Char.isDigit = [] ∧ rest.dropWhile Char.isDigit = rest := by
    cases rest with
    | nil => exact ⟨rfl, rfl⟩
    | cons c rest => simp [(hrest c rfl).1]
  rw [splitDigits, List.takeWhile_append_of_pos hdigits, List.dropWhile_append_of_pos hdigits,
    hstop.1, hstop.2, List.append_nil]

theorem skipFraction_eq (hrest : EndsNumber rest) : skipFraction rest = some (false, rest) := by
  unfold skipFraction
  split
  · rename_i more
    exact absurd rfl (hrest '.' rfl).2.1
  · rfl

theorem skipExponent_eq (hrest : EndsNumber rest) : skipExponent rest = some (false, rest) := by
  cases rest with
  | nil => rfl
  | cons c rest =>
    obtain ⟨-, -, he, hE⟩ := hrest c rfl
    rw [skipExponent, if_neg (by simp [he, hE])]

theorem digitsValue_toDigits (n : Nat) : digitsValue (Nat.toDigits 10 n) = n := by
  have hfold := @Nat.ofDigitChars_ten_toDigits n
  rw [Nat.ofDigitChars_eq_foldl] at hfold
  simp only [Nat.mul_comm 10] at hfold
  exact hfold

/-- A number of two digits or more does not begin with a zero. -/
theorem head?_toDigits_ne (h : 0 < n) : (Nat.toDigits 10 n).head? ≠ some '0' := by
  induction n using Nat.strongRecOn with
  | ind n ih =>
    by_cases hn : n < 10
    · rw [Nat.toDigits_of_lt_base hn]
      interval_cases n <;> decide
    · have hdiv : 0 < n / 10 := Nat.div_pos (by omega) (by omega)
      rw [Nat.toDigits_of_base_le (by omega) (by omega),
        List.head?_append_of_ne_nil _ Nat.toDigits_ne_nil]
      exact ih _ (by omega) hdiv

/-- **Decimal digits are read back**, with a sign if there is one. -/
theorem readNumber_toDigits (negative : Bool) (hzero : negative = true → 0 < n)
    (hrest : EndsNumber rest) :
    readNumber negative (Nat.toDigits 10 n ++ rest) =
      some (.integer (if negative then -(n : Int) else n), rest) := by
  have hdigits : ∀ c ∈ Nat.toDigits 10 n, c.isDigit = true := fun c hc =>
    Nat.isDigit_of_mem_toDigits (by decide) (by decide) hc
  have hlead :
      ((Nat.toDigits 10 n).head? == some '0' && (Nat.toDigits 10 n).length != 1) = false := by
    rcases Nat.eq_zero_or_pos n with rfl | hn
    · decide
    · simp [head?_toDigits_ne hn]
  have hminus : (negative && n == 0) = false := by
    cases negative with
    | false => rfl
    | true => simp [Nat.ne_of_gt (hzero rfl)]
  simp [readNumber, splitDigits_append hdigits hrest, hlead, skipFraction_eq hrest,
    skipExponent_eq hrest, digitsValue_toDigits, hminus, Nat.toDigits_ne_nil]

/-! ### Strings -/

theorem hexValue?_of_isHexDigit (h : IsHexDigit c n) : hexValue? c = some n := by
  have hall : ∀ n < 16, "0123456789abcdef".toList[n]?.bind hexValue? = some n ∧
      "0123456789ABCDEF".toList[n]?.bind hexValue? = some n := by
    decide
  rcases h with h | h
  · have hn := (hall n (List.getElem?_eq_some_iff.mp h).1).1
    rw [h] at hn
    exact hn
  · have hn := (hall n (List.getElem?_eq_some_iff.mp h).1).2
    rw [h] at hn
    exact hn

/-- Four hexadecimal digits behind a backslash and a `u` are read as their value. -/
theorem readUnits_fourDigits (h : FourDigits digits n) (rest : List Char) :
    readUnits ('\\' :: 'u' :: digits ++ rest) =
      (readUnits rest).map fun found => (n :: found.1, found.2) := by
  obtain ⟨ha, hb, hc, hd⟩ := h
  rename_i a b c d i j k l
  have hvalue : hex4? a b c d = some (((i * 16 + j) * 16 + k) * 16 + l) := by
    rw [hex4?, hexValue?_of_isHexDigit ha, hexValue?_of_isHexDigit hb, hexValue?_of_isHexDigit hc,
      hexValue?_of_isHexDigit hd]
    simp only [Option.bind_eq_bind, Option.bind_some, Option.pure_def, Option.some.injEq]
    omega
  simp only [List.cons_append, List.nil_append]
  rw [readUnits, hvalue]
  cases readUnits rest <;> rfl

/-- A letter after a backslash stands for a character. -/
theorem readUnits_letter {e : Char} (h : (e, c) ∈ letterEscapes) (rest : List Char) :
    readUnits ('\\' :: e :: rest) =
      (readUnits rest).map fun found => (c.toNat :: found.1, found.2) := by
  have he : escaped? e = some c ∧ e ≠ 'u' := by
    simp only [letterEscapes, List.mem_cons, Prod.mk.injEq, List.not_mem_nil, or_false] at h
    rcases h with h | h | h | h | h | h | h | h
    all_goals
      obtain ⟨rfl, rfl⟩ := h
      exact ⟨rfl, by decide⟩
  rw [readUnits]
  · rw [he.1]
    cases readUnits rest <;> rfl
  · rintro a b d f more heq -
    exact he.2 heq

/-- A character that needs no escape stands for itself. -/
theorem readUnits_cons (hcontrol : 0x20 ≤ c.toNat) (hquote : c ≠ '"') (hslash : c ≠ '\\')
    (rest : List Char) :
    readUnits (c :: rest) = (readUnits rest).map fun found => (c.toNat :: found.1, found.2) := by
  rw [readUnits]
  · rw [if_neg (Nat.not_lt.mpr hcontrol)]
    cases readUnits rest <;> rfl
  · exact hquote
  · rintro a b d e more heq -
    exact hslash heq
  · rintro e more heq -
    exact hslash heq

/-- A character is no half of a surrogate pair. -/
theorem not_surrogate (c : Char) : isLeading c.toNat = false ∧ isTrailing c.toNat = false := by
  have hvalid : c.toNat < 0xD800 ∨ 0xDFFF < c.toNat ∧ c.toNat < 0x110000 := c.valid
  constructor
  · rw [Bool.eq_false_iff, isLeading, ne_eq, Bool.and_eq_true, Nat.ble_eq, Nat.ble_eq]
    omega
  · rw [Bool.eq_false_iff, isTrailing, ne_eq, Bool.and_eq_true, Nat.ble_eq, Nat.ble_eq]
    omega

theorem textOf?_cons (c : Char) (more : List Nat) :
    textOf? (c.toNat :: more) = (textOf? more).map fun s => c :: s := by
  obtain ⟨hleading, htrailing⟩ := not_surrogate c
  rw [textOf?.eq_def]
  simp [hleading, htrailing, Char.ofNat_toNat]

/-- A pair of surrogates stands for one character. -/
theorem textOf?_pair {high low : Nat} (hhigh : high < 0x400) (hlow : low < 0x400)
    (hc : c.toNat = 0x10000 + high * 0x400 + low) (more : List Nat) :
    textOf? ((0xD800 + high) :: (0xDC00 + low) :: more) = (textOf? more).map fun s => c :: s := by
  have hleading : isLeading (0xD800 + high) = true := by
    rw [isLeading, Bool.and_eq_true, Nat.ble_eq, Nat.ble_eq]
    omega
  have htrailing : isTrailing (0xDC00 + low) = true := by
    rw [isTrailing, Bool.and_eq_true, Nat.ble_eq, Nat.ble_eq]
    omega
  have hjoined : Char.ofNat (0x10000 + (0xD800 + high - 0xD800) * 0x400 +
      (0xDC00 + low - 0xDC00)) = c := by
    rw [Nat.add_sub_cancel_left, Nat.add_sub_cancel_left, ← hc, Char.ofNat_toNat]
  rw [textOf?.eq_def]
  simp only [hleading, htrailing, if_true, hjoined]

/-- **A spelled character is read** as numbers that stand for it. -/
theorem readUnits_spelled {piece : List Char} (h : CharSpelledAs c piece) :
    ∃ units : List Nat,
      (∀ rest, readUnits (piece ++ rest) =
        (readUnits rest).map fun found => (units ++ found.1, found.2)) ∧
      ∀ more, textOf? (units ++ more) = (textOf? more).map fun s => c :: s := by
  cases h with
  | plain hcontrol hquote hslash =>
    exact ⟨[c.toNat], readUnits_cons hcontrol hquote hslash, textOf?_cons c⟩
  | letter h => exact ⟨[c.toNat], readUnits_letter h, textOf?_cons c⟩
  | unit h => exact ⟨[c.toNat], readUnits_fourDigits h, textOf?_cons c⟩
  | pair hfirst hsecond hhigh hlow hc =>
    rename_i first second high low
    refine ⟨[0xD800 + high, 0xDC00 + low], fun rest => ?_, textOf?_pair hhigh hlow hc⟩
    rw [List.append_assoc, readUnits_fourDigits hfirst, readUnits_fourDigits hsecond,
      Option.map_map]
    rfl

/-- **A text in quotes is read**, up to its closing quote. -/
theorem readUnits_quoted {s : String} (h : TextSpelledAs s text) (rest : List Char) :
    ∃ body units, text ++ rest = '"' :: body ∧ readUnits body = some (units, rest) ∧
      textOf? units = some s.toList := by
  obtain ⟨pieces, hpieces, rfl⟩ := h
  have hall : ∃ units, readUnits (pieces.flatten ++ '"' :: rest) = some (units, rest) ∧
      textOf? units = some s.toList := by
    generalize s.toList = chars at hpieces ⊢
    induction hpieces with
    | nil => exact ⟨[], by rw [List.flatten_nil, List.nil_append, readUnits], rfl⟩
    | cons hpiece _ ih =>
      obtain ⟨units, hunits, htext⟩ := readUnits_spelled hpiece
      obtain ⟨more, hmore, hmoreText⟩ := ih
      refine ⟨units ++ more, ?_, ?_⟩
      · rw [List.flatten_cons, List.append_assoc, hunits, hmore, Option.map_some]
      · rw [htext, hmoreText, Option.map_some]
  obtain ⟨units, hunits, htext⟩ := hall
  refine ⟨_, units, ?_, hunits, htext⟩
  simp

/-- An entry begins with the quote of its name. -/
theorem SpelledEntry.Sound.exists_text {e : SpelledEntry} (h : e.Sound) :
    ∃ more, e.text = '"' :: more := by
  obtain ⟨pieces, -, heq⟩ := h.name
  rw [SpelledEntry.text, heq]
  exact ⟨_, rfl⟩

theorem skipBlanks_text {e : SpelledEntry} (h : e.Sound) (rest : List Char) :
    skipBlanks (e.text ++ rest) = e.text ++ rest := by
  obtain ⟨more, hmore⟩ := h.exists_text
  rw [hmore]
  exact skipBlanks_cons rfl _

/-- The name of an entry is read, with the colon behind it, up to the value. -/
theorem readName_text {e : SpelledEntry} (h : e.Sound) (rest : List Char) :
    readName (e.text ++ rest) = some (some e.name, e.behind ++ (e.valueText ++ rest)) := by
  obtain ⟨body, units, hbody, hunits, htext⟩ :=
    readUnits_quoted h.name (e.before ++ ':' :: (e.behind ++ (e.valueText ++ rest)))
  rw [SpelledEntry.text, List.append_assoc, List.append_assoc, List.cons_append, List.append_assoc,
    hbody, readName, hunits]
  simp [skipBlanks_append h.before, skipBlanks_cons (c := ':') rfl, htext]

/-- The value of an entry is shorter than the entry. -/
theorem length_valueText_lt (e : SpelledEntry) : e.valueText.length < e.text.length := by
  simp only [SpelledEntry.text, List.length_append, List.length_cons]
  omega

/-! ### What stands before and behind a value -/

/-- A whole number begins with a digit or a sign. -/
theorem exists_decimal_eq_cons (i : Int) :
    ∃ c more, decimal i = c :: more ∧ isJsonBlank c = false ∧ c ≠ ']' ∧ c ≠ '\x7d' := by
  cases i with
  | ofNat n =>
    obtain ⟨c, more, heq⟩ := List.exists_cons_of_ne_nil (Nat.toDigits_ne_nil (n := n) (b := 10))
    have hc : c.isDigit = true :=
      Nat.isDigit_of_mem_toDigits (by decide) (by decide) (heq ▸ List.mem_cons_self)
    have hne : ∀ d : Char, d.isDigit = false → c ≠ d := by
      rintro d hd rfl
      rw [hc] at hd
      cases hd
    refine ⟨c, more, heq, ?_, hne _ rfl, hne _ rfl⟩
    simp [isJsonBlank, hne]
  | negSucc n => exact ⟨_, _, rfl, by decide⟩

theorem toList_toString (i : Int) : (toString i).toList = decimal i := by
  cases i with
  | ofNat n =>
    show (Nat.repr n).toList = _
    rw [Nat.repr, String.toList_ofList]
    rfl
  | negSucc n =>
    show ("-" ++ Nat.repr (n + 1)).toList = _
    simp [decimal, Nat.repr]

theorem Bracketed.exists_cons {opening closing : Char} {pieces : List (List Char)}
    (h : Bracketed opening closing pieces text) : ∃ more, text = opening :: more := by
  cases h <;> exact ⟨_, rfl⟩

/-- What a value begins with is no blank, and closes nothing. -/
theorem SpelledAs.exists_cons (h : v.SpelledAs text) :
    ∃ c more, text = c :: more ∧ isJsonBlank c = false ∧ c ≠ ']' ∧ c ≠ '\x7d' := by
  cases h with
  | null => exact ⟨_, _, rfl, by decide⟩
  | bool b => cases b <;> exact ⟨_, _, rfl, by decide⟩
  | integer i =>
    rw [toList_toString]
    exact exists_decimal_eq_cons i
  | string h =>
    obtain ⟨pieces, -, rfl⟩ := h
    exact ⟨_, _, rfl, by decide⟩
  | array _ htext =>
    obtain ⟨more, rfl⟩ := htext.exists_cons
    exact ⟨_, _, rfl, by decide⟩
  | object _ _ htext =>
    obtain ⟨more, rfl⟩ := htext.exists_cons
    exact ⟨_, _, rfl, by decide⟩

theorem endsNumber_cons (hdigit : c.isDigit = false) (hpoint : c ≠ '.') (he : c ≠ 'e')
    (hE : c ≠ 'E') (text : List Char) : EndsNumber (c :: text) := by
  rintro d hd
  obtain rfl := Option.some.inj hd
  exact ⟨hdigit, hpoint, he, hE⟩

theorem EndsNumber.append (h : EndsNumber text) (hblanks : AllBlank blanks) :
    EndsNumber (blanks ++ text) := by
  cases blanks with
  | nil => exact h
  | cons c blanks =>
    have hc := hblanks c List.mem_cons_self
    simp only [List.mem_cons, List.not_mem_nil, or_false] at hc
    rcases hc with rfl | rfl | rfl | rfl <;>
      exact endsNumber_cons rfl (by decide) (by decide) (by decide) _

/-- What stands behind a value between brackets does not prolong a number. -/
theorem Continued.endsNumber {closing : Char} {pieces : List (List Char)}
    (h : Continued closing pieces text) (hclosing : closing = ']' ∨ closing = '\x7d')
    (rest : List Char) : EndsNumber (text ++ rest) := by
  cases h with
  | closed hblanks =>
    rw [List.append_assoc]
    refine EndsNumber.append ?_ hblanks
    rcases hclosing with rfl | rfl <;>
      exact endsNumber_cons rfl (by decide) (by decide) (by decide) _
  | next hbefore _ _ =>
    rw [List.append_assoc]
    exact (endsNumber_cons rfl (by decide) (by decide) (by decide) _).append hbefore

/-! ### Values -/

/-- **A text is read as a value** in front of a text that does not prolong a number, with as
many turns as it has characters. -/
def ReadsAs (v : JsonValue) (text : List Char) : Prop :=
  ∀ n rest, text.length ≤ n → EndsNumber rest → readValue n (text ++ rest) = some (v, rest)

/-- A number is read where a digit is met. -/
theorem readValue_digit (hc : c.isDigit = true) (n : Nat) (text : List Char) :
    readValue (n + 1) (c :: text) = readNumber false (c :: text) := by
  have hne : ∀ d : Char, d.isDigit = false → c ≠ d := by
    rintro d hd rfl
    rw [hc] at hd
    cases hd
  have hblank : isJsonBlank c = false := by simp [isJsonBlank, hne]
  rw [readValue, skipBlanks_cons hblank]
  split
  case h_8 => rfl
  all_goals
    rename_i heq
    exact absurd (List.cons.inj heq).1 (hne _ rfl)

/-- What lies between brackets is read element by element. -/
theorem readValue_array {first : List Char} (hc : isJsonBlank c = false) (hclose : c ≠ ']')
    (hblanks : AllBlank blanks) (n : Nat) :
    readValue (n + 1) ('[' :: (blanks ++ c :: first)) = (do
      let (v, rest) ← readValue n (c :: first)
      let (more, rest) ← readElements n rest
      return (.array (v :: more), rest)) := by
  rw [readValue, skipBlanks_cons rfl]
  simp only
  rw [skipBlanks_append hblanks, skipBlanks_cons hc]
  split
  · rename_i heq
    exact absurd (List.cons.inj heq).1 hclose
  · rfl

/-- What lies between braces is read entry by entry. -/
theorem readValue_object {first : List Char} (hc : isJsonBlank c = false) (hclose : c ≠ '\x7d')
    (hblanks : AllBlank blanks) (n : Nat) :
    readValue (n + 1) ('\x7b' :: (blanks ++ c :: first)) = (do
      let (name, rest) ← readName (c :: first)
      let (v, rest) ← readValue n rest
      let (more, rest) ← readEntries n rest
      return (ofEntries ((name, v) :: more), rest)) := by
  rw [readValue, skipBlanks_cons rfl]
  simp only
  rw [skipBlanks_append hblanks, skipBlanks_cons hc]
  split
  · rename_i heq
    exact absurd (List.cons.inj heq).1 hclose
  · rfl

/-- Entries that all have names make up an object. -/
theorem ofEntries_map_some (entries : List (String × JsonValue)) :
    ofEntries (entries.map fun e => (some e.1, e.2)) = .object entries := by
  have hnames : (entries.map fun e => (some e.1, e.2)).mapM
      (fun e : Option String × JsonValue => e.1.map fun s => (s, e.2)) = some entries := by
    induction entries with
    | nil => rfl
    | cons e entries ih => simp [ih]
  rw [ofEntries]
  simp only [hnames]

/-- A value has a character, so there is a turn to read it. -/
theorem SpelledAs.exists_turn (h : v.SpelledAs text) (hn : text.length ≤ n) : ∃ m, n = m + 1 := by
  obtain ⟨c, more, rfl, -⟩ := h.exists_cons
  rw [List.length_cons] at hn
  exact ⟨n - 1, by omega⟩

theorem readsAs_null : ReadsAs .null "null".toList := by
  intro n rest hn hrest
  obtain ⟨m, rfl⟩ := SpelledAs.null.exists_turn hn
  change readValue (m + 1) ('n' :: ("ull".toList ++ rest)) = _
  rw [readValue, skipBlanks_cons rfl]
  exact congrArg (Option.map _) (afterStart?_append _ rest)

theorem readsAs_bool (b : Bool) : ReadsAs (.bool b) (toString b).toList := by
  intro n rest hn hrest
  obtain ⟨m, rfl⟩ := (SpelledAs.bool b).exists_turn hn
  cases b with
  | false =>
    change readValue (m + 1) ('f' :: ("alse".toList ++ rest)) = _
    rw [readValue, skipBlanks_cons rfl]
    exact congrArg (Option.map _) (afterStart?_append _ rest)
  | true =>
    change readValue (m + 1) ('t' :: ("rue".toList ++ rest)) = _
    rw [readValue, skipBlanks_cons rfl]
    exact congrArg (Option.map _) (afterStart?_append _ rest)

theorem readsAs_integer (i : Int) : ReadsAs (.integer i) (toString i).toList := by
  intro n rest hn hrest
  obtain ⟨m, rfl⟩ := (SpelledAs.integer i).exists_turn hn
  rw [toList_toString]
  cases i with
  | ofNat k =>
    obtain ⟨c, more, heq⟩ := List.exists_cons_of_ne_nil (Nat.toDigits_ne_nil (n := k) (b := 10))
    have hc : c.isDigit = true :=
      Nat.isDigit_of_mem_toDigits (by decide) (by decide) (heq ▸ List.mem_cons_self)
    have hread := readNumber_toDigits (n := k) false nofun hrest
    change readValue (m + 1) (Nat.toDigits 10 k ++ rest) = _
    rw [heq] at hread ⊢
    exact (readValue_digit hc m _).trans hread
  | negSucc k =>
    have hread := readNumber_toDigits (n := k + 1) true (fun _ => k.succ_pos) hrest
    change readNumber true (Nat.toDigits 10 (k + 1) ++ rest) = _
    rw [hread]
    rfl

theorem readsAs_string {s : String} (h : TextSpelledAs s text) : ReadsAs (.string s) text := by
  intro n rest hn hrest
  obtain ⟨m, rfl⟩ := (SpelledAs.string h).exists_turn hn
  obtain ⟨body, units, hbody, hunits, htext⟩ := readUnits_quoted h rest
  rw [hbody, readValue, skipBlanks_cons rfl]
  simp [hunits, htext]

/-- The elements behind the first one are read, if each of them is. -/
theorem readElements_continued {elements : List (JsonValue × List Char)}
    (h : ∀ e ∈ elements, ReadsAs e.1 e.2) (htext : Continued ']' (elements.map Prod.snd) text)
    (hn : text.length ≤ n) (rest : List Char) :
    readElements n (text ++ rest) = some (elements.map Prod.fst, rest) := by
  induction elements generalizing n text with
  | nil =>
    obtain ⟨hblanks⟩ := htext
    rw [List.length_append, List.length_singleton] at hn
    obtain ⟨m, rfl⟩ : ∃ m, n = m + 1 := ⟨n - 1, by omega⟩
    rw [List.append_assoc, readElements_append hblanks]
    rfl
  | cons e elements ih =>
    rw [List.map_cons] at htext
    cases htext with
    | next hbefore hbehind hmore =>
      rename_i before behind more
      simp only [List.length_append, List.length_cons] at hn
      obtain ⟨m, rfl⟩ : ∃ m, n = m + 1 := ⟨n - 1, by omega⟩
      have hv := h e List.mem_cons_self m (more ++ rest) (by omega)
        (hmore.endsNumber (.inl rfl) rest)
      have hread := ih (fun f hf => h f (List.mem_cons_of_mem _ hf)) hmore (n := m) (by omega)
      rw [List.append_assoc, readElements_append hbefore]
      simp only [List.cons_append, List.append_assoc]
      rw [readElements, skipBlanks_cons rfl]
      simp only
      rw [readValue_append hbehind, hv]
      simp only [Option.bind_eq_bind, Option.bind_some]
      rw [hread]
      rfl

/-- The entries behind the first one are read, if their values are. -/
theorem readEntries_continued {entries : List SpelledEntry} (hsound : ∀ e ∈ entries, e.Sound)
    (h : ∀ e ∈ entries, ReadsAs e.value e.valueText)
    (htext : Continued '\x7d' (entries.map SpelledEntry.text) text) (hn : text.length ≤ n)
    (rest : List Char) :
    readEntries n (text ++ rest) = some (entries.map fun e => (some e.name, e.value), rest) := by
  induction entries generalizing n text with
  | nil =>
    obtain ⟨hblanks⟩ := htext
    rw [List.length_append, List.length_singleton] at hn
    obtain ⟨m, rfl⟩ : ∃ m, n = m + 1 := ⟨n - 1, by omega⟩
    rw [List.append_assoc, readEntries_append hblanks]
    rfl
  | cons e entries ih =>
    rw [List.map_cons] at htext
    have he := hsound e List.mem_cons_self
    cases htext with
    | next hbefore hbehind hmore =>
      rename_i before behind more
      simp only [List.length_append, List.length_cons] at hn
      obtain ⟨m, rfl⟩ : ∃ m, n = m + 1 := ⟨n - 1, by omega⟩
      have hshorter := length_valueText_lt e
      have hv := h e List.mem_cons_self m (more ++ rest) (by omega)
        (hmore.endsNumber (.inr rfl) rest)
      have hread := ih (fun f hf => hsound f (List.mem_cons_of_mem _ hf))
        (fun f hf => h f (List.mem_cons_of_mem _ hf)) hmore (n := m) (by omega)
      rw [List.append_assoc, readEntries_append hbefore]
      simp only [List.cons_append, List.append_assoc]
      rw [readEntries, skipBlanks_cons rfl]
      simp only
      rw [skipBlanks_append hbehind, skipBlanks_text he, readName_text he]
      simp only [Option.bind_eq_bind, Option.bind_some]
      rw [readValue_append he.behind, hv]
      simp only [Option.bind_some]
      rw [hread]
      rfl

theorem readsAs_array {elements : List (JsonValue × List Char)}
    (hspelled : ∀ e ∈ elements, e.1.SpelledAs e.2) (h : ∀ e ∈ elements, ReadsAs e.1 e.2)
    (htext : Bracketed '[' ']' (elements.map Prod.snd) text) :
    ReadsAs (.array (elements.map Prod.fst)) text := by
  intro n rest hn hrest
  obtain ⟨m, rfl⟩ := (SpelledAs.array hspelled htext).exists_turn hn
  cases elements with
  | nil =>
    obtain ⟨hblanks⟩ := htext
    simp only [List.cons_append, List.append_assoc]
    rw [readValue, skipBlanks_cons rfl]
    simp only
    rw [skipBlanks_append hblanks]
    rfl
  | cons e elements =>
    rw [List.map_cons] at htext
    cases htext with
    | some hblanks hmore =>
      rename_i blanks more
      simp only [List.length_cons, List.length_append] at hn
      have hv := h e List.mem_cons_self m (more ++ rest) (by omega)
        (hmore.endsNumber (.inl rfl) rest)
      have hread := readElements_continued (fun f hf => h f (List.mem_cons_of_mem _ hf)) hmore
        (n := m) (by omega) rest
      obtain ⟨c, first, heq, hc, hclose, -⟩ := (hspelled e List.mem_cons_self).exists_cons
      rw [heq, List.cons_append] at hv
      rw [heq]
      simp only [List.cons_append, List.append_assoc]
      rw [readValue_array hc hclose hblanks, hv]
      simp only [Option.bind_eq_bind, Option.bind_some]
      rw [hread]
      rfl

theorem readsAs_object {entries : List SpelledEntry} (hsound : ∀ e ∈ entries, e.Sound)
    (hspelled : ∀ e ∈ entries, e.value.SpelledAs e.valueText)
    (h : ∀ e ∈ entries, ReadsAs e.value e.valueText)
    (htext : Bracketed '\x7b' '\x7d' (entries.map SpelledEntry.text) text) :
    ReadsAs (.object (entries.map fun e => (e.name, e.value))) text := by
  intro n rest hn hrest
  obtain ⟨m, rfl⟩ := (SpelledAs.object hsound hspelled htext).exists_turn hn
  cases entries with
  | nil =>
    obtain ⟨hblanks⟩ := htext
    simp only [List.cons_append, List.append_assoc]
    rw [readValue, skipBlanks_cons rfl]
    simp only
    rw [skipBlanks_append hblanks]
    rfl
  | cons e entries =>
    rw [List.map_cons] at htext
    have he := hsound e List.mem_cons_self
    cases htext with
    | some hblanks hmore =>
      rename_i blanks more
      simp only [List.length_cons, List.length_append] at hn
      have hshorter := length_valueText_lt e
      have hv := h e List.mem_cons_self m (more ++ rest) (by omega)
        (hmore.endsNumber (.inr rfl) rest)
      have hread := readEntries_continued (fun f hf => hsound f (List.mem_cons_of_mem _ hf))
        (fun f hf => h f (List.mem_cons_of_mem _ hf)) hmore (n := m) (by omega) rest
      have hname := readName_text he (more ++ rest)
      obtain ⟨first, hfirst⟩ := he.exists_text
      rw [hfirst, List.cons_append] at hname
      simp only [hfirst, List.cons_append, List.append_assoc]
      rw [readValue_object rfl (by decide) hblanks, hname]
      simp only [Option.bind_eq_bind, Option.bind_some]
      rw [readValue_append he.behind, hv]
      simp only [Option.bind_some]
      rw [hread]
      have hall := ofEntries_map_some ((e :: entries).map fun e => (e.name, e.value))
      rw [List.map_map] at hall
      exact congrArg (fun v => some (v, rest)) hall

/-- **What spells a value is read as the value.** -/
theorem readsAs_of_spelledAs (h : v.SpelledAs text) : ReadsAs v text := by
  induction h with
  | null => exact readsAs_null
  | bool b => exact readsAs_bool b
  | integer i => exact readsAs_integer i
  | string h => exact readsAs_string h
  | array h htext ih => exact readsAs_array h ih htext
  | object hsound h htext ih => exact readsAs_object hsound h ih htext

/-- **Every text of a value is read as this value.** -/
theorem read?_of_textOf {text : String} (h : v.TextOf text) : read? text = some v := by
  obtain ⟨before, body, behind, hbefore, hbody, hbehind, htext⟩ := h
  have hends : EndsNumber behind := by
    have hnil : EndsNumber [] := nofun
    have happend := hnil.append hbehind
    rwa [List.append_nil] at happend
  have hempty : skipBlanks behind = [] := by
    have hskip := skipBlanks_append hbehind []
    rwa [List.append_nil] at hskip
  have hvalue := readsAs_of_spelledAs hbody (text.toList.length + 1) behind
    (by rw [htext]; simp only [List.length_append]; omega) hends
  rw [← readValue_append hbefore, ← htext] at hvalue
  rw [read?]
  simp only [hvalue, hempty]
  rfl

end JsonValue

end ModuleLint
