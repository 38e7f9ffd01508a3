/-
ModuleLint/Proofs/Json/Printing.lean

What is printed spells the value.  The two forms of a value differ in nothing but blanks, so one
proof serves both: it holds of every layout that puts nothing but blanks anywhere
(`BlankLayout`).  Numbers that are not whole and strings that are no text are left out: what is
printed for them only stands in for something that was read and is never written.

Main result: `standard_lawful`, that the standard format keeps what a format owes its callers.
-/
import ModuleLint.Proofs.Json.Reading

namespace ModuleLint

namespace JsonValue

variable {n : Nat} {v : JsonValue} {layout : JsonLayout}

/-! ### Strings -/

theorem isHexDigit_hexDigit : ∀ n < 16, IsHexDigit (hexDigit n) n := by
  have hall : ∀ n < 16, "0123456789abcdef".toList[n]? = some (hexDigit n) := by decide
  exact fun n hn => .inl (hall n hn)

/-- **An escaped character spells the character.** -/
theorem charSpelledAs_escape (c : Char) : CharSpelledAs c (escape c) := by
  by_cases hletter : c ∈ ['"', '\\', '\n', '\r', '\t', '\x08', '\x0c']
  · -- the characters with a letter of their own
    simp only [List.mem_cons, List.not_mem_nil, or_false] at hletter
    rcases hletter with rfl | rfl | rfl | rfl | rfl | rfl | rfl <;>
      exact .letter (by simp [letterEscapes])
  · simp only [List.mem_cons, List.not_mem_nil, or_false, not_or] at hletter
    obtain ⟨hquote, hslash, hline, hreturn, htab, hback, hfeed⟩ := hletter
    rw [escape, if_neg hquote, if_neg hslash, if_neg hline, if_neg hreturn, if_neg htab,
      if_neg hback, if_neg hfeed]
    split
    · rename_i hcontrol
      have hvalue : c.toNat = ((0 * 16 + 0) * 16 + c.toNat / 16) * 16 + c.toNat % 16 := by omega
      have hdigits : FourDigits ['0', '0', hexDigit (c.toNat / 16), hexDigit (c.toNat % 16)]
          (((0 * 16 + 0) * 16 + c.toNat / 16) * 16 + c.toNat % 16) :=
        .mk (.inl rfl) (.inl rfl) (isHexDigit_hexDigit _ (by omega))
          (isHexDigit_hexDigit _ (by omega))
      rw [← hvalue] at hdigits
      exact .unit hdigits
    · rename_i hcontrol
      exact .plain (Nat.not_lt.mp hcontrol) hquote hslash

theorem textSpelledAs_quoted (s : String) : TextSpelledAs s (quoted s) := by
  refine ⟨s.toList.map escape, ?_, by rw [quoted, List.flatMap_def]⟩
  rw [List.forall₂_map_right_iff, List.forall₂_same]
  exact fun c _ => charSpelledAs_escape c

/-! ### Values -/

/-- **A layout puts nothing but blanks anywhere.** -/
structure BlankLayout (layout : JsonLayout) : Prop where
  newline : ∀ depth, AllBlank (layout.newline depth)
  afterColon : AllBlank layout.afterColon

theorem allBlank_nil : AllBlank [] := nofun

/-- An element with what it is printed as. -/
def printedElement (layout : JsonLayout) (depth : Nat) (v : JsonValue) : JsonValue × List Char :=
  (v, v.print layout (depth + 1))

/-- An entry with what it is printed as. -/
def printedEntry (layout : JsonLayout) (depth : Nat) (e : String × JsonValue) : SpelledEntry :=
  ⟨e.1, quoted e.1, [], layout.afterColon, e.2, e.2.print layout (depth + 1)⟩

theorem sound_printedEntry (hlayout : BlankLayout layout) (depth : Nat) (e : String × JsonValue) :
    (printedEntry layout depth e).Sound :=
  ⟨textSpelledAs_quoted e.1, allBlank_nil, hlayout.afterColon⟩

theorem continued_printElements (hlayout : BlankLayout layout) (depth : Nat)
    (elements : List JsonValue) :
    Continued ']' ((elements.map (printedElement layout depth)).map Prod.snd)
      (printElements layout depth elements) := by
  induction elements with
  | nil => exact .closed (hlayout.newline depth)
  | cons v elements ih =>
    rw [printElements, List.append_assoc]
    exact .next allBlank_nil (hlayout.newline _) ih

theorem continued_printEntries (hlayout : BlankLayout layout) (depth : Nat)
    (entries : List (String × JsonValue)) :
    Continued '\x7d' ((entries.map (printedEntry layout depth)).map SpelledEntry.text)
      (printEntries layout depth entries) := by
  induction entries with
  | nil => exact .closed (hlayout.newline depth)
  | cons e entries ih =>
    have hnext := @Continued.next '\x7d' _ _ (printedEntry layout depth e).text _ _ allBlank_nil
      (hlayout.newline (depth + 1)) ih
    rw [printEntries]
    simpa [printedEntry, SpelledEntry.text] using hnext

theorem print_array_cons (layout : JsonLayout) (depth : Nat) (v : JsonValue)
    (elements : List JsonValue) :
    print layout depth (.array (v :: elements)) =
      '[' :: (layout.newline (depth + 1) ++ print layout (depth + 1) v ++
        printElements layout depth elements) := rfl

theorem print_object_cons (layout : JsonLayout) (depth : Nat) (name : String) (v : JsonValue)
    (entries : List (String × JsonValue)) :
    print layout depth (.object ((name, v) :: entries)) =
      '\x7b' :: (layout.newline (depth + 1) ++ quoted name ++ ':' :: layout.afterColon ++
        print layout (depth + 1) v ++ printEntries layout depth entries) := rfl

theorem spelledAs_print_array (hlayout : BlankLayout layout) {elements : List JsonValue}
    (h : ∀ v ∈ elements, ∀ depth, v.SpelledAs (v.print layout depth)) (depth : Nat) :
    SpelledAs (.array elements) (print layout depth (.array elements)) := by
  have helements : ∀ e ∈ elements.map (printedElement layout depth), e.1.SpelledAs e.2 := by
    intro e he
    obtain ⟨v, hv, rfl⟩ := List.mem_map.mp he
    exact h v hv (depth + 1)
  have htext : Bracketed '[' ']' ((elements.map (printedElement layout depth)).map Prod.snd)
      (print layout depth (.array elements)) := by
    cases elements with
    | nil =>
      have hnone : Bracketed '[' ']' [] ('[' :: ([] ++ [']'])) := .none allBlank_nil
      exact hnone
    | cons v elements =>
      rw [print_array_cons, List.append_assoc]
      exact .some (hlayout.newline _) (continued_printElements hlayout depth elements)
  have hvalues : (elements.map (printedElement layout depth)).map Prod.fst = elements := by
    simp [printedElement, Function.comp_def]
  have hall := SpelledAs.array helements htext
  rwa [hvalues] at hall

theorem spelledAs_print_object (hlayout : BlankLayout layout) {entries : List (String × JsonValue)}
    (h : ∀ e ∈ entries, ∀ depth, e.2.SpelledAs (e.2.print layout depth)) (depth : Nat) :
    SpelledAs (.object entries) (print layout depth (.object entries)) := by
  have hsound : ∀ e ∈ entries.map (printedEntry layout depth), e.Sound := by
    intro e he
    obtain ⟨entry, -, rfl⟩ := List.mem_map.mp he
    exact sound_printedEntry hlayout depth entry
  have hentries : ∀ e ∈ entries.map (printedEntry layout depth), e.value.SpelledAs e.valueText := by
    intro e he
    obtain ⟨entry, hentry, rfl⟩ := List.mem_map.mp he
    exact h entry hentry (depth + 1)
  have htext : Bracketed '\x7b' '\x7d'
      ((entries.map (printedEntry layout depth)).map SpelledEntry.text)
      (print layout depth (.object entries)) := by
    rcases entries with - | ⟨⟨name, v⟩, entries⟩
    · have hnone : Bracketed '\x7b' '\x7d' [] ('\x7b' :: ([] ++ ['\x7d'])) := .none allBlank_nil
      exact hnone
    · have hsome := @Bracketed.some '\x7b' '\x7d' _ (printedEntry layout depth (name, v)).text _ _
        (hlayout.newline (depth + 1)) (continued_printEntries hlayout depth entries)
      rw [print_object_cons]
      simpa [printedEntry, SpelledEntry.text] using hsome
  have hvalues : (entries.map (printedEntry layout depth)).map (fun e => (e.name, e.value)) =
      entries := by
    simp [printedEntry, Function.comp_def]
  have hall := SpelledAs.object hsound hentries htext
  rwa [hvalues] at hall

/-- **A plain value is printed as a text that spells it**, in every layout of blanks. -/
theorem Plain.spelledAs_print (hlayout : BlankLayout layout) (h : v.Plain n) (depth : Nat) :
    v.SpelledAs (v.print layout depth) := by
  induction h generalizing depth with
  | null => exact .null
  | bool b => cases b <;> exact .bool _
  | integer =>
    rename_i i _ _
    have hinteger := SpelledAs.integer i
    rwa [toList_toString] at hinteger
  | string s => exact .string (textSpelledAs_quoted s)
  | array _ ih => exact spelledAs_print_array hlayout ih depth
  | object _ ih => exact spelledAs_print_object hlayout ih depth

theorem Plain.textOf_print (hlayout : BlankLayout layout) (h : v.Plain n) :
    v.TextOf (String.ofList (v.print layout 0)) :=
  ⟨[], _, [], allBlank_nil, h.spelledAs_print hlayout 0, allBlank_nil, by simp⟩

theorem blankLayout_compact : BlankLayout .compact := ⟨fun _ => allBlank_nil, allBlank_nil⟩

theorem blankLayout_indented : BlankLayout .indented := by
  constructor
  · intro depth c hc
    rcases List.mem_cons.mp hc with rfl | hc
    · decide
    · rw [List.eq_of_mem_replicate hc]
      decide
  · intro c hc
    rw [List.mem_singleton.mp hc]
    decide

end JsonValue

/-- **The standard format keeps what a format owes its callers.** -/
theorem JsonFormat.standard_lawful : JsonFormat.standard.Lawful where
  compact := fun _ h => h.textOf_print JsonValue.blankLayout_compact
  indented := fun _ h => h.textOf_print JsonValue.blankLayout_indented
  reads := fun _ _ _ h => JsonValue.read?_of_textOf h

end ModuleLint
