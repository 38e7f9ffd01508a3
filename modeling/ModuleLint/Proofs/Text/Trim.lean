/-
ModuleLint/Proofs/Text/Trim.lean

Texts as they are cut up: without the blanks at their ends, behind a given start, and at the
first occurrence of a character.  A text that is *trimmed* already, `trim s = s`, is one
that neither begins nor ends with a blank (`trim_eq_self_iff`); so what begins with a
trimmed text is trimmed as long as it *ends tightly*, and what is read off its front leaves
a text that ends tightly too.  Such a text is blanks and what trimming leaves of it
(`EndsTight.exists_blanks`), because at its end nothing is lost.
-/
import Mathlib.Data.List.Basic
import Mathlib.Data.List.TakeWhile
import ModuleLint.Text.Blank
import ModuleLint.Text.Cut

namespace ModuleLint

variable {s t before after : List Char} {c : Char}

/-! ### Blanks at the ends -/

theorem trimStart_eq_self_iff : trimStart s = s ↔ ∀ c ∈ s.head?, isBlank c = false := by
  cases s with
  | nil => simp [trimStart]
  | cons c s =>
    by_cases hc : isBlank c = true
    · -- the blank is missing afterwards
      have hshorter : (trimStart (c :: s)).length ≤ s.length := by
        rw [trimStart, List.dropWhile_cons_of_pos hc]
        exact (List.dropWhile_suffix isBlank).length_le
      refine iff_of_false (fun heq => ?_) (by simp [hc])
      rw [heq, List.length_cons] at hshorter
      exact Nat.not_succ_le_self _ hshorter
    · rw [trimStart, List.dropWhile_cons_of_neg hc]
      simpa using hc

theorem trimEnd_eq_self_iff : trimEnd s = s ↔ ∀ c ∈ s.getLast?, isBlank c = false := by
  rw [trimEnd, List.reverse_eq_iff, ← List.head?_reverse]
  exact trimStart_eq_self_iff

/-- **A trimmed text** neither begins nor ends with a blank. -/
theorem trim_eq_self_iff :
    trim s = s ↔ (∀ c ∈ s.head?, isBlank c = false) ∧ ∀ c ∈ s.getLast?, isBlank c = false := by
  rw [← trimStart_eq_self_iff, ← trimEnd_eq_self_iff]
  constructor
  · intro h
    -- nothing is lost at the end, so nothing was lost at the start
    have hend : (trim s).length ≤ (trimStart s).length := by
      rw [trim, trimEnd, List.length_reverse, ← @List.length_reverse _ (trimStart s)]
      exact (List.dropWhile_suffix isBlank).length_le
    have hstart : trimStart s = s := by
      refine (List.dropWhile_suffix isBlank).eq_of_length_le ?_
      rw [h] at hend
      exact hend
    refine ⟨hstart, ?_⟩
    rw [trim, hstart] at h
    exact h
  · rintro ⟨hstart, hend⟩
    rw [trim, hstart, hend]

/-- A blank in front of a text is trimmed away. -/
theorem trim_cons_of_blank (hc : isBlank c = true) : trim (c :: s) = trim s := by
  rw [trim, trim, trimStart, List.dropWhile_cons_of_pos hc, trimStart]

/-- A text of blanks only. -/
def Blanks (s : List Char) : Prop := ∀ c ∈ s, isBlank c = true

instance (s : List Char) : Decidable (Blanks s) :=
  List.decidableBAll (fun c => isBlank c = true) s

theorem trimStart_append_of_blanks (h : Blanks s) : trimStart (s ++ t) = trimStart t :=
  List.dropWhile_append_of_pos h

/-- Blanks in front of a text are trimmed away. -/
theorem trim_append_of_blanks (h : Blanks s) : trim (s ++ t) = trim t := by
  rw [trim, trimStart_append_of_blanks h, trim]

theorem trimEnd_append_of_blanks (h : Blanks t) : trimEnd (s ++ t) = trimEnd s := by
  have hreverse : ∀ c ∈ t.reverse, isBlank c = true := fun c hc => h c (List.mem_reverse.mp hc)
  rw [trimEnd, List.reverse_append, List.dropWhile_append_of_pos hreverse, trimEnd]

/-- Blanks behind a text are trimmed away. -/
theorem trim_append_blanks (h : Blanks t) : trim (s ++ t) = trim s := by
  rw [trim, trim, trimStart, trimStart, List.dropWhile_append]
  split
  · -- all of the text is blank
    rename_i hempty
    have ht : t.dropWhile isBlank = [] := List.dropWhile_eq_nil_iff.mpr h
    rw [List.isEmpty_iff.mp hempty, ht]
  · exact trimEnd_append_of_blanks h

/-- What trimming takes from the start of a text are blanks. -/
theorem exists_blanks_trimStart (s : List Char) : ∃ b, Blanks b ∧ s = b ++ trimStart s :=
  ⟨s.takeWhile isBlank, fun _ hc => List.mem_takeWhile_imp hc,
    List.takeWhile_append_dropWhile.symm⟩

/-- A blank behind another character is not trimmed away from the start. -/
theorem trimStart_append_cons (hc : isBlank c = false) (s t : List Char) :
    trimStart (s ++ c :: t) = trimStart s ++ c :: t := by
  have hstop : (c :: t).dropWhile isBlank = c :: t :=
    List.dropWhile_cons_of_neg (Bool.eq_false_iff.mp hc)
  rw [trimStart, trimStart, List.dropWhile_append, hstop]
  split
  · rename_i hempty
    rw [List.isEmpty_iff.mp hempty, List.nil_append]
  · rfl

/-- **A text ends tightly**: its last character is no blank. -/
def EndsTight (s : List Char) : Prop := ∃ front c, s = front ++ [c] ∧ isBlank c = false

theorem EndsTight.append (h : EndsTight t) (s : List Char) : EndsTight (s ++ t) := by
  obtain ⟨front, c, rfl, hc⟩ := h
  exact ⟨s ++ front, c, (List.append_assoc _ _ _).symm, hc⟩

theorem EndsTight.cons (h : EndsTight t) (c : Char) : EndsTight (c :: t) := h.append [c]

/-- What begins with a trimmed text and ends tightly is trimmed, whatever blanks it has
between. -/
theorem EndsTight.trim_append (h : EndsTight t) (hs : trim s = s) (hs' : s ≠ []) :
    trim (s ++ t) = s ++ t := by
  obtain ⟨front, c, rfl, hc⟩ := h
  rw [trim_eq_self_iff] at hs ⊢
  constructor
  · rw [List.head?_append_of_ne_nil s hs']
    exact hs.1
  · rw [← List.append_assoc, List.getLast?_concat]
    simpa using hc

/-- What stands at the end of a text that ends tightly does so too. -/
theorem EndsTight.of_suffix (h : EndsTight s) (hst : t <:+ s) (ht : t ≠ []) : EndsTight t := by
  obtain ⟨before, rfl⟩ := hst
  obtain ⟨front, c, heq, hc⟩ := h
  obtain ⟨front', c', rfl⟩ := t.eq_nil_or_concat.resolve_left ht
  rw [List.concat_eq_append, ← List.append_assoc] at heq
  have hlast := (List.append_inj' heq rfl).2
  exact ⟨front', c', List.concat_eq_append, (List.cons.inj hlast).1 ▸ hc⟩

/-- What trimming leaves, if it leaves anything, ends tightly. -/
theorem endsTight_trim (h : trim s ≠ []) : EndsTight (trim s) := by
  rw [trim, trimEnd, Ne, List.reverse_eq_nil_iff] at h
  obtain ⟨c, kept, hkept⟩ := List.exists_cons_of_ne_nil h
  refine ⟨kept.reverse, c, ?_, ?_⟩
  · rw [trim, trimEnd, hkept, List.reverse_cons]
  · have hhead := List.head_dropWhile_not isBlank h
    simpa [hkept] using hhead

/-- At the end of a text that ends tightly nothing is trimmed away. -/
theorem EndsTight.trim_eq (h : EndsTight s) : trim s = trimStart s := by
  rw [trim, trimEnd_eq_self_iff]
  obtain ⟨front, c, rfl, hc⟩ := h
  rw [trimStart_append_cons hc, List.getLast?_concat]
  simpa using hc

/-- **A text that ends tightly** is blanks and what trimming leaves of it. -/
theorem EndsTight.exists_blanks (h : EndsTight s) : ∃ b, Blanks b ∧ s = b ++ trim s := by
  rw [h.trim_eq]
  exact exists_blanks_trimStart s

/-! ### Cutting -/

theorem afterStart?_eq_some_iff {start text rest : List Char} :
    afterStart? start text = some rest ↔ text = start ++ rest := by
  induction start generalizing text with
  | nil => rw [afterStart?, Option.some.injEq, List.nil_append]
  | cons a start ih =>
    cases text with
    | nil => exact iff_of_false nofun nofun
    | cons b text =>
      rw [afterStart?, List.cons_append, List.cons.injEq]
      split
      · rename_i hab
        rw [ih, and_iff_right hab.symm]
      · rename_i hab
        exact iff_of_false nofun fun h => hab h.1.symm

@[simp] theorem afterStart?_append (s t : List Char) : afterStart? s (s ++ t) = some t := by
  induction s with
  | nil => rfl
  | cons c s ih => rw [List.cons_append, afterStart?, if_pos rfl, ih]

/-- A text is cut at the first occurrence. -/
theorem cutAt?_append (h : c ∉ before) :
    cutAt? c (before ++ c :: after) = some (before, after) := by
  induction before with
  | nil => rw [List.nil_append, cutAt?, if_pos rfl]
  | cons d before ih =>
    rw [List.mem_cons, not_or] at h
    rw [List.cons_append, cutAt?, if_neg (Ne.symm h.1), ih h.2]
    rfl

/-- What is cut off comes before the first occurrence. -/
theorem cutAt?_eq_some_iff :
    cutAt? c s = some (before, after) ↔ s = before ++ c :: after ∧ c ∉ before := by
  refine ⟨fun h => ?_, fun ⟨heq, hbefore⟩ => heq ▸ cutAt?_append hbefore⟩
  induction s generalizing before with
  | nil => cases h
  | cons d s ih =>
    rw [cutAt?] at h
    split at h
    · rename_i hd
      cases h
      exact ⟨congrArg (· :: after) hd, List.not_mem_nil⟩
    · rename_i hd
      obtain ⟨⟨front, rest⟩, hcut, heq⟩ := Option.map_eq_some_iff.mp h
      cases heq
      obtain ⟨rfl, hfront⟩ := ih hcut
      exact ⟨rfl, List.not_mem_cons_of_ne_of_not_mem (Ne.symm hd) hfront⟩

end ModuleLint
