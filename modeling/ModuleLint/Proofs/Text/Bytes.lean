/-
ModuleLint/Proofs/Text/Bytes.lean

Texts by their bytes, and places in them.  A byte offset cuts a text in two where it
lies on a boundary of its characters (`beforeByte`, `afterByte`), and two of them slice a
part out of it (`slice?`).  The place that `Position.after` counts up to is told by the text
before it alone: its bytes, its ends of line, and the characters of its last line.
-/
import Mathlib.Data.List.Induction
import ModuleLint.Text.Position

namespace ModuleLint

variable {s t before behind : List Char} {c : Char} {p : Position} {n : Nat}

/-! ### Lengths in bytes -/

theorem foldl_utf8Size (n : Nat) (s : List Char) :
    s.foldl (fun n c => n + c.utf8Size) n = n + byteLength s := by
  induction s generalizing n with
  | nil => rfl
  | cons c s ih =>
    rw [byteLength, List.foldl_cons, List.foldl_cons, ih, ih, Nat.zero_add, Nat.add_assoc]

@[simp] theorem byteLength_nil : byteLength [] = 0 := rfl

@[simp] theorem byteLength_cons (c : Char) (s : List Char) :
    byteLength (c :: s) = c.utf8Size + byteLength s := by
  rw [byteLength, List.foldl_cons, foldl_utf8Size, Nat.zero_add]

@[simp] theorem byteLength_append (s t : List Char) :
    byteLength (s ++ t) = byteLength s + byteLength t := by
  rw [byteLength, List.foldl_append, foldl_utf8Size, foldl_utf8Size, Nat.zero_add]

/-- The bytes are those of the text in UTF-8. -/
theorem utf8ByteSize_ofList (s : List Char) : (String.ofList s).utf8ByteSize = byteLength s := by
  induction s with
  | nil => rfl
  | cons c s ih =>
    have hsplit : String.ofList (c :: s) = String.singleton c ++ String.ofList s := by
      rw [String.singleton_eq_ofList, ← String.ofList_append]
      rfl
    rw [hsplit, String.utf8ByteSize_append, String.utf8ByteSize_singleton, ih, byteLength_cons]

/-- A text that is not empty has bytes. -/
theorem byteLength_pos (h : s ≠ []) : 0 < byteLength s := by
  cases s with
  | nil => exact absurd rfl h
  | cons c s =>
    rw [byteLength_cons]
    exact Nat.add_pos_left (Char.utf8Size_pos c) _

/-! ### Cutting at a byte -/

/-- The characters that lie in the first `n` bytes of a text. -/
def beforeByte : Nat → List Char → List Char
  | _, [] => []
  | n, c :: rest => if c.utf8Size ≤ n then c :: beforeByte (n - c.utf8Size) rest else []

/-- The characters of a text behind its first `n` bytes. -/
def afterByte : Nat → List Char → List Char
  | _, [] => []
  | n, c :: rest => if c.utf8Size ≤ n then afterByte (n - c.utf8Size) rest else c :: rest

theorem beforeByte_append (s t : List Char) : beforeByte (byteLength s) (s ++ t) = s := by
  induction s with
  | nil =>
    cases t with
    | nil => rfl
    | cons c t => exact if_neg (Nat.not_le_of_gt (Char.utf8Size_pos c))
  | cons c s ih =>
    rw [byteLength_cons, List.cons_append, beforeByte, if_pos (Nat.le_add_right _ _),
      Nat.add_sub_cancel_left, ih]

theorem afterByte_append (s t : List Char) : afterByte (byteLength s) (s ++ t) = t := by
  induction s with
  | nil =>
    cases t with
    | nil => rfl
    | cons c t => exact if_neg (Nat.not_le_of_gt (Char.utf8Size_pos c))
  | cons c s ih =>
    rw [byteLength_cons, List.cons_append, afterByte, if_pos (Nat.le_add_right _ _),
      Nat.add_sub_cancel_left, ih]

/-- **A byte offset lies between two characters** of a text, or at one of its ends. -/
def IsBoundary (text : List Char) (n : Nat) : Prop :=
  (String.Pos.Raw.mk n).IsValid (String.ofList text)

/-- What a text begins with ends on a boundary. -/
theorem isBoundary_append (s t : List Char) : IsBoundary (s ++ t) (byteLength s) := by
  rw [IsBoundary, String.Pos.Raw.isValid_iff_exists_append]
  refine ⟨String.ofList s, String.ofList t, String.ofList_append, ?_⟩
  rw [String.rawEndPos, utf8ByteSize_ofList]

instance (text : List Char) (n : Nat) : Decidable (IsBoundary text n) :=
  inferInstanceAs (Decidable (String.Pos.Raw.IsValid _ _))

/-- **The part of a text between two bytes**, the second one not in it.  There is none where
the bytes are in the wrong order, behind the end or inside a character. -/
def slice? (text : List Char) (first stop : Nat) : Option (List Char) :=
  if first ≤ stop ∧ IsBoundary text first ∧ IsBoundary text stop then
    some (beforeByte (stop - first) (afterByte first text))
  else none

/-- What stands between two other parts is sliced out whole. -/
theorem slice?_append (s t u : List Char) :
    slice? (s ++ t ++ u) (byteLength s) (byteLength s + byteLength t) = some t := by
  have hfirst : IsBoundary (s ++ t ++ u) (byteLength s) := by
    rw [List.append_assoc]
    exact isBoundary_append s _
  have hstop : IsBoundary (s ++ t ++ u) (byteLength s + byteLength t) := by
    rw [← byteLength_append]
    exact isBoundary_append (s ++ t) u
  rw [slice?, if_pos ⟨Nat.le_add_right _ _, hfirst, hstop⟩, Nat.add_sub_cancel_left,
    List.append_assoc, afterByte_append, beforeByte_append]

/-! ### Places -/

namespace Position

/-- The characters of the last line of a text. -/
def lastLine (text : List Char) : List Char :=
  (text.reverse.takeWhile (· != '\n')).reverse

theorem after_singleton (p : Position) (c : Char) : p.after [c] = p.next c := rfl

@[simp] theorem offset_next (p : Position) (c : Char) :
    (p.next c).offset = p.offset + c.utf8Size := by
  unfold next
  split
  · rfl
  · rfl

theorem offset_after (p : Position) (s : List Char) :
    (p.after s).offset = p.offset + byteLength s := by
  induction s generalizing p with
  | nil => rfl
  | cons c s ih => rw [after_cons, ih, offset_next, byteLength_cons, Nat.add_assoc]

theorem line_after (p : Position) (s : List Char) :
    (p.after s).line = p.line + s.count '\n' := by
  induction s generalizing p with
  | nil => rfl
  | cons c s ih =>
    rw [after_cons, ih, next]
    split
    · rename_i hc
      rw [hc, List.count_cons_self, Nat.add_right_comm, Nat.add_assoc]
    · rename_i hc
      rw [List.count_cons_of_ne hc]

/-- Columns count the characters of the last line. -/
theorem column_start_after (s : List Char) :
    (start.after s).column = 1 + (lastLine s).length := by
  induction s using List.reverseRecOn with
  | nil => rfl
  | append_singleton s c ih =>
    rw [after_append, after_singleton, next, lastLine, List.reverse_append, List.length_reverse,
      List.reverse_singleton, List.singleton_append]
    rw [lastLine, List.length_reverse] at ih
    split
    · rename_i hc
      rw [List.takeWhile_cons_of_neg (by simp [hc])]
      rfl
    · rename_i hc
      have hline : (c != '\n') = true := bne_iff_ne.mpr hc
      rw [List.takeWhile_cons_of_pos (p := (· != '\n')) hline, List.length_cons,
        ← Nat.add_assoc, ← ih]

/-- The place that lies a number of bytes and of whole lines further on. -/
def moved (p : Position) (bytes lines : Nat) : Position :=
  ⟨p.offset + bytes, p.line + lines, p.column⟩

theorem moved_next (p : Position) (bytes lines : Nat) (c : Char) :
    (p.moved bytes lines).next c = (p.next c).moved bytes lines := by
  unfold next moved
  split
  · simp only [mk.injEq, and_true]
    omega
  · simp only [mk.injEq, and_true]
    omega

/-- Reading a text does not depend on where it stands. -/
theorem moved_after (p : Position) (bytes lines : Nat) (s : List Char) :
    (p.moved bytes lines).after s = (p.after s).moved bytes lines := by
  induction s generalizing p with
  | nil => rfl
  | cons c s ih => rw [after_cons, after_cons, moved_next, ih]

/-- Behind the end of a line, counting starts anew, so many bytes and lines further on. -/
theorem start_after_line (s : List Char) :
    start.after (s ++ ['\n']) = start.moved (byteLength s + 1) (s.count '\n' + 1) := by
  have hcolumn : (start.after (s ++ ['\n'])).column = 1 := by
    rw [column_start_after, lastLine, List.reverse_append]
    rfl
  have hoffset := offset_after start (s ++ ['\n'])
  have hline := line_after start (s ++ ['\n'])
  rw [byteLength_append] at hoffset
  rw [List.count_append] at hline
  calc start.after (s ++ ['\n'])
      = ⟨(start.after (s ++ ['\n'])).offset, (start.after (s ++ ['\n'])).line,
          (start.after (s ++ ['\n'])).column⟩ := rfl
    _ = start.moved (byteLength s + 1) (s.count '\n' + 1) := by
        rw [hoffset, hline, hcolumn]
        rfl

end Position

end ModuleLint
