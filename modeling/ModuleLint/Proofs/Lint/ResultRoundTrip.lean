/-
ModuleLint/Proofs/Lint/ResultRoundTrip.lean

A result that is written as JSON is read back.  The texts of a result are arbitrary; its
counts fit the integers they are kept in (`LintResult.Counted`), since a reader refuses a
larger number.  Each part of a result, from severities up, has one lemma: the value that
describes the part is read as the part.  What may be absent is the point of them: a missing
suggestion is written as null, missing minutes and an empty list of skipped files are not
written at all, and the reader takes each of these for what was meant.

The text format is a parameter.  All that is asked of it is that it writes texts of a value and
reads the texts of a value (`JsonFormat.Lawful`), for values that are plain; so a result has to
be described by a plain value (`plain_toJson`).

Main result: `read?_toJson`, for every lawful format and in both its forms.
-/
import Mathlib.Data.List.Basic
import ModuleLint.Lint.ResultJson
import ModuleLint.Proofs.Json.Printing

namespace ModuleLint

/-! ### Counts -/

/-- The counts of a location fit in 64 bits. -/
structure Location.Counted (l : Location) : Prop where
  line : l.line < JsonValue.countBound
  column : l.column < JsonValue.countBound
  offset : l.offset < JsonValue.countBound
  length : l.length < JsonValue.countBound

/-- The counts of a finding fit: those of its place in 64 bits, its minutes in 32. -/
structure Finding.Counted (f : Finding) : Prop where
  location : f.location.Counted
  minutes : ∀ n, f.minutesToFix = some n → n < JsonValue.minutesBound

/-- **The counts of a result fit the integers they are kept in.** -/
structure LintResult.Counted (r : LintResult) : Prop where
  findings : ∀ f ∈ r.findings, f.Counted
  checked : r.filesChecked < JsonValue.countBound

theorem JsonValue.natBelow?_ofNat {n bound : Nat} (h : n < bound) :
    (JsonValue.ofNat n).natBelow? bound = some n := by
  change (if n < bound then some n else none) = some n
  rw [if_pos h]

/-! ### The parts of a result -/

theorem Severity.ofName?_name (severity : Severity) : ofName? severity.name = some severity := by
  cases severity <;> rfl

theorem Location.ofJson?_toJson {l : Location} (h : l.Counted) : ofJson? l.toJson = some l := by
  have hfields : l.toJson.fields? ["file", "line", "column", "offset", "length"] =
      some [some (.string l.file), some (.ofNat l.line), some (.ofNat l.column),
        some (.ofNat l.offset), some (.ofNat l.length)] := rfl
  rw [ofJson?, hfields]
  simp only [Option.bind_eq_bind, Option.bind_some, JsonValue.string?,
    JsonValue.natBelow?_ofNat h.line, JsonValue.natBelow?_ofNat h.column,
    JsonValue.natBelow?_ofNat h.offset, JsonValue.natBelow?_ofNat h.length, pure]

/-- What stands for a suggestion. -/
def suggestionJson : Option String → JsonValue
  | none => .null
  | some s => .object [("message", .string s)]

theorem nullable?_suggestionJson (suggestion : Option String) :
    (suggestionJson suggestion).nullable? suggestionOfJson? = some suggestion := by
  cases suggestion <;> rfl

theorem nullable?_ofNat {n bound : Nat} (h : n < bound) :
    (JsonValue.ofNat n).nullable? (·.natBelow? bound) = some (some n) := by
  change ((JsonValue.ofNat n).natBelow? bound).map some = _
  rw [JsonValue.natBelow?_ofNat h]
  rfl

/-- The fields of a finding as they are found under their names.  The minutes are the last of
them, and the only ones that may be missing. -/
theorem Finding.fields?_toJson (f : Finding) :
    f.toJson.fields? ["code", "rule", "severity", "location", "message", "suggestion",
        "minutes_to_fix"] =
      some [some (.string f.code), some (.string f.rule), some (.string f.severity.name),
        some f.location.toJson, some (.string f.message), some (suggestionJson f.suggestion),
        f.minutesToFix.map .ofNat] := by
  obtain ⟨code, rule, severity, location, message, suggestion, minutes⟩ := f
  cases suggestion <;> cases minutes <;> rfl

theorem Finding.ofJson?_toJson {f : Finding} (h : f.Counted) : ofJson? f.toJson = some f := by
  rw [ofJson?, fields?_toJson]
  simp only [Option.bind_eq_bind, Option.bind_some, Option.isNone_some, Bool.and_false,
    Bool.false_eq_true, if_false, JsonValue.string?, JsonValue.severity?, Severity.ofName?_name,
    Location.ofJson?_toJson h.location, nullable?_suggestionJson, pure]
  obtain ⟨code, rule, severity, location, message, suggestion, minutes⟩ := f
  cases minutes with
  | none => rfl
  | some n =>
    simp only [Option.map_some, nullable?_ofNat (h.minutes n rfl), Option.bind_some]

/-! ### Results -/

/-- What is written item by item is read item by item. -/
theorem mapM_map_eq_some {α β : Type} {write : α → β} {read : β → Option α} {items : List α}
    (h : ∀ a ∈ items, read (write a) = some a) : (items.map write).mapM read = some items := by
  induction items with
  | nil => rfl
  | cons a items ih =>
    rw [List.map_cons, List.mapM_cons, h a List.mem_cons_self,
      ih fun b hb => h b (List.mem_cons_of_mem _ hb)]
    rfl

theorem LintResult.ofJson?_toJson {r : LintResult} (h : r.Counted) :
    ofJson? r.toJson = some r := by
  obtain ⟨findings, checked, skipped⟩ := r
  have hfindings := mapM_map_eq_some fun f hf => Finding.ofJson?_toJson (h.findings f hf)
  have hskipped : (skipped.map JsonValue.string).mapM JsonValue.string? = some skipped :=
    mapM_map_eq_some fun _ _ => rfl
  have hchecked := JsonValue.natBelow?_ofNat h.checked
  -- an empty list of skipped files leaves its field out, and is what a missing field means
  cases skipped with
  | nil =>
    have hfields : (LintResult.toJson ⟨findings, checked, []⟩).fields?
        ["violations", "files_checked", "files_skipped"] =
        some [some (.array (findings.map Finding.toJson)), some (.ofNat checked), none] := rfl
    rw [ofJson?, hfields]
    simp only [Option.bind_eq_bind, Option.bind_some, JsonValue.elements?, hfindings, hchecked,
      pure]
  | cons file files =>
    have hfields : (LintResult.toJson ⟨findings, checked, file :: files⟩).fields?
        ["violations", "files_checked", "files_skipped"] =
        some [some (.array (findings.map Finding.toJson)), some (.ofNat checked),
          some (.array ((file :: files).map .string))] := rfl
    rw [ofJson?, hfields]
    simp only [Option.bind_eq_bind, Option.bind_some, JsonValue.elements?, hfindings, hchecked,
      hskipped, pure]

/-! ### Plain values -/

namespace JsonValue

/-- A count that fits in 64 bits is a plain number. -/
theorem plain_ofNat {n depth : Nat} (h : n < countBound) : (ofNat n).Plain depth := by
  have hlow : -Int.pow 2 63 ≤ 0 := by decide
  have hbound : (countBound : Int) = Int.pow 2 64 := by decide
  refine .integer (hlow.trans (Int.natCast_nonneg n)) ?_
  rw [← hbound]
  exact Int.ofNat_lt.mpr h

theorem minutesBound_le_countBound : minutesBound ≤ countBound := by decide

end JsonValue

open JsonValue

theorem Location.plain_toJson {l : Location} (h : l.Counted) : l.toJson.Plain 1 := by
  refine .object fun e he => ?_
  simp only [List.mem_cons, List.not_mem_nil, or_false] at he
  rcases he with rfl | rfl | rfl | rfl | rfl
  · exact .string _
  · exact plain_ofNat h.line
  · exact plain_ofNat h.column
  · exact plain_ofNat h.offset
  · exact plain_ofNat h.length

theorem plain_suggestionJson (suggestion : Option String) :
    (suggestionJson suggestion).Plain 2 := by
  cases suggestion with
  | none => exact .null
  | some s =>
    refine .object fun e he => ?_
    rw [List.mem_singleton.mp he]
    exact .string s

/-- A finding holds two objects, its location and its suggestion. -/
theorem Finding.plain_toJson {f : Finding} (h : f.Counted) : f.toJson.Plain 3 := by
  have hfields : f.toJson = .object ([("code", .string f.code), ("rule", .string f.rule),
      ("severity", .string f.severity.name), ("location", f.location.toJson),
      ("message", .string f.message), ("suggestion", suggestionJson f.suggestion)] ++
      f.minutesToFix.toList.map fun n => ("minutes_to_fix", .ofNat n)) := by
    obtain ⟨code, rule, severity, location, message, suggestion, minutes⟩ := f
    cases suggestion <;> cases minutes <;> rfl
  rw [hfields]
  refine .object fun e he => ?_
  rw [List.mem_append] at he
  rcases he with he | he
  · simp only [List.mem_cons, List.not_mem_nil, or_false] at he
    rcases he with rfl | rfl | rfl | rfl | rfl | rfl
    · exact .string _
    · exact .string _
    · exact .string _
    · exact (Location.plain_toJson h.location).mono (by omega)
    · exact .string _
    · exact plain_suggestionJson f.suggestion
  · obtain ⟨n, hn, rfl⟩ := List.mem_map.mp he
    have hminutes := Option.mem_toList.mp hn
    exact plain_ofNat ((h.minutes n hminutes).trans_le minutesBound_le_countBound)

/-- **A result is described by a plain value**: an object that holds an array of findings. -/
theorem LintResult.plain_toJson {r : LintResult} (h : r.Counted) : r.toJson.Plain nestingLimit := by
  refine .object fun e he => ?_
  rw [List.mem_append] at he
  rcases he with he | he
  · simp only [List.mem_cons, List.not_mem_nil, or_false] at he
    rcases he with rfl | rfl
    · refine .array fun v hv => ?_
      obtain ⟨f, hf, rfl⟩ := List.mem_map.mp hv
      exact (Finding.plain_toJson (h.findings f hf)).mono (by decide)
    · exact plain_ofNat h.checked
  · split at he
    · cases he
    · rw [List.mem_singleton.mp he]
      refine .array fun v hv => ?_
      obtain ⟨file, -, rfl⟩ := List.mem_map.mp hv
      exact .string file

/-! ### Texts -/

/-- **A result is read back from its compact and from its indented form**, whatever its texts
hold and whichever of its parts are missing, in every format that writes texts of a value and
reads them. -/
theorem LintResult.read?_toJson (format : JsonFormat) (hformat : format.Lawful) (r : LintResult)
    (h : r.Counted) :
    read? (format.compact r.toJson) format = some r ∧
      read? (format.indented r.toJson) format = some r := by
  have hplain := plain_toJson h
  constructor
  · rw [read?, hformat.reads _ _ hplain (hformat.compact _ hplain), Option.bind_some,
      ofJson?_toJson h]
  · rw [read?, hformat.reads _ _ hplain (hformat.indented _ hplain), Option.bind_some,
      ofJson?_toJson h]

/-- A result with all that is hard to write: quotes, backslashes and control characters, the
largest counts, findings with and without a suggestion and minutes, and a skipped file. -/
def intricateResult : LintResult where
  findings := [
    { code := "\"\\\x00\x1f\x7f", rule := "a/b", severity := .warning
      location := ⟨"C:\\a\t\"b\".bsl", 1, 2, 18446744073709551615, 18446744073709551615⟩
      message := "😀\n\r\x08\x0c", suggestion := some "\\u0041", minutesToFix := some 4294967295 },
    { code := "", rule := "", severity := .info, location := ⟨"", 0, 0, 0, 0⟩, message := "" }]
  filesChecked := 18446744073709551615
  filesSkipped := ["\x1b[0m"]

theorem LintResult.read?_toJson_intricate : JsonFormat.standard.Lawful ∧ intricateResult.Counted ∧
    read? intricateResult.toJson.compact .standard = some intricateResult ∧
      read? intricateResult.toJson.indented .standard = some intricateResult := by
  have hcounted : intricateResult.Counted := by
    refine ⟨?_, by decide⟩
    intro f hf
    rcases List.mem_cons.mp hf with rfl | hf
    · exact ⟨⟨by decide, by decide, by decide, by decide⟩, by rintro n ⟨⟩; decide⟩
    · obtain rfl := List.mem_singleton.mp hf
      exact ⟨⟨by decide, by decide, by decide, by decide⟩, nofun⟩
  exact ⟨JsonFormat.standard_lawful, hcounted,
    LintResult.read?_toJson .standard JsonFormat.standard_lawful intricateResult hcounted⟩

end ModuleLint
