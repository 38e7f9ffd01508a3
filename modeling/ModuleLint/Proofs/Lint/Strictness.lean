/-
ModuleLint/Proofs/Lint/Strictness.lean

What the choice to be strict changes.  A run over files ends at the first file that stops
it, and is the sum of its files if none does (`analyzeFiles_eq`).  A file that cannot be
read stops every run; one that does not parse stops a run only if the run is strict.  So
of two runs over the same files, one strict and one not, the strict one ends no later, and
up to there they do the same.

Main result: `analyze_strictness`, for files in any order that are handed in, and for the
sources among what a walk finds, which are taken in the order of their paths.
-/
import ModuleLint.Proofs.Lint.Aggregation

namespace ModuleLint

namespace Analyzer

variable {a : Analyzer} {file : SourceFile} {files : List SourceFile} {r : LintResult}

/-- The same analyzer, which ends a run at a file that does not parse. -/
def strictly (a : Analyzer) : Analyzer := { a with strict := true }

/-- The same analyzer, which skips files that do not parse. -/
def leniently (a : Analyzer) : Analyzer := { a with strict := false }

theorem leniently_stops?_eq_some {e : AnalysisError} (h : a.leniently.stops? file = some e) :
    ∃ reason, file.content = .error reason ∧ e = .read file.path reason := by
  cases hcontent : file.content with
  | error reason =>
    rw [stops?_of_error hcontent] at h
    exact ⟨reason, rfl, (Option.some.inj h).symm⟩
  | ok source =>
    rw [stops?_of_readable rfl ⟨source, hcontent⟩] at h
    cases h

/-- A strict run is stopped by every file that does not parse. -/
theorem parses_of_strictly_stops? (h : a.strictly.stops? file = none) : file.parses = true := by
  cases hcontent : file.content with
  | error reason =>
    rw [stops?_of_error hcontent] at h
    cases h
  | ok source =>
    obtain hparses | ⟨e, he⟩ := SourceFile.Readable.parses_or_failsWith ⟨source, hcontent⟩
    · exact hparses
    · rw [stops?_of_failsWith he] at h
      cases h

/-! ### Strict and lenient runs -/

/-- **A strict run and a lenient one over the same files** differ only in what they make of
files that do not parse. -/
structure DiffersByStrictness (a : Analyzer) (files : List SourceFile)
    (strict lenient : Except AnalysisError LintResult) : Prop where
  /-- What a strict run returns a lenient one returns too, and no file is skipped. -/
  passed : ∀ r, strict = .ok r → lenient = .ok r ∧ r.filesSkipped = []
  /-- Where a lenient run skips files, a strict one ends at the first of these. -/
  skipped : ∀ r first more, lenient = .ok r → r.filesSkipped = first :: more →
    ∃ before file behind e, files = before ++ file :: behind ∧ (∀ g ∈ before, g.parses) ∧
      file.FailsWith e ∧ a.reported file.path = first ∧
      Path.RelativeTo a.root file.path first.toList ∧ strict = .error (.parse file.path e)
  /-- Where a lenient run ends at a file that cannot be read, a strict one ends there too, or
  at the first file before it that does not parse. -/
  unreadable : ∀ path reason, lenient = .error (.read path reason) →
    ∃ before file behind, files = before ++ file :: behind ∧ (∀ g ∈ before, g.Readable) ∧
      file.path = path ∧ file.content = .error reason ∧
      ((∀ g ∈ before, g.parses) ∧ strict = .error (.read path reason) ∨
        ∃ g e, before.find? (fun g => !g.parses) = some g ∧ g.FailsWith e ∧
          strict = .error (.parse g.path e))
  /-- A lenient run ends at no other file. -/
  ended : ∀ e, lenient = .error e → ∃ file ∈ files, ∃ reason, e = .read file.path reason

/-- The error of a run, if a file stops it and none before that does. -/
theorem analyzeFiles_of_stops?_eq_some {before behind : List SourceFile} {e : AnalysisError}
    (hbefore : ∀ g ∈ before, a.stops? g = none) (hfile : a.stops? file = some e) :
    a.analyzeFiles (before ++ file :: behind) = .error e := by
  rw [analyzeFiles_eq, List.findSome?_eq_some_iff.mpr ⟨before, file, behind, rfl, hfile, hbefore⟩]

/-- A run that fails is stopped by a file. -/
theorem analyzeFiles_eq_error {e : AnalysisError} (h : a.analyzeFiles files = .error e) :
    ∃ before file behind, files = before ++ file :: behind ∧ a.stops? file = some e ∧
      ∀ g ∈ before, a.stops? g = none := by
  rw [analyzeFiles_eq] at h
  cases hstops : files.findSome? a.stops? with
  | some e' =>
    rw [hstops] at h
    cases h
    exact List.findSome?_eq_some_iff.mp hstops
  | none =>
    rw [hstops] at h
    cases h

/-- The first of some files that does not parse stops a strict run. -/
theorem strictly_analyzeFiles_of_failsWith {before behind : List SourceFile} {e : SourceError}
    (hbefore : ∀ g ∈ before, g.parses) (hfile : file.FailsWith e) :
    a.strictly.analyzeFiles (before ++ file :: behind) = .error (.parse file.path e) :=
  analyzeFiles_of_stops?_eq_some (fun g hg => stops?_of_parses (hbefore g hg))
    (stops?_of_failsWith hfile)

/-- The files before the first one that does not parse all do. -/
theorem exists_find?_parses {before : List SourceFile} (h : ¬ ∀ g ∈ before, g.parses) :
    ∃ good g rest, before = good ++ g :: rest ∧ (∀ f ∈ good, f.parses) ∧ g.parses = false ∧
      before.find? (fun g => !g.parses) = some g := by
  cases hfind : before.find? (fun g => !g.parses) with
  | none =>
    refine absurd (fun g hg => ?_) h
    simpa using List.find?_eq_none.mp hfind g hg
  | some g =>
    obtain ⟨hg, good, rest, hsplit, hgood⟩ := List.find?_eq_some_iff_append.mp hfind
    exact ⟨good, g, rest, hsplit, fun f hf => by simpa using hgood f hf, by simpa using hg, rfl⟩

/-- **Strict and lenient runs over the same files** agree up to the first file that does not
parse. -/
theorem strictness_analyzeFiles (a : Analyzer) (files : List SourceFile) :
    a.DiffersByStrictness files (a.strictly.analyzeFiles files)
      (a.leniently.analyzeFiles files) where
  passed := by
    intro r hr
    obtain ⟨hnone, rfl⟩ := analyzeFiles_eq_ok hr
    have hparses : ∀ file ∈ files, file.parses := fun file hfile =>
      parses_of_strictly_stops? (hnone file hfile)
    refine ⟨analyzeFiles_of_stops?_eq_none fun file hfile => stops?_of_parses (hparses file hfile),
      ?_⟩
    show (files.filter fun file => !file.parses).map _ = []
    rw [List.filter_eq_nil_iff.mpr fun file hfile => by simp [hparses file hfile], List.map_nil]
  skipped := by
    intro r first more hr hfirst
    obtain ⟨hnone, rfl⟩ := analyzeFiles_eq_ok hr
    -- the first file that was skipped is the first one that does not parse
    obtain ⟨file, rest, hfilter, hreported, -⟩ := List.map_eq_cons_iff.mp hfirst
    obtain ⟨before, behind, rfl, hbefore, hfile, -⟩ := List.filter_eq_cons_iff.mp hfilter
    have hgood : ∀ g ∈ before, g.parses := fun g hg => by simpa using hbefore g hg
    have hread := readable_of_stops? (hnone file (by simp))
    obtain hparses | ⟨e, he⟩ := hread.parses_or_failsWith
    · rw [hparses] at hfile
      cases hfile
    · refine ⟨before, file, behind, e, rfl, hgood, he, hreported, ?_,
        strictly_analyzeFiles_of_failsWith hgood he⟩
      rw [← hreported]
      exact relativeTo_reported _ _
  unreadable := by
    intro path reason hr
    obtain ⟨before, file, behind, rfl, hstop, hbefore⟩ := analyzeFiles_eq_error hr
    obtain ⟨reason, hcontent, heq⟩ := leniently_stops?_eq_some hstop
    cases heq
    have hread : ∀ g ∈ before, g.Readable := fun g hg => readable_of_stops? (hbefore g hg)
    refine ⟨before, file, behind, rfl, hread, rfl, hcontent, ?_⟩
    by_cases hall : ∀ g ∈ before, g.parses
    · exact .inl ⟨hall, analyzeFiles_of_stops?_eq_some
        (fun g hg => stops?_of_parses (hall g hg)) (stops?_of_error hcontent)⟩
    · obtain ⟨good, g, rest, rfl, hgood, hg, hfind⟩ := exists_find?_parses hall
      obtain hparses | ⟨e, he⟩ := (hread g (by simp)).parses_or_failsWith
      · rw [hparses] at hg
        cases hg
      · refine .inr ⟨g, e, hfind, he, ?_⟩
        rw [List.append_assoc, List.cons_append]
        exact strictly_analyzeFiles_of_failsWith hgood he
  ended := by
    intro e hr
    obtain ⟨before, file, behind, rfl, hstop, -⟩ := analyzeFiles_eq_error hr
    obtain ⟨reason, -, rfl⟩ := leniently_stops?_eq_some hstop
    exact ⟨file, by simp, reason, rfl⟩

/-! ### Runs over what a walk finds -/

/-- **What the choice to be strict changes**: nothing but what becomes of files that do not
parse, in whatever order the files are taken.  The sources among what a walk finds are taken in
the order of their paths, unless the walk fails, and then both runs fail alike. -/
theorem analyze_strictness (a : Analyzer) :
    (∀ files, a.DiffersByStrictness files
      (a.strictly.analyzeFiles files) (a.leniently.analyzeFiles files)) ∧
    ∀ (walk : Walk) (s : Surroundings),
      (∃ e, a.strictly.analyze s walk = .error (.discovery e) ∧
        a.leniently.analyze s walk = .error (.discovery e)) ∨
      ∃ found files, walk s a.config.analyzer.respectGitignore a.root = .ok found ∧
        a.Takes s found files ∧
        a.DiffersByStrictness files (a.strictly.analyze s walk) (a.leniently.analyze s walk) := by
  refine ⟨strictness_analyzeFiles a, fun walk s => ?_⟩
  -- being strict has no part in finding the files
  cases hfound : walk s a.config.analyzer.respectGitignore a.root with
  | error e =>
    exact .inl ⟨e, analyze_of_walk_error hfound, analyze_of_walk_error hfound⟩
  | ok found =>
    have hstrict : a.strictly.analyze s walk = _ := analyze_of_walk hfound
    have hlenient : a.leniently.analyze s walk = _ := analyze_of_walk hfound
    rw [hstrict, hlenient]
    exact .inr ⟨found, _, rfl, takes_select a s found, strictness_analyzeFiles a _⟩

end Analyzer

/-- A file that parses. -/
def soundFile : SourceFile := ⟨"/a.bsl".toList, .ok "A = New Mail;".toList⟩

/-- A file that does not parse. -/
def brokenFile : SourceFile := ⟨"/b.bsl".toList, .ok "If".toList⟩

/-- A file that cannot be read. -/
def lockedFile : SourceFile := ⟨"/c.bsl".toList, .error "Permission denied (os error 13)"⟩

open Analyzer in
/-- A file that does not parse is skipped or ends the run, and comes before one that cannot be
read. -/
theorem analyze_strictness_brokenFile :
    (∃ r e, objectAnalyzer.leniently.analyzeFiles [soundFile, brokenFile] = .ok r ∧
      r.filesSkipped = ["b.bsl"] ∧
      objectAnalyzer.strictly.analyzeFiles [soundFile, brokenFile] =
        .error (.parse brokenFile.path e)) ∧
    objectAnalyzer.leniently.analyzeFiles [brokenFile, lockedFile] =
      .error (.read lockedFile.path "Permission denied (os error 13)") ∧
    ∃ e, objectAnalyzer.strictly.analyzeFiles [brokenFile, lockedFile] =
      .error (.parse brokenFile.path e) := by
  obtain ⟨hany, -⟩ := analyze_strictness objectAnalyzer
  have hlocked : objectAnalyzer.leniently.analyzeFiles [brokenFile, lockedFile] =
      .error (.read lockedFile.path "Permission denied (os error 13)") :=
    @analyzeFiles_of_stops?_eq_some objectAnalyzer.leniently lockedFile [brokenFile] [] _
      (fun g hg => by
        rw [List.mem_singleton.mp hg]
        exact stops?_of_readable rfl ⟨_, rfl⟩)
      (stops?_of_error rfl)
  refine ⟨?_, hlocked, ?_⟩
  · have hr := @analyzeFiles_of_stops?_eq_none objectAnalyzer.leniently [soundFile, brokenFile]
      fun file hfile => stops?_of_readable rfl (by
        rcases List.mem_cons.mp hfile with rfl | hfile
        · exact ⟨_, rfl⟩
        · rw [List.mem_singleton.mp hfile]
          exact ⟨_, rfl⟩)
    have hfiles : (objectAnalyzer.leniently.collect [soundFile, brokenFile]).sort.filesSkipped =
        ["b.bsl"] := by
      decide +kernel
    obtain ⟨before, file, behind, e, hsplit, -, -, hreported, -, herror⟩ :=
      (hany _).skipped _ _ _ hr hfiles
    have hmem : file ∈ [soundFile, brokenFile] := hsplit ▸ by simp
    rcases List.mem_cons.mp hmem with rfl | hmem
    · exact absurd hreported (by decide +kernel)
    · rw [List.mem_singleton.mp hmem] at herror
      exact ⟨_, e, hr, hfiles, herror⟩
  · obtain ⟨before, file, behind, hsplit, -, hpath, -, hends⟩ := (hany _).unreadable _ _ hlocked
    have hbefore : before = [brokenFile] := by
      rcases before with - | ⟨first, before⟩
      · obtain ⟨rfl, -⟩ := List.cons.inj hsplit
        exact absurd hpath (by decide)
      · obtain ⟨rfl, hsplit⟩ := List.cons.inj hsplit
        rcases before with - | ⟨second, before⟩
        · rfl
        · simp at hsplit
    rw [hbefore] at hends
    rcases hends with ⟨hparses, -⟩ | ⟨g, e, hfind, -, herror⟩
    · exact absurd (hparses brokenFile List.mem_cons_self) (by decide +kernel)
    · rw [List.mem_singleton.mp (List.mem_of_find?_eq_some hfind)] at herror
      exact ⟨e, herror⟩

end ModuleLint
