/-
ModuleLint/Proofs/Lint/Aggregation.lean

What a run over many files adds up to.  Taking in one file is one step (`add_eq`): the file
stops the run, or it adds its findings and is counted, or it is named among those that were
skipped; a run that is not strict is stopped by a file only if it cannot be read.  So a run over
files ends at the first file that stops it or is the sum of what each file adds
(`foldlM_add_eq`), and its findings are then sorted by their locations, findings at one location
staying in their order.

Main result: `analyze_aggregates`, for files that are handed in, and for the sources among the
paths that a walk finds.  Nothing is asked of the walk or of what patterns cover.
-/
import ModuleLint.Lint.Analysis
import ModuleLint.Proofs.Files.Parts
import ModuleLint.Proofs.Files.PathOrder

namespace ModuleLint

/-! ### Stable sorting -/

section Sorting

variable {α κ : Type} [LinearOrder κ]

/-- **A list is sorted stably**: it has the same elements in the order of their keys, and
those with one key stand in the order in which they stood before. -/
structure SortedStably (key : α → κ) (xs ys : List α) : Prop where
  perm : ys.Perm xs
  ordered : ys.Pairwise fun a b => key a ≤ key b
  stable : ∀ k, ys.filter (fun a => key a = k) = xs.filter (fun a => key a = k)

/-- Elements that are in order already stay as they are when a list is sorted. -/
theorem filter_mergeSort {le : α → α → Bool}
    (htrans : ∀ a b c, le a b = true → le b c = true → le a c = true)
    (htotal : ∀ a b, (le a b || le b a) = true) {p : α → Bool} {xs : List α}
    (hp : (xs.filter p).Pairwise fun a b => le a b = true) :
    (xs.mergeSort le).filter p = xs.filter p := by
  have hsublist := List.sublist_mergeSort htrans htotal hp List.filter_sublist
  have hfiltered := hsublist.filter p
  rw [List.filter_filter] at hfiltered
  simp only [Bool.and_self] at hfiltered
  have hperm := (List.mergeSort_perm xs le).filter p
  exact (hfiltered.eq_of_length_le hperm.length_eq.le).symm

section Keys

variable {key : α → κ} {le : α → α → Bool}

/-- An order by keys is transitive. -/
theorem trans_of_key (hle : ∀ a b, le a b = true ↔ key a ≤ key b) :
    ∀ a b c, le a b = true → le b c = true → le a c = true := by
  intro a b c hab hbc
  rw [hle] at hab hbc ⊢
  exact hab.trans hbc

/-- An order by keys is total. -/
theorem total_of_key (hle : ∀ a b, le a b = true ↔ key a ≤ key b) :
    ∀ a b, (le a b || le b a) = true := by
  intro a b
  rw [Bool.or_eq_true, hle, hle]
  exact le_total _ _

/-- Sorting by keys is stable. -/
theorem sortedStably_mergeSort (hle : ∀ a b, le a b = true ↔ key a ≤ key b) (xs : List α) :
    SortedStably key xs (xs.mergeSort le) := by
  have hordered := List.pairwise_mergeSort (trans_of_key hle) (total_of_key hle) xs
  refine ⟨List.mergeSort_perm xs le, hordered.imp fun h => (hle _ _).mp h, ?_⟩
  intro k
  -- those with one key are in order already
  apply filter_mergeSort (trans_of_key hle) (total_of_key hle)
  refine List.pairwise_of_forall_mem_list ?_
  intro a ha b hb
  rw [hle, of_decide_eq_true (List.mem_filter.mp ha).2, of_decide_eq_true (List.mem_filter.mp hb).2]

end Keys

end Sorting

/-! ### Files -/

namespace SourceFile

variable {file : SourceFile}

/-- **A file can be read.** -/
def Readable (file : SourceFile) : Prop := ∃ source, file.content = .ok source

instance (file : SourceFile) : Decidable file.Readable :=
  match h : file.content with
  | .ok source => isTrue ⟨source, h⟩
  | .error _ => isFalse fun ⟨_, hsource⟩ => by rw [h] at hsource; cases hsource

/-- **The tree of a file**, if it can be read and parsed. -/
def tree? (file : SourceFile) : Option Tree :=
  match file.content with
  | .ok source => (parse source).toOption
  | .error _ => none

theorem tree?_eq_some_iff {t : Tree} :
    file.tree? = some t ↔ ∃ source, file.content = .ok source ∧ parse source = .ok t := by
  rw [tree?]
  cases file.content with
  | error reason => simp
  | ok source =>
    simp only [Except.ok.injEq, exists_eq_left']
    cases parse source with
    | error e => simp [Except.toOption]
    | ok t => simp [Except.toOption]

/-- Whether a file can be read and parsed. -/
def parses (file : SourceFile) : Bool := file.tree?.isSome

theorem parses_of_tree? {t : Tree} (h : file.tree? = some t) : file.parses = true := by
  rw [parses, h]
  rfl

/-- **A file does not parse**: it can be read, and its text has an error. -/
def FailsWith (file : SourceFile) (e : SourceError) : Prop :=
  ∃ source, file.content = .ok source ∧ parse source = .error e

theorem tree?_of_content {source : List Char} (h : file.content = .ok source) :
    file.tree? = (parse source).toOption := by
  rw [tree?, h]

/-- A file that can be read parses, or has an error. -/
theorem Readable.parses_or_failsWith (h : file.Readable) :
    file.parses = true ∨ ∃ e, file.FailsWith e := by
  obtain ⟨source, hcontent⟩ := h
  cases hparse : parse source with
  | error e => exact .inr ⟨e, source, hcontent, hparse⟩
  | ok t => exact .inl (parses_of_tree? (tree?_eq_some_iff.mpr ⟨source, hcontent, hparse⟩))

/-- A file that parses has been read and has a tree. -/
theorem exists_tree (h : file.parses = true) :
    ∃ source t, file.content = .ok source ∧ parse source = .ok t := by
  obtain ⟨t, ht⟩ := Option.isSome_iff_exists.mp h
  obtain ⟨source, hcontent, hparse⟩ := tree?_eq_some_iff.mp ht
  exact ⟨source, t, hcontent, hparse⟩

end SourceFile

/-- What two runs report, the files of the second one behind those of the first. -/
instance : Append LintResult where
  append r s := ⟨r.findings ++ s.findings, r.filesChecked + s.filesChecked,
    r.filesSkipped ++ s.filesSkipped⟩

theorem LintResult.append_assoc (q r s : LintResult) : q ++ r ++ s = q ++ (r ++ s) := by
  show (⟨q.findings ++ r.findings ++ s.findings, q.filesChecked + r.filesChecked + s.filesChecked,
    q.filesSkipped ++ r.filesSkipped ++ s.filesSkipped⟩ : LintResult) = _
  rw [List.append_assoc, Nat.add_assoc, List.append_assoc]
  rfl

namespace Analyzer

variable {a : Analyzer} {file : SourceFile} {files : List SourceFile} {r : LintResult}

/-- What an analyzer is built with. -/
theorem of_build {s : Surroundings} {root : Option String} {rules : List Rule}
    {exclude : List String} {config : Config} {strict : Bool} {patterns : PatternReader}
    (h : build s root rules exclude config strict patterns = .ok a) :
    a.root = s.absolute (root.getD config.analyzer.root).toList ∧ a.rules = rules ∧
      a.config = config ∧ a.strict = strict := by
  unfold build at h
  cases hexcluded : (exclude ++ config.analyzer.exclude).mapM fun p => patterns p.toList with
  | error e =>
    rw [hexcluded] at h
    cases h
  | ok excluded =>
    rw [hexcluded] at h
    cases h
    exact ⟨rfl, rfl, rfl, rfl⟩

/-- A finding of a rule with its minutes, and with the severity that is set for the rule. -/
def adjusted (a : Analyzer) (rule : Rule) (f : Finding) : Finding :=
  { f with
    severity := (a.config.severityOf rule.name).getD f.severity
    minutesToFix := some rule.minutes }

/-- **What is found in a file**: rule by rule, for the rules that are enabled and cover it. -/
def findingsIn (a : Analyzer) (file : SourceFile) : List Finding :=
  match file.tree? with
  | none => []
  | some t =>
    (a.rules.filter fun rule => a.config.isEnabled rule.name &&
      rule.scope.covers (a.context file.path).dialect).flatMap fun rule =>
        (rule.check (a.context file.path) t).map (a.adjusted rule)

theorem findingsIn_of_tree? {t : Tree} (h : file.tree? = some t) :
    a.findingsIn file = a.analyzeTree file.path t := by
  rw [findingsIn, h]
  rfl

theorem mem_findingsIn_iff {f : Finding} :
    f ∈ a.findingsIn file ↔ ∃ t, file.tree? = some t ∧ ∃ rule ∈ a.rules,
      a.config.isEnabled rule.name = true ∧
        rule.scope.covers (a.context file.path).dialect = true ∧
          ∃ g ∈ rule.check (a.context file.path) t, a.adjusted rule g = f := by
  unfold findingsIn
  cases file.tree? with
  | none => simp
  | some t => simp [and_assoc]

/-- **What files add up to**, before the findings are sorted. -/
def collect (a : Analyzer) (files : List SourceFile) : LintResult :=
  ⟨files.flatMap a.findingsIn, files.countP SourceFile.parses,
    (files.filter fun file => !file.parses).map fun file => a.reported file.path⟩

theorem collect_append (files more : List SourceFile) :
    a.collect (files ++ more) = a.collect files ++ a.collect more := by
  show (⟨_, _, _⟩ : LintResult) = ⟨_, _, _⟩
  rw [List.flatMap_append, List.countP_append, List.filter_append, List.map_append]
  rfl

/-- A file that parses adds its findings and is counted. -/
theorem append_collect_of_parsed {t : Tree} (h : file.tree? = some t) :
    r ++ a.collect [file] = { r with
      findings := r.findings ++ a.findingsIn file, filesChecked := r.filesChecked + 1 } := by
  show (⟨_, _, _⟩ : LintResult) = ⟨_, _, _⟩
  simp [collect, SourceFile.parses, h]

/-- A file that does not parse is named, and adds nothing else. -/
theorem append_collect_of_unparsed (h : file.tree? = none) :
    r ++ a.collect [file] =
      { r with filesSkipped := r.filesSkipped ++ [a.reported file.path] } := by
  show (⟨_, _, _⟩ : LintResult) = ⟨_, _, _⟩
  simp [collect, findingsIn, SourceFile.parses, h]

/-! ### The file at which a run ends -/

/-- **The error with which a file stops a run**, if it does. -/
def stops? (a : Analyzer) (file : SourceFile) : Option AnalysisError :=
  match a.outcome file with
  | .checked _ => none
  | .unparsable e => if a.strict then some (.parse file.path e) else none
  | .unreadable reason => some (.read file.path reason)

theorem stops?_of_error {reason : String} (h : file.content = .error reason) :
    a.stops? file = some (.read file.path reason) := by
  rw [stops?, outcome, h]

theorem stops?_of_failsWith {e : SourceError} (h : file.FailsWith e) :
    a.stops? file = if a.strict then some (.parse file.path e) else none := by
  obtain ⟨source, hcontent, hparse⟩ := h
  rw [stops?, outcome, hcontent]
  simp [analyzeSource, hparse, Except.map]

theorem stops?_of_parses (h : file.parses = true) : a.stops? file = none := by
  obtain ⟨source, t, hcontent, hparse⟩ := SourceFile.exists_tree h
  rw [stops?, outcome, hcontent]
  simp [analyzeSource, hparse, Except.map]

/-- A run that is not strict is stopped by a file only if it cannot be read. -/
theorem stops?_of_readable (hstrict : a.strict = false) (h : file.Readable) :
    a.stops? file = none := by
  obtain hparses | ⟨e, he⟩ := h.parses_or_failsWith
  · exact stops?_of_parses hparses
  · rw [stops?_of_failsWith he, hstrict]
    rfl

theorem readable_of_stops? (h : a.stops? file = none) : file.Readable := by
  cases hcontent : file.content with
  | error reason =>
    rw [stops?_of_error hcontent] at h
    cases h
  | ok source => exact ⟨source, hcontent⟩

/-- **Taking in one file** adds what it holds, unless the file stops the run. -/
theorem add_eq (a : Analyzer) (r : LintResult) (file : SourceFile) :
    a.add r file = match a.stops? file with
      | some e => .error e
      | none => .ok (r ++ a.collect [file]) := by
  cases hcontent : file.content with
  | error reason => rw [stops?_of_error hcontent, add, outcome, hcontent]
  | ok source =>
    have htree := SourceFile.tree?_of_content hcontent
    cases hparse : parse source with
    | error e =>
      rw [hparse] at htree
      rw [stops?_of_failsWith ⟨source, hcontent, hparse⟩, append_collect_of_unparsed htree, add,
        outcome, hcontent]
      cases a.strict <;> simp [analyzeSource, hparse, Except.map]
    | ok t =>
      rw [hparse] at htree
      rw [stops?_of_parses (SourceFile.parses_of_tree? htree), append_collect_of_parsed htree,
        findingsIn_of_tree? htree, add, outcome, hcontent]
      simp [analyzeSource, hparse, Except.map]

/-- **A run ends at the first file that stops it**, or is the sum of its files. -/
theorem foldlM_add_eq (a : Analyzer) (files : List SourceFile) (r : LintResult) :
    files.foldlM a.add r = match files.findSome? a.stops? with
      | some e => .error e
      | none => .ok (r ++ a.collect files) := by
  induction files generalizing r with
  | nil =>
    show Except.ok r = Except.ok (⟨r.findings ++ [], r.filesChecked + 0, r.filesSkipped ++ []⟩)
    simp
  | cons file files ih =>
    rw [List.foldlM_cons, List.findSome?_cons, add_eq]
    cases a.stops? file with
    | some e => rfl
    | none =>
      have hcollect : a.collect (file :: files) = a.collect [file] ++ a.collect files :=
        collect_append [file] files
      rw [hcollect, ← LintResult.append_assoc]
      exact ih _

theorem analyzeFiles_eq (a : Analyzer) (files : List SourceFile) :
    a.analyzeFiles files = match files.findSome? a.stops? with
      | some e => .error e
      | none => .ok (a.collect files).sort := by
  have hempty : LintResult.empty ++ a.collect files = a.collect files := by
    show (⟨_, _, _⟩ : LintResult) = ⟨_, _, _⟩
    simp [LintResult.empty, collect]
  rw [analyzeFiles, foldlM_add_eq, hempty]
  cases files.findSome? a.stops? <;> rfl

/-- The results of a run, if no file stops it. -/
theorem analyzeFiles_of_stops?_eq_none (h : ∀ file ∈ files, a.stops? file = none) :
    a.analyzeFiles files = .ok (a.collect files).sort := by
  rw [analyzeFiles_eq, List.findSome?_eq_none_iff.mpr h]

/-- A run that returns is stopped by no file. -/
theorem analyzeFiles_eq_ok (h : a.analyzeFiles files = .ok r) :
    (∀ file ∈ files, a.stops? file = none) ∧ r = (a.collect files).sort := by
  rw [analyzeFiles_eq] at h
  cases hstops : files.findSome? a.stops? with
  | some e =>
    rw [hstops] at h
    cases h
  | none =>
    rw [hstops] at h
    exact ⟨List.findSome?_eq_none_iff.mp hstops, (Except.ok.inj h).symm⟩

/-- **What a run returns** comes from its files. -/
theorem mem_analyzeFiles_iff (hrun : a.analyzeFiles files = .ok r) :
    (∀ f, f ∈ r.findings ↔ ∃ file ∈ files, f ∈ a.findingsIn file) ∧
      ∀ reported, reported ∈ r.filesSkipped ↔
        ∃ file ∈ files, file.parses = false ∧ a.reported file.path = reported := by
  obtain ⟨-, rfl⟩ := analyzeFiles_eq_ok hrun
  constructor
  · intro f
    show f ∈ List.mergeSort _ _ ↔ _
    rw [List.mem_mergeSort]
    show f ∈ List.flatMap _ _ ↔ _
    rw [List.mem_flatMap]
  · intro reported
    show reported ∈ List.map _ (List.filter _ _) ↔ _
    simp only [List.mem_map, List.mem_filter, Bool.not_eq_true', and_assoc]

/-- A run that is not strict returns if all files can be read. -/
theorem analyzeFiles_eq_ok_iff (hstrict : a.strict = false) :
    a.analyzeFiles files = .ok r ↔
      (∀ file ∈ files, file.Readable) ∧ r = (a.collect files).sort := by
  constructor
  · intro h
    obtain ⟨hnone, hr⟩ := analyzeFiles_eq_ok h
    exact ⟨fun file hfile => readable_of_stops? (hnone file hfile), hr⟩
  · rintro ⟨hread, rfl⟩
    exact analyzeFiles_of_stops?_eq_none fun file hfile =>
      stops?_of_readable hstrict (hread file hfile)

/-! ### Aggregates -/

/-- **A result is what files add up to.** -/
structure Aggregates (a : Analyzer) (files : List SourceFile) (r : LintResult) : Prop where
  /-- Every file is checked or skipped. -/
  counted : r.filesChecked + r.filesSkipped.length = files.length
  /-- Skipped are those that do not parse, in the order of the files, each told by its path
  relative to the root. -/
  skipped : List.Forall₂ (fun file told => Path.RelativeTo a.root file.path told.toList)
    (files.filter fun file => !file.parses) r.filesSkipped
  /-- The findings are those in the files, sorted by file, line and column. -/
  findings : SortedStably (fun f => f.location.key) (files.flatMap a.findingsIn) r.findings
  /-- Without a file that does not parse, the other files are judged as they are with it. -/
  independent : ∀ before file behind, files = before ++ file :: behind → file.parses = false →
    ∃ r', a.analyzeFiles (before ++ behind) = .ok r' ∧ r'.findings = r.findings ∧
      r'.filesChecked = r.filesChecked

/-- Every file is counted once. -/
theorem counted_collect (a : Analyzer) (files : List SourceFile) :
    (a.collect files).filesChecked + (a.collect files).filesSkipped.length = files.length := by
  show files.countP SourceFile.parses + (List.map _ (files.filter _)).length = _
  rw [List.length_map, ← List.countP_eq_length_filter,
    List.length_eq_countP_add_countP SourceFile.parses]
  simp

/-- A path is reported relative to the root. -/
theorem relativeTo_reported (a : Analyzer) (path : Path.Text) :
    Path.RelativeTo a.root path (a.reported path).toList := by
  rw [reported, String.toList_ofList]
  exact Path.relativeTo_relative _ _

/-- A file that is skipped is told by its path relative to the root. -/
theorem skipped_collect (a : Analyzer) (files : List SourceFile) :
    List.Forall₂ (fun file told => Path.RelativeTo a.root file.path told.toList)
      (files.filter fun file => !file.parses) (a.collect files).filesSkipped := by
  show List.Forall₂ _ _ (List.map _ (files.filter _))
  rw [List.forall₂_map_right_iff, List.forall₂_same]
  exact fun file _ => relativeTo_reported a file.path

/-- Without a file that does not parse the others add up to the same. -/
theorem collect_of_unparsed {before behind : List SourceFile} (h : file.parses = false) :
    (a.collect (before ++ file :: behind)).findings = (a.collect (before ++ behind)).findings ∧
      (a.collect (before ++ file :: behind)).filesChecked =
        (a.collect (before ++ behind)).filesChecked := by
  have hnone : file.tree? = none := by simpa [SourceFile.parses] using h
  have hfindings : a.findingsIn file = [] := by
    rw [findingsIn, hnone]
  constructor
  · show (before ++ file :: behind).flatMap _ = (before ++ behind).flatMap _
    rw [List.flatMap_append, List.flatMap_cons, hfindings, List.nil_append, List.flatMap_append]
  · show (before ++ file :: behind).countP _ = (before ++ behind).countP _
    rw [List.countP_append, List.countP_cons_of_neg (by simp [h]), List.countP_append]

/-- What the files add up to, sorted, is an aggregate of them. -/
theorem aggregates_collect (hstrict : a.strict = false) (hread : ∀ file ∈ files, file.Readable) :
    a.Aggregates files (a.collect files).sort where
  counted := counted_collect a files
  skipped := skipped_collect a files
  findings := by
    show SortedStably _ _ (List.mergeSort _ fun f g : Finding => f.location.le g.location)
    apply sortedStably_mergeSort
    intro f g
    exact Location.le_iff
  independent := by
    intro before file behind hsplit hparses
    rw [hsplit] at hread ⊢
    have hothers : ∀ other ∈ before ++ behind, other.Readable := by
      intro other hother
      apply hread
      rw [List.mem_append] at hother
      rw [List.mem_append, List.mem_cons]
      exact hother.imp_right .inr
    obtain ⟨hfindings, hchecked⟩ := @collect_of_unparsed a file before behind hparses
    refine ⟨_, (analyzeFiles_eq_ok_iff hstrict).mpr ⟨hothers, rfl⟩, ?_, ?_⟩
    · show List.mergeSort _ _ = List.mergeSort _ _
      rw [hfindings]
    · exact hchecked.symm

/-! ### Discovered files -/

/-- **The sources that are analyzed**, of all files that are found: those in some dialect
that no pattern excludes. -/
def discovered (a : Analyzer) (found : List Path.Text) : List Path.Text :=
  found.filter fun path => (Dialect.ofPath? path).isSome && !a.excludes path

/-- **The files that a run takes in**, of all files that are found: those that are discovered,
loaded and in the order of their paths. -/
structure Takes (a : Analyzer) (s : Surroundings) (found : List Path.Text)
    (files : List SourceFile) : Prop where
  discovered : (files.map SourceFile.path).Perm (a.discovered found)
  loaded : ∀ file ∈ files, file = load s file.path
  ordered : files.Pairwise fun f g => Path.key f.path ≤ Path.key g.path

/-- Sources are taken in the order of their paths. -/
theorem sortedStably_sources (found : List Path.Text) :
    SortedStably Path.key (found.filter fun path => (Dialect.ofPath? path).isSome)
      (sources found) := by
  apply sortedStably_mergeSort
  intro p q
  exact Path.partsLe_iff

/-- The paths that are analyzed are those that are discovered. -/
theorem perm_select (a : Analyzer) (s : Surroundings) (found : List Path.Text) :
    ((a.select s (sources found)).map SourceFile.path).Perm (a.discovered found) := by
  have hpath : (a.select s (sources found)).map SourceFile.path =
      (sources found).filter fun path => !a.excludes path := by
    rw [select, List.map_map]
    exact List.map_id' _
  rw [hpath, Analyzer.discovered]
  refine ((sortedStably_sources found).perm.filter _).trans (List.Perm.of_eq ?_)
  rw [List.filter_filter]
  congr 1
  funext path
  exact Bool.and_comm _ _

/-- A file that is analyzed is loaded from a path that is discovered. -/
theorem mem_select_iff {s : Surroundings} {found : List Path.Text} :
    file ∈ a.select s (sources found) ↔
      file.path ∈ a.discovered found ∧ file = load s file.path := by
  have hload : ∀ file ∈ a.select s (sources found), file = load s file.path := by
    intro file h
    obtain ⟨path, -, rfl⟩ := List.mem_map.mp h
    rfl
  rw [← (perm_select a s found).mem_iff]
  constructor
  · intro h
    exact ⟨List.mem_map_of_mem h, hload file h⟩
  · rintro ⟨hpath, hfile⟩
    obtain ⟨other, hother, hsame⟩ := List.mem_map.mp hpath
    rw [hfile, ← hsame, ← hload other hother]
    exact hother

theorem takes_select (a : Analyzer) (s : Surroundings) (found : List Path.Text) :
    a.Takes s found (a.select s (sources found)) where
  discovered := perm_select a s found
  loaded := fun _ hfile => (mem_select_iff.mp hfile).2
  ordered := List.pairwise_map.mpr ((sortedStably_sources found).ordered.filter _)

section Found

variable {s : Surroundings} {walk : Walk} {found : List Path.Text}

/-- A run over what a walk finds is one over the files that it takes in. -/
theorem analyze_of_walk (h : walk s a.config.analyzer.respectGitignore a.root = .ok found) :
    a.analyze s walk = a.analyzeFiles (a.select s (sources found)) := by
  rw [analyze, candidates, h]
  rfl

/-- A run fails if the walk does. -/
theorem analyze_of_walk_error {e : DiscoveryError}
    (h : walk s a.config.analyzer.respectGitignore a.root = .error e) :
    a.analyze s walk = .error (.discovery e) := by
  rw [analyze, candidates, h]
  rfl

end Found

/-- **Aggregation loses and duplicates nothing.**  A run that is not strict, over files that can
all be read, succeeds, and its result is what the files add up to.  Of the paths that a walk
finds, the sources are taken in, in the order of their paths. -/
theorem analyze_aggregates (hstrict : a.strict = false) :
    (∀ files : List SourceFile, (∀ file ∈ files, file.Readable) →
      ∃ r, a.analyzeFiles files = .ok r ∧ a.Aggregates files r) ∧
    ∀ (walk : Walk) (s : Surroundings) (found : List Path.Text),
      walk s a.config.analyzer.respectGitignore a.root = .ok found →
      (∀ path ∈ a.discovered found, (load s path).Readable) →
        ∃ files r, a.Takes s found files ∧ a.analyze s walk = .ok r ∧ a.Aggregates files r := by
  have hfiles : ∀ files : List SourceFile, (∀ file ∈ files, file.Readable) →
      ∃ r, a.analyzeFiles files = .ok r ∧ a.Aggregates files r := fun files hread =>
    ⟨_, (analyzeFiles_eq_ok_iff hstrict).mpr ⟨hread, rfl⟩, aggregates_collect hstrict hread⟩
  refine ⟨hfiles, ?_⟩
  intro walk s found hfound hread
  have hreadable : ∀ file ∈ a.select s (sources found), file.Readable := by
    intro file hfile
    obtain ⟨hpath, hload⟩ := mem_select_iff.mp hfile
    rw [hload]
    exact hread _ hpath
  obtain ⟨r, hr, haggregates⟩ := hfiles _ hreadable
  exact ⟨_, r, takes_select a s found, (analyze_of_walk hfound).trans hr, haggregates⟩

end Analyzer

/-- A directory with a module that parses, and one that does not and comes before it. -/
def twoModules : Surroundings :=
  ⟨.directory [("b.bsl".toList, .file "A = New Mail;".toUTF8),
    ("a.bsl".toList, .file "If".toUTF8)], "/".toList, []⟩

/-- An analyzer whose rule reports every object that is made. -/
def objectAnalyzer : Analyzer :=
  { root := "/".toList, rules := [Rule.ofKind "T1" "objects" .newExpression .info], exclude := []
    config := {} }

/-- What there is in the directory. -/
def foundModules : List Path.Text := ["/b.bsl".toList, "/a.bsl".toList]

theorem filesBelow_twoModules : twoModules.filesBelow true "/".toList = .ok foundModules := by
  have hfound : (twoModules.filesBelow true "/".toList).toOption = some foundModules := by
    decide +kernel
  cases hresult : twoModules.filesBelow true "/".toList with
  | error e =>
    rw [hresult] at hfound
    cases hfound
  | ok found =>
    rw [hresult] at hfound
    exact congrArg Except.ok (Option.some.inj hfound)

open Analyzer in
theorem analyze_aggregates_twoModules : objectAnalyzer.strict = false ∧
    twoModules.filesBelow true objectAnalyzer.root = .ok foundModules ∧
    objectAnalyzer.discovered foundModules = foundModules ∧
    (∀ path ∈ objectAnalyzer.discovered foundModules, (load twoModules path).Readable) ∧
    foundModules.map (fun path => (load twoModules path).parses) = [true, false] ∧
    (∃ r, objectAnalyzer.analyzeFiles (foundModules.map (load twoModules)) = .ok r ∧
      r.filesSkipped = ["a.bsl"] ∧
      objectAnalyzer.Aggregates (foundModules.map (load twoModules)) r) ∧
    ∃ files r, objectAnalyzer.Takes twoModules foundModules files ∧
      objectAnalyzer.analyze twoModules Surroundings.filesBelow = .ok r ∧
      objectAnalyzer.Aggregates files r := by
  have hread : ∀ path ∈ objectAnalyzer.discovered foundModules,
      (load twoModules path).Readable := by
    decide +kernel
  have hfiles : ∀ file ∈ foundModules.map (load twoModules), file.Readable := by
    decide +kernel
  obtain ⟨hany, hfound⟩ := @analyze_aggregates objectAnalyzer rfl
  obtain ⟨r, hr, haggregates⟩ := hany _ hfiles
  have hskipped : (objectAnalyzer.analyzeFiles (foundModules.map (load twoModules))).toOption.map
      LintResult.filesSkipped = some ["a.bsl"] := by
    decide +kernel
  rw [hr] at hskipped
  exact ⟨rfl, filesBelow_twoModules, by decide +kernel, hread, by decide +kernel,
    ⟨r, hr, Option.some.inj hskipped, haggregates⟩,
    hfound _ _ _ filesBelow_twoModules hread⟩

end ModuleLint
