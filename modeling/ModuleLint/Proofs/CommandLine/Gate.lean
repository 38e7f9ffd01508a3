/-
ModuleLint/Proofs/CommandLine/Gate.lean

When a check stops a build.  The result of an analyzer reaches the threshold if and only if the
rule is run and some module that parses has an expression that offends gravely enough:
`UnixObject.Graded` says how grave an offence is in the end, and `Gate` puts together what
decides.  It asks nothing of the files but which trees of modules there are; so files that
cannot be parsed, and scripts in the other dialect, decide nothing.

The files may be any (`reaches_iff_gate`).  A check is given the tools that find them, read its
patterns and read its configuration; nothing is asked of these, and the exit code is told by
the gate whatever they return (`Completes.reaches_iff`).

Main result: `check_gate`.
-/
import ModuleLint.CommandLine.Run
import ModuleLint.Proofs.Lint.Aggregation
import ModuleLint.Proofs.Lint.Invariance
import ModuleLint.Proofs.Tree.WellFormed

namespace ModuleLint

/-! ### The order of severities -/

namespace Severity

theorem rank_injective : Function.Injective rank := by
  intro a b h
  cases a <;> cases b <;> first | rfl | cases h

/-- Severities in their order, the least grave first. -/
instance : LinearOrder Severity := LinearOrder.lift' rank rank_injective

theorem info_lt_warning : info < warning := by decide

theorem warning_lt_error : warning < error := by decide

/-- **To reach a severity is to be at least as grave.** -/
theorem reaches_iff {a b : Severity} : a.reaches b = true ↔ b ≤ a := iff_of_eq Nat.ble_eq

end Severity

/-! ### How grave an offence is -/

namespace UnixObject

/-- **How grave an offence is in the end**: as the configuration sets it, and else an error
where nothing allows it, a warning where it is allowed without a reason. -/
inductive Graded (c : Config) (t : Tree) (id : Nat) : Severity → Prop
  | denied (hallow : allowanceAt t (t.span id).line name.toList = .denied) :
    Graded c t id ((c.severityOf name).getD .error)
  | unexplained (hallow : allowanceAt t (t.span id).line name.toList = .allowed none) :
    Graded c t id ((c.severityOf name).getD .warning)

variable {c : Config} {r : UnixObject} {file : FileContext} {t : Tree} {id : Nat}
  {source : List Char} {content : List Derivation} {threshold : Severity}

/-- The rule reports errors, whatever the configuration. -/
theorem severity_configured (c : Config) : (configured c).severity = .error := by
  unfold configured
  cases c.rule? name with
  | none => rfl
  | some settings => rfl

/-- All nodes are met. -/
theorem mem_descendants_root (h : t.Derived source content) (hid : id < t.size) :
    id ∈ t.descendants Tree.root :=
  h.wellFormed.descendants_perm.mem_iff.mpr (List.mem_range.mpr hid)

/-- **A finding is what is reported of an offence.** -/
theorem mem_check_iff (h : t.Derived source content) {f : Finding} :
    f ∈ check r file t ↔
      ∃ id typeName, Offends r t id typeName ∧ f ∈ report r file t id typeName := by
  rw [check_eq_flatMap h, List.mem_flatMap]
  constructor
  · rintro ⟨id, -, hf⟩
    rw [verdict_eq] at hf
    cases hname : offence? r t id with
    | none =>
      rw [hname] at hf
      cases hf
    | some typeName =>
      rw [hname] at hf
      exact ⟨id, typeName, (offence?_eq_some_iff h).mp hname, hf⟩
  · rintro ⟨id, typeName, hoffends, hf⟩
    refine ⟨id, mem_descendants_root h (Tree.lt_size_of_kind? hoffends.isNew), ?_⟩
    rw [verdict_of_offends h hoffends]
    exact hf

theorem graded_iff {severity : Severity} : Graded c t id severity ↔
    allowanceAt t (t.span id).line name.toList = .denied ∧
        severity = (c.severityOf name).getD .error ∨
      allowanceAt t (t.span id).line name.toList = .allowed none ∧
        severity = (c.severityOf name).getD .warning := by
  constructor
  · rintro (hallow | hallow)
    · exact .inl ⟨hallow, rfl⟩
    · exact .inr ⟨hallow, rfl⟩
  · rintro (⟨hallow, rfl⟩ | ⟨hallow, rfl⟩)
    · exact .denied hallow
    · exact .unexplained hallow

/-- **What is reported of an offence is as grave as the offence.** -/
theorem exists_report_iff {typeName : List Char} :
    (∃ f ∈ report (configured c) file t id typeName,
      threshold ≤ (c.severityOf name).getD f.severity) ↔
      ∃ severity, Graded c t id severity ∧ threshold ≤ severity := by
  cases hallow : allowanceAt t (t.span id).line name.toList with
  | denied =>
    have hgrave : (denial (configured c) file t id typeName).severity = .error :=
      severity_configured c
    rw [report_of_denied hallow]
    simp [graded_iff, hallow, hgrave]
  | allowed reason =>
    cases reason with
    | none =>
      have hgrave : (reminder file t id).severity = .warning := rfl
      rw [report_of_no_reason hallow (severity_configured c)]
      simp [graded_iff, hallow, hgrave]
    | some reason =>
      -- nothing is reported, and the offence has no grade
      rw [report_of_reason hallow]
      simp [graded_iff, hallow]

end UnixObject

/-! ### Results -/

theorem LintResult.reaches_iff {r : LintResult} {threshold : Severity} :
    r.reaches threshold = true ↔ ∃ f ∈ r.findings, threshold ≤ f.severity := by
  simp only [reaches, List.any_eq_true, Severity.reaches_iff]

/-! ### Runs of a check -/

namespace Check

/-- **A filter selects the rule**: there is none, or it holds the name or the code of the rule
between two commas. -/
def Selects (filter : Option String) : Prop :=
  ∀ text, filter = some text → ∃ piece ∈ text.toList.splitOn ',',
    trim piece = UnixObject.name.toList ∨ trim piece = UnixObject.code.toList

theorem mem_wanted_iff {text w : String} :
    w ∈ wanted text ↔ w ≠ "" ∧ ∃ piece ∈ text.toList.splitOn ',', trim piece = w.toList := by
  have hname : ∀ name : List Char,
      (if name.isEmpty then none else some (String.ofList name)) = some w ↔
        w ≠ "" ∧ name = w.toList := by
    intro name
    cases name with
    | nil =>
      refine iff_of_false (by simp) ?_
      rintro ⟨hw, hnil⟩
      exact hw (String.toList_eq_nil_iff.mp hnil.symm)
    | cons d name =>
      rw [List.isEmpty_cons, if_neg Bool.false_ne_true, Option.some.injEq]
      constructor
      · rintro rfl
        rw [String.toList_ofList]
        refine ⟨fun hw => ?_, rfl⟩
        rw [← String.toList_eq_nil_iff, String.toList_ofList] at hw
        cases hw
      · rintro ⟨-, hw⟩
        rw [hw, String.ofList_toList]
  rw [wanted, List.mem_filterMap]
  constructor
  · rintro ⟨name, hmem, hw⟩
    obtain ⟨piece, hpiece, rfl⟩ := List.mem_map.mp hmem
    exact ⟨((hname _).mp hw).1, piece, hpiece, ((hname _).mp hw).2⟩
  · rintro ⟨hw, piece, hpiece, htrim⟩
    exact ⟨trim piece, List.mem_map_of_mem hpiece, (hname _).mpr ⟨hw, htrim⟩⟩

/-- The rule is run on demand. -/
theorem mem_selected_iff {c : Config} {filter : Option String} {rule : Rule} :
    rule ∈ selected (Rule.configured c) filter ↔
      rule = (UnixObject.configured c).rule ∧ Selects filter := by
  cases filter with
  | none => simp [selected, Rule.configured, Selects]
  | some text =>
    have hcalled : (wanted text).any (UnixObject.configured c).rule.isCalled = true ↔
        Selects (some text) := by
      have hname : UnixObject.name ≠ "" := by decide
      have hcode : UnixObject.code ≠ "" := by decide
      simp only [List.any_eq_true, mem_wanted_iff, Rule.isCalled, Bool.or_eq_true, beq_iff_eq]
      constructor
      · rintro ⟨w, ⟨-, piece, hpiece, htrim⟩, hcalled⟩ other hother
        cases hother
        refine ⟨piece, hpiece, hcalled.imp (fun h => ?_) fun h => ?_⟩
        · rw [htrim, ← h]
          rfl
        · rw [htrim, ← h]
          rfl
      · intro h
        obtain ⟨piece, hpiece, htrim | htrim⟩ := h text rfl
        · exact ⟨UnixObject.name, ⟨hname, piece, hpiece, htrim⟩, .inl rfl⟩
        · exact ⟨UnixObject.code, ⟨hcode, piece, hpiece, htrim⟩, .inr rfl⟩
    rw [selected, Rule.configured, List.mem_filter, List.mem_singleton]
    constructor
    · rintro ⟨rfl, h⟩
      exact ⟨rfl, hcalled.mp h⟩
    · rintro ⟨rfl, h⟩
      exact ⟨rfl, hcalled.mpr h⟩

/-- **A file is a module** with a tree: it parses, and its name does not make it a script in the
other dialect. -/
structure IsModule (file : SourceFile) (t : Tree) : Prop where
  dialect : Dialect.ofPath? file.path ≠ some .os
  parsed : ∃ source, file.content = .ok source ∧ parse source = .ok t

/-- The tree of a module among some files. -/
def ModuleAmong (files : List SourceFile) (t : Tree) : Prop := ∃ file ∈ files, IsModule file t

/-- **What stops a build**: the rule is run, and an expression in one of the modules offends
gravely enough. -/
def Gate (c : Config) (filter : Option String) (modules : Tree → Prop) : Prop :=
  c.isEnabled UnixObject.name = true ∧ Selects filter ∧
    ∃ t, modules t ∧ ∃ id typeName, UnixObject.Offends (UnixObject.configured c) t id typeName ∧
      ∃ severity, UnixObject.Graded c t id severity ∧ c.failThreshold ≤ severity

section Files

variable {c : Config} {filter : Option String} {a : Analyzer} {files : List SourceFile}
  {r : LintResult}

/-- The rule covers all files but scripts in the other dialect. -/
theorem covers_iff {path : Path.Text} :
    (UnixObject.configured c).rule.scope.covers (a.context path).dialect = true ↔
      Dialect.ofPath? path ≠ some .os := by
  show (Dialect.bsl == (Dialect.ofPath? path).getD .bsl) = true ↔ _
  cases Dialect.ofPath? path with
  | none => simp
  | some dialect => cases dialect <;> simp

/-- What is found is found by the rule, in a module. -/
theorem mem_findings_iff (hrules : a.rules = selected (Rule.configured c) filter)
    (hconfig : a.config = c) (hrun : a.analyzeFiles files = .ok r) {f : Finding} :
    f ∈ r.findings ↔ c.isEnabled UnixObject.name = true ∧ Selects filter ∧
      ∃ file ∈ files, ∃ t, IsModule file t ∧
        ∃ g ∈ UnixObject.check (UnixObject.configured c) (a.context file.path) t,
          a.adjusted (UnixObject.configured c).rule g = f := by
  rw [(Analyzer.mem_analyzeFiles_iff hrun).1]
  constructor
  · rintro ⟨file, hfile, hf⟩
    obtain ⟨t, htree, rule, hrule, henabled, hscope, g, hg, rfl⟩ :=
      Analyzer.mem_findingsIn_iff.mp hf
    rw [hrules] at hrule
    obtain ⟨rfl, hselects⟩ := mem_selected_iff.mp hrule
    rw [hconfig] at henabled
    exact ⟨henabled, hselects, file, hfile, t,
      ⟨covers_iff.mp hscope, SourceFile.tree?_eq_some_iff.mp htree⟩, g, hg, rfl⟩
  · rintro ⟨henabled, hselects, file, hfile, t, ⟨hdialect, hparsed⟩, g, hg, rfl⟩
    refine ⟨file, hfile, Analyzer.mem_findingsIn_iff.mpr ⟨t,
      SourceFile.tree?_eq_some_iff.mpr hparsed, (UnixObject.configured c).rule, ?_, ?_,
      covers_iff.mpr hdialect, g, hg, rfl⟩⟩
    · rw [hrules]
      exact mem_selected_iff.mpr ⟨rfl, hselects⟩
    · rw [hconfig]
      exact henabled

/-- **A result reaches the threshold where the gate says so.** -/
theorem reaches_iff_gate (hrules : a.rules = selected (Rule.configured c) filter)
    (hconfig : a.config = c) (hrun : a.analyzeFiles files = .ok r) :
    r.reaches c.failThreshold = true ↔ Gate c filter (ModuleAmong files) := by
  have hadjusted : ∀ g, (a.adjusted (UnixObject.configured c).rule g).severity =
      (c.severityOf UnixObject.name).getD g.severity := by
    intro g
    rw [← hconfig]
    rfl
  rw [LintResult.reaches_iff]
  constructor
  · rintro ⟨f, hf, hreaches⟩
    obtain ⟨henabled, hselects, file, hfile, t, hmodule, g, hg, rfl⟩ :=
      (mem_findings_iff hrules hconfig hrun).mp hf
    obtain ⟨source, -, hparse⟩ := hmodule.parsed
    obtain ⟨content, hcontent⟩ := parse_derived hparse
    obtain ⟨id, typeName, hoffends, hreport⟩ := (UnixObject.mem_check_iff hcontent).mp hg
    rw [hadjusted] at hreaches
    exact ⟨henabled, hselects, t, ⟨file, hfile, hmodule⟩, id, typeName, hoffends,
      UnixObject.exists_report_iff.mp ⟨g, hreport, hreaches⟩⟩
  · rintro ⟨henabled, hselects, t, ⟨file, hfile, hmodule⟩, id, typeName, hoffends, hgraded⟩
    obtain ⟨source, -, hparse⟩ := hmodule.parsed
    obtain ⟨content, hcontent⟩ := parse_derived hparse
    obtain ⟨g, hreport, hreaches⟩ := UnixObject.exists_report_iff.mpr hgraded
    have hg := (UnixObject.mem_check_iff hcontent).mpr ⟨id, typeName, hoffends, hreport⟩
    refine ⟨_, (mem_findings_iff hrules hconfig hrun).mpr
      ⟨henabled, hselects, file, hfile, t, hmodule, g, hg, rfl⟩, ?_⟩
    rw [hadjusted]
    exact hreaches

end Files

/-- **A check is carried out**: its configuration is loaded, its analyzer is built, files are
found, and the sources among them are analyzed. -/
structure Completes (k : Toolkit) (s : Surroundings) (config : Option String) (path : String)
    (filter : Option String) (exclude : List String) (c : Config) (a : Analyzer)
    (found : List Path.Text) (r : LintResult) : Prop where
  loaded : (ConfigSource.find s path.toList (config.map String.toList)).load s k.toml = .ok c
  built : Analyzer.build s (some path) (selected (Rule.configured c) filter) exclude c false
    k.patterns = .ok a
  walked : k.walk s a.config.analyzer.respectGitignore a.root = .ok found
  analyzed : a.analyze s k.walk = .ok r

/-- The files that an analyzer discovers among those that are found. -/
def discoveredFiles (a : Analyzer) (s : Surroundings) (found : List Path.Text) :
    List SourceFile :=
  (a.discovered found).map (Analyzer.load s)

variable {k : Toolkit} {s : Surroundings} {config : Option String} {path : String}
  {filter : Option String} {exclude : List String} {c : Config} {a : Analyzer}
  {found : List Path.Text} {r : LintResult}

/-- The exit code of a check that is carried out. -/
theorem Completes.exitCode_eq (h : Completes k s config path filter exclude c a found r)
    (format : OutputFormat) :
    (run k s config path format filter exclude).exitCode =
      if r.reaches c.failThreshold then 1 else 0 := by
  have hconfig : a.config = c := (Analyzer.of_build h.built).2.2.1
  unfold run
  simp only [h.loaded, h.built, finish, h.analyzed, hconfig]

/-- A check that is not carried out fails. -/
theorem completes_or_failed (k : Toolkit) (s : Surroundings) (config : Option String)
    (path : String) (format : OutputFormat) (filter : Option String) (exclude : List String) :
    (∃ c a found r, Completes k s config path filter exclude c a found r) ∨
      ∃ messages errors, run k s config path format filter exclude = .failed messages errors := by
  unfold run
  cases hloaded : (ConfigSource.find s path.toList (config.map String.toList)).load s k.toml with
  | error e =>
    refine .inr ?_
    simp only [hloaded]
    exact ⟨_, _, rfl⟩
  | ok c =>
    cases hbuilt : Analyzer.build s (some path) (selected (Rule.configured c) filter) exclude c
        false k.patterns with
    | error e =>
      refine .inr ?_
      simp only [hloaded, hbuilt]
      exact ⟨_, _, rfl⟩
    | ok a =>
      cases hanalyzed : a.analyze s k.walk with
      | error e =>
        refine .inr ?_
        simp only [hloaded, hbuilt, finish, hanalyzed]
        exact ⟨_, _, rfl⟩
      | ok r =>
        cases hwalked : k.walk s a.config.analyzer.respectGitignore a.root with
        | error e =>
          rw [Analyzer.analyze_of_walk_error hwalked] at hanalyzed
          cases hanalyzed
        | ok found => exact .inl ⟨c, a, found, r, hloaded, hbuilt, hwalked, hanalyzed⟩

/-- The result reaches the threshold where the gate says so of the files that are discovered. -/
theorem Completes.reaches_iff (h : Completes k s config path filter exclude c a found r) :
    r.reaches c.failThreshold = true ↔
      Gate c filter (ModuleAmong (discoveredFiles a s found)) := by
  obtain ⟨-, hrules, hconfig, -⟩ := Analyzer.of_build h.built
  have hrun := h.analyzed
  rw [Analyzer.analyze_of_walk h.walked] at hrun
  -- the order in which the files are taken in decides nothing
  have hsame : ModuleAmong (a.select s (Analyzer.sources found)) =
      ModuleAmong (discoveredFiles a s found) := by
    funext t
    refine propext ⟨?_, ?_⟩
    · rintro ⟨file, hfile, hmodule⟩
      obtain ⟨hpath, hload⟩ := Analyzer.mem_select_iff.mp hfile
      exact ⟨file, List.mem_map.mpr ⟨file.path, hpath, hload.symm⟩, hmodule⟩
    · rintro ⟨file, hfile, hmodule⟩
      obtain ⟨p, hp, rfl⟩ := List.mem_map.mp hfile
      exact ⟨_, Analyzer.mem_select_iff.mpr ⟨hp, rfl⟩, hmodule⟩
  rw [reaches_iff_gate hrules hconfig hrun, hsame]

end Check

open Check in
/-- **What stops a build.**  For whatever files an analyzer with the rules and the settings of a
check is given, its result reaches the threshold if and only if the gate says so.  A check that
is carried out ends with 1 if the gate says so of the files that are discovered and with 0
otherwise; and two checks with the same configuration, the same filter and the same trees of
modules end alike, whatever other files there are and with whatever tools they work. -/
theorem check_gate (c : Config) (filter : Option String) :
    (∀ (a : Analyzer) (files : List SourceFile) (r : LintResult),
      a.rules = selected (Rule.configured c) filter → a.config = c →
      a.analyzeFiles files = .ok r →
        (r.reaches c.failThreshold = true ↔ Gate c filter (ModuleAmong files))) ∧
    ∀ k s config path exclude a found r format,
      Completes k s config path filter exclude c a found r →
        ((run k s config path format filter exclude).exitCode = 1 ↔
          Gate c filter (ModuleAmong (discoveredFiles a s found))) ∧
        ((run k s config path format filter exclude).exitCode = 0 ↔
          ¬ Gate c filter (ModuleAmong (discoveredFiles a s found))) ∧
        ∀ k' s' config' path' exclude' a' found' r' format',
          Completes k' s' config' path' filter exclude' c a' found' r' →
          (∀ t, ModuleAmong (discoveredFiles a s found) t ↔
            ModuleAmong (discoveredFiles a' s' found') t) →
          (run k' s' config' path' format' filter exclude').exitCode =
            (run k s config path format filter exclude).exitCode := by
  refine ⟨fun a files r hrules hconfig hrun => reaches_iff_gate hrules hconfig hrun, ?_⟩
  intro k s config path exclude a found r format h
  have hcode := h.exitCode_eq format
  refine ⟨?_, ?_, ?_⟩
  · rw [hcode, ← h.reaches_iff]
    simp
  · rw [hcode, ← h.reaches_iff]
    simp
  · intro k' s' config' path' exclude' a' found' r' format' h' hmodules
    have hsame : r'.reaches c.failThreshold = r.reaches c.failThreshold := by
      rw [Bool.eq_iff_iff, h.reaches_iff, h'.reaches_iff, funext fun t => propext (hmodules t)]
    rw [hcode, h'.exitCode_eq format', hsame]

/-- The analyzer of a check with the built-in settings. -/
def standardAnalyzer : Analyzer :=
  { root := "/".toList, rules := Rule.configured {}, exclude := [], config := {} }

/-- The same analyzer, which leaves out one of the modules. -/
def sparingAnalyzer : Analyzer :=
  { standardAnalyzer with exclude := [Glob.covers ⟨"b.bsl".toList.map .literal⟩] }

namespace Check

theorem loaded_twoModules :
    (ConfigSource.find twoModules "/".toList none).load twoModules Toml.read? = .ok {} := by
  have hsource : ConfigSource.find twoModules "/".toList none = .builtIn := rfl
  rw [hsource]
  rfl

theorem absolute_twoModules : twoModules.absolute "/".toList = "/".toList := rfl

/-- A check over the two modules is carried out, with whatever patterns. -/
theorem completes_twoModules {exclude : List String} {a : Analyzer}
    (hbuilt : Analyzer.build twoModules (some "/") (selected (Rule.configured {}) none) exclude {}
      false Glob.reader = .ok a)
    (hroot : a.root = "/".toList)
    (hread : ∀ path ∈ a.discovered foundModules, (Analyzer.load twoModules path).Readable) :
    ∃ r, Completes .standard twoModules none "/" none exclude {} a foundModules r := by
  obtain ⟨-, -, hconfig, hstrict⟩ := Analyzer.of_build hbuilt
  have hwalked : twoModules.filesBelow a.config.analyzer.respectGitignore a.root =
      .ok foundModules := by
    rw [hroot, hconfig]
    exact filesBelow_twoModules
  refine ⟨_, loaded_twoModules, hbuilt, hwalked,
    (Analyzer.analyze_of_walk hwalked).trans
      ((Analyzer.analyzeFiles_eq_ok_iff hstrict).mpr ⟨fun file hfile => ?_, rfl⟩)⟩
  obtain ⟨hpath, hload⟩ := Analyzer.mem_select_iff.mp hfile
  rw [hload]
  exact hread _ hpath

/-- One module stops the build. -/
theorem gate_twoModules :
    Gate {} none (ModuleAmong (discoveredFiles standardAnalyzer twoModules foundModules)) := by
  have hread : (Analyzer.load twoModules "/b.bsl".toList).content = .ok "A = New Mail;".toList := by
    decide +kernel
  have hdiscovered : "/b.bsl".toList ∈ standardAnalyzer.discovered foundModules := by
    decide +kernel
  have hoffence : ((parse "A = New Mail;".toList).toOption.map fun t =>
      (UnixObject.offence? .default t 4,
        allowanceAt t (t.span 4).line UnixObject.name.toList)) =
      some (some "Mail".toList, .denied) := by
    decide +kernel
  cases hparse : parse "A = New Mail;".toList with
  | error e =>
    rw [hparse] at hoffence
    cases hoffence
  | ok t =>
    obtain ⟨content, hcontent⟩ := parse_derived hparse
    rw [hparse] at hoffence
    obtain ⟨hname, hallow⟩ := Prod.mk.inj (Option.some.inj hoffence)
    refine ⟨by decide +kernel, nofun, t,
      ⟨Analyzer.load twoModules "/b.bsl".toList, List.mem_map_of_mem hdiscovered, ?_⟩,
      4, "Mail".toList, ?_, ?_⟩
    · exact ⟨by decide +kernel, _, hread, hparse⟩
    · exact (UnixObject.offence?_eq_some_iff hcontent).mp hname
    · exact ⟨_, .denied hallow, le_rfl⟩

/-- Without that module nothing stops it: the other one does not parse. -/
theorem not_gate_twoModules :
    ¬ Gate {} none (ModuleAmong (discoveredFiles sparingAnalyzer twoModules foundModules)) := by
  have hnone : ∀ file ∈ discoveredFiles sparingAnalyzer twoModules foundModules,
      file.parses = false := by
    decide +kernel
  rintro ⟨-, -, t, ⟨file, hfile, hmodule⟩, -⟩
  have hparses : file.parses = true :=
    SourceFile.parses_of_tree? (SourceFile.tree?_eq_some_iff.mpr hmodule.parsed)
  rw [hnone file hfile] at hparses
  cases hparses

end Check

open Check in
/-- A check of two modules stops the build; where a pattern leaves one of them out, it does
not.  The first half is about the files themselves. -/
theorem check_gate_twoModules :
    (∃ r, standardAnalyzer.analyzeFiles
        (discoveredFiles standardAnalyzer twoModules foundModules) = .ok r ∧
      r.reaches .error = true) ∧
    (∃ r, Completes .standard twoModules none "/" none [] {} standardAnalyzer foundModules r ∧
      (run .standard twoModules none "/" .json none []).exitCode = 1) ∧
    ∃ r, Completes .standard twoModules none "/" none ["b.bsl"] {} sparingAnalyzer foundModules r ∧
      (run .standard twoModules none "/" .json none ["b.bsl"]).exitCode = 0 := by
  have hbuilt : Analyzer.build twoModules (some "/") (selected (Rule.configured {}) none) [] {}
      false Glob.reader = .ok standardAnalyzer := by
    unfold Analyzer.build
    rw [Option.getD_some, absolute_twoModules]
    rfl
  have hbuiltSparing : Analyzer.build twoModules (some "/") (selected (Rule.configured {}) none)
      ["b.bsl"] {} false Glob.reader = .ok sparingAnalyzer := by
    unfold Analyzer.build
    rw [Option.getD_some, absolute_twoModules]
    rfl
  have hread : ∀ file ∈ discoveredFiles standardAnalyzer twoModules foundModules,
      file.Readable := by
    decide +kernel
  obtain ⟨hfiles, hruns⟩ := check_gate {} none
  have hrun := (Analyzer.analyzeFiles_eq_ok_iff (show standardAnalyzer.strict = false from rfl)).mpr
    ⟨hread, rfl⟩
  obtain ⟨r, h⟩ := completes_twoModules hbuilt rfl (by decide +kernel)
  obtain ⟨r', h'⟩ := completes_twoModules hbuiltSparing rfl (by decide +kernel)
  exact ⟨⟨_, hrun, (hfiles standardAnalyzer _ _ rfl rfl hrun).mpr gate_twoModules⟩,
    ⟨r, h, (hruns _ _ _ _ _ _ _ _ .json h).1.mpr gate_twoModules⟩,
    r', h', (hruns _ _ _ _ _ _ _ _ .json h').2.1.mpr not_gate_twoModules⟩

end ModuleLint
