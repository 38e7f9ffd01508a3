/-
ModuleLint/Proofs/Lint/SeverityOverride.lean

What it means to set the severity of the rule.  A severity that is set replaces the severity
of every finding of the rule, and changes nothing else (`analyzeSource_setSeverity`).  That is
more than replacing the severity the rule stands for: a directive without a reason leaves a
warning behind, and the warning is replaced as well.

So setting the severity that the rule has anyway does nothing for just those modules in which
no offence is allowed without a reason.

Main result: `setSeverity_error_iff`.
-/
import ModuleLint.Lint.Catalogue
import ModuleLint.Proofs.CommandLine.Gate

namespace ModuleLint

/-! ### Setting a severity -/

/-- The entries with what stands under a name replaced, or with a new entry for it. -/
def updateUnder {α : Type} (name : String) (f : Option α → α) :
    List (String × α) → List (String × α)
  | [] => [(name, f none)]
  | (other, v) :: rest =>
    if other == name then (other, f (some v)) :: rest
    else (other, v) :: updateUnder name f rest

theorem valueUnder?_cons {α : Type} (name other : String) (v : α) (rest : List (String × α)) :
    valueUnder? name ((other, v) :: rest) =
      if other == name then some v else valueUnder? name rest := by
  unfold valueUnder?
  rw [List.find?_cons]
  cases other == name <;> rfl

theorem valueUnder?_updateUnder {α : Type} (name : String) (f : Option α → α)
    (entries : List (String × α)) :
    valueUnder? name (updateUnder name f entries) = some (f (valueUnder? name entries)) := by
  induction entries with
  | nil =>
    rw [updateUnder, valueUnder?_cons, if_pos (beq_self_eq_true name)]
    rfl
  | cons entry rest ih =>
    obtain ⟨other, v⟩ := entry
    rw [updateUnder, valueUnder?_cons]
    split
    · rename_i hsame
      rw [valueUnder?_cons, if_pos hsame]
    · rename_i hother
      rw [valueUnder?_cons, if_neg hother, ih]

/-- **The configuration with a severity set for a rule**, in the table of the rule if it has
one, and else in a new table. -/
def Config.setSeverity (c : Config) (name : String) (severity : Severity) : Config :=
  { c with
    rules := updateUnder name (fun settings => { settings.getD {} with severity := some severity })
      c.rules }

variable {c : Config} {severity : Severity}

theorem Config.rule?_setSeverity (c : Config) (name : String) (severity : Severity) :
    (c.setSeverity name severity).rule? name =
      some { (c.rule? name).getD {} with severity := some severity } :=
  valueUnder?_updateUnder name _ c.rules

theorem Config.severityOf_setSeverity (c : Config) (name : String) (severity : Severity) :
    (c.setSeverity name severity).severityOf name = some severity := by
  rw [severityOf, rule?_setSeverity]
  rfl

theorem Config.isEnabled_setSeverity (c : Config) (name : String) (severity : Severity) :
    (c.setSeverity name severity).isEnabled name = c.isEnabled name := by
  rw [isEnabled, isEnabled, rule?_setSeverity]
  cases c.rule? name <;> rfl

/-- The rule itself does not see the severity that is set. -/
theorem UnixObject.configured_setSeverity (c : Config) (severity : Severity) :
    configured (c.setSeverity name severity) = configured c := by
  rw [configured, configured, Config.rule?_setSeverity]
  cases c.rule? name <;> rfl

/-! ### The findings -/

/-- The finding with another severity. -/
def Finding.withSeverity (severity : Severity) (f : Finding) : Finding :=
  { f with severity := severity }

theorem Finding.withSeverity_eq_self_iff {f : Finding} :
    f.withSeverity severity = f ↔ f.severity = severity := by
  constructor
  · intro h
    rw [← h]
    rfl
  · rintro rfl
    rfl

namespace Analyzer

/-- **The analyzer with a severity set for the rule.** -/
def setSeverity (a : Analyzer) (severity : Severity) : Analyzer :=
  { a with config := a.config.setSeverity UnixObject.name severity }

/-- The analyzer runs the built-in rule, as its configuration sets it up. -/
def RunsConfigured (a : Analyzer) : Prop := a.rules = Rule.configured a.config

/-- Setting the severity leaves the rule as it is set up. -/
theorem RunsConfigured.setSeverity {a : Analyzer} (h : a.RunsConfigured) (severity : Severity) :
    (a.setSeverity severity).RunsConfigured := by
  change a.rules = [(UnixObject.configured (a.config.setSeverity UnixObject.name severity)).rule]
  rw [UnixObject.configured_setSeverity, h]
  rfl

variable {a : Analyzer} {path : Path.Text} {source : List Char} {t : Tree}

/-- Whether the built-in rule is run on a file. -/
def runsBuiltIn (a : Analyzer) (path : Path.Text) : Bool :=
  a.runs (a.context path) (UnixObject.configured a.config).rule

/-- The finding as it is reported, given the severity that is set, if any. -/
def settled (set : Option Severity) (f : Finding) : Finding :=
  { f with severity := set.getD f.severity, minutesToFix := some 30 }

theorem analyzeTree_eq (hrules : a.RunsConfigured) (path : Path.Text) (t : Tree) :
    a.analyzeTree path t =
      if a.runsBuiltIn path then
        ((UnixObject.configured a.config).check (a.context path) t).map
          (settled (a.config.severityOf UnixObject.name))
      else [] := by
  have hone : a.rules.filter (a.runs (a.context path)) =
      if a.runsBuiltIn path then [(UnixObject.configured a.config).rule] else [] := by
    rw [hrules, Rule.configured, List.filter_cons, List.filter_nil]
    rfl
  rw [analyzeTree]
  simp only [hone]
  split
  · rw [List.flatMap_singleton]
    rfl
  · rfl

/-- A severity that is set is the severity of all findings in a module. -/
theorem analyzeTree_setSeverity (hrules : a.RunsConfigured) (severity : Severity) (path : Path.Text)
    (t : Tree) :
    (a.setSeverity severity).analyzeTree path t =
      (a.analyzeTree path t).map (Finding.withSeverity severity) := by
  have hset : (a.setSeverity severity).config.severityOf UnixObject.name = some severity :=
    Config.severityOf_setSeverity _ _ _
  have hrule : UnixObject.configured (a.setSeverity severity).config =
      UnixObject.configured a.config := UnixObject.configured_setSeverity _ _
  have hruns : (a.setSeverity severity).runsBuiltIn path = a.runsBuiltIn path :=
    congrArg (· && _) (Config.isEnabled_setSeverity a.config UnixObject.name severity)
  rw [analyzeTree_eq hrules, analyzeTree_eq (hrules.setSeverity severity), hruns, hrule, hset]
  split
  · rw [List.map_map]
    rfl
  · rfl

/-- **A severity that is set is the severity of all findings in a source**, and changes nothing
else: not whether the source is read, not where the findings lie, not what they say. -/
theorem analyzeSource_setSeverity (hrules : a.RunsConfigured) (severity : Severity)
    (path : Path.Text) (source : List Char) :
    (a.setSeverity severity).analyzeSource path source =
      (a.analyzeSource path source).map (List.map (Finding.withSeverity severity)) := by
  unfold analyzeSource
  cases parse source with
  | error e => rfl
  | ok t => exact congrArg Except.ok (analyzeTree_setSeverity hrules severity path t)

/-! ### The severity that the rule has anyway -/

theorem map_withSeverity_eq_self_iff {findings : List Finding} :
    findings.map (Finding.withSeverity severity) = findings ↔
      ∀ f ∈ findings, f.severity = severity := by
  have hself := @List.map_inj_left _ _ findings (Finding.withSeverity severity) id
  rw [List.map_id] at hself
  rw [hself]
  exact forall₂_congr fun f _ => Finding.withSeverity_eq_self_iff

end Analyzer

namespace UnixObject

variable {r : UnixObject} {t : Tree} {source : List Char} {content : List Derivation}

/-- **All findings are errors if and only if no offence is allowed without a reason.** -/
theorem all_errors_iff (file : FileContext) (h : t.Derived source content)
    (hseverity : r.severity = .error) :
    (∀ f ∈ check r file t, f.severity = .error) ↔
      ∀ id typeName, Offends r t id typeName →
        allowanceAt t (t.span id).line name.toList ≠ .allowed none := by
  constructor
  · intro hall id typeName hoffends hallow
    have hmem : reminder file t id ∈ check r file t := by
      refine (mem_check_iff h).mpr ⟨id, typeName, hoffends, ?_⟩
      rw [report_of_no_reason hallow hseverity]
      exact List.mem_singleton_self _
    exact absurd (hall _ hmem) (by decide : Severity.warning ≠ .error)
  · intro hnone f hf
    obtain ⟨id, typeName, hoffends, hf⟩ := (mem_check_iff h).mp hf
    rcases hallow : allowanceAt t (t.span id).line name.toList with - | (- | reason)
    · rw [report_of_denied hallow] at hf
      rw [List.mem_singleton.mp hf]
      exact hseverity
    · exact absurd hallow (hnone id typeName hoffends)
    · rw [report_of_reason hallow] at hf
      cases hf

end UnixObject

namespace Analyzer

open UnixObject

variable {a : Analyzer} {path : Path.Text} {source : List Char} {t : Tree}

/-- **Setting the severity that the rule has anyway changes nothing if and only if** no offence
in the module is allowed without a reason, or the rule is not run on it. -/
theorem setSeverity_error_iff (a : Analyzer) (path : Path.Text) (source : List Char)
    (hrules : a.RunsConfigured) (hfree : a.config.severityOf name = none) :
    (a.setSeverity .error).analyzeSource path source = a.analyzeSource path source ↔
      ∀ t, parse source = .ok t → a.runsBuiltIn path = true → ∀ id typeName,
        Offends (configured a.config) t id typeName →
          allowanceAt t (t.span id).line name.toList ≠ .allowed none := by
  rw [analyzeSource_setSeverity hrules, analyzeSource]
  cases hparse : parse source with
  | error e => simp [Except.map]
  | ok t =>
    obtain ⟨content, hcontent⟩ := parse_derived hparse
    simp only [Except.map, Except.ok.injEq, forall_eq', map_withSeverity_eq_self_iff,
      analyzeTree_eq hrules, hfree]
    rw [← all_errors_iff (a.context path) hcontent (severity_configured a.config)]
    by_cases hruns : a.runsBuiltIn path = true
    · simp [hruns, settled]
    · simp [hruns]

/-! ### A module on which it matters -/

/-- The analyzer with the built-in settings. -/
def builtIn : Analyzer := ⟨"/project".toList, Rule.configured {}, [], {}, false⟩

/-- A module with an offence that is allowed without a reason. -/
def unexplained : List Char :=
  "a=New Mail; // bsl-lint: allow(using-object-not-available-unix)".toList

/-- The directive without a reason leaves a warning behind. -/
theorem severities_unexplained :
    (builtIn.analyzeSource "/project/a.bsl".toList unexplained).toOption.map
      (List.map Finding.severity) = some [.warning] := by
  decide +kernel

/-- The warning becomes an error. -/
theorem analyzeSource_unexplained_ne :
    (builtIn.setSeverity .error).analyzeSource "/project/a.bsl".toList unexplained ≠
      builtIn.analyzeSource "/project/a.bsl".toList unexplained := by
  intro hsame
  have hwarning := severities_unexplained
  rw [analyzeSource_setSeverity (a := builtIn) rfl] at hsame
  rcases hfound : builtIn.analyzeSource "/project/a.bsl".toList unexplained with e | findings
  · rw [hfound] at hwarning
    cases hwarning
  · rw [hfound] at hsame hwarning
    -- all findings would be errors, and one of them is a warning
    have hall := map_withSeverity_eq_self_iff.mp (Except.ok.inj hsame)
    have hone : findings.map Finding.severity = [.warning] := Option.some.inj hwarning
    obtain ⟨f, hf, hfwarning⟩ := List.mem_map.mp (hone ▸ List.mem_singleton_self Severity.warning)
    exact absurd (hfwarning.symm.trans (hall f hf)) (by decide)

theorem setSeverity_error_unexplained : builtIn.RunsConfigured ∧
    builtIn.config.severityOf name = none ∧
    ¬ ∀ t, parse unexplained = .ok t → builtIn.runsBuiltIn "/project/a.bsl".toList = true →
      ∀ id typeName, Offends (configured builtIn.config) t id typeName →
        allowanceAt t (t.span id).line name.toList ≠ .allowed none := by
  refine ⟨rfl, rfl, fun h => analyzeSource_unexplained_ne ?_⟩
  exact (setSeverity_error_iff builtIn _ unexplained rfl rfl).mpr h

/-- **Setting the severity that the rule has anyway is not without effect in general.** -/
theorem not_setSeverity_error : ¬ ∀ (a : Analyzer) (path : Path.Text) (source : List Char),
    a.RunsConfigured → a.config.severityOf name = none →
      (a.setSeverity .error).analyzeSource path source = a.analyzeSource path source :=
  fun h => analyzeSource_unexplained_ne (h builtIn _ unexplained rfl rfl)

end Analyzer

end ModuleLint
