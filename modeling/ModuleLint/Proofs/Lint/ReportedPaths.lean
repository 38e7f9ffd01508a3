/-
ModuleLint/Proofs/Lint/ReportedPaths.lean

How the paths that are reported name files.  A path at or below the root is reported by what
is left of it behind the root, and this is enough: joined with the root it leads back to the
same place (`Path.parts_join_relative`), so two places are never reported alike.

There is one path that says nothing: of the root nothing is left.  A file that is itself the
root is therefore reported under an empty path.

Of a walk it is only asked that it descends (`Walk.Descends`): it finds the root itself, if
that is a file, or else paths that go on behind the root by at least one name.  The walk of the
program does (`filesBelow_descends`).

Main result: `identifies_iff`, that this is the only case in which the paths of a report do not
tell the files.
-/
import ModuleLint.Proofs.Files.Parts
import ModuleLint.Proofs.Lint.FindingOrder

namespace ModuleLint

open ModuleLint.Path

/-! ### Names in a tree of files -/

namespace FileEntry

mutual

/-- Whether all entries at or below an entry lie under names. -/
def wellNamed : FileEntry → Bool
  | .file _ => true
  | .directory entries => wellNamedAll entries

/-- Whether the entries of a directory, and those below them, lie under names. -/
def wellNamedAll : List (List Char × FileEntry) → Bool
  | [] => true
  | (name, e) :: rest => decide (IsName name) && e.wellNamed && wellNamedAll rest

end

variable {e below : FileEntry} {entries : List (List Char × FileEntry)} {place : List (List Char)}

theorem wellNamed_of_mem {entry : List Char × FileEntry} (h : wellNamedAll entries = true)
    (hentry : entry ∈ entries) : entry.2.wellNamed = true := by
  induction entries with
  | nil => cases hentry
  | cons first rest ih =>
    simp only [wellNamedAll, Bool.and_eq_true, decide_eq_true_eq] at h
    rcases List.mem_cons.mp hentry with rfl | hentry
    · exact h.1.2
    · exact ih h.2 hentry

/-- What lies below an entry is named as well as the entry. -/
theorem wellNamed_of_at? (h : e.wellNamed = true) (hat : e.at? place = some below) :
    below.wellNamed = true := by
  induction place generalizing e with
  | nil =>
    obtain rfl := Option.some.inj hat
    exact h
  | cons name more ih =>
    obtain ⟨child, hchild, hat⟩ := Option.bind_eq_some_iff.mp hat
    obtain ⟨entry, hfind, rfl⟩ := Option.map_eq_some_iff.mp hchild
    refine ih ?_ hat
    cases e with
    | file content => cases hfind
    | directory entries => exact wellNamed_of_mem h (List.mem_of_find?_eq_some hfind)

/-! ### The walk below a path -/

end FileEntry

/-- **The path that goes on by names.** -/
def Path.below (path : Text) (names : List (List Char)) : Text := names.foldl join path

theorem Path.parts_below {path : Text} (hpath : isAbsolute path = true) {names : List (List Char)}
    (hnames : ∀ name ∈ names, IsName name) :
    parts (below path names) = parts path ++ names.map .name := by
  induction names generalizing path with
  | nil => exact (List.append_nil _).symm
  | cons name names ih =>
    obtain ⟨hname, hnames⟩ := List.forall_mem_cons.mp hnames
    show parts (below (join path name) names) = _
    rw [ih (isAbsolute_join hpath name) hnames, parts_join_name hpath hname, List.append_assoc]
    rfl

namespace FileEntry

mutual

/-- **What the walk finds** goes on by names, by none only if it begins at a file. -/
theorem mem_filesBelow {repository : Bool} {around : List IgnoreLayer} {user : IgnoreLayer}
    {path p : Text} : ∀ e : FileEntry, e.wellNamed = true →
      p ∈ e.filesBelow repository around user path →
        ∃ names, (∀ name ∈ names, IsName name) ∧ p = below path names ∧
          (names = [] ↔ e.isFile = true)
  | .file _, _, h => by
    rw [filesBelow, List.mem_singleton] at h
    exact ⟨[], nofun, h, iff_of_true rfl rfl⟩
  | .directory entries, hnamed, h => by
    rw [filesBelow] at h
    obtain ⟨name, names, hnames, hp⟩ := mem_filesAmong entries hnamed h
    exact ⟨name :: names, hnames, hp, iff_of_false (List.cons_ne_nil _ _) Bool.false_ne_true⟩

/-- What the walk finds in a directory goes on by a name at least. -/
theorem mem_filesAmong {repository : Bool} {layers : List IgnoreLayer} {user : IgnoreLayer}
    {path p : Text} : ∀ entries : List (List Char × FileEntry), wellNamedAll entries = true →
      p ∈ filesAmong repository layers user path entries →
        ∃ name names, (∀ n ∈ name :: names, IsName n) ∧ p = below path (name :: names)
  | [], _, h => by
    rw [filesAmong] at h
    cases h
  | (name, e) :: rest, hnamed, h => by
    simp only [wellNamedAll, Bool.and_eq_true, decide_eq_true_eq] at hnamed
    obtain ⟨⟨hname, he⟩, hrest⟩ := hnamed
    rw [filesAmong, List.mem_append] at h
    rcases h with h | h
    · split at h
      · cases h
      · obtain ⟨names, hnames, rfl, -⟩ := mem_filesBelow e he h
        exact ⟨name, names, List.forall_mem_cons.mpr ⟨hname, hnames⟩, rfl⟩
    · exact mem_filesAmong rest hrest h

end

end FileEntry

namespace Surroundings

variable {s : Surroundings} {root p : Text} {found : List Text}

theorem at?_of_resolve {place : List (List Char)} {e : FileEntry} {path : Text}
    (h : s.resolve path = .ok (place, e)) : s.files.at? place = some e := by
  rw [resolve, FileEntry.resolve] at h
  cases hfollow : s.files.follow (parts (s.absolute path)) [] with
  | error problem =>
    rw [hfollow] at h
    cases h
  | ok names =>
    rw [hfollow] at h
    simp only [bind, Except.bind] at h
    cases hat : s.files.at? names.reverse with
    | none =>
      rw [hat] at h
      cases h
    | some below =>
      rw [hat] at h
      simp only at h
      split at h
      · cases h
      · cases h
        exact hat

/-- **The files below a root** go on behind it by names, by none only if it is a file. -/
theorem mem_filesBelow {repository : Bool} (hnamed : s.files.wellNamed = true)
    (hfound : s.filesBelow repository root = .ok found) (hp : p ∈ found) :
    ∃ names, (∀ name ∈ names, IsName name) ∧ p = below root names ∧
      (names = [] ↔ s.isFile root = true) := by
  rw [filesBelow] at hfound
  rw [isFile]
  cases hresolve : s.resolve root with
  | error problem =>
    rw [hresolve] at hfound
    cases hfound
  | ok place =>
    obtain ⟨place, e⟩ := place
    rw [hresolve] at hfound
    obtain rfl := Except.ok.inj hfound
    have he : e.wellNamed = true :=
      FileEntry.wellNamed_of_at? hnamed (at?_of_resolve hresolve)
    exact FileEntry.mem_filesBelow e he hp

end Surroundings

/-! ### Walks -/

/-- **A walk descends**: the paths that it finds go on behind the root by names, by none only if
the root is a file. -/
def Walk.Descends (walk : Walk) (s : Surroundings) : Prop :=
  ∀ repository root found, walk s repository root = .ok found → ∀ p ∈ found,
    ∃ names, (∀ name ∈ names, IsName name) ∧ p = below root names ∧
      (names = [] ↔ s.isFile root = true)

/-- The walk that the program takes descends, where files lie under names. -/
theorem Surroundings.filesBelow_descends {s : Surroundings} (hnamed : s.files.wellNamed = true) :
    Walk.Descends Surroundings.filesBelow s :=
  fun _ _ _ hfound _ hp => mem_filesBelow hnamed hfound hp

/-! ### Rules -/

/-- A rule places its findings in the file that it is given. -/
def Rule.Locates (rule : Rule) : Prop :=
  ∀ file source t, parse source = .ok t → ∀ f ∈ rule.check file t,
    f.location.file = file.relativePath

theorem Rule.locates_configured (config : Config) :
    ∀ rule ∈ Rule.configured config, rule.Locates := by
  intro rule hrule file source t ht f hf
  rw [List.mem_singleton.mp hrule] at hf
  obtain ⟨content, hcontent⟩ := parse_derived ht
  obtain ⟨ids, -, -, hids⟩ := UnixObject.exists_reported hcontent (.configured config) file
  have hlocation : f.location ∈ ((UnixObject.configured config).check file t).map
      Finding.location := List.mem_map_of_mem hf
  rw [hids] at hlocation
  obtain ⟨id, -, hid⟩ := List.mem_map.mp hlocation
  rw [← hid]
  rfl

/-! ### Reports -/

namespace Analyzer

variable {a : Analyzer} {s : Surroundings} {walk : Walk} {p q : Text} {found : List Text}
  {files : List SourceFile} {r : LintResult}

/-- A reported path leads to a file: it says something, and joined with the root it has the
parts of the path of the file. -/
structure Leads (a : Analyzer) (reported : String) (p : Text) : Prop where
  ne_empty : reported ≠ ""
  parts_join : parts (join a.root reported.toList) = parts p

/-- **The paths of a report tell the files** that were analyzed. -/
structure Identifies (a : Analyzer) (files : List SourceFile) (r : LintResult) : Prop where
  /-- The path of a finding leads to the file in which it was found, -/
  findings : ∀ f ∈ r.findings, ∃ file ∈ files, f ∈ a.findingsIn file ∧
    a.Leads f.location.file file.path
  /-- that of a skipped file to a file that does not parse, -/
  skipped : ∀ reported ∈ r.filesSkipped, ∃ file ∈ files, file.parses = false ∧
    a.Leads reported file.path
  /-- and no two files are reported alike. -/
  distinct : ∀ file ∈ files, ∀ other ∈ files, a.reported file.path = a.reported other.path →
    parts file.path = parts other.path

theorem toList_reported (a : Analyzer) (p : Text) : (a.reported p).toList = relative a.root p :=
  String.toList_ofList

/-- **A reported path, joined with the root, leads back.** -/
theorem parts_join_reported (hroot : isAbsolute a.root = true) (hp : parts a.root <+: parts p) :
    parts (join a.root (a.reported p).toList) = parts p := by
  rw [toList_reported]
  exact parts_join_relative hroot hp

/-- Places that are reported alike are the same. -/
theorem parts_eq_of_reported (hroot : isAbsolute a.root = true) (hp : parts a.root <+: parts p)
    (hq : parts a.root <+: parts q) (h : a.reported p = a.reported q) : parts p = parts q := by
  rw [← parts_join_reported hroot hp, h]
  exact parts_join_reported hroot hq

/-- Only the root is reported by an empty path. -/
theorem reported_eq_empty_iff (hroot : isAbsolute a.root = true) (hp : parts a.root <+: parts p) :
    a.reported p = "" ↔ parts p = parts a.root := by
  rw [← String.toList_eq_nil_iff, toList_reported]
  exact (named_relative hroot hp).2.2.2

theorem leads_reported (hroot : isAbsolute a.root = true) (hp : parts a.root <+: parts p)
    (hne : parts p ≠ parts a.root) : a.Leads (a.reported p) p where
  ne_empty := (reported_eq_empty_iff hroot hp).not.mpr hne
  parts_join := parts_join_reported hroot hp

/-- The findings in a file are placed in that file. -/
theorem file_of_mem_findingsIn (hlocates : ∀ rule ∈ a.rules, rule.Locates) {file : SourceFile}
    {f : Finding} (hf : f ∈ a.findingsIn file) : f.location.file = a.reported file.path := by
  obtain ⟨t, htree, rule, hrule, -, -, g, hg, rfl⟩ := mem_findingsIn_iff.mp hf
  obtain ⟨source, -, hparse⟩ := SourceFile.tree?_eq_some_iff.mp htree
  exact hlocates rule hrule _ _ _ hparse g hg

/-- **A run tells its files by their paths**, unless one of them is the root and something is
reported of it. -/
theorem identifies_iff_of_begins (hroot : isAbsolute a.root = true)
    (hfiles : ∀ file ∈ files, parts a.root <+: parts file.path)
    (hlocates : ∀ rule ∈ a.rules, rule.Locates) (hrun : a.analyzeFiles files = .ok r) :
    a.Identifies files r ↔ ∀ file ∈ files, parts file.path = parts a.root →
      a.findingsIn file = [] ∧ file.parses = true := by
  obtain ⟨hfindings, hskipped⟩ := mem_analyzeFiles_iff hrun
  constructor
  · intro h file hfile hparts
    have hempty := (reported_eq_empty_iff hroot (hfiles file hfile)).mpr hparts
    constructor
    · refine List.eq_nil_iff_forall_not_mem.mpr fun f hf => ?_
      obtain ⟨_, _, _, hleads⟩ := h.findings f ((hfindings f).mpr ⟨file, hfile, hf⟩)
      exact hleads.ne_empty ((file_of_mem_findingsIn hlocates hf).trans hempty)
    · refine Bool.eq_false_imp_eq_true.mp fun hparses => ?_
      obtain ⟨_, _, _, hleads⟩ := h.skipped _ ((hskipped _).mpr ⟨file, hfile, hparses, rfl⟩)
      exact absurd hempty hleads.ne_empty
  · intro h
    refine ⟨fun f hf => ?_, fun reported hreported => ?_, fun file hfile other hother heq => ?_⟩
    · obtain ⟨file, hfile, hff⟩ := (hfindings f).mp hf
      have hne : parts file.path ≠ parts a.root := fun hparts =>
        List.ne_nil_of_mem hff (h file hfile hparts).1
      refine ⟨file, hfile, hff, ?_⟩
      rw [file_of_mem_findingsIn hlocates hff]
      exact leads_reported hroot (hfiles file hfile) hne
    · obtain ⟨file, hfile, hparses, rfl⟩ := (hskipped reported).mp hreported
      have hne : parts file.path ≠ parts a.root := by
        intro hparts
        rw [(h file hfile hparts).2] at hparses
        cases hparses
      exact ⟨file, hfile, hparses, leads_reported hroot (hfiles file hfile) hne⟩
    · exact parts_eq_of_reported hroot (hfiles file hfile) (hfiles other hother) heq

theorem isAbsolute_root {root : Option String} {rules : List Rule} {exclude : List String}
    {config : Config} {strict : Bool} {patterns : PatternReader}
    (hs : isAbsolute s.directory = true)
    (hbuild : build s root rules exclude config strict patterns = .ok a) :
    isAbsolute a.root = true ∧ a.rules = rules := by
  obtain ⟨hroot, hrules, -⟩ := of_build hbuild
  rw [hroot]
  exact ⟨isAbsolute_join hs _, hrules⟩

/-! ### Discovered files -/

section

variable (hroot : isAbsolute a.root = true) (hwalk : Walk.Descends walk s)
  (hfound : walk s a.config.analyzer.respectGitignore a.root = .ok found)
include hroot hwalk hfound

/-- **What is discovered goes on behind the root by names**, by none only if the root is a
file. -/
theorem exists_names_of_discovered (hp : p ∈ a.discovered found) :
    ∃ names, p = below a.root names ∧ parts p = parts a.root ++ names.map .name ∧
      (names = [] ↔ s.isFile a.root = true) := by
  obtain ⟨names, hnames, rfl, hfile⟩ := hwalk _ _ _ hfound p (List.mem_of_mem_filter hp)
  exact ⟨names, rfl, parts_below hroot hnames, hfile⟩

theorem begins_of_discovered (hp : p ∈ a.discovered found) : parts a.root <+: parts p := by
  obtain ⟨names, -, hparts, -⟩ := exists_names_of_discovered hroot hwalk hfound hp
  exact ⟨_, hparts.symm⟩

/-- The root is discovered only if it is a file, and then nothing else is. -/
theorem parts_eq_root_iff (hp : p ∈ a.discovered found) :
    parts p = parts a.root ↔ s.isFile a.root = true := by
  obtain ⟨names, -, hparts, hfile⟩ := exists_names_of_discovered hroot hwalk hfound hp
  rw [hparts, ← hfile]
  simp

/-- The names behind the root make up the path, so files that are reported alike are the same. -/
theorem eq_of_reported_eq (hp : p ∈ a.discovered found) (hq : q ∈ a.discovered found)
    (h : a.reported p = a.reported q) : p = q := by
  obtain ⟨names, rfl, hparts, -⟩ := exists_names_of_discovered hroot hwalk hfound hp
  obtain ⟨names', rfl, hparts', -⟩ := exists_names_of_discovered hroot hwalk hfound hq
  have hsame := parts_eq_of_reported hroot ⟨_, hparts.symm⟩ ⟨_, hparts'.symm⟩ h
  rw [hparts, hparts', List.append_cancel_left_eq] at hsame
  rw [List.map_injective_iff.mpr (fun _ _ h => PathPart.name.inj h) hsame]

/-- **A run over what a walk finds tells its files**, unless the root is a file and something is
reported of it. -/
theorem identifies_of_discovered (hlocates : ∀ rule ∈ a.rules, rule.Locates)
    (hrun : a.analyze s walk = .ok r) :
    a.Identifies (a.select s (sources found)) r ↔
      (s.isFile a.root = true → r.findings = [] ∧ r.filesSkipped = []) := by
  rw [analyze_of_walk hfound] at hrun
  have hdiscovered : ∀ file ∈ a.select s (sources found), file.path ∈ a.discovered found :=
    fun file hfile => (mem_select_iff.mp hfile).1
  rw [identifies_iff_of_begins hroot
    (fun file hfile => begins_of_discovered hroot hwalk hfound (hdiscovered file hfile))
    hlocates hrun]
  obtain ⟨hfindings, hskipped⟩ := mem_analyzeFiles_iff hrun
  constructor
  · intro h hfile
    have hall : ∀ file ∈ a.select s (sources found), a.findingsIn file = [] ∧ file.parses = true :=
      fun file hmem => h file hmem
        ((parts_eq_root_iff hroot hwalk hfound (hdiscovered file hmem)).mpr hfile)
    constructor
    · refine List.eq_nil_iff_forall_not_mem.mpr fun f hf => ?_
      obtain ⟨file, hmem, hff⟩ := (hfindings f).mp hf
      rw [(hall file hmem).1] at hff
      cases hff
    · refine List.eq_nil_iff_forall_not_mem.mpr fun reported hreported => ?_
      obtain ⟨file, hmem, hparses, -⟩ := (hskipped reported).mp hreported
      rw [(hall file hmem).2] at hparses
      cases hparses
  · intro h file hmem hparts
    obtain ⟨hnone, hnoneSkipped⟩ :=
      h ((parts_eq_root_iff hroot hwalk hfound (hdiscovered file hmem)).mp hparts)
    constructor
    · refine List.eq_nil_iff_forall_not_mem.mpr fun f hf => ?_
      exact List.ne_nil_of_mem ((hfindings f).mpr ⟨file, hmem, hf⟩) hnone
    · refine Bool.eq_false_imp_eq_true.mp fun hparses => ?_
      exact absurd hnoneSkipped (List.ne_nil_of_mem ((hskipped _).mpr ⟨file, hmem, hparses, rfl⟩))

end

/-- **Reported paths tell the files, unless the root is a file.**  For all paths at or below the
root of an analyzer, the reported path joined with the root leads back, no two places are
reported alike, and only the root is reported by an empty path.  So the paths in the result of
a run over files at or below the root tell these files, except where one of them is the root
and something is found in it or it is skipped.  Where a walk that descends finds the files, this
is the case if and only if the root is a file of which something is reported, and two paths that
are reported alike are the same. -/
theorem identifies_iff (s : Surroundings) (hs : isAbsolute s.directory = true)
    {root : Option String} {rules : List Rule} {exclude : List String} {config : Config}
    {strict : Bool} {patterns : PatternReader} {a : Analyzer}
    (hbuild : build s root rules exclude config strict patterns = .ok a) :
    (∀ p, parts a.root <+: parts p →
      parts (join a.root (a.reported p).toList) = parts p ∧
        (a.reported p = "" ↔ parts p = parts a.root) ∧
          ∀ q, parts a.root <+: parts q → a.reported p = a.reported q → parts p = parts q) ∧
    (∀ files r, (∀ file ∈ files, parts a.root <+: parts file.path) →
      (∀ rule ∈ rules, rule.Locates) → a.analyzeFiles files = .ok r →
        (a.Identifies files r ↔ ∀ file ∈ files, parts file.path = parts a.root →
          a.findingsIn file = [] ∧ file.parses = true)) ∧
    ∀ (walk : Walk) found r, Walk.Descends walk s → (∀ rule ∈ rules, rule.Locates) →
      walk s a.config.analyzer.respectGitignore a.root = .ok found → a.analyze s walk = .ok r →
        (a.Identifies (a.select s (sources found)) r ↔
          (s.isFile a.root = true → r.findings = [] ∧ r.filesSkipped = [])) ∧
        ∀ p ∈ a.discovered found, ∀ q ∈ a.discovered found,
          a.reported p = a.reported q → p = q := by
  obtain ⟨hroot, rfl⟩ := isAbsolute_root hs hbuild
  refine ⟨fun p hp => ⟨parts_join_reported hroot hp, reported_eq_empty_iff hroot hp,
    fun q hq => parts_eq_of_reported hroot hp hq⟩, ?_, ?_⟩
  · intro files r hfiles hlocates hrun
    exact identifies_iff_of_begins hroot hfiles hlocates hrun
  · intro walk found r hwalk hlocates hfound hrun
    exact ⟨identifies_of_discovered hroot hwalk hfound hlocates hrun,
      fun p hp q hq => eq_of_reported_eq hroot hwalk hfound hp hq⟩

end Analyzer

/-- A directory with a module in which an object is made, and one that does not parse. -/
def sourceTree : Surroundings :=
  ⟨.directory [("w".toList, .directory [("src".toList, .directory [
    ("a.bsl".toList, .file "x = New Mail;".toUTF8), ("b.bsl".toList, .file "If".toUTF8)])])],
    "/w".toList, []⟩

/-- The analyzer that works at or below a path. -/
def checkerBelow (root : String) : Analyzer :=
  { root := sourceTree.absolute root.toList, rules := Rule.configured {}, exclude := [],
    config := {} }

/-- The run over a path in the tree. -/
theorem exists_analyze_checkerBelow (root : String) (found : List Text)
    (hfound : (sourceTree.filesBelow true (sourceTree.absolute root.toList)).toOption = some found)
    (hread : ∀ path ∈ (checkerBelow root).discovered found,
      (Analyzer.load sourceTree path).Readable) :
    sourceTree.filesBelow true (sourceTree.absolute root.toList) = .ok found ∧
      ∃ r, (checkerBelow root).analyze sourceTree Surroundings.filesBelow = .ok r ∧
        (checkerBelow root).analyzeFiles
          ((checkerBelow root).select sourceTree (Analyzer.sources found)) = .ok r := by
  have hok : sourceTree.filesBelow true (sourceTree.absolute root.toList) = .ok found := by
    cases hresult : sourceTree.filesBelow true (sourceTree.absolute root.toList) with
    | error e =>
      rw [hresult] at hfound
      cases hfound
    | ok paths =>
      rw [hresult] at hfound
      exact congrArg Except.ok (Option.some.inj hfound)
  have hrun := (@Analyzer.analyzeFiles_eq_ok_iff (checkerBelow root)
    ((checkerBelow root).select sourceTree (Analyzer.sources found)) _ rfl).mpr
    ⟨fun file hfile => by
      obtain ⟨hpath, hload⟩ := Analyzer.mem_select_iff.mp hfile
      rw [hload]
      exact hread _ hpath, rfl⟩
  exact ⟨hok, _, (Analyzer.analyze_of_walk hok).trans hrun, hrun⟩

/-- The files that are found below the directory are taken in. -/
theorem load_mem_select {root : String} {found : List Text} {p : Text}
    (hp : p ∈ (checkerBelow root).discovered found) :
    Analyzer.load sourceTree p ∈
      (checkerBelow root).select sourceTree (Analyzer.sources found) :=
  Analyzer.mem_select_iff.mpr ⟨hp, rfl⟩

/-- Below a directory both modules are told by their paths. -/
theorem identifies_sourceTree : isAbsolute sourceTree.directory = true ∧
    Analyzer.build sourceTree (some "./src") (checkerBelow "./src").rules [] {} false Glob.reader =
      .ok (checkerBelow "./src") ∧
    Walk.Descends Surroundings.filesBelow sourceTree ∧
    ∃ found r, sourceTree.filesBelow true (checkerBelow "./src").root = .ok found ∧
      (checkerBelow "./src").analyze sourceTree Surroundings.filesBelow = .ok r ∧
      (∃ f ∈ r.findings, f.location.file = "a.bsl") ∧ "b.bsl" ∈ r.filesSkipped ∧
      (checkerBelow "./src").Identifies
        ((checkerBelow "./src").select sourceTree (Analyzer.sources found)) r := by
  have hbuild : Analyzer.build sourceTree (some "./src") (checkerBelow "./src").rules [] {} false
    Glob.reader = .ok (checkerBelow "./src") := rfl
  have hwalk : Walk.Descends Surroundings.filesBelow sourceTree :=
    Surroundings.filesBelow_descends (by decide +kernel)
  obtain ⟨hfound, r, hrun, hfiles⟩ := exists_analyze_checkerBelow "./src"
    ["/w/./src/a.bsl".toList, "/w/./src/b.bsl".toList] (by decide +kernel) (by decide +kernel)
  obtain ⟨hfindings, hskipped⟩ := Analyzer.mem_analyzeFiles_iff hfiles
  have hiff := ((Analyzer.identifies_iff sourceTree rfl hbuild).2.2 _ _ _ hwalk
    (Rule.locates_configured {}) hfound hrun).1
  have hmade : ∃ p ∈ (checkerBelow "./src").discovered ["/w/./src/a.bsl".toList,
      "/w/./src/b.bsl".toList],
      ∃ f ∈ (checkerBelow "./src").findingsIn (Analyzer.load sourceTree p),
        f.location.file = "a.bsl" := by
    decide +kernel
  have hbroken : ∃ p ∈ (checkerBelow "./src").discovered ["/w/./src/a.bsl".toList,
      "/w/./src/b.bsl".toList], (Analyzer.load sourceTree p).parses = false ∧
        (checkerBelow "./src").reported (Analyzer.load sourceTree p).path = "b.bsl" := by
    decide +kernel
  obtain ⟨p, hp, f, hf, hfile⟩ := hmade
  obtain ⟨q, hq, hparses, hreported⟩ := hbroken
  exact ⟨rfl, hbuild, hwalk, _, r, hfound, hrun,
    ⟨f, (hfindings f).mpr ⟨_, load_mem_select hp, hf⟩, hfile⟩,
    (hskipped _).mpr ⟨_, load_mem_select hq, hparses, hreported⟩,
    hiff.mpr fun hfile => absurd hfile (by decide +kernel)⟩

/-- A root that is a module is reported by an empty path. -/
theorem not_forall_identifies : ¬ ∀ (s : Surroundings) (root : Option String) (rules : List Rule)
    (exclude : List String) (config : Config) (strict : Bool) (a : Analyzer) (found : List Text)
    (r : LintResult), isAbsolute s.directory = true →
    Analyzer.build s root rules exclude config strict Glob.reader = .ok a →
    s.files.wellNamed = true → (∀ rule ∈ rules, rule.Locates) →
    s.filesBelow a.config.analyzer.respectGitignore a.root = .ok found →
    a.analyze s Surroundings.filesBelow = .ok r →
      a.Identifies (a.select s (Analyzer.sources found)) r := by
  intro h
  obtain ⟨hfound, r, hrun, hfiles⟩ := exists_analyze_checkerBelow "src/a.bsl"
    ["/w/src/a.bsl".toList] (by decide +kernel) (by decide +kernel)
  obtain ⟨hfindings, -⟩ := Analyzer.mem_analyzeFiles_iff hfiles
  have hidentifies := h sourceTree (some "src/a.bsl") _ [] {} false _ _ r rfl rfl
    (by decide +kernel) (Rule.locates_configured {}) hfound hrun
  have hmade : ∃ p ∈ (checkerBelow "src/a.bsl").discovered ["/w/src/a.bsl".toList],
      ∃ f ∈ (checkerBelow "src/a.bsl").findingsIn (Analyzer.load sourceTree p),
        f.location.file = "" := by
    decide +kernel
  obtain ⟨p, hp, f, hf, hempty⟩ := hmade
  obtain ⟨_, _, _, hleads⟩ := hidentifies.findings f
    ((hfindings f).mpr ⟨_, load_mem_select hp, hf⟩)
  exact hleads.ne_empty hempty

end ModuleLint
