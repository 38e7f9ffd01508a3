/-
ModuleLint/Proofs/Lint/FindingOrder.lean

The order of the findings of one rule in one file.  `UnixObject.check` goes through the
nodes from the root on, and a `New` expression owns its first token (`Tree.Leads`): what
lies inside it begins strictly later, and so does all that comes behind it.  So the places
that are reported go up strictly, by bytes and by line and column, although an expression
that is wrapped around others is made after them.

Main results: `check_inOrder`, for every source that parses, and `analyzeFiles_inOrder`.
Places that go up are in the order by which a result is sorted, so the sort, which is
stable, leaves the findings of each file as the rule produced them.
-/
import ModuleLint.Proofs.Lint.Aggregation
import ModuleLint.Proofs.Lint.SeverityOverride
import ModuleLint.Proofs.Tree.Spans

namespace ModuleLint

/-! ### Places of nodes -/

/-- Where a location begins. -/
def Location.start (l : Location) : Position := ⟨l.offset, l.line, l.column⟩

/-- Within a file, what begins earlier is sorted no later. -/
theorem Location.le_of_before {a b : Location} (hfile : a.file = b.file)
    (h : a.start.Before b.start) : a.le b = true := by
  have hplace : a.line < b.line ∨ a.line = b.line ∧ a.column < b.column := h.place
  rw [le, hfile, if_pos rfl]
  split
  · rw [Nat.ble_eq]
    omega
  · rw [Nat.ble_eq]
    omega

/-- Findings that are in order already stay as they are when a result is sorted. -/
theorem LintResult.filter_sort {result : LintResult} {selected : Finding → Bool}
    (h : ((result.findings.filter selected).map Finding.location).Pairwise fun a b =>
      a.file = b.file ∧ a.start.Before b.start) :
    result.sort.findings.filter selected = result.findings.filter selected := by
  have hle : ∀ f g : Finding, f.location.le g.location = true ↔ f.location.key ≤ g.location.key :=
    fun f g => Location.le_iff
  refine filter_mergeSort (trans_of_key hle) (total_of_key hle) ?_
  exact (List.pairwise_map.mp h).imp fun hab => Location.le_of_before hab.1 hab.2

/-- **Of two nodes, the one whose first token comes first begins first.** -/
theorem Tree.Derived.before_of_firstToken_lt {t : Tree} {source : List Char}
    {content : List Derivation} (h : t.Derived source content) (file : String) {a b : Nat}
    (ha : a < t.size) (hb : b < t.size) (hcoversA : t.firstToken a < t.endToken a)
    (hcoversB : t.firstToken b < t.endToken b) (hlt : t.firstToken a < t.firstToken b) :
    (Location.ofSpan file (t.span a)).start.Before (Location.ofSpan file (t.span b)).start := by
  obtain ⟨x, _, hx, _, hspanA⟩ := h.exists_span ha hcoversA
  obtain ⟨y, _, hy, _, hspanB⟩ := h.exists_span hb hcoversB
  rw [hspanA, hspanB]
  rw [← Array.getElem?_toList] at hx hy
  obtain ⟨hi, rfl⟩ := List.getElem?_eq_some_iff.mp hx
  obtain ⟨hj, rfl⟩ := List.getElem?_eq_some_iff.mp hy
  exact List.pairwise_iff_getElem.mp (pairwise_before h.lexed) _ _ hi hj hlt

namespace UnixObject

variable {r : UnixObject} {file : FileContext} {t : Tree} {source : List Char}
  {content : List Derivation}

/-! ### What is reported -/

/-- A verdict is at most one finding, about a `New` expression and at its place. -/
theorem Verdict.locations {id : Nat} {found : List Finding} (h : Verdict r file t id found) :
    found = [] ∨ t.kind? id = some .newExpression ∧
      found.map Finding.location = [Location.ofSpan file.relativePath (t.span id)] := by
  cases h with
  | denied ho => exact .inr ⟨ho.isNew, rfl⟩
  | unexplained ho => exact .inr ⟨ho.isNew, rfl⟩
  | excused => exact .inl rfl
  | clean => exact .inl rfl

/-- **The places that are reported** are those of some `New` expressions, in the order of the
nodes. -/
theorem exists_reported (h : t.Derived source content) (r : UnixObject) (file : FileContext) :
    ∃ ids : List Nat, ids.Sublist (t.descendants Tree.root) ∧
      (∀ id ∈ ids, t.kind? id = some .newExpression) ∧
        (r.check file t).map Finding.location =
          ids.map fun id => Location.ofSpan file.relativePath (t.span id) := by
  have hverdict : ∀ id, verdict r file t id = [] ∨ t.kind? id = some .newExpression ∧
      (verdict r file t id).map Finding.location =
        [Location.ofSpan file.relativePath (t.span id)] := fun id =>
    ((verdict_iff h).mpr rfl).locations
  rw [check_eq_flatMap h]
  -- node by node
  generalize t.descendants Tree.root = ids
  induction ids with
  | nil => exact ⟨[], List.Sublist.refl _, by simp, rfl⟩
  | cons id rest ih =>
    obtain ⟨reported, hsublist, hnew, hlocations⟩ := ih
    rw [List.flatMap_cons, List.map_append, hlocations]
    rcases hverdict id with hnone | ⟨hkind, hlocation⟩
    · rw [hnone]
      exact ⟨reported, hsublist.cons id, hnew, rfl⟩
    · rw [hlocation]
      exact ⟨id :: reported, hsublist.cons_cons id, List.forall_mem_cons.mpr ⟨hkind, hnew⟩, rfl⟩

/-- **The findings are in the order of their places.** -/
structure InOrder (r : UnixObject) (file : FileContext) (t : Tree) : Prop where
  /-- Each finding begins at a later byte than the one before it. -/
  offsets : (r.check file t).Pairwise fun f g => f.location.offset < g.location.offset
  /-- It begins on a later line, or further to the right on the same one. -/
  places : (r.check file t).Pairwise fun f g => f.location.line < g.location.line ∨
    f.location.line = g.location.line ∧ f.location.column < g.location.column
  /-- The findings are about distinct `New` expressions. -/
  distinct : ∃ ids : List Nat, ids.Nodup ∧ (∀ id ∈ ids, t.kind? id = some .newExpression) ∧
    (r.check file t).map Finding.location =
      ids.map fun id => Location.ofSpan file.relativePath (t.span id)
  /-- No place is reported twice. -/
  once : ∀ place, ((r.check file t).map Finding.location).count place ≤ 1
  /-- Sorting a result, whatever else there is in it, leaves them in their order: the findings
  that are selected from it, if they lie at those places one after the other. -/
  sorted : ∀ (result : LintResult) (selected : Finding → Bool),
    (result.findings.filter selected).map Finding.location =
        (r.check file t).map Finding.location →
      result.sort.findings.filter selected = result.findings.filter selected

/-- The places that are reported go up, all of them in the file. -/
theorem pairwise_locations (h : t.Derived source content) (r : UnixObject) (file : FileContext) :
    ((r.check file t).map Finding.location).Pairwise fun a b =>
      a.file = b.file ∧ a.start.Before b.start := by
  obtain ⟨ids, hsublist, hnew, hlocations⟩ := exists_reported h r file
  rw [hlocations, List.pairwise_map]
  refine (h.pairwise_firstToken.sublist hsublist).imp_of_mem ?_
  intro a b ha hb hab
  have hleads := h.leads_newExpression (hnew a ha)
  have hid := Tree.lt_size_of_kind? (hnew a ha)
  have hid' := Tree.lt_size_of_kind? (hnew b hb)
  have hcovers := (h.leads_newExpression (hnew b hb)).1
  exact ⟨rfl, h.before_of_firstToken_lt file.relativePath hid hid' hleads.1 hcovers
    (hab.2 hleads)⟩

theorem inOrder (h : t.Derived source content) (r : UnixObject) (file : FileContext) :
    r.InOrder file t := by
  have hlocations := pairwise_locations h r file
  have hpairwise := List.pairwise_map.mp hlocations
  refine ⟨hpairwise.imp fun hab => hab.2.offset, hpairwise.imp fun hab => hab.2.place, ?_, ?_, ?_⟩
  · obtain ⟨ids, hsublist, hnew, hids⟩ := exists_reported h r file
    have hdescendants := h.wellFormed.descendants_perm
    exact ⟨ids, (hdescendants.nodup_iff.mpr List.nodup_range).sublist hsublist, hnew, hids⟩
  · intro place
    refine List.nodup_iff_count_le_one.mp (hlocations.imp ?_) place
    rintro a b ⟨-, hab⟩ rfl
    exact Nat.lt_irrefl _ hab.offset
  · intro result selected hselected
    apply LintResult.filter_sort
    rw [hselected]
    exact hlocations

end UnixObject

/-- **Findings are strictly ordered**, however the rule is set up and whatever the file. -/
theorem check_inOrder (r : UnixObject) (file : FileContext) {source : List Char} {t : Tree}
    (h : parse source = .ok t) : r.InOrder file t := by
  obtain ⟨content, hcontent⟩ := parse_derived h
  exact UnixObject.inOrder hcontent r file

/-- Objects that are made for one another, the inner ones inside brackets and behind a text
that goes on over the line. -/
def createdInside : List Char :=
  "a = New Mail(New COMObject(\"x\n|y\"), -New Mail).b + New COMObject;".toList

/-- Four objects are reported, and the sort leaves them as they are. -/
theorem check_createdInside : ∃ t, parse createdInside = .ok t ∧
    UnixObject.default.InOrder ⟨"a.bsl", .bsl, .en⟩ t ∧
    (UnixObject.default.check ⟨"a.bsl", .bsl, .en⟩ t).map
      (fun f => (f.location.offset, f.location.line, f.location.column)) =
        [(4, 1, 5), (13, 1, 14), (37, 2, 8), (51, 2, 22)] := by
  have hrun : (parse createdInside).toOption.map (fun t =>
      (UnixObject.default.check ⟨"a.bsl", .bsl, .en⟩ t).map
        fun f => (f.location.offset, f.location.line, f.location.column)) =
      some [(4, 1, 5), (13, 1, 14), (37, 2, 8), (51, 2, 22)] := by decide +kernel
  obtain ⟨t, ht, hplaces⟩ := exists_parse_of_map hrun
  exact ⟨t, ht, check_inOrder .default ⟨"a.bsl", .bsl, .en⟩ ht, hplaces⟩

/-! ### Runs -/

namespace Analyzer

variable {a : Analyzer} {file : SourceFile} {files : List SourceFile} {result : LintResult}

/-- What is found in a file lies at the places that the built-in rule reports there, or
nothing is found. -/
theorem locations_findingsIn (hrules : a.RunsConfigured) (file : SourceFile) :
    a.findingsIn file = [] ∨ ∃ source t, parse source = .ok t ∧
      (a.findingsIn file).map Finding.location =
        ((UnixObject.configured a.config).check (a.context file.path) t).map Finding.location := by
  cases htree : file.tree? with
  | none =>
    left
    rw [findingsIn, htree]
  | some t =>
    obtain ⟨source, -, hparse⟩ := SourceFile.tree?_eq_some_iff.mp htree
    rw [findingsIn_of_tree? htree, analyzeTree_eq hrules]
    split
    · right
      refine ⟨source, t, hparse, ?_⟩
      rw [List.map_map]
      rfl
    · left
      rfl

/-- What is found in a file lies in that file, and its places go up. -/
theorem pairwise_findingsIn (hrules : a.RunsConfigured) (file : SourceFile) :
    (∀ f ∈ a.findingsIn file, f.location.file = a.reported file.path) ∧
      ((a.findingsIn file).map Finding.location).Pairwise fun a b =>
        a.file = b.file ∧ a.start.Before b.start := by
  rcases locations_findingsIn hrules file with hnone | ⟨source, t, hparse, hlocations⟩
  · rw [hnone]
    exact ⟨by simp, List.Pairwise.nil⟩
  · obtain ⟨content, hcontent⟩ := parse_derived hparse
    obtain ⟨ids, -, -, hids⟩ := UnixObject.exists_reported hcontent
      (UnixObject.configured a.config) (a.context file.path)
    have hpairwise := UnixObject.pairwise_locations hcontent
      (UnixObject.configured a.config) (a.context file.path)
    rw [← hlocations] at hids hpairwise
    refine ⟨?_, hpairwise⟩
    intro f hf
    have hlocation := List.mem_map_of_mem (f := Finding.location) hf
    rw [hids] at hlocation
    obtain ⟨id, -, hid⟩ := List.mem_map.mp hlocation
    rw [← hid]
    rfl

/-- Of what files add up to, the findings in one of them are those that lie there, as long as
no two files are reported under the same name. -/
theorem filter_collect (hrules : a.RunsConfigured)
    (hnames : (files.map fun file => a.reported file.path).Nodup) (hfile : file ∈ files) :
    (a.collect files).findings.filter (fun f => f.location.file == a.reported file.path) =
      a.findingsIn file := by
  obtain ⟨before, behind, rfl⟩ := List.append_of_mem hfile
  have hothers : ∀ g ∈ before ++ behind, (a.findingsIn g).filter
      (fun f => f.location.file == a.reported file.path) = [] := by
    intro g hg
    rw [List.filter_eq_nil_iff]
    intro f hf
    rw [(pairwise_findingsIn hrules g).1 f hf, beq_iff_eq]
    intro heq
    rw [List.map_append, List.map_cons, List.nodup_middle, List.nodup_cons, ← heq,
      ← List.map_append] at hnames
    exact hnames.1 (List.mem_map_of_mem hg)
  have hself : (a.findingsIn file).filter
      (fun f => f.location.file == a.reported file.path) = a.findingsIn file := by
    rw [List.filter_eq_self]
    intro f hf
    rw [(pairwise_findingsIn hrules file).1 f hf]
    exact beq_self_eq_true _
  show List.filter _ (List.flatMap _ _) = _
  rw [List.filter_flatMap, List.flatMap_append, List.flatMap_cons, hself,
    List.flatMap_eq_nil_iff.mpr fun g hg => hothers g (List.mem_append_left _ hg),
    List.flatMap_eq_nil_iff.mpr fun g hg => hothers g (List.mem_append_right _ hg),
    List.nil_append, List.append_nil]

/-- **A run reports the findings of each file in the order in which the rule produced them.** -/
theorem analyzeFiles_inOrder (hrules : a.RunsConfigured) (h : a.analyzeFiles files = .ok result)
    (hnames : (files.map fun file => a.reported file.path).Nodup) (hfile : file ∈ files) :
    result.findings.filter (fun f => f.location.file == a.reported file.path) =
      a.findingsIn file := by
  obtain ⟨-, rfl⟩ := analyzeFiles_eq_ok h
  have hselected := filter_collect hrules hnames hfile
  rw [← hselected]
  apply LintResult.filter_sort
  rw [hselected]
  exact (pairwise_findingsIn hrules file).2

end Analyzer

end ModuleLint
