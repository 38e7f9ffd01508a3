/-
ModuleLint/Proofs/Lint/NearestConfig.lean

Which configuration file a run takes.  There are two searches, one inside the other: outwards
over the directories at and above the project, and over two names in each of them.  What they
find together is told without any search by `Nearest`: the longest directory that holds a
configuration file, and in it the name that is preferred.  So the distance counts before the
name.

Files are told by the parts of their paths, and any set of them may be there.

Main result: `choose_nearest`, which source is taken, and that a configuration file elsewhere,
or further above than the nearest one, makes no difference.  `find_eq_iff` says the same of a
run over a tree of files (`isFile_join`).
-/
import ModuleLint.Lint.ConfigSource
import ModuleLint.Proofs.Files.Parts

namespace ModuleLint

namespace ConfigSource

open ModuleLint.Path

/-- The file of a given name in a directory, by its parts. -/
def entry (directory : List PathPart) (name : String) : List PathPart :=
  directory ++ [.name name.toList]

/-- The files with one more among them. -/
def withFile (files : List PathPart → Bool) (added : List PathPart) : List PathPart → Bool :=
  fun file => file == added || files file

/-- The two names of configuration files, the preferred one and the one with a dot. -/
def plainName : String := "bsl-lint.toml"

def dottedName : String := ".bsl-lint.toml"

theorem mem_projectNames {name : String} :
    name ∈ projectNames ↔ name = plainName ∨ name = dottedName :=
  List.mem_pair

/-- **The nearest configuration file** of a project: the directory it is in, and its name. -/
structure Nearest (files : List PathPart → Bool) (project directory : List PathPart)
    (name : String) : Prop where
  ne_nil : directory ≠ []
  /-- The directory is at or above the project, -/
  above : directory <+: project
  /-- it holds a configuration file under the name, -/
  named : name ∈ projectNames
  holds : files (entry directory name) = true
  /-- no longer one holds any, -/
  longest : ∀ d, d <+: project → directory.length < d.length →
    ∀ other ∈ projectNames, files (entry d other) = false
  /-- and where it holds both, the name is the one without a dot. -/
  preferred : files (entry directory plainName) = true → name = plainName

/-- **The source that ought to be taken**, of all that could be. -/
inductive Picks (files : List PathPart → Bool) (project : Text) :
    Option Text → Option Text → ConfigSource → Prop
  /-- A file named by the user is taken, whether it is there or not. -/
  | explicit (path : Text) (global? : Option Text) :
    Picks files project (some path) global? (.explicit path)
  /-- Otherwise it is the nearest file at or above the project. -/
  | project {directory : Text} {name : String} (global? : Option Text)
      (hdirectory : directory ∈ ancestors project)
      (hnearest : Nearest files (parts project) (parts directory) name) :
    Picks files project none global? (.project (join directory name.toList))
  /-- Otherwise it is the user's own file, if there is one. -/
  | global {own : Text} (hnone : ∀ d name, ¬ Nearest files (parts project) d name)
      (hfile : files (parts (join own globalName.toList)) = true) :
    Picks files project none (some own) (.global (join own globalName.toList))
  /-- Otherwise there are the built-in settings. -/
  | builtIn {global? : Option Text} (hnone : ∀ d name, ¬ Nearest files (parts project) d name)
      (hfile : ∀ own ∈ global?, files (parts (join own globalName.toList)) = false) :
    Picks files project none global? .builtIn

variable {files : List PathPart → Bool} {project directory path : Text} {name : String}
  {explicit? global? : Option Text} {c : ConfigSource} {d : List PathPart}

/-! ### One directory -/

theorem isName_of_mem_projectNames (h : name ∈ projectNames) : IsName name.toList := by
  rcases mem_projectNames.mp h with rfl | rfl
  · decide
  · decide

/-- What is looked for in a directory is the entry of that name. -/
theorem parts_join_projectName (hd : isAbsolute directory = true) (h : name ∈ projectNames) :
    parts (join directory name.toList) = entry (parts directory) name :=
  parts_join_name hd (isName_of_mem_projectNames h)

/-- The two names are tried one after the other. -/
theorem inDirectory?_eq (hd : isAbsolute directory = true) :
    inDirectory? (fun path => files (parts path)) directory =
      if files (entry (parts directory) plainName) then some (join directory plainName.toList)
      else if files (entry (parts directory) dottedName) then
        some (join directory dottedName.toList)
      else none := by
  rw [← parts_join_projectName hd (mem_projectNames.mpr (.inl rfl)),
    ← parts_join_projectName hd (mem_projectNames.mpr (.inr rfl))]
  show [join directory plainName.toList, join directory dottedName.toList].find? _ = _
  rw [List.find?_cons, List.find?_cons, List.find?_nil]
  cases files (parts (join directory plainName.toList)) with
  | true => rfl
  | false =>
    cases files (parts (join directory dottedName.toList)) with
    | true => rfl
    | false => rfl

/-- What is found in a directory is a configuration file, the preferred one if there are two. -/
theorem inDirectory?_eq_some_iff (hd : isAbsolute directory = true) :
    inDirectory? (fun path => files (parts path)) directory = some path ↔
      ∃ name ∈ projectNames, files (entry (parts directory) name) = true ∧
        (files (entry (parts directory) plainName) = true → name = plainName) ∧
          path = join directory name.toList := by
  rw [inDirectory?_eq hd]
  constructor
  · intro h
    split at h
    · rename_i hplain
      obtain rfl := Option.some.inj h
      exact ⟨plainName, mem_projectNames.mpr (.inl rfl), hplain, fun _ => rfl, rfl⟩
    · rename_i hplain
      split at h
      · rename_i hdotted
        obtain rfl := Option.some.inj h
        exact ⟨dottedName, mem_projectNames.mpr (.inr rfl), hdotted, fun h => absurd h hplain, rfl⟩
      · cases h
  · rintro ⟨name, hname, hholds, hpreferred, rfl⟩
    rcases mem_projectNames.mp hname with rfl | rfl
    · rw [if_pos hholds]
    · have hplain : ¬ files (entry (parts directory) plainName) = true := fun h =>
        absurd (hpreferred h) (by decide)
      rw [if_neg hplain, if_pos hholds]

/-- Nothing is found in a directory that holds no configuration file. -/
theorem inDirectory?_eq_none_iff (hd : isAbsolute directory = true) :
    inDirectory? (fun path => files (parts path)) directory = none ↔
      ∀ name ∈ projectNames, files (entry (parts directory) name) = false := by
  rw [inDirectory?_eq hd]
  constructor
  · intro h name hname
    by_contra hholds
    rw [Bool.not_eq_false] at hholds
    rcases mem_projectNames.mp hname with rfl | rfl
    · rw [if_pos hholds] at h
      cases h
    · rw [if_pos hholds] at h
      split at h
      · cases h
      · cases h
  · intro h
    rw [if_neg (Bool.eq_false_iff.mp (h _ (mem_projectNames.mpr (.inl rfl)))),
      if_neg (Bool.eq_false_iff.mp (h _ (mem_projectNames.mpr (.inr rfl))))]

/-! ### The nearest file -/

/-- **There is at most one nearest file.** -/
theorem Nearest.unique {project d d' : List PathPart} {name name' : String}
    (h : Nearest files project d name) (h' : Nearest files project d' name') :
    d = d' ∧ name = name' := by
  have hle : ∀ {d d' name name'}, Nearest files project d name → Nearest files project d' name' →
      d'.length ≤ d.length := by
    intro d d' name name' h h'
    by_contra hlt
    have hfree := h.longest d' h'.above (Nat.lt_of_not_le hlt) name' h'.named
    rw [h'.holds] at hfree
    cases hfree
  -- of two prefixes that are equally long there is only one
  obtain rfl : d = d' := (List.prefix_of_prefix_length_le h.above h'.above (hle h' h)).eq_of_length
    (Nat.le_antisymm (hle h' h) (hle h h'))
  refine ⟨rfl, ?_⟩
  cases hplain : files (entry d plainName) with
  | true => rw [h.preferred hplain, h'.preferred hplain]
  | false =>
    have hdotted : ∀ {name}, Nearest files project d name → name = dottedName := by
      intro name h
      refine (mem_projectNames.mp h.named).resolve_left ?_
      rintro rfl
      exact absurd (hplain.symm.trans h.holds) Bool.false_ne_true
    rw [hdotted h, hdotted h']

/-- **What the search finds is the nearest file.** -/
theorem nearest_of_findSome? (hproject : isAbsolute project = true)
    (h : (ancestors project).findSome? (inDirectory? fun path => files (parts path)) = some path) :
    ∃ directory ∈ ancestors project, ∃ name,
      Nearest files (parts project) (parts directory) name ∧ path = join directory name.toList := by
  obtain ⟨longer, directory, shorter, hsplit, hfound, hnone⟩ := List.findSome?_eq_some_iff.mp h
  have hmem : directory ∈ ancestors project := by
    rw [hsplit]
    exact List.mem_append_right _ List.mem_cons_self
  have habs := isAbsolute_of_mem_ancestors hproject hmem
  obtain ⟨name, hname, hholds, hpreferred, rfl⟩ := (inDirectory?_eq_some_iff habs).mp hfound
  obtain ⟨hne, habove⟩ := (exists_ancestor_iff hproject).mp ⟨directory, hmem, rfl⟩
  refine ⟨directory, hmem, name, ⟨hne, habove, hname, hholds, ?_, hpreferred⟩, rfl⟩
  intro d hd hlonger other hother
  have hpos : d ≠ [] := List.ne_nil_of_length_pos (Nat.zero_lt_of_lt hlonger)
  obtain ⟨a, ha, rfl⟩ := (exists_ancestor_iff hproject).mpr ⟨hpos, hd⟩
  -- a longer directory is one that was searched before
  have hbefore : a ∈ longer := by
    have hpairwise := pairwise_ancestors hproject
    rw [hsplit] at ha hpairwise
    rcases List.mem_append.mp ha with ha | ha
    · exact ha
    · have hshorter := (List.pairwise_append.mp hpairwise).2.1
      rcases List.mem_cons.mp ha with rfl | ha
      · exact absurd hlonger (Nat.lt_irrefl _)
      · exact absurd hlonger (Nat.lt_asymm ((List.pairwise_cons.mp hshorter).1 a ha))
  have habs := isAbsolute_of_mem_ancestors hproject
    (hsplit ▸ List.mem_append_left _ hbefore)
  exact (inDirectory?_eq_none_iff habs).mp (hnone a hbefore) other hother

/-- **The search finds the nearest file, if there is one.** -/
theorem findSome?_of_nearest (hproject : isAbsolute project = true)
    (hdirectory : directory ∈ ancestors project)
    (h : Nearest files (parts project) (parts directory) name) :
    (ancestors project).findSome? (inDirectory? fun path => files (parts path)) =
      some (join directory name.toList) := by
  cases hfound : (ancestors project).findSome? (inDirectory? fun path => files (parts path)) with
  | none =>
    have habs := isAbsolute_of_mem_ancestors hproject hdirectory
    have hnone := List.findSome?_eq_none_iff.mp hfound directory hdirectory
    have hfree := (inDirectory?_eq_none_iff habs).mp hnone name h.named
    rw [h.holds] at hfree
    cases hfree
  | some path =>
    obtain ⟨other, hother, name', h', rfl⟩ := nearest_of_findSome? hproject hfound
    obtain ⟨hparts, rfl⟩ := h'.unique h
    rw [eq_of_mem_ancestors hproject hother hdirectory hparts]

theorem findSome?_eq_none_iff (hproject : isAbsolute project = true) :
    (ancestors project).findSome? (inDirectory? fun path => files (parts path)) = none ↔
      ∀ d name, ¬ Nearest files (parts project) d name := by
  constructor
  · intro hnone d name h
    obtain ⟨directory, hdirectory, rfl⟩ := (exists_ancestor_iff hproject).mpr ⟨h.ne_nil, h.above⟩
    rw [findSome?_of_nearest hproject hdirectory h] at hnone
    cases hnone
  · intro hnone
    by_contra hsome
    obtain ⟨path, hpath⟩ := Option.ne_none_iff_exists'.mp hsome
    obtain ⟨directory, -, name, h, -⟩ := nearest_of_findSome? hproject hpath
    exact hnone _ _ h

/-! ### All sources -/

/-- **The source that is taken is the one that ought to be taken.** -/
theorem choose_eq_iff (hproject : isAbsolute project = true) :
    choose (fun path => files (parts path)) project explicit? global? = c ↔
      Picks files project explicit? global? c := by
  constructor
  · rintro rfl
    cases explicit? with
    | some path => exact .explicit path global?
    | none =>
      unfold choose
      cases hfound :
        (ancestors project).findSome? (inDirectory? fun path => files (parts path)) with
      | some path =>
        obtain ⟨directory, hdirectory, name, h, rfl⟩ := nearest_of_findSome? hproject hfound
        exact .project global? hdirectory h
      | none =>
        have hnone := (findSome?_eq_none_iff hproject).mp hfound
        cases global? with
        | none => exact .builtIn hnone nofun
        | some own =>
          simp only [Option.map_some, Option.filter_some]
          cases hfile : files (parts (join own globalName.toList)) with
          | true => exact .global hnone hfile
          | false => exact .builtIn hnone fun _ hown => Option.some.inj hown ▸ hfile
  · intro h
    cases h with
    | explicit path => rfl
    | project global? hdirectory h => rw [choose, findSome?_of_nearest hproject hdirectory h]
    | global hnone hfile =>
      rw [choose, (findSome?_eq_none_iff hproject).mpr hnone]
      simp only [Option.map_some, Option.filter_some, hfile, if_true]
    | builtIn hnone hfile =>
      rw [choose, (findSome?_eq_none_iff hproject).mpr hnone]
      cases global? with
      | none => rfl
      | some own =>
        simp only [Option.map_some, Option.filter_some, hfile own rfl, Bool.false_eq_true, if_false]

/-! ### Further configuration files -/

theorem entry_inj {d d' : List PathPart} {name name' : String} (h : entry d name = entry d' name') :
    d = d' :=
  (List.append_inj' h rfl).1

/-- A file in one directory changes nothing in another. -/
theorem withFile_entry {d d' : List PathPart} (h : d ≠ d') (name other : String) :
    withFile files (entry d' other) (entry d name) = files (entry d name) := by
  have hne : (entry d name == entry d' other) = false :=
    beq_eq_false_iff_ne.mpr fun heq => h (entry_inj heq)
  rw [withFile, hne, Bool.false_or]

/-- The nearest file stays so as long as nothing changes in its directory and in longer ones. -/
theorem Nearest.congr {files' : List PathPart → Bool} {project : List PathPart}
    (h : Nearest files project d name)
    (hsame : ∀ other, other <+: project → d.length ≤ other.length → ∀ name ∈ projectNames,
      files' (entry other name) = files (entry other name)) :
    Nearest files' project d name where
  ne_nil := h.ne_nil
  above := h.above
  named := h.named
  holds := (hsame d h.above (Nat.le_refl _) name h.named).trans h.holds
  longest := by
    intro other hother hlonger m hm
    rw [hsame other hother (Nat.le_of_lt hlonger) m hm]
    exact h.longest other hother hlonger m hm
  preferred := by
    intro hplain
    rw [hsame d h.above (Nat.le_refl _) _ (mem_projectNames.mpr (.inl rfl))] at hplain
    exact h.preferred hplain

/-- A directory is out of the way: it is not at or above the project, or it is shorter than the
one with the nearest file. -/
def OutOfTheWay (files : List PathPart → Bool) (project d : List PathPart) : Prop :=
  ¬ d <+: project ∨ ∃ nearest name, Nearest files project nearest name ∧ d.length < nearest.length

/-- **A file out of the way is not the nearest one**, and does not hide it. -/
theorem nearest_withFile_iff {project added : List PathPart} {other : String}
    (hadded : OutOfTheWay files project added) :
    Nearest (withFile files (entry added other)) project d name ↔ Nearest files project d name := by
  rcases hadded with hoff | ⟨nearest, own, h, hshorter⟩
  · have hne : ∀ {e : List PathPart}, e <+: project → e ≠ added := fun he heq => hoff (heq ▸ he)
    constructor
    · exact fun h => h.congr fun e he _ m _ => (withFile_entry (hne he) m other).symm
    · exact fun h => h.congr fun e he _ m _ => withFile_entry (hne he) m other
  · -- the nearest file is the same one with and without it
    have h' : Nearest (withFile files (entry added other)) project nearest own := by
      refine h.congr fun e _ hle m _ => withFile_entry ?_ m other
      rintro rfl
      omega
    constructor
    · intro hnearest
      obtain ⟨rfl, rfl⟩ := hnearest.unique h'
      exact h
    · intro hnearest
      obtain ⟨rfl, rfl⟩ := hnearest.unique h
      exact h'

theorem isName_globalName : IsName globalName.toList := by decide

/-- No configuration file of a project is the user's own one. -/
theorem withFile_global (hname : name ∈ projectNames) (own : Text) :
    withFile files (entry d name) (parts (join own globalName.toList)) =
      files (parts (join own globalName.toList)) := by
  have hne : (parts (join own globalName.toList) == entry d name) = false := by
    refine beq_eq_false_iff_ne.mpr fun heq => ?_
    have hlast := congrArg List.getLast? heq
    rw [getLast?_parts_join own isName_globalName, entry, List.getLast?_concat] at hlast
    rcases mem_projectNames.mp hname with rfl | rfl
    · exact absurd hlast (by decide)
    · exact absurd hlast (by decide)
  rw [withFile, hne, Bool.false_or]

theorem picks_withFile_iff (hname : name ∈ projectNames)
    (hadded : OutOfTheWay files (parts project) d) :
    Picks (withFile files (entry d name)) project explicit? global? c ↔
      Picks files project explicit? global? c := by
  have hnearest : ∀ d' name', Nearest (withFile files (entry d name)) (parts project) d' name' ↔
      Nearest files (parts project) d' name' := fun _ _ => nearest_withFile_iff hadded
  constructor
  · intro h
    cases h with
    | explicit path => exact .explicit path _
    | project _ hdirectory h => exact .project _ hdirectory ((hnearest _ _).mp h)
    | global hnone hfile =>
      exact .global (fun d' name' h => hnone d' name' ((hnearest _ _).mpr h))
        ((withFile_global hname _).symm.trans hfile)
    | builtIn hnone hfile =>
      exact .builtIn (fun d' name' h => hnone d' name' ((hnearest _ _).mpr h))
        fun own hown => (withFile_global hname own).symm.trans (hfile own hown)
  · intro h
    cases h with
    | explicit path => exact .explicit path _
    | project _ hdirectory h => exact .project _ hdirectory ((hnearest _ _).mpr h)
    | global hnone hfile =>
      exact .global (fun d' name' h => hnone d' name' ((hnearest _ _).mp h))
        ((withFile_global hname _).trans hfile)
    | builtIn hnone hfile =>
      exact .builtIn (fun d' name' h => hnone d' name' ((hnearest _ _).mp h))
        fun own hown => (withFile_global hname own).trans (hfile own hown)

/-- **The nearest configuration is taken.**  Whatever files there are, the source of a run is the
file that the user names, else the nearest configuration file at or above the project, else the
user's own file, else the built-in settings.  A configuration file that is put into a directory
which is not at or above the project, or further above than the nearest one, changes nothing. -/
theorem choose_nearest (files : List PathPart → Bool) (hproject : isAbsolute project = true)
    (explicit? global? : Option Text) :
    (∀ c, choose (fun path => files (parts path)) project explicit? global? = c ↔
      Picks files project explicit? global? c) ∧
    ∀ d, OutOfTheWay files (parts project) d → ∀ name ∈ projectNames,
      choose (fun path => withFile files (entry d name) (parts path)) project explicit? global? =
        choose (fun path => files (parts path)) project explicit? global? := by
  refine ⟨fun c => choose_eq_iff hproject, fun d hadded name hname => ?_⟩
  rw [choose_eq_iff hproject, picks_withFile_iff hname hadded]
  exact (choose_eq_iff hproject).mp rfl

/-- A project with configuration files in two directories above it, both names in the nearer
one: a third file, still further above, does not matter. -/
theorem choose_nearest_two :
    isAbsolute "/w/project/src/module".toList = true ∧
      choose (fun path => withFile
          (fun file => [parts "/w/project/src/.bsl-lint.toml".toList,
            parts "/w/project/src/bsl-lint.toml".toList,
            parts "/w/project/bsl-lint.toml".toList].contains file)
          (entry (parts "/w".toList) plainName) (parts path))
        "/w/project/src/module".toList none (some "/home/settings".toList) =
          .project "/w/project/src/bsl-lint.toml".toList := by
  have hproject : isAbsolute "/w/project/src/module".toList = true := by decide
  refine ⟨hproject, ?_⟩
  have hnearest : Nearest (fun file => [parts "/w/project/src/.bsl-lint.toml".toList,
        parts "/w/project/src/bsl-lint.toml".toList,
        parts "/w/project/bsl-lint.toml".toList].contains file)
      (parts "/w/project/src/module".toList) (parts "/w/project/src".toList) plainName := by
    refine ⟨by decide +kernel, by decide +kernel, by decide, by decide +kernel, ?_, fun _ => rfl⟩
    -- the only longer directory is the project itself
    intro d hd hlonger
    obtain rfl : d = parts "/w/project/src/module".toList := by
      refine hd.eq_of_length (Nat.le_antisymm hd.length_le ?_)
      exact (by decide +kernel : (parts "/w/project/src/module".toList).length =
        (parts "/w/project/src".toList).length + 1) ▸ hlonger
    decide +kernel
  obtain ⟨hpicks, hsame⟩ := choose_nearest _ hproject none (some "/home/settings".toList)
  rw [hsame _ (.inr ⟨_, _, hnearest, by decide +kernel⟩) _ (mem_projectNames.mpr (.inl rfl)),
    hpicks]
  exact .project _ (by decide +kernel) hnearest

/-! ### A tree of files -/

/-- Whether the parts of a path lead to a file. -/
def fileAt (s : Surroundings) (place : List PathPart) : Bool :=
  let steps :=
    if place.head? = some .root then place
    else parts s.directory ++ place.filter fun part => part != .current
  match s.files.follow steps [] with
  | .ok names => ((s.files.at? names.reverse).map FileEntry.isFile).getD false
  | .error _ => false

/-- What segments stand for is never a `.` that counts. -/
theorem filter_named (segs : List (List Char)) :
    (named segs).filter (fun part => part != .current) = named segs := by
  refine List.filter_eq_self.mpr fun part hpart => ?_
  obtain ⟨s, -, rfl⟩ := List.mem_map.mp hpart
  unfold partOf
  split
  · rfl
  · rfl

/-- The parts of a path seen from the root are the steps that lead to it. -/
theorem parts_absolute (s : Surroundings) (hs : isAbsolute s.directory = true) (path : Text) :
    parts (s.absolute path) =
      if (parts path).head? = some .root then parts path
      else parts s.directory ++ (parts path).filter fun part => part != .current := by
  by_cases habs : isAbsolute path = true
  · rw [if_pos (isAbsolute_iff_head?.mp habs), Surroundings.absolute, join, if_pos habs]
  · rw [if_neg (isAbsolute_iff_head?.not.mp habs), Surroundings.absolute,
      parts_join hs (Bool.eq_false_iff.mpr habs), parts_eq path, List.filter_append, filter_named]
    have horigin : (origin path).filter (fun part => part != .current) = [] := by
      rw [origin, if_neg habs]
      split
      · rfl
      · rfl
    rw [horigin, List.nil_append]

/-- **A file under a name** is found by the parts of its path. -/
theorem isFile_join (s : Surroundings) (hs : isAbsolute s.directory = true) (d : Text)
    {name : List Char} (hname : IsName name) :
    s.isFile (join d name) = fileAt s (parts (join d name)) := by
  have hlast : (segments (s.absolute (join d name))).getLast? = some name := by
    by_cases habs : isAbsolute (join d name) = true
    · rw [Surroundings.absolute, join, if_pos habs]
      exact getLast?_segments_join d hname
    · obtain ⟨front, hfront⟩ := exists_segments_join s.directory (Bool.eq_false_iff.mpr habs)
      rw [Surroundings.absolute, hfront, List.getLast?_append, getLast?_segments_join d hname]
      rfl
  -- a path that ends in a name may lead to a file
  have hdemands : FileEntry.demandsDirectory (s.absolute (join d name)) = false := by
    rw [FileEntry.demandsDirectory, hlast]
    simp [isIdle, hname.ne_nil, hname.ne_current]
  rw [Surroundings.isFile, Surroundings.resolve, FileEntry.resolve, parts_absolute s hs, fileAt]
  simp only
  cases s.files.follow _ [] with
  | error problem => rfl
  | ok names =>
    simp only [bind, Except.bind]
    cases s.files.at? names.reverse with
    | none => rfl
    | some found => simp [hdemands]

/-- Only what lies under a name in some directory is looked for. -/
theorem choose_congr (isFile isFile' : Text → Bool)
    (h : ∀ d name, IsName name → isFile (join d name) = isFile' (join d name)) :
    choose isFile project explicit? global? = choose isFile' project explicit? global? := by
  have hdirectory : inDirectory? isFile = inDirectory? isFile' := by
    funext directory
    show [join directory plainName.toList, join directory dottedName.toList].find? _ =
      [join directory plainName.toList, join directory dottedName.toList].find? _
    rw [List.find?_cons, List.find?_cons, List.find?_cons, List.find?_cons,
      h _ _ (isName_of_mem_projectNames (mem_projectNames.mpr (.inl rfl))),
      h _ _ (isName_of_mem_projectNames (mem_projectNames.mpr (.inr rfl)))]
    rfl
  have hglobal : (global?.map fun d => join d globalName.toList).filter isFile =
      (global?.map fun d => join d globalName.toList).filter isFile' := by
    cases global? with
    | none => rfl
    | some own =>
      rw [Option.map_some, Option.filter_some, Option.filter_some, h _ _ isName_globalName]
  unfold choose
  rw [hdirectory, hglobal]

/-- **The source of a run** over a project that is there is looked for where it really lies. -/
theorem find_eq_iff (s : Surroundings) (hs : isAbsolute s.directory = true)
    {place : List (List Char)} {e : FileEntry} (hplace : s.resolve project = .ok (place, e)) :
    find s project explicit? = c ↔
      Picks (fileAt s) (ofNames place) explicit? (globalDirectory? s) c := by
  rw [find, hplace]
  simp only
  rw [choose_congr s.isFile (fun path => fileAt s (parts path))
    fun d name hname => isFile_join s hs d hname]
  exact choose_eq_iff rfl

end ConfigSource

end ModuleLint
