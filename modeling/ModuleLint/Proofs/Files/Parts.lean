/-
ModuleLint/Proofs/Files/Parts.lean

What paths are made of.  The parts of a path are where it starts (the root, or a `.` that
counts) and then what its segments stand for, those that add nothing left out
(`parts_eq`).  So all that is done to the text of a path is told by the parts:

    join d t           the parts of d, then those of t             (parts_join)
    parent? t          the parts of t without the last one         (parts_of_parent?)
    ancestors t        each prefix of the parts of t but the empty one, the longest first
                                     (exists_ancestor_iff, pairwise_ancestors)
    relative root t    the parts of t behind those of the root     (named_relative)

All of them are about absolute paths, and the last one about a path at or below the root;
joined with the root it leads back to the same place (`parts_join_relative`).
-/
import Mathlib.Data.List.DropRight
import Mathlib.Data.List.Nodup
import ModuleLint.Files.Path

namespace ModuleLint

namespace Path

variable {d p q root s t : Text} {segs more : List (List Char)} {name : List Char} {n : Nat}

/-! ### Segments -/

theorem segments_ne_nil (t : Text) : segments t ≠ [] := List.splitOn_ne_nil '/' t

theorem segments_append (s t : Text) : segments (s ++ '/' :: t) = segments s ++ segments t :=
  List.splitOn_append_cons_self ..

/-- No segment holds a slash. -/
theorem notMem_of_mem_segments (h : s ∈ segments t) : '/' ∉ s := by
  induction t generalizing s with
  | nil =>
    rw [List.mem_singleton.mp h]
    exact List.not_mem_nil
  | cons c t ih =>
    obtain ⟨first, others, hsplit⟩ := List.exists_cons_of_ne_nil (segments_ne_nil t)
    have hcons : segments (c :: t) =
        if (c == '/') = true then [] :: segments t else (c :: first) :: others := by
      rw [segments, List.splitOn_cons_eq_if_modifyHead, ← segments, hsplit, List.modifyHead_cons]
    rw [hcons] at h
    split at h
    · rcases List.mem_cons.mp h with rfl | h
      · exact List.not_mem_nil
      · exact ih h
    · rename_i hc
      rcases List.mem_cons.mp h with rfl | h
      · rw [List.mem_cons, not_or]
        refine ⟨fun hslash => hc (beq_iff_eq.mpr hslash.symm), ih ?_⟩
        rw [hsplit]
        exact List.mem_cons_self
      · apply ih
        rw [hsplit]
        exact List.mem_cons_of_mem _ h

theorem segments_joinSegments (h : ∀ s ∈ segs, '/' ∉ s) (hne : segs ≠ []) :
    segments (joinSegments segs) = segs :=
  List.splitOn_intercalate '/' h hne

/-- A text without slashes is its only segment. -/
theorem segments_of_notMem (h : '/' ∉ name) : segments name = [name] := by
  have hsingle : segments (joinSegments [name]) = [name] :=
    segments_joinSegments (by simpa using h) (List.cons_ne_nil _ _)
  simpa [joinSegments] using hsingle

/-- An absolute path begins with a slash. -/
theorem exists_of_isAbsolute (h : isAbsolute t = true) : ∃ rest, t = '/' :: rest := by
  rw [isAbsolute, beq_iff_eq] at h
  exact List.head?_eq_some_iff.mp h

/-- An absolute path begins with an empty segment. -/
theorem segments_of_isAbsolute (h : isAbsolute t = true) : ∃ rest, segments t = [] :: rest := by
  obtain ⟨rest, rfl⟩ := exists_of_isAbsolute h
  exact ⟨segments rest, segments_append [] rest⟩

/-- There are no more segments than characters, and one. -/
theorem length_segments_le (t : Text) : (segments t).length ≤ t.length + 1 := by
  induction t with
  | nil => exact Nat.le_refl 1
  | cons c t ih =>
    rw [segments, List.splitOn_cons_eq_if_modifyHead, ← segments, List.length_cons]
    split
    · rw [List.length_cons]
      omega
    · rw [List.length_modifyHead]
      omega

/-! ### Parts -/

/-- **What segments stand for**, those that add nothing left out. -/
def named (segs : List (List Char)) : List PathPart := (segs.filter fun s => !isIdle s).map partOf

/-- Where a path starts. -/
def origin (t : Text) : List PathPart :=
  if isAbsolute t then [.root] else if (segments t).head? = some ['.'] then [.current] else []

theorem named_append (segs more : List (List Char)) :
    named (segs ++ more) = named segs ++ named more := by
  rw [named, List.filter_append, List.map_append]
  rfl

theorem named_cons_of_idle (h : isIdle s = true) : named (s :: segs) = named segs := by
  rw [named, List.filter_cons_of_neg (by simp [h])]
  rfl

theorem named_cons_of_not_idle (h : isIdle s = false) :
    named (s :: segs) = partOf s :: named segs := by
  rw [named, List.filter_cons_of_pos (by simp [h])]
  rfl

theorem named_eq_nil_iff : named segs = [] ↔ ∀ s ∈ segs, isIdle s = true := by
  simp [named, List.filter_eq_nil_iff]

/-- **The parts of a path**: where it starts, and what its segments stand for. -/
theorem parts_eq (t : Text) : parts t = origin t ++ named (segments t) := by
  obtain ⟨first, rest, hsegments⟩ := List.exists_cons_of_ne_nil (segments_ne_nil t)
  rw [parts, origin, hsegments]
  simp only [List.head?_cons, Option.some.injEq, beq_iff_eq]
  by_cases habs : isAbsolute t = true
  · obtain ⟨_, habsolute⟩ := segments_of_isAbsolute habs
    obtain ⟨rfl, -⟩ := List.cons.inj (hsegments.symm.trans habsolute)
    rw [if_pos habs, if_pos habs, named_cons_of_idle rfl]
    rfl
  · rw [if_neg habs, if_neg habs]
    by_cases hdot : first = ['.']
    · rw [if_pos hdot, if_pos hdot, named_cons_of_idle (by rw [hdot]; rfl)]
      rfl
    · rw [if_neg hdot, if_neg hdot]
      by_cases hempty : first = []
      · rw [if_pos hempty, named_cons_of_idle (by rw [hempty]; rfl)]
        rfl
      · rw [if_neg hempty, named_cons_of_not_idle (by simp [isIdle, hdot, hempty])]
        rfl

theorem parts_of_isAbsolute (h : isAbsolute t = true) : parts t = .root :: named (segments t) := by
  rw [parts_eq, origin, if_pos h]
  rfl

/-- A path is absolute if and only if its first part is the root. -/
theorem isAbsolute_iff_head? : isAbsolute t = true ↔ (parts t).head? = some .root := by
  constructor
  · intro h
    rw [parts_of_isAbsolute h, List.head?_cons]
  · intro h
    by_contra habs
    rw [parts_eq, origin, if_neg habs] at h
    split at h
    · cases h
    · obtain ⟨s, -, hs⟩ := List.mem_map.mp (List.mem_of_head? h)
      unfold partOf at hs
      split at hs
      · cases hs
      · cases hs

/-- The name of a file or directory: it is not empty, holds no slash, and is neither `.` nor
`..`. -/
structure IsName (name : List Char) : Prop where
  notMem : '/' ∉ name
  ne_nil : name ≠ []
  ne_current : name ≠ ['.']
  ne_parent : name ≠ ['.', '.']

instance (name : List Char) : Decidable (IsName name) :=
  decidable_of_iff ('/' ∉ name ∧ name ≠ [] ∧ name ≠ ['.'] ∧ name ≠ ['.', '.'])
    ⟨fun ⟨h, h', h'', h'''⟩ => ⟨h, h', h'', h'''⟩,
      fun h => ⟨h.notMem, h.ne_nil, h.ne_current, h.ne_parent⟩⟩

theorem named_segments_of_isName (h : IsName name) : named (segments name) = [.name name] := by
  have hidle : isIdle name = false := by simp [isIdle, h.ne_nil, h.ne_current]
  rw [segments_of_notMem h.notMem, named_cons_of_not_idle hidle, partOf,
    if_neg (by simpa using h.ne_parent)]
  rfl

/-- A name does not begin with a slash. -/
theorem IsName.not_isAbsolute (h : IsName name) : isAbsolute name = false := by
  rw [isAbsolute, beq_eq_false_iff_ne]
  intro hhead
  obtain ⟨rest, rfl⟩ := List.head?_eq_some_iff.mp hhead
  exact h.notMem List.mem_cons_self

/-! ### Joining -/

theorem isAbsolute_join (h : isAbsolute d = true) (t : Text) : isAbsolute (join d t) = true := by
  obtain ⟨rest, rfl⟩ := exists_of_isAbsolute h
  unfold join
  split
  · assumption
  · split
    · rfl
    · rfl

/-- **The parts of what is joined** are those of the directory and then those of the path. -/
theorem parts_join (hd : isAbsolute d = true) (ht : isAbsolute t = false) :
    parts (join d t) = parts d ++ named (segments t) := by
  rw [parts_of_isAbsolute (isAbsolute_join hd t), parts_of_isAbsolute hd, List.cons_append,
    ← named_append, join, ht]
  obtain ⟨rest, rfl⟩ := exists_of_isAbsolute hd
  by_cases hslash : ('/' :: rest).getLast? = some '/'
  · -- the slash at the end of the directory stands between the two
    obtain ⟨front, hfront⟩ := List.getLast?_eq_some_iff.mp hslash
    have hsplit : '/' :: rest ++ t = front ++ '/' :: t := by rw [hfront, List.append_assoc]; rfl
    simp only [hslash, beq_self_eq_true, Bool.or_true, if_true, Bool.false_eq_true, if_false]
    rw [hsplit, hfront, segments_append, segments_append, named_append, named_append, named_append]
    have hidle : named (segments []) = [] := rfl
    rw [hidle, List.append_nil]
  · simp only [beq_eq_false_iff_ne.mpr hslash, List.isEmpty_cons, Bool.or_self, Bool.false_eq_true,
      if_false]
    rw [segments_append]

theorem parts_join_name (hd : isAbsolute d = true) (hname : IsName name) :
    parts (join d name) = parts d ++ [.name name] := by
  rw [parts_join hd hname.not_isAbsolute, named_segments_of_isName hname]

/-- The segments of what is joined come last, whatever it is joined with. -/
theorem exists_segments_join (d : Text) (ht : isAbsolute t = false) :
    ∃ front, segments (join d t) = front ++ segments t := by
  rw [join, ht]
  simp only [Bool.false_eq_true, if_false, Bool.or_eq_true, List.isEmpty_iff, beq_iff_eq]
  split
  · rename_i h
    rcases h with rfl | hslash
    · exact ⟨[], rfl⟩
    · obtain ⟨front, rfl⟩ := List.getLast?_eq_some_iff.mp hslash
      refine ⟨segments front, ?_⟩
      rw [List.append_assoc]
      exact segments_append front t
  · exact ⟨segments d, segments_append d t⟩

/-- A name that is joined is the last segment, -/
theorem getLast?_segments_join (d : Text) (hname : IsName name) :
    (segments (join d name)).getLast? = some name := by
  obtain ⟨front, hfront⟩ := exists_segments_join d hname.not_isAbsolute
  rw [hfront, segments_of_notMem hname.notMem, List.getLast?_concat]

/-- and the last part. -/
theorem getLast?_parts_join (d : Text) (hname : IsName name) :
    (parts (join d name)).getLast? = some (.name name) := by
  obtain ⟨front, hfront⟩ := exists_segments_join d hname.not_isAbsolute
  rw [parts_eq, hfront, named_append, named_segments_of_isName hname, ← List.append_assoc,
    List.getLast?_concat]

/-! ### Segments that add nothing -/

theorem named_dropWhile_idle (segs : List (List Char)) :
    named (segs.dropWhile isIdle) = named segs := by
  induction segs with
  | nil => rfl
  | cons s segs ih =>
    rw [List.dropWhile_cons]
    split
    · rename_i hidle
      rw [ih, named_cons_of_idle hidle]
    · rfl

/-- Behind segments that add nothing comes one that does. -/
theorem head_dropWhile_idle (h : segs.dropWhile isIdle = s :: more) : isIdle s = false := by
  have hhead := List.head?_dropWhile_not isIdle segs
  rw [h] at hhead
  simpa using hhead

theorem trimIdleEnd_eq (segs : List (List Char)) : trimIdleEnd segs = segs.rdropWhile isIdle := rfl

theorem prefix_trimIdleEnd (segs : List (List Char)) : trimIdleEnd segs <+: segs :=
  List.rdropWhile_prefix isIdle segs

theorem trimIdleEnd_eq_nil_iff : trimIdleEnd segs = [] ↔ named segs = [] := by
  rw [trimIdleEnd_eq, List.rdropWhile_eq_nil_iff, named_eq_nil_iff]

theorem named_trimIdleEnd (segs : List (List Char)) : named (trimIdleEnd segs) = named segs := by
  induction segs using List.reverseRecOn with
  | nil => rfl
  | append_singleton segs s ih =>
    rw [trimIdleEnd_eq, List.rdropWhile_concat]
    split
    · rename_i hidle
      rw [← trimIdleEnd_eq, ih, named_append, named_cons_of_idle hidle]
      exact (List.append_nil _).symm
    · rfl

/-- What is left ends in a segment that stands for the last part. -/
theorem named_dropLast_trimIdleEnd (segs : List (List Char)) :
    named (trimIdleEnd segs).dropLast = (named segs).dropLast := by
  rw [← named_trimIdleEnd segs]
  rcases List.eq_nil_or_concat' (trimIdleEnd segs) with hnil | ⟨front, last, hlast⟩
  · rw [hnil]
    rfl
  · have hidle : isIdle last = false := by
      have hne : segs.rdropWhile isIdle ≠ [] := by
        rw [← trimIdleEnd_eq, hlast]
        exact List.append_ne_nil_of_right_ne_nil _ (List.cons_ne_nil _ _)
      have hnot := List.rdropWhile_last_not isIdle segs hne
      simpa [← trimIdleEnd_eq, hlast] using hnot
    rw [hlast, List.dropLast_concat, named_append, named_cons_of_not_idle hidle]
    exact List.dropLast_concat.symm

/-! ### Parents -/

/-- What the parent of an absolute path is, by the segments behind the first slash. -/
theorem parent?_of_isAbsolute {rest : List (List Char)} (h : segments t = [] :: rest) :
    parent? t = if trimIdleEnd rest = [] then none
      else if trimIdleEnd (trimIdleEnd rest).dropLast = [] then some ['/']
      else some (joinSegments ([] :: trimIdleEnd (trimIdleEnd rest).dropLast)) := by
  rw [parent?, h]
  simp only
  cases htrim : trimIdleEnd rest with
  | nil => rfl
  | cons first others => simp

/-- The root has no parent, and what has none is the root. -/
theorem parent?_eq_none_iff (ht : isAbsolute t = true) : parent? t = none ↔ parts t = [.root] := by
  obtain ⟨rest, hrest⟩ := segments_of_isAbsolute ht
  rw [parent?_of_isAbsolute hrest, parts_of_isAbsolute ht, hrest, named_cons_of_idle rfl,
    List.cons_eq_cons, and_iff_right rfl, ← trimIdleEnd_eq_nil_iff]
  split
  · rename_i hnil
    exact iff_of_true rfl hnil
  · rename_i hne
    refine iff_of_false ?_ hne
    split
    · exact Option.some_ne_none _
    · exact Option.some_ne_none _

/-- **The parent of a path** is absolute too and has the parts of the path without the last. -/
theorem parts_of_parent? (ht : isAbsolute t = true) (h : parent? t = some p) :
    isAbsolute p = true ∧ parts p = (parts t).dropLast := by
  obtain ⟨rest, hrest⟩ := segments_of_isAbsolute ht
  have hnone : named rest ≠ [] := by
    rw [Ne, ← trimIdleEnd_eq_nil_iff]
    intro hnil
    rw [parent?_of_isAbsolute hrest, if_pos hnil] at h
    cases h
  have hlast : (parts t).dropLast = .root :: named (trimIdleEnd (trimIdleEnd rest).dropLast) := by
    rw [named_trimIdleEnd, named_dropLast_trimIdleEnd, parts_of_isAbsolute ht, hrest,
      named_cons_of_idle rfl, List.dropLast_cons_of_ne_nil hnone]
  rw [parent?_of_isAbsolute hrest, if_neg (trimIdleEnd_eq_nil_iff.not.mpr hnone)] at h
  rw [hlast]
  split at h
  · rename_i hnil
    obtain rfl := Option.some.inj h
    rw [hnil]
    exact ⟨rfl, rfl⟩
  · rename_i hne
    obtain rfl := Option.some.inj h
    obtain ⟨first, others, hkept⟩ := List.exists_cons_of_ne_nil hne
    -- the segments that are kept are segments of the path, so they hold no slash
    have hslash : ∀ s ∈ [] :: trimIdleEnd (trimIdleEnd rest).dropLast, '/' ∉ s := by
      intro s hs
      rcases List.mem_cons.mp hs with rfl | hs
      · exact List.not_mem_nil
      · apply notMem_of_mem_segments (t := t)
        rw [hrest]
        have hmem := (List.dropLast_prefix _).subset ((prefix_trimIdleEnd _).subset hs)
        exact List.mem_cons_of_mem _ ((prefix_trimIdleEnd _).subset hmem)
    have habs : isAbsolute (joinSegments ([] :: trimIdleEnd (trimIdleEnd rest).dropLast)) =
        true := by
      rw [hkept]
      rfl
    refine ⟨habs, ?_⟩
    rw [parts_of_isAbsolute habs, segments_joinSegments hslash (List.cons_ne_nil _ _),
      named_cons_of_idle rfl]

/-! ### Ancestors -/

theorem parts_ne_nil (ht : isAbsolute t = true) : parts t ≠ [] := by
  rw [parts_of_isAbsolute ht]
  exact List.cons_ne_nil _ _

/-- An absolute path has no more parts than characters, and one. -/
theorem length_parts_le (ht : isAbsolute t = true) : (parts t).length ≤ t.length + 1 := by
  obtain ⟨rest, hrest⟩ := segments_of_isAbsolute ht
  have hlength := length_segments_le t
  have hfilter := List.length_filter_le (fun s => !isIdle s) rest
  rw [parts_of_isAbsolute ht, hrest, named_cons_of_idle rfl, named, List.length_cons,
    List.length_map]
  rw [hrest, List.length_cons] at hlength
  omega

/-- Going up leads to absolute paths whose parts are fewer and fewer. -/
theorem pairwise_withParents (ht : isAbsolute t = true) (n : Nat) :
    (∀ a ∈ withParents n t, isAbsolute a = true ∧ (parts a).length ≤ (parts t).length) ∧
      (withParents n t).Pairwise fun a b => (parts b).length < (parts a).length := by
  induction n generalizing t with
  | zero => exact ⟨nofun, List.Pairwise.nil⟩
  | succ n ih =>
    rw [withParents]
    cases hp : parent? t with
    | none =>
      refine ⟨fun a ha => ?_, List.pairwise_singleton _ _⟩
      obtain rfl := List.mem_singleton.mp ha
      exact ⟨ht, Nat.le_refl _⟩
    | some p =>
      obtain ⟨habs, hparts⟩ := parts_of_parent? ht hp
      obtain ⟨hall, hpairwise⟩ := ih habs
      have hshorter : (parts p).length < (parts t).length := by
        have hpos := List.length_pos_iff.mpr (parts_ne_nil ht)
        rw [hparts, List.length_dropLast]
        omega
      refine ⟨fun a ha => ?_, hpairwise.cons fun a ha => ?_⟩
      · rcases List.mem_cons.mp ha with rfl | ha
        · exact ⟨ht, Nat.le_refl _⟩
        · exact ⟨(hall a ha).1, (hall a ha).2.trans hshorter.le⟩
      · exact Nat.lt_of_le_of_lt (hall a ha).2 hshorter

/-- Going up far enough leads to each prefix of the parts, and to nothing else. -/
theorem exists_withParents_iff (ht : isAbsolute t = true) (hn : (parts t).length ≤ n)
    {e : List PathPart} :
    (∃ a ∈ withParents n t, parts a = e) ↔ e ≠ [] ∧ e <+: parts t := by
  induction n generalizing t with
  | zero => exact absurd (List.eq_nil_of_length_eq_zero (Nat.le_zero.mp hn)) (parts_ne_nil ht)
  | succ n ih =>
    rw [withParents]
    cases hp : parent? t with
    | none =>
      -- at the root there is one prefix that is not empty
      rw [(parent?_eq_none_iff ht).mp hp]
      constructor
      · rintro ⟨a, ha, rfl⟩
        rw [List.mem_singleton.mp ha]
        exact ⟨parts_ne_nil ht, (parent?_eq_none_iff ht).mp hp ▸ List.prefix_rfl⟩
      · rintro ⟨hne, hbegins⟩
        refine ⟨t, List.mem_singleton_self t, ?_⟩
        have hroot : e = [] ++ [PathPart.root] ∨ e <+: [] := List.prefix_concat_iff.mp hbegins
        rw [(parent?_eq_none_iff ht).mp hp]
        exact (hroot.resolve_right fun hnil => hne (List.prefix_nil.mp hnil)).symm
    | some p =>
      obtain ⟨habs, hparts⟩ := parts_of_parent? ht hp
      have hlength : (parts p).length ≤ n := by
        rw [hparts, List.length_dropLast]
        omega
      have hsplit : parts t = parts p ++ [(parts t).getLast (parts_ne_nil ht)] := by
        rw [hparts, List.dropLast_concat_getLast]
      have hrest := ih habs hlength
      constructor
      · rintro ⟨a, ha, rfl⟩
        rcases List.mem_cons.mp ha with rfl | ha
        · exact ⟨parts_ne_nil ht, List.prefix_rfl⟩
        · obtain ⟨hne, hbegins⟩ := hrest.mp ⟨a, ha, rfl⟩
          exact ⟨hne, hbegins.trans (hparts ▸ List.dropLast_prefix _)⟩
      · rintro ⟨hne, hbegins⟩
        rw [hsplit] at hbegins
        rcases List.prefix_concat_iff.mp hbegins with hself | hbegins
        · exact ⟨t, List.mem_cons_self, hsplit.trans hself.symm⟩
        · obtain ⟨a, ha, hparts⟩ := hrest.mpr ⟨hne, hbegins⟩
          exact ⟨a, List.mem_cons_of_mem t ha, hparts⟩

/-- **Ancestors are absolute** and come with fewer and fewer parts. -/
theorem isAbsolute_of_mem_ancestors (ht : isAbsolute t = true) (h : p ∈ ancestors t) :
    isAbsolute p = true :=
  ((pairwise_withParents ht _).1 p h).1

theorem pairwise_ancestors (ht : isAbsolute t = true) :
    (ancestors t).Pairwise fun a b => (parts b).length < (parts a).length :=
  (pairwise_withParents ht _).2

/-- No two ancestors have the same parts. -/
theorem eq_of_mem_ancestors (ht : isAbsolute t = true) (hp : p ∈ ancestors t) (hq : q ∈ ancestors t)
    (h : parts p = parts q) : p = q := by
  have hnodup : ((ancestors t).map parts).Nodup := by
    refine List.pairwise_map.mpr ((pairwise_ancestors ht).imp fun hlt heq => ?_)
    rw [heq] at hlt
    exact Nat.lt_irrefl _ hlt
  exact List.inj_on_of_nodup_map hnodup hp hq h

/-- **The ancestors of a path** are one for each prefix of its parts that is not empty. -/
theorem exists_ancestor_iff (ht : isAbsolute t = true) {e : List PathPart} :
    (∃ a ∈ ancestors t, parts a = e) ↔ e ≠ [] ∧ e <+: parts t :=
  exists_withParents_iff ht (length_parts_le ht)

/-! ### Relative paths -/

theorem named_dropParts (n : Nat) (segs : List (List Char)) :
    named (dropParts n segs) = (named segs).drop n := by
  induction segs generalizing n with
  | nil => cases n <;> simp [dropParts, named]
  | cons s segs ih =>
    cases n with
    | zero => rfl
    | succ n =>
      rw [dropParts]
      split
      · rename_i hidle
        rw [ih, named_cons_of_idle hidle]
      · rename_i hidle
        rw [ih, named_cons_of_not_idle (Bool.eq_false_iff.mpr hidle), List.drop_succ_cons]

theorem dropParts_suffix (n : Nat) (segs : List (List Char)) : dropParts n segs <:+ segs := by
  induction segs generalizing n with
  | nil => cases n <;> exact List.suffix_rfl
  | cons s segs ih =>
    cases n with
    | zero => exact List.suffix_rfl
    | succ n =>
      rw [dropParts]
      split
      · exact (ih _).trans (List.suffix_cons s segs)
      · exact (ih _).trans (List.suffix_cons s segs)

/-- Segments that begin with a name are those of a path that is not absolute. -/
theorem joined_of_not_idle (hslash : ∀ s ∈ segs, '/' ∉ s)
    (hfirst : ∀ s, segs.head? = some s → isIdle s = false) :
    isAbsolute (joinSegments segs) = false ∧ parts (joinSegments segs) = named segs ∧
      named (segments (joinSegments segs)) = named segs ∧
        (joinSegments segs = [] ↔ named segs = []) := by
  cases segs with
  | nil => exact ⟨rfl, rfl, rfl, iff_of_true rfl rfl⟩
  | cons s segs =>
    have hidle := hfirst s rfl
    obtain ⟨c, word, rfl⟩ : ∃ c word, s = c :: word := by
      refine List.exists_cons_of_ne_nil fun hnil => ?_
      rw [hnil] at hidle
      cases hidle
    obtain ⟨behind, hjoined⟩ : ∃ behind, joinSegments ((c :: word) :: segs) = c :: behind := by
      cases segs with
      | nil => exact ⟨word, by simp [joinSegments]⟩
      | cons other segs => exact ⟨_, by simp [joinSegments, List.intercalate]; rfl⟩
    have hrelative : isAbsolute (joinSegments ((c :: word) :: segs)) = false := by
      rw [hjoined, isAbsolute, List.head?_cons, beq_eq_false_iff_ne, Ne, Option.some.injEq]
      rintro rfl
      exact hslash _ List.mem_cons_self List.mem_cons_self
    have hsegments := segments_joinSegments hslash (List.cons_ne_nil (c :: word) segs)
    refine ⟨hrelative, ?_, congrArg named hsegments, ?_⟩
    · have hcurrent : c :: word ≠ ['.'] := by
        intro hdot
        rw [hdot] at hidle
        cases hidle
      rw [parts_eq, origin, hrelative, hsegments, List.head?_cons, if_neg Bool.false_ne_true,
        if_neg fun h => hcurrent (Option.some.inj h), List.nil_append]
    · rw [hjoined, named_cons_of_not_idle hidle]
      exact iff_of_false (List.cons_ne_nil _ _) (List.cons_ne_nil _ _)

/-- What is left when both ends that add nothing are cut off begins with a name. -/
theorem not_idle_head_trim (h : (trimIdleEnd (segs.dropWhile isIdle)).head? = some s) :
    isIdle s = false := by
  obtain ⟨more, hmore⟩ := prefix_trimIdleEnd (segs.dropWhile isIdle)
  obtain ⟨others, hothers⟩ := List.head?_eq_some_iff.mp h
  rw [hothers] at hmore
  exact head_dropWhile_idle hmore.symm

theorem isAbsolute_of_begins (hroot : isAbsolute root = true) (h : parts root <+: parts p) :
    isAbsolute p = true := by
  obtain ⟨more, hmore⟩ := h
  rw [isAbsolute_iff_head?, ← hmore, parts_of_isAbsolute hroot]
  rfl

/-- What is left of a path are its segments behind the root, without those at both ends that add
nothing. -/
theorem relative_eq {rest : List (List Char)} (hroot : isAbsolute root = true)
    (h : parts root <+: parts p) (hrest : segments p = [] :: rest) :
    relative root p = joinSegments (trimIdleEnd
      ((dropParts ((parts root).length - 1) rest).dropWhile isIdle)) := by
  have hempty : (parts root).isEmpty = false := by
    rw [List.isEmpty_eq_false_iff]
    exact parts_ne_nil hroot
  rw [relative, relativeTo?, if_pos (List.isPrefixOf_iff_prefix.mpr h), hempty, hrest]
  simp [isAbsolute_of_begins hroot h]

/-- **A path relative to the root** is not absolute and has the parts behind those of the root;
it is empty where there are none. -/
theorem named_relative (hroot : isAbsolute root = true) (h : parts root <+: parts p) :
    isAbsolute (relative root p) = false ∧
      parts (relative root p) = (parts p).drop (parts root).length ∧
      named (segments (relative root p)) = (parts p).drop (parts root).length ∧
      (relative root p = [] ↔ parts p = parts root) := by
  have hp := isAbsolute_of_begins hroot h
  obtain ⟨rest, hrest⟩ := segments_of_isAbsolute hp
  have hnamed : named (trimIdleEnd
      ((dropParts ((parts root).length - 1) rest).dropWhile isIdle)) =
      (parts p).drop (parts root).length := by
    have hlength : (parts root).length = (parts root).length - 1 + 1 :=
      (Nat.sub_add_cancel (List.length_pos_iff.mpr (parts_ne_nil hroot))).symm
    rw [named_trimIdleEnd, named_dropWhile_idle, named_dropParts, parts_of_isAbsolute hp, hrest,
      named_cons_of_idle rfl, hlength, List.drop_succ_cons]
    rfl
  have hslash : ∀ s ∈ trimIdleEnd ((dropParts ((parts root).length - 1) rest).dropWhile isIdle),
      '/' ∉ s := by
    intro s hs
    have hleft := (List.dropWhile_suffix _).subset ((prefix_trimIdleEnd _).subset hs)
    apply notMem_of_mem_segments (t := p)
    rw [hrest]
    exact List.mem_cons_of_mem _ ((dropParts_suffix _ _).subset hleft)
  obtain ⟨hnot, hparts, hsegments, hnil⟩ := joined_of_not_idle hslash fun _ => not_idle_head_trim
  rw [relative_eq hroot h hrest]
  refine ⟨hnot, hparts.trans hnamed, hsegments.trans hnamed, hnil.trans ?_⟩
  rw [hnamed, List.drop_eq_nil_iff]
  exact ⟨fun hle => (h.eq_of_length_le hle).symm, fun heq => heq ▸ Nat.le_refl _⟩

theorem parts_join_relative (hroot : isAbsolute root = true) (h : parts root <+: parts p) :
    parts (join root (relative root p)) = parts p := by
  obtain ⟨hrelative, -, hnamed, -⟩ := named_relative hroot h
  obtain ⟨more, hmore⟩ := h
  rw [parts_join hroot hrelative, hnamed, ← hmore, List.drop_left]

/-- **A path is told relative to a root**: of a path at or below it what follows the root, part
by part, so that joined with the root it leads back; any other path is told as it is. -/
structure RelativeTo (root p told : Text) : Prop where
  below : isAbsolute root = true → parts root <+: parts p →
    parts p = parts root ++ parts told ∧ parts (join root told) = parts p
  elsewhere : ¬ parts root <+: parts p → told = p

theorem relativeTo_relative (root p : Text) : RelativeTo root p (relative root p) where
  below := by
    intro hroot h
    refine ⟨?_, parts_join_relative hroot h⟩
    rw [(named_relative hroot h).2.1]
    obtain ⟨more, hmore⟩ := h
    rw [← hmore, List.drop_left]
  elsewhere := by
    intro h
    rw [relative, relativeTo?, if_neg fun hp => h (List.isPrefixOf_iff_prefix.mp hp)]
    rfl

end Path

end ModuleLint
