/-
ModuleLint/Proofs/Lint/Directive.lean

Which comments are allow directives.  A directive has a form (`HasForm`): two slashes and
any further ones, `bsl-lint:`, `allow(`, a text up to the first `)`, and a rest, with blanks
allowed behind the slashes and before `allow(`.  A comment holds a directive if and only if
it has this form between its blanks and the text up to `)` names a rule; the names and the
rest then tell all of it (`ofComment?_eq_some_iff`).

Main result: `directive_roundTrip`.  What is written is read back, however it is spaced
out, and whatever is read was written in this form.
-/
import ModuleLint.Lint.Allowance
import ModuleLint.Proofs.Text.Trim

namespace ModuleLint

variable {comment text inside rest reason : List Char}

namespace AllowDirective

/-! ### The form of a directive -/

/-- A directive with its slashes and blanks, the text in its parentheses and what follows. -/
def formText (slashes blanks blanks' inside rest : List Char) : List Char :=
  "//".toList ++ (slashes ++ (blanks ++ ("bsl-lint:".toList ++ (blanks' ++
    ("allow(".toList ++ (inside ++ ')' :: rest))))))

/-- **The form of a directive**: what stands in the parentheses, and what behind them. -/
def HasForm (text inside rest : List Char) : Prop :=
  ∃ slashes blanks blanks', (∀ c ∈ slashes, c = '/') ∧ Blanks blanks ∧ Blanks blanks' ∧
    ')' ∉ inside ∧ text = formText slashes blanks blanks' inside rest

/-- **The form of a reason**: `reason=` and a text in quotes that is not blank. -/
def HasReason (text reason : List Char) : Prop :=
  trim reason ≠ [] ∧ '"' ∉ reason ∧ ∃ blanks behind, Blanks blanks ∧
    text = "reason=".toList ++ (blanks ++ ('"' :: (reason ++ '"' :: behind)))

/-! ### Names -/

/-- A blank in front of the names makes no difference. -/
theorem names_cons_of_blank {c : Char} (hc : isBlank c = true) (text : List Char) :
    names (c :: text) = names text := by
  have hcomma : (c == ',') = false := by
    refine beq_eq_false_iff_ne.mpr ?_
    rintro rfl
    cases hc
  obtain ⟨first, others, hsplit⟩ : ∃ first others, text.splitOn ',' = first :: others :=
    List.exists_cons_of_ne_nil (List.splitOn_ne_nil ',' text)
  have hcons : (c :: text).splitOn ',' = (c :: first) :: others := by
    rw [List.splitOn_cons_eq_if_modifyHead, hcomma, if_neg Bool.false_ne_true, hsplit,
      List.modifyHead_cons]
  rw [names, names, hcons, hsplit, List.map_cons, List.map_cons, trim_cons_of_blank hc]

theorem names_append_of_blanks {blanks : List Char} (h : Blanks blanks) (text : List Char) :
    names (blanks ++ text) = names text := by
  induction blanks with
  | nil => rfl
  | cons c blanks ih =>
    have hblanks : Blanks blanks := fun d hd => h d (List.mem_cons_of_mem c hd)
    rw [List.cons_append, names_cons_of_blank (h c List.mem_cons_self), ih hblanks]

/-- The names are what is left of the pieces between commas, if anything is. -/
theorem mem_names_iff {name : List Char} :
    name ∈ names text ↔ name ≠ [] ∧ ∃ piece ∈ text.splitOn ',', trim piece = name := by
  rw [names, List.mem_filter, List.mem_map, Bool.not_eq_true', List.isEmpty_eq_false_iff,
    and_comm]

/-- A name that can be written: not empty, without commas and closing parentheses, and
without blanks at its ends. -/
def IsName (name : List Char) : Prop :=
  name ≠ [] ∧ ',' ∉ name ∧ ')' ∉ name ∧ trim name = name

/-- **Names as they are written**: with commas between them, and blanks around each. -/
inductive ListsNames : List (List Char) → List Char → Prop
  | last {name blanks blanks' : List Char} (h : Blanks blanks) (h' : Blanks blanks') :
      ListsNames [name] (blanks ++ (name ++ blanks'))
  | more {name blanks blanks' text : List Char} {others : List (List Char)} (h : Blanks blanks)
      (h' : Blanks blanks') (hothers : ListsNames others text) :
      ListsNames (name :: others) (blanks ++ (name ++ blanks') ++ ',' :: text)

/-- A character that is no blank is not among blanks. -/
theorem notMem_blanks {blanks : List Char} (h : Blanks blanks) {c : Char}
    (hc : isBlank c = false) : c ∉ blanks := by
  intro hmem
  rw [h c hmem] at hc
  cases hc

/-- A name with blanks around it holds a character that is no blank only if the name does. -/
theorem notMem_padded {name blanks blanks' : List Char} (h : Blanks blanks) (h' : Blanks blanks')
    {c : Char} (hc : isBlank c = false) (hname : c ∉ name) :
    c ∉ blanks ++ (name ++ blanks') := by
  rw [List.mem_append, List.mem_append, not_or, not_or]
  exact ⟨notMem_blanks h hc, hname, notMem_blanks h' hc⟩

theorem trim_padded {name blanks blanks' : List Char} (h : Blanks blanks) (h' : Blanks blanks')
    (hname : trim name = name) : trim (blanks ++ (name ++ blanks')) = name := by
  rw [trim_append_of_blanks h, trim_append_blanks h', hname]

/-- **Names are read as they are written.** -/
theorem ListsNames.names_eq {rules : List (List Char)} (h : ListsNames rules text)
    (hrules : ∀ name ∈ rules, IsName name) : names text = rules ∧ ')' ∉ text := by
  induction h with
  | @last name blanks blanks' hb hb' =>
    obtain ⟨hne, hcomma, hparen, htrim⟩ := hrules name List.mem_cons_self
    refine ⟨?_, notMem_padded hb hb' (by decide) hparen⟩
    have hsplit : (blanks ++ (name ++ blanks')).splitOn ',' = [blanks ++ (name ++ blanks')] :=
      List.splitOn_eq_singleton (notMem_padded hb hb' (by decide) hcomma)
    rw [names, hsplit, List.map_singleton, trim_padded hb hb' htrim, List.filter_singleton,
      List.isEmpty_eq_false_iff.mpr hne]
    rfl
  | @more name blanks blanks' text others hb hb' hothers ih =>
    obtain ⟨hne, hcomma, hparen, htrim⟩ := hrules name List.mem_cons_self
    obtain ⟨hnames, hparen'⟩ := ih fun other hother => hrules other (List.mem_cons_of_mem _ hother)
    constructor
    · have hsplit : (blanks ++ (name ++ blanks') ++ ',' :: text).splitOn ',' =
          (blanks ++ (name ++ blanks')) :: text.splitOn ',' :=
        List.splitOn_append_cons_self_of_not_mem (notMem_padded hb hb' (by decide) hcomma) _
      rw [names, hsplit, List.map_cons, trim_padded hb hb' htrim, List.filter_cons,
        List.isEmpty_eq_false_iff.mpr hne, Bool.not_false, if_pos rfl]
      exact congrArg _ hnames
    · rw [List.mem_append, not_or]
      refine ⟨notMem_padded hb hb' (by decide) hparen, ?_⟩
      exact List.not_mem_cons_of_ne_of_not_mem (by decide) hparen'

/-! ### Reasons -/

/-- **A reason is read** where it has its form, in a text that is trimmed at its end. -/
theorem reason?_eq_some_iff (h : text = [] ∨ EndsTight text) :
    reason? text = some reason ↔ HasReason text reason := by
  constructor
  · intro hreason
    simp only [reason?, Option.bind_eq_bind, Option.bind_eq_some_iff] at hreason
    obtain ⟨quoted, hquoted, opened, hopened, ⟨found, behind⟩, hcut, hfound⟩ := hreason
    rw [afterStart?_eq_some_iff] at hquoted hopened
    obtain ⟨rfl, hquote⟩ := cutAt?_eq_some_iff.mp hcut
    split at hfound
    · cases hfound
    · rename_i hblank
      cases hfound
      subst hquoted
      have hne : quoted ≠ [] := by
        rintro rfl
        cases hopened
      have htight := (h.resolve_left (List.append_ne_nil_of_left_ne_nil (by decide) _)).of_suffix
        (List.suffix_append _ _) hne
      obtain ⟨blanks, hblanks, hsplit⟩ := htight.exists_blanks
      rw [hopened] at hsplit
      refine ⟨fun hnil => hblank (by rw [hnil]; rfl), hquote, blanks, behind, hblanks, ?_⟩
      rw [hsplit]
      rfl
  · rintro ⟨hreason, hquote, blanks, behind, hblanks, rfl⟩
    have htight := h.resolve_left (List.append_ne_nil_of_left_ne_nil (by decide) _)
    have hinside : EndsTight (reason ++ '"' :: behind) := by
      refine htight.of_suffix ?_ (by simp)
      exact (List.suffix_cons _ _).trans
        ((List.suffix_append blanks _).trans (List.suffix_append _ _))
    have hopening : trim ['"'] = ['"'] := by decide
    have htrim : trim (blanks ++ '"' :: (reason ++ '"' :: behind)) =
        ['"'] ++ (reason ++ '"' :: behind) := by
      rw [trim_append_of_blanks hblanks]
      exact hinside.trim_append hopening (List.cons_ne_nil _ _)
    have hcut : cutAt? '"' (reason ++ '"' :: behind) = some (reason, behind) :=
      cutAt?_append hquote
    have hblank : (trim reason).isEmpty = false := List.isEmpty_eq_false_iff.mpr hreason
    simp only [reason?, afterStart?_append, htrim, hcut, hblank, Option.bind_eq_bind,
      Option.bind_some, Bool.false_eq_true, if_false]

/-! ### Reading a comment -/

/-- Slashes in front of something else are passed over. -/
theorem dropWhile_slashes {slashes blanks : List Char} (hslashes : ∀ c ∈ slashes, c = '/')
    (hblanks : Blanks blanks) {c : Char} (hc : c ≠ '/') (behind : List Char) :
    (slashes ++ (blanks ++ c :: behind)).dropWhile (· == '/') = blanks ++ c :: behind := by
  have hstop : ∀ text : List Char, (∀ d ∈ text.head?, d ≠ '/') →
      text.dropWhile (· == '/') = text := by
    intro text htext
    cases text with
    | nil => rfl
    | cons d text => exact List.dropWhile_cons_of_neg (by simpa using htext)
  rw [List.dropWhile_append_of_pos fun d hd => beq_iff_eq.mpr (hslashes d hd)]
  refine hstop _ fun d hd => ?_
  cases blanks with
  | nil => exact Option.some.inj hd ▸ hc
  | cons blank blanks =>
    obtain rfl := Option.some.inj hd
    rintro rfl
    cases hblanks _ List.mem_cons_self

/-- **What has the form of a directive is read as one**, if it names a rule. -/
theorem ofComment?_of_hasForm (h : HasForm (trim comment) inside rest)
    (hnames : names inside ≠ []) :
    ofComment? comment = some ⟨names inside, reason? (trim rest)⟩ := by
  obtain ⟨slashes, blanks, blanks', hslashes, hblanks, hblanks', hinside, htext⟩ := h
  -- what is left behind each part ends tightly, because the whole is trimmed
  have htight : EndsTight (trim comment) := by
    refine endsTight_trim ?_
    rw [htext]
    exact List.append_ne_nil_of_left_ne_nil (by decide) _
  have hlast : EndsTight (inside ++ ')' :: rest) := by
    refine htight.of_suffix ⟨"//".toList ++ (slashes ++ (blanks ++ ("bsl-lint:".toList ++
      (blanks' ++ "allow(".toList)))), ?_⟩ (by simp)
    rw [htext, formText]
    simp only [List.append_assoc]
  have hallow : trim ("allow(".toList ++ (inside ++ ')' :: rest)) =
      "allow(".toList ++ (inside ++ ')' :: rest) :=
    hlast.trim_append (by decide +kernel) (by decide +kernel)
  have hlint : trim ("bsl-lint:".toList ++ (blanks' ++ ("allow(".toList ++
      (inside ++ ')' :: rest)))) =
        "bsl-lint:".toList ++ (blanks' ++ ("allow(".toList ++ (inside ++ ')' :: rest))) :=
    ((hlast.append _).append _).trim_append (by decide +kernel) (by decide +kernel)
  -- blanks before the names are no part of them
  obtain ⟨blanks'', hblanks'', hsplit⟩ := exists_blanks_trimStart inside
  have hcontent : trim (inside ++ ')' :: rest) = trimStart inside ++ ')' :: rest := by
    rw [hlast.trim_eq, trimStart_append_cons (by decide)]
  have hcut : cutAt? ')' (trimStart inside ++ ')' :: rest) = some (trimStart inside, rest) := by
    refine cutAt?_append fun hmem => hinside ?_
    rw [hsplit]
    exact List.mem_append_right _ hmem
  have hkept : names (trimStart inside) = names inside := by
    conv_rhs => rw [hsplit, names_append_of_blanks hblanks'']
  have hfound : (names inside).isEmpty = false := List.isEmpty_eq_false_iff.mpr hnames
  have hslash : ∀ behind, (slashes ++ (blanks ++ ("bsl-lint:".toList ++ behind))).dropWhile
      (· == '/') = blanks ++ ("bsl-lint:".toList ++ behind) :=
    fun behind => dropWhile_slashes hslashes hblanks (c := 'b') (by decide) _
  simp only [ofComment?, htext, formText, afterStart?_append, Option.bind_eq_bind,
    Option.bind_some, hslash, trim_append_of_blanks hblanks, hlint, trim_append_of_blanks hblanks',
    hallow, hcontent, hcut, hkept, hfound, Bool.false_eq_true, if_false]

/-- **What is read as a directive has its form**, and all of it comes from there. -/
theorem hasForm_of_ofComment? {d : AllowDirective} (h : ofComment? comment = some d) :
    ∃ inside rest, HasForm (trim comment) inside rest ∧ names inside ≠ [] ∧
      d = ⟨names inside, reason? (trim rest)⟩ := by
  simp only [ofComment?, Option.bind_eq_bind, Option.bind_eq_some_iff] at h
  obtain ⟨opened, hopened, linted, hlinted, content, hcontent, ⟨named, rest⟩, hcut, hfound⟩ := h
  rw [afterStart?_eq_some_iff] at hopened hlinted hcontent
  obtain ⟨hnamed, hparen⟩ := cutAt?_eq_some_iff.mp hcut
  split at hfound
  · cases hfound
  · rename_i hrules
    cases hfound
    -- from the outside to the inside: each part ends tightly, so trimming took blanks off its start
    have htight : EndsTight (trim comment) := by
      refine endsTight_trim ?_
      rw [hopened]
      exact List.append_ne_nil_of_left_ne_nil (by decide) _
    have hdropped : EndsTight (opened.dropWhile (· == '/')) := by
      refine htight.of_suffix ?_ fun hnil => by rw [hnil] at hlinted; cases hlinted
      rw [hopened]
      exact (List.dropWhile_suffix _).trans (List.suffix_append _ _)
    obtain ⟨blanks, hblanks, hsplit⟩ := hdropped.exists_blanks
    rw [hlinted] at hsplit
    have hlinted' : EndsTight linted := by
      refine hdropped.of_suffix ?_ fun hnil => by rw [hnil] at hcontent; cases hcontent
      rw [hsplit]
      exact (List.suffix_append _ _).trans (List.suffix_append _ _)
    obtain ⟨blanks', hblanks', hsplit'⟩ := hlinted'.exists_blanks
    rw [hcontent] at hsplit'
    have hcontent' : EndsTight content := by
      refine hlinted'.of_suffix ?_ fun hnil => by rw [hnil] at hcut; cases hcut
      rw [hsplit']
      exact (List.suffix_append _ _).trans (List.suffix_append _ _)
    obtain ⟨blanks'', hblanks'', hsplit''⟩ := hcontent'.exists_blanks
    rw [hnamed] at hsplit''
    have hkept := names_append_of_blanks hblanks'' named
    refine ⟨blanks'' ++ named, rest, ⟨opened.takeWhile (· == '/'), blanks, blanks', ?_, hblanks,
      hblanks', ?_, ?_⟩, ?_, ?_⟩
    · exact fun c hc => beq_iff_eq.mp (List.mem_takeWhile_imp (p := (· == '/')) hc)
    · rw [List.mem_append, not_or]
      refine ⟨fun hmem => ?_, hparen⟩
      cases hblanks'' _ hmem
    · rw [formText, List.append_assoc, ← hsplit'', ← hsplit', ← hsplit,
        List.takeWhile_append_dropWhile]
      exact hopened
    · rw [hkept]
      exact fun hnil => hrules (by rw [hnil]; rfl)
    · rw [hkept]

/-- **Which comments are directives**, and what they say. -/
theorem ofComment?_eq_some_iff {d : AllowDirective} :
    ofComment? comment = some d ↔ ∃ inside rest, HasForm (trim comment) inside rest ∧
      names inside ≠ [] ∧ d = ⟨names inside, reason? (trim rest)⟩ := by
  refine ⟨hasForm_of_ofComment?, ?_⟩
  rintro ⟨inside, rest, hform, hnames, rfl⟩
  exact ofComment?_of_hasForm hform hnames

/-! ### Writing a directive -/

/-- **What can be written**: names of rules, and a reason that is not blank and has no
quote in it. -/
structure Writable (d : AllowDirective) : Prop where
  rules_ne_nil : d.rules ≠ []
  isName : ∀ name ∈ d.rules, IsName name
  isReason : ∀ reason ∈ d.reason, trim reason ≠ [] ∧ '"' ∉ reason

/-- A reason as it is written, if there is one. -/
def WritesReason : Option (List Char) → List Char → Prop
  | none, clause => clause = []
  | some reason, clause => ∃ blanks, Blanks blanks ∧
      clause = "reason=".toList ++ (blanks ++ ('"' :: (reason ++ ['"'])))

/-- **A comment in which a directive is written**, with as many slashes as one likes, and
blanks wherever the parts of a directive may stand apart. -/
def WrittenIn (d : AllowDirective) (comment : List Char) : Prop :=
  ∃ before slashes blanks blanks' inside blanks'' clause behind, Blanks before ∧
    (∀ c ∈ slashes, c = '/') ∧ Blanks blanks ∧ Blanks blanks' ∧ ListsNames d.rules inside ∧
    Blanks blanks'' ∧ WritesReason d.reason clause ∧ Blanks behind ∧
    comment = before ++
      (formText slashes blanks blanks' inside (blanks'' ++ clause) ++ behind)

variable {slashes blanks blanks' : List Char}

/-- A directive ends as what follows its parentheses does. -/
theorem formText_append (slashes blanks blanks' inside rest behind : List Char) :
    formText slashes blanks blanks' inside (rest ++ behind) =
      formText slashes blanks blanks' inside rest ++ behind := by
  simp only [formText, List.append_assoc, List.cons_append]

theorem trim_formText (h : EndsTight (')' :: rest)) :
    trim (formText slashes blanks blanks' inside rest) =
      formText slashes blanks blanks' inside rest := by
  refine EndsTight.trim_append (s := "//".toList) ?_ (by decide +kernel) (by decide +kernel)
  exact ((((h.append inside).append _).append blanks').append _ |>.append blanks).append slashes

/-- **A reason is read as it is written.** -/
theorem WritesReason.reason?_eq {found : Option (List Char)} {clause : List Char}
    (h : WritesReason found clause) (hfound : ∀ reason ∈ found, trim reason ≠ [] ∧ '"' ∉ reason) :
    (clause = [] ∨ EndsTight clause) ∧ reason? (trim clause) = found := by
  cases found with
  | none =>
    obtain rfl : clause = [] := h
    exact ⟨.inl rfl, rfl⟩
  | some reason =>
    obtain ⟨blanks, hblanks, rfl⟩ := h
    obtain ⟨hreason, hquote⟩ := hfound reason rfl
    have hquoted : EndsTight (reason ++ ['"']) := ⟨reason, '"', rfl, by decide⟩
    have htight : EndsTight (blanks ++ ('"' :: (reason ++ ['"']))) :=
      (hquoted.cons '"').append blanks
    have htrim := htight.trim_append (s := "reason=".toList) (by decide +kernel) (by decide +kernel)
    refine ⟨.inr (htight.append _), ?_⟩
    rw [htrim, reason?_eq_some_iff (.inr (htight.append _))]
    exact ⟨hreason, hquote, blanks, [], hblanks, rfl⟩

/-- **What is written is read back.** -/
theorem ofComment?_of_writtenIn {d : AllowDirective} (hd : d.Writable) (h : d.WrittenIn comment) :
    ofComment? comment = some d := by
  obtain ⟨before, slashes, blanks, blanks', inside, blanks'', clause, behind, hbefore, hslashes,
    hblanks, hblanks', hinside, hblanks'', hclause, hbehind, rfl⟩ := h
  obtain ⟨hnames, hparen⟩ := hinside.names_eq hd.isName
  obtain ⟨htight, hreason⟩ := hclause.reason?_eq hd.isReason
  -- without a reason the blanks behind the parentheses are trimmed away
  have htrim : ∃ rest, trim rest = trim clause ∧
      trim (formText slashes blanks blanks' inside (blanks'' ++ clause)) =
        formText slashes blanks blanks' inside rest := by
    rcases htight with rfl | htight
    · refine ⟨[], rfl, ?_⟩
      rw [List.append_nil, ← List.nil_append blanks'', formText_append,
        trim_append_blanks hblanks'']
      exact trim_formText ⟨[], ')', rfl, by decide⟩
    · exact ⟨blanks'' ++ clause, trim_append_of_blanks hblanks'',
        trim_formText ((htight.append _).cons _)⟩
  obtain ⟨rest, hrest, htext⟩ := htrim
  rw [← trim_append_blanks hbehind, ← trim_append_of_blanks hbefore] at htext
  have hform := ofComment?_of_hasForm ⟨slashes, blanks, blanks', hslashes, hblanks, hblanks',
    hparen, htext⟩ (by rw [hnames]; exact hd.rules_ne_nil)
  rw [hform, hnames, hrest, hreason]

/-- **What is written is read back**, and what is read has been written in the form of a
directive: the rules are what the commas leave of the text up to the first `)`, and a reason
stands behind it in quotes. -/
theorem directive_roundTrip :
    (∀ (d : AllowDirective) (comment : List Char), d.Writable → d.WrittenIn comment →
      ofComment? comment = some d) ∧
    ∀ (comment : List Char) (d : AllowDirective), ofComment? comment = some d →
      ∃ inside rest, HasForm (trim comment) inside rest ∧
        (∀ name, name ∈ d.rules ↔ name ≠ [] ∧ ∃ piece ∈ inside.splitOn ',', trim piece = name) ∧
        ∀ reason ∈ d.reason, HasReason (trim rest) reason := by
  refine ⟨fun d comment hd h => ofComment?_of_writtenIn hd h, fun comment d h => ?_⟩
  obtain ⟨inside, rest, hform, -, rfl⟩ := hasForm_of_ofComment? h
  refine ⟨inside, rest, hform, fun name => mem_names_iff, fun reason hreason => ?_⟩
  exact (reason?_eq_some_iff (Decidable.or_iff_not_imp_left.mpr endsTight_trim)).mp hreason

/-- A directive for two rules, of which one has a parenthesis in its name. -/
def spacedDirective : AllowDirective := ⟨["a".toList, "b(c".toList], some "so, ) it is".toList⟩

/-- The directive, spaced out. -/
def spacedComment : List Char :=
  " //// bsl-lint:allow( a ,b(c\t)  reason= \"so, ) it is\" ".toList

theorem directive_roundTrip_spaced :
    spacedDirective.Writable ∧ spacedDirective.WrittenIn spacedComment ∧
      ofComment? spacedComment = some spacedDirective ∧
      ∃ inside rest, HasForm (trim spacedComment) inside rest ∧
        (∀ name, name ∈ spacedDirective.rules ↔
          name ≠ [] ∧ ∃ piece ∈ inside.splitOn ',', trim piece = name) ∧
        ∀ reason ∈ spacedDirective.reason, HasReason (trim rest) reason := by
  have hwritable : spacedDirective.Writable := by
    refine ⟨by decide, fun name hname => ?_, fun reason hreason => ?_⟩
    · rcases List.mem_pair.mp hname with rfl | rfl
      · exact ⟨by decide, by decide, by decide, by decide⟩
      · exact ⟨by decide, by decide, by decide, by decide⟩
    · obtain rfl := Option.some.inj hreason
      exact ⟨by decide +kernel, by decide⟩
  have hblank : Blanks [' '] := by decide
  have hlists : ListsNames spacedDirective.rules " a ,b(c\t".toList :=
    .more hblank hblank (@ListsNames.last "b(c".toList [] ['\t'] (by decide) (by decide))
  have hslashes : ∀ c ∈ ['/', '/'], c = '/' := fun c hc => by simpa using hc
  have hwritten : spacedDirective.WrittenIn spacedComment :=
    ⟨[' '], ['/', '/'], [' '], [], " a ,b(c\t".toList, [' ', ' '],
      "reason= \"so, ) it is\"".toList, [' '], hblank, hslashes, hblank, by decide, hlists,
      by decide, ⟨[' '], hblank, by decide +kernel⟩, hblank, by decide +kernel⟩
  have hread := directive_roundTrip.1 spacedDirective spacedComment hwritable hwritten
  exact ⟨hwritable, hwritten, hread, directive_roundTrip.2 spacedComment spacedDirective hread⟩

end AllowDirective

end ModuleLint
