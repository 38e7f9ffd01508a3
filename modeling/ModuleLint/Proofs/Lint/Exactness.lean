/-
ModuleLint/Proofs/Lint/Exactness.lean

What the rule against objects that do not exist on Linux reports, and nothing else.
`UnixObject.Offends` says in terms of the tree alone when a `New` expression offends:
it names a type that begins with a configured word, and no conditional branch above it
mentions the guard token.  `UnixObject.Verdict` says what is then reported, by the allow
directives that hold at its line; its wording is laid down here, and `UnixObject.Denies` and
`UnixObject.Reminds` say what matters of it: how grave the finding is, where it lies, and that
a denial holds the name of the type as it is written.

Main result: `check_exact`.  For every source that parses, the findings of the rule are
the verdicts on the nodes of the tree, in the order of the nodes.

The visitor is a fold over all nodes (`Visitor.visit_eq_foldl`), the ancestors of a node
are what lies above it (`mem_ancestors_iff`), and a `New` expression has no more than one
name of a type below it (`childProduction`).
-/
import ModuleLint.Proofs.Grammar.Conformance
import ModuleLint.Lint.UnixObject

namespace ModuleLint

open Outline

/-! ### Texts -/

/-- `occursIn` finds every place where a text occurs. -/
theorem occursIn_iff {part text : List Char} : occursIn part text = true ↔ part <:+: text := by
  induction text with
  | nil => simp [occursIn]
  | cons c rest ih => rw [occursIn, Bool.or_eq_true, ih, List.isPrefixOf_iff_prefix,
      List.infix_cons_iff]

theorem containsFolded_iff {part text : List Char} :
    containsFolded part text = true ↔ foldText part <:+: foldText text :=
  occursIn_iff

theorem startsWithFolded_iff {start text : List Char} :
    startsWithFolded start text = true ↔ foldText start <+: foldText text :=
  List.isPrefixOf_iff_prefix

theorem not_isEmpty_iff {s : String} : (!s.toList.isEmpty) = true ↔ s ≠ "" := by
  rw [Bool.not_eq_true', List.isEmpty_eq_false_iff, ne_eq, String.toList_eq_nil_iff]

/-! ### Names of types -/

namespace Tree.Derived

variable {t : Tree} {source : List Char} {content : List Derivation}

/-- The name of a type is one token. -/
theorem exists_token (h : t.Derived source content) {id : Nat}
    (hkind : t.kind? id = some .typeName) : ∃ token, t.tokensOf id = [token] := by
  obtain ⟨x, hx, rfl, d, fresh, hd, hsound, htokens⟩ := h.exists_node (lt_size_of_kind? hkind)
  obtain ⟨lead, items, heq, -, hstop, -⟩ := Derivation.outline_eq_singleton hd
  have hxkind : x.kind = .typeName := by
    rw [h.outlined.kind?_eq hx] at hkind
    exact Option.some.inj hkind
  rw [hxkind] at heq
  rw [heq] at hsound htokens hstop
  rw [hsound.tokens_typeName] at htokens hstop
  obtain ⟨above, hentry⟩ := h.outlined.stored.entry hx
  obtain ⟨more, hmore⟩ := htokens
  -- the range of the node holds just that token
  have hlength : (t.tokensOf x.number).length = 1 := by
    have hlt : x.first < t.lexed.tokens.size := by
      have hlength : more.length + 1 = t.lexed.kinds.length - x.first := by
        rw [← List.length_drop, ← hmore]
        rfl
      rw [Lexed.length_kinds] at hlength
      omega
    rw [tokensOf, hentry]
    simp only [Array.length_toList, Array.size_extract, hstop, List.length_singleton]
    omega
  exact List.length_eq_one_iff.mp hlength

/-- What a `New` expression is made of. -/
theorem kinds_newExpression (h : t.Derived source content) {id : Nat}
    (hkind : t.kind? id = some .newExpression) :
    (t.children id).map t.kind? = [some .typeName] ∨
      (t.children id).map t.kind? = [some .typeName, some .argumentList] ∨
      (t.children id).map t.kind? = [some .argumentList] := by
  obtain ⟨⟨kind, op⟩, hconforms⟩ := h.conforms (lt_size_of_kind? hkind)
  have hlooks : ∀ {c : Nat} {s : Shape}, t.shape? c = some s → t.kind? c = some s.kind := by
    intro c s hs
    obtain ⟨kind, hc, rfl⟩ := Option.map_eq_some_iff.mp hs
    exact hc
  obtain rfl : kind = .newExpression :=
    Option.some.inj ((hlooks hconforms.looks).symm.trans hkind)
  obtain ⟨word, hword, hchildren⟩ := hconforms.children
  -- the kinds of the children are those of the word, which is one of three
  have hkinds : (t.children id).map t.kind? = word.map fun s => some s.kind := by
    have hmap := congrArg (List.map (Option.map Shape.kind)) hchildren
    rw [List.map_map, List.map_map] at hmap
    refine Eq.trans (List.map_congr_left fun c hc => ?_) hmap
    have hmem : t.shape? c ∈ (t.children id).map t.shape? := List.mem_map_of_mem hc
    rw [hchildren] at hmem
    obtain ⟨s, -, hs⟩ := List.mem_map.mp hmem
    rw [hlooks hs.symm, Function.comp_apply, ← hs]
    rfl
  rw [hkinds]
  rcases (Language.mem_add _ _ _).mp hword with hword | rfl
  · obtain ⟨u, rfl, v, hv, rfl⟩ := Language.mem_mul.mp hword
    rcases (Language.mem_add _ _ _).mp hv with rfl | rfl
    · exact .inl rfl
    · exact .inr (.inl rfl)
  · exact .inr (.inr rfl)

/-- The child of a `New` expression that is the name of a type is found. -/
theorem childOfKind?_typeName (h : t.Derived source content) {id : Nat}
    (hkind : t.kind? id = some .newExpression) {c : Nat} (hmem : c ∈ t.children id)
    (hc : t.kind? c = some .typeName) : t.childOfKind? id .typeName = some c := by
  rw [childOfKind?]
  -- only the first child can be a name
  rcases h.kinds_newExpression hkind with hall | hall | hall
  · obtain ⟨a, ha, -⟩ := List.map_eq_singleton_iff.mp hall
    rw [ha] at hmem ⊢
    obtain rfl := List.mem_singleton.mp hmem
    simp [hasKind, hc]
  · obtain ⟨a, rest, ha, hka, hrest⟩ := List.map_eq_cons_iff.mp hall
    obtain ⟨b, rfl, hkb⟩ := List.map_eq_singleton_iff.mp hrest
    rw [ha] at hmem ⊢
    obtain rfl | rfl : c = a ∨ c = b := by simpa using hmem
    · simp [hasKind, hc]
    · rw [hkb] at hc
      cases hc
  · obtain ⟨a, ha, hka⟩ := List.map_eq_singleton_iff.mp hall
    rw [ha] at hmem
    obtain rfl := List.mem_singleton.mp hmem
    rw [hka] at hc
    cases hc

/-- A `New` expression has at most one name of a type, and `typeName?` finds it. -/
theorem typeName?_eq_some_iff (h : t.Derived source content) {id : Nat} {typeName : List Char}
    (hkind : t.kind? id = some .newExpression) :
    UnixObject.typeName? t id = some typeName ↔
      ∃ child ∈ t.children id, t.kind? child = some .typeName ∧
        ∃ token, t.tokensOf child = [token] ∧ token.text = typeName := by
  have htext : ∀ {c : Nat} {token : Token}, t.tokensOf c = [token] → t.text c = token.text := by
    intro c token hc
    rw [text, hc, List.flatMap_singleton]
  rw [UnixObject.typeName?, Option.map_eq_some_iff]
  constructor
  · rintro ⟨c, hc, rfl⟩
    have hname : t.hasKind .typeName c = true := List.find?_some hc
    have hname : t.kind? c = some .typeName := beq_iff_eq.mp hname
    obtain ⟨token, htoken⟩ := h.exists_token hname
    exact ⟨c, List.mem_of_find?_eq_some hc, hname, token, htoken, (htext htoken).symm⟩
  · rintro ⟨c, hmem, hc, token, htoken, rfl⟩
    exact ⟨c, h.childOfKind?_typeName hkind hmem hc, htext htoken⟩

end Tree.Derived

namespace UnixObject

/-! ### What offends -/

/-- **A `New` expression offends**: it names a flagged type, and no conditional branch
above it mentions the guard token. -/
structure Offends (r : UnixObject) (t : Tree) (id : Nat) (typeName : List Char) : Prop where
  isNew : t.kind? id = some .newExpression
  named : ∃ child ∈ t.children id, t.kind? child = some .typeName ∧
    ∃ token, t.tokensOf child = [token] ∧ token.text = typeName
  flagged : ∃ start ∈ r.typeStarts, start ≠ "" ∧ foldText start.toList <+: foldText typeName
  unguarded : r.guardToken ≠ "" → ∀ branch, t.Above branch id →
    t.kind? branch = some .ifBranch →
      ¬ foldText r.guardToken.toList <:+: foldText (t.text branch)

/-- How an offending expression is denied in words. -/
def denialText (language : MessageLanguage) (typeName : List Char) : String :=
  match language with
  | .ru => "Проверьте использование \"" ++ String.ofList typeName ++ "\": объект недоступен в Linux"
  | .en => "Check the use of \"" ++ String.ofList typeName ++
    "\": the object is not available on Linux"

/-- What is said of an offending expression. -/
def denial (r : UnixObject) (file : FileContext) (t : Tree) (id : Nat) (typeName : List Char) :
    Finding :=
  { code := code, rule := name, severity := r.severity
    location := Location.ofSpan file.relativePath (t.span id)
    message := denialText file.language typeName
    suggestion := some (suggestion file.language r.guardToken) }

/-- What is said of an allow directive without a reason. -/
def reminder (file : FileContext) (t : Tree) (id : Nat) : Finding :=
  { code := code, rule := name, severity := .warning
    location := Location.ofSpan file.relativePath (t.span id)
    message := "Allow directive for '" ++ name ++ "' is missing required reason"
    suggestion := some "Add reason=\"...\" to explain why this exception is necessary" }

/-- A finding lies where a node does. -/
structure LiesAt (file : FileContext) (t : Tree) (id : Nat) (f : Finding) : Prop where
  file : f.location.file = file.relativePath
  line : f.location.line = (t.span id).line
  column : f.location.column = (t.span id).column
  offset : f.location.offset = (t.span id).offset
  length : f.location.length = (t.span id).length

/-- **A finding denies an expression**: it is as grave as the rule says, lies where the
expression does, and its message holds the name of the type as it is written. -/
structure Denies (r : UnixObject) (file : FileContext) (t : Tree) (id : Nat)
    (typeName : List Char) (f : Finding) : Prop where
  severity : f.severity = r.severity
  location : LiesAt file t id f
  message : typeName <:+: f.message.toList

/-- **A finding reminds of a reason**: it is a warning and lies where the expression does. -/
structure Reminds (file : FileContext) (t : Tree) (id : Nat) (f : Finding) : Prop where
  severity : f.severity = .warning
  location : LiesAt file t id f

/-- **The verdict on a node.** -/
inductive Verdict (r : UnixObject) (file : FileContext) (t : Tree) (id : Nat) :
    List Finding → Prop
  /-- It offends, and no directive allows it. -/
  | denied {typeName : List Char} (h : Offends r t id typeName)
      (hallow : allowanceAt t (t.span id).line name.toList = .denied) :
      Verdict r file t id [denial r file t id typeName]
  /-- It offends, and is allowed without a reason where the rule reports errors. -/
  | unexplained {typeName : List Char} (h : Offends r t id typeName)
      (hallow : allowanceAt t (t.span id).line name.toList = .allowed none)
      (hseverity : r.severity = .error) : Verdict r file t id [reminder file t id]
  /-- It offends, and is allowed with a reason, or where none is needed. -/
  | excused {typeName : List Char} {reason : Option (List Char)} (h : Offends r t id typeName)
      (hallow : allowanceAt t (t.span id).line name.toList = .allowed reason)
      (hreason : reason ≠ none ∨ r.severity ≠ .error) : Verdict r file t id []
  /-- It does not offend. -/
  | clean (h : ∀ typeName, ¬ Offends r t id typeName) : Verdict r file t id []

variable {r : UnixObject} {file : FileContext} {t : Tree} {source : List Char}
  {content : List Derivation} {id : Nat} {typeName : List Char}

theorem flags_iff {typeStarts : List String} :
    flags typeStarts typeName = true ↔
      ∃ start ∈ typeStarts, start ≠ "" ∧ foldText start.toList <+: foldText typeName := by
  simp only [flags, List.any_eq_true, Bool.and_eq_true, not_isEmpty_iff, startsWithFolded_iff]

/-- A node is guarded by a conditional branch above it. -/
theorem isGuarded_iff (h : t.Derived source content) {guardToken : String} :
    isGuarded guardToken t id = true ↔
      guardToken ≠ "" ∧ ∃ branch, t.Above branch id ∧ t.kind? branch = some .ifBranch ∧
        foldText guardToken.toList <:+: foldText (t.text branch) := by
  simp only [isGuarded, Bool.and_eq_true, not_isEmpty_iff, List.any_eq_true, List.mem_filter,
    h.outlined.mem_ancestors_iff, Tree.hasKind, beq_iff_eq, containsFolded_iff, and_assoc]

/-- What offends is what the rule looks for. -/
theorem offends_iff (h : t.Derived source content) :
    Offends r t id typeName ↔ t.kind? id = some .newExpression ∧
      typeName? t id = some typeName ∧ flags r.typeStarts typeName = true ∧
        isGuarded r.guardToken t id = false := by
  have hguard : isGuarded r.guardToken t id = false ↔ (r.guardToken ≠ "" →
      ∀ branch, t.Above branch id → t.kind? branch = some .ifBranch →
        ¬ foldText r.guardToken.toList <:+: foldText (t.text branch)) := by
    rw [← Bool.not_eq_true, isGuarded_iff h]
    simp only [not_and, not_exists]
  constructor
  · intro ho
    exact ⟨ho.isNew, (h.typeName?_eq_some_iff ho.isNew).mpr ho.named, flags_iff.mpr ho.flagged,
      hguard.mpr ho.unguarded⟩
  · rintro ⟨hnew, hname, hflag, hfree⟩
    exact ⟨hnew, (h.typeName?_eq_some_iff hnew).mp hname, flags_iff.mp hflag, hguard.mp hfree⟩

/-! ### Verdicts -/

/-- The findings at a node: those of the rule, if the node is a `New` expression. -/
def verdict (r : UnixObject) (file : FileContext) (t : Tree) (id : Nat) : List Finding :=
  if t.kind? id = some .newExpression then findingsAt r file t id else []

theorem verdict_of_offends (h : t.Derived source content) (ho : Offends r t id typeName) :
    verdict r file t id = report r file t id typeName := by
  obtain ⟨hnew, hname, hflag, hfree⟩ := (offends_iff h).mp ho
  rw [verdict, if_pos hnew, findingsAt, hname]
  simp only [hflag, hfree, Bool.not_false, Bool.and_self, if_true]

theorem verdict_of_clean (h : t.Derived source content)
    (hclean : ∀ typeName, ¬ Offends r t id typeName) : verdict r file t id = [] := by
  unfold verdict findingsAt
  split
  · rename_i hnew
    split
    · rfl
    · rename_i typeName hname
      split
      · rename_i hboth
        obtain ⟨hflag, hfree⟩ := Bool.and_eq_true_iff.mp hboth
        rw [Bool.not_eq_true'] at hfree
        exact absurd ((offends_iff h).mpr ⟨hnew, hname, hflag, hfree⟩) (hclean typeName)
      · rfl
  · rfl

/-- **Each node has exactly one verdict**, the findings of the rule at it. -/
theorem verdict_iff (h : t.Derived source content) {found : List Finding} :
    Verdict r file t id found ↔ found = verdict r file t id := by
  constructor
  · rintro (⟨ho, hallow⟩ | ⟨ho, hallow, hseverity⟩ | ⟨ho, hallow, hreason⟩ | hclean)
    · rw [verdict_of_offends h ho, report]
      simp only [hallow]
      rfl
    · rw [verdict_of_offends h ho, report]
      simp only [hallow, hseverity, beq_self_eq_true, if_true]
      rfl
    · rename_i reason
      rw [verdict_of_offends h ho, report]
      rcases reason with - | reason
      · rcases hreason with hreason | hseverity
        · exact absurd rfl hreason
        · simp only [hallow, beq_iff_eq, if_neg hseverity]
      · simp only [hallow]
    · exact (verdict_of_clean h hclean).symm
  · rintro rfl
    -- if the node offends, the directives at its line decide
    by_cases hany : ∃ typeName, Offends r t id typeName
    · obtain ⟨typeName, ho⟩ := hany
      rw [verdict_of_offends h ho, report]
      rcases hallow : allowanceAt t (t.span id).line name.toList with - | (- | reason)
      · exact .denied ho hallow
      · simp only
        split
        · rename_i hseverity
          exact .unexplained ho hallow (beq_iff_eq.mp hseverity)
        · rename_i hseverity
          exact .excused ho hallow (.inr fun heq => hseverity (beq_iff_eq.mpr heq))
      · exact .excused ho hallow (.inl (Option.some_ne_none reason))
    · rw [verdict_of_clean h (not_exists.mp hany)]
      exact .clean (not_exists.mp hany)

/-- What is put between two texts stands in the result as it is. -/
theorem infix_between (before behind : String) (text : List Char) :
    text <:+: (before ++ String.ofList text ++ behind).toList := by
  rw [String.toList_append, String.toList_append, String.toList_ofList]
  exact List.infix_append _ _ _

theorem infix_denialText (language : MessageLanguage) (typeName : List Char) :
    typeName <:+: (denialText language typeName).toList := by
  cases language with
  | ru => exact infix_between _ _ _
  | en => exact infix_between _ _ _

theorem denies_denial (r : UnixObject) (file : FileContext) (t : Tree) (id : Nat)
    (typeName : List Char) : Denies r file t id typeName (denial r file t id typeName) :=
  ⟨rfl, ⟨rfl, rfl, rfl, rfl, rfl⟩, infix_denialText _ _⟩

theorem reminds_reminder (file : FileContext) (t : Tree) (id : Nat) :
    Reminds file t id (reminder file t id) :=
  ⟨rfl, ⟨rfl, rfl, rfl, rfl, rfl⟩⟩

/-! ### The whole module -/

/-- The collector adds up the verdicts on all nodes. -/
theorem check_eq_flatMap (h : t.Derived source content) :
    check r file t = (t.descendants Tree.root).flatMap (verdict r file t) := by
  let act : NodeKind → Nat → Array Finding → Array Finding := fun kind id found =>
    if kind = .newExpression then found ++ (findingsAt r file t id).toArray else found
  have hvisit := (collector r file t).visit_eq_foldl act
    (fun kind id children found => by cases kind <;> rfl) h.outlined rfl #[]
  have hroot : t.descendants Tree.root = (moduleOutline content).preorder.map number :=
    h.outlined.descendants_eq (self_mem_preorder _)
  rw [check, hvisit, hroot, List.flatMap_map]
  -- one node after the other, whatever was found before
  have hfold : ∀ (os : List Outline) (found : Array Finding),
      (∀ x ∈ os, x ∈ (moduleOutline content).preorder) →
      (os.foldl (fun found x => act x.kind x.number found) found).toList =
        found.toList ++ os.flatMap fun x => verdict r file t x.number := by
    intro os
    induction os with
    | nil => intro found _; simp
    | cons x rest ih =>
      intro found hos
      have hkind := h.outlined.kind?_eq (hos x List.mem_cons_self)
      have hact :
          (act x.kind x.number found).toList = found.toList ++ verdict r file t x.number := by
        rw [verdict, hkind]
        by_cases hnew : x.kind = .newExpression
        · simp [act, hnew]
        · simp [act, hnew]
      rw [List.foldl_cons, ih _ fun y hy => hos y (List.mem_cons_of_mem _ hy), hact,
        List.flatMap_cons, List.append_assoc]
  rw [hfold _ _ fun x hx => hx]
  rfl

end UnixObject

open UnixObject in
/-- **The rule reports its verdicts on the nodes**, in their order, and nothing else.  The verdict
on an expression that offends and is not allowed is one finding, which denies it; on one that is
allowed without a reason, where the rule reports errors, one that reminds of the reason. -/
theorem check_exact (r : UnixObject) (file : FileContext) {source : List Char} {t : Tree}
    (h : parse source = .ok t) :
    ∃ verdict : Nat → List Finding,
      (∀ id found, Verdict r file t id found ↔ found = verdict id) ∧
      (∀ id typeName, Offends r t id typeName →
        allowanceAt t (t.span id).line name.toList = .denied →
          ∃ f, verdict id = [f] ∧ Denies r file t id typeName f) ∧
      (∀ id typeName, Offends r t id typeName →
        allowanceAt t (t.span id).line name.toList = .allowed none → r.severity = .error →
          ∃ f, verdict id = [f] ∧ Reminds file t id f) ∧
      r.check file t = (t.descendants Tree.root).flatMap verdict := by
  obtain ⟨content, hcontent⟩ := parse_derived h
  refine ⟨r.verdict file t, fun id found => verdict_iff hcontent, ?_, ?_,
    check_eq_flatMap hcontent⟩
  · intro id typeName hoffends hallow
    exact ⟨_, ((verdict_iff hcontent).mp (.denied hoffends hallow)).symm,
      denies_denial r file t id typeName⟩
  · intro id typeName hoffends hallow hseverity
    exact ⟨_, ((verdict_iff hcontent).mp (.unexplained hoffends hallow hseverity)).symm,
      reminds_reminder file t id⟩

/-- An object that is allowed without a reason, and behind a line one that is not allowed. -/
def twoCreations : List Char :=
  ("a = New Mail; // bsl-lint: allow(using-object-not-available-unix)\n\n" ++
    "b = New COMObject(c);").toList

/-- What is found in it. -/
def twoFindings : List Finding :=
  [{ code := "BSL001", rule := "using-object-not-available-unix", severity := .warning
     location := ⟨"a.bsl", 1, 5, 4, 8⟩
     message := "Allow directive for 'using-object-not-available-unix' is missing required reason"
     suggestion := some "Add reason=\"...\" to explain why this exception is necessary" },
    { code := "BSL001", rule := "using-object-not-available-unix", severity := .error
      location := ⟨"a.bsl", 3, 5, 71, 16⟩
      message := "Check the use of \"COMObject\": the object is not available on Linux"
      suggestion := some
        "Create the object inside a branch that checks the platform type (Linux_x86)" }]

open UnixObject in
theorem check_sample : ∃ t, parse twoCreations = .ok t ∧
    check .default ⟨"a.bsl", .bsl, .en⟩ t = twoFindings ∧
    ∃ verdict : Nat → List Finding,
      (∀ id found, Verdict .default ⟨"a.bsl", .bsl, .en⟩ t id found ↔ found = verdict id) ∧
      (t.descendants Tree.root).flatMap verdict = twoFindings := by
  have hfound : (parse twoCreations).toOption.map (check .default ⟨"a.bsl", .bsl, .en⟩) =
      some twoFindings := by
    decide +kernel
  cases hparse : parse twoCreations with
  | error e =>
    rw [hparse] at hfound
    cases hfound
  | ok t =>
    rw [hparse] at hfound
    have hcheck := Option.some.inj hfound
    obtain ⟨verdict, hverdict, -, -, heq⟩ := check_exact .default ⟨"a.bsl", .bsl, .en⟩ hparse
    exact ⟨t, rfl, hcheck, verdict, hverdict, heq.symm.trans hcheck⟩

end ModuleLint
