/-
ModuleLint/Proofs/Lint/Invariance.lean

What the rule against objects that do not exist on Linux cannot see.  Two modules whose
tokens agree one by one, in kind and in text up to case, are the same tree
(`Tree.SameUpTo`); and all that the rule asks of a tree is asked of its nodes and of folded
texts of its tokens.  So blanks, ends of line, preprocessor lines, comments that are no
directives, and letter case change nothing but places and the spelling of the names.

`UnixObject.offence?` computes what `Offends` says, and is followed through the map of
texts; where no directive stands in the way, the findings are the denials of the offences
(`check_of_undirected`).

Main result: `check_alike`.
-/
import ModuleLint.Proofs.Grammar.Kinds
import ModuleLint.Proofs.Lint.Exactness

namespace ModuleLint

variable {f : Char → Char} {t t' : Tree} {id : Nat}

/-! ### Trees that differ in their texts -/

namespace Tree

/-- **Two trees are the same up to `f`**: they have the same nodes, over tokens whose texts
`f` makes equal. -/
structure SameUpTo (f : Char → Char) (t t' : Tree) : Prop where
  nodes : t.nodes = t'.nodes
  texts : t.lexed.tokens.toList.map (fun x => x.text.map f) =
    t'.lexed.tokens.toList.map (fun x => x.text.map f)

theorem kind?_congr (h : t.nodes = t'.nodes) : t.kind? id = t'.kind? id := by
  unfold kind?
  rw [h]

theorem hasKind_congr (h : t.nodes = t'.nodes) : t.hasKind = t'.hasKind := by
  funext kind id
  rw [hasKind, hasKind, kind?_congr h]

theorem children_congr (h : t.nodes = t'.nodes) : t.children id = t'.children id := by
  unfold children
  rw [h]

theorem childOfKind?_congr (h : t.nodes = t'.nodes) (kind : NodeKind) :
    t.childOfKind? id kind = t'.childOfKind? id kind := by
  rw [childOfKind?, childOfKind?, children_congr h, hasKind_congr h]

theorem chain_congr (h : t.nodes = t'.nodes) (n : Nat) (above : Option Nat) :
    t.chain n above = t'.chain n above := by
  have hparent : ∀ id, t.parent? id = t'.parent? id := by
    intro id
    unfold parent?
    rw [h]
  induction n generalizing above with
  | zero => rfl
  | succ n ih =>
    cases above with
    | none => rfl
    | some id => rw [chain, chain, hparent, ih]

theorem ancestors_congr (h : t.nodes = t'.nodes) : t.ancestors id = t'.ancestors id := by
  unfold ancestors parent? size
  rw [h]
  exact chain_congr h _ _

theorem meet_congr (h : t.nodes = t'.nodes) (n : Nat) (stack : List Nat) :
    t.meet n stack = t'.meet n stack := by
  induction n generalizing stack with
  | zero => rfl
  | succ n ih =>
    cases stack with
    | nil => rfl
    | cons id stack => rw [meet, meet, children_congr h, ih]

theorem descendants_congr (h : t.nodes = t'.nodes) : t.descendants id = t'.descendants id := by
  unfold descendants size
  rw [h]
  exact meet_congr h _ _

/-- **The texts of a node** agree, as those of its tokens do. -/
theorem SameUpTo.text (h : SameUpTo f t t') (id : Nat) :
    (t.text id).map f = (t'.text id).map f := by
  have htokens : (t.tokensOf id).map (fun x => x.text.map f) =
      (t'.tokensOf id).map (fun x => x.text.map f) := by
    unfold tokensOf
    rw [h.nodes]
    split
    · simp only [Array.toList_extract, List.extract_eq_take_drop, List.map_take, List.map_drop,
        h.texts]
    · rfl
  rw [Tree.text, Tree.text, List.map_flatMap, List.map_flatMap, List.flatMap_def,
    List.flatMap_def, htokens]

end Tree

/-- Texts that are the same up to `f` fold to the same text, if `f` makes equal only what
folding does. -/
theorem foldText_congr (hfold : ∀ c d, f c = f d → foldChar c = foldChar d)
    {text text' : List Char} (h : text.map f = text'.map f) : foldText text = foldText text' := by
  induction text generalizing text' with
  | nil =>
    rw [List.map_nil, eq_comm, List.map_eq_nil_iff] at h
    rw [h]
  | cons c text ih =>
    cases text' with
    | nil => cases h
    | cons d text' =>
      rw [List.map_cons, List.map_cons, List.cons.injEq] at h
      show foldChar c :: foldText text = foldChar d :: foldText text'
      rw [hfold c d h.1, ih h.2]

/-! ### Offences -/

namespace UnixObject

variable {r : UnixObject} {file file' : FileContext} {source : List Char}
  {content : List Derivation} {typeName : List Char}

/-- **The name of the type at which a node offends**, if it does. -/
def offence? (r : UnixObject) (t : Tree) (id : Nat) : Option (List Char) :=
  if t.kind? id = some .newExpression then
    (typeName? t id).filter fun n => flags r.typeStarts n && !isGuarded r.guardToken t id
  else none

theorem offence?_eq_some_iff (h : t.Derived source content) :
    offence? r t id = some typeName ↔ Offends r t id typeName := by
  rw [offends_iff h, offence?]
  by_cases hnew : t.kind? id = some .newExpression
  · simp only [hnew, if_true, Option.filter_eq_some_iff, Bool.and_eq_true, Bool.not_eq_true',
      true_and]
  · simp only [hnew, if_false, false_and, reduceCtorEq]

/-- The findings at a node are what is reported of its offence. -/
theorem verdict_eq :
    verdict r file t id = ((offence? r t id).map (report r file t id)).getD [] := by
  unfold verdict findingsAt offence?
  by_cases hnew : t.kind? id = some .newExpression
  · rw [if_pos hnew, if_pos hnew]
    cases typeName? t id with
    | none => rfl
    | some name =>
      simp only [Option.filter_some]
      split
      · rfl
      · rfl
  · rw [if_neg hnew, if_neg hnew]
    rfl

theorem isGuarded_congr (h : t.SameUpTo f t') (hfold : ∀ c d, f c = f d → foldChar c = foldChar d)
    (guardToken : String) : isGuarded guardToken t id = isGuarded guardToken t' id := by
  have hbranch : (fun branch => containsFolded guardToken.toList (t.text branch)) =
      fun branch => containsFolded guardToken.toList (t'.text branch) := by
    funext branch
    rw [containsFolded, containsFolded, foldText_congr hfold (h.text branch)]
  rw [isGuarded, isGuarded, Tree.ancestors_congr h.nodes, Tree.hasKind_congr h.nodes, hbranch]

theorem flags_congr {typeStarts : List String} {name name' : List Char}
    (h : foldText name = foldText name') : flags typeStarts name = flags typeStarts name' := by
  unfold flags startsWithFolded
  rw [h]

/-- **Offences are the same** in trees that are the same up to `f`, and so are the names up
to `f`. -/
theorem map_offence? (h : t.SameUpTo f t')
    (hfold : ∀ c d, f c = f d → foldChar c = foldChar d) (r : UnixObject) (id : Nat) :
    (offence? r t id).map (List.map f) = (offence? r t' id).map (List.map f) := by
  unfold offence? typeName?
  rw [Tree.kind?_congr h.nodes, Tree.childOfKind?_congr h.nodes, isGuarded_congr h hfold]
  split
  · cases t'.childOfKind? id .typeName with
    | none => rfl
    | some child =>
      -- one name is flagged if and only if the other one is
      have htext := h.text child
      have hflags : flags r.typeStarts (t.text child) = flags r.typeStarts (t'.text child) :=
        flags_congr (foldText_congr hfold htext)
      simp only [Option.map_some, Option.filter_some, hflags]
      split
      · rw [Option.map_some, Option.map_some, htext]
      · rfl
  · rfl

end UnixObject

/-! ### Modules without directives -/

/-- **No comment is an allow directive.** -/
def Tree.Undirected (t : Tree) : Prop :=
  ∀ c ∈ t.lexed.trivia, c.kind = .comment → AllowDirective.ofComment? c.text = none

instance (t : Tree) : Decidable t.Undirected :=
  inferInstanceAs (Decidable (∀ c ∈ t.lexed.trivia, _))

/-- No directive is read from comments that are none. -/
theorem directives_eq_nil {trivia : List Trivia}
    (h : ∀ c ∈ trivia, c.kind = .comment → AllowDirective.ofComment? c.text = none) (line : Nat) :
    ((trivia.filter fun c => c.kind == .comment && c.position.line == line).map
      Trivia.text).filterMap AllowDirective.ofComment? = [] := by
  rw [List.filterMap_eq_nil_iff]
  intro comment hcomment
  obtain ⟨c, hc, rfl⟩ := List.mem_map.mp hcomment
  obtain ⟨hmem, hkind⟩ := List.mem_filter.mp hc
  rw [Bool.and_eq_true, beq_iff_eq] at hkind
  exact h c hmem hkind.1

/-- Without directives nothing is allowed. -/
theorem allowanceAt_of_undirected (h : t.Undirected) (line : Nat) (rule : List Char) :
    allowanceAt t line rule = .denied := by
  have hnone : ∀ n, directiveOn t rule n = none := by
    intro n
    rw [directiveOn, Tree.commentsOnLine, directives_eq_nil fun c hc =>
      h c (Array.mem_toList_iff.mp hc)]
    rfl
  rw [allowanceAt, List.findSome?_eq_none_iff.mpr fun n _ => hnone n]

namespace UnixObject

variable {r : UnixObject} {file file' : FileContext} {source : List Char}
  {content : List Derivation}

theorem report_of_denied {typeName : List Char}
    (h : allowanceAt t (t.span id).line name.toList = .denied) :
    report r file t id typeName = [denial r file t id typeName] := by
  rw [report]
  simp only [h]
  rfl

theorem report_of_no_reason {typeName : List Char}
    (h : allowanceAt t (t.span id).line name.toList = .allowed none)
    (hseverity : r.severity = .error) :
    report r file t id typeName = [reminder file t id] := by
  rw [report]
  simp only [h, hseverity, beq_self_eq_true, if_true]
  rfl

theorem report_of_reason {typeName reason : List Char}
    (h : allowanceAt t (t.span id).line name.toList = .allowed (some reason)) :
    report r file t id typeName = [] := by
  rw [report]
  simp only [h]

/-- **Without directives the findings are the denials of the offences**, in the order of the
nodes. -/
theorem check_of_undirected (h : t.Derived source content) (hfree : t.Undirected) :
    check r file t = (t.descendants Tree.root).filterMap fun id =>
      (offence? r t id).map (denial r file t id) := by
  rw [check_eq_flatMap h, List.filterMap_eq_flatMap_toList]
  congr 1
  funext id
  rw [verdict_eq]
  cases offence? r t id with
  | none => rfl
  | some name => exact report_of_denied (allowanceAt_of_undirected hfree _ _)

/-- **Two findings tell the same** of a `New` expression, as it stands in one module and in
another. -/
structure TellsAlike (file file' : FileContext) (t t' : Tree) (id : Nat) (a b : Finding) :
    Prop where
  isNew : t.kind? id = some .newExpression
  isNew' : t'.kind? id = some .newExpression
  location : a.location = Location.ofSpan file.relativePath (t.span id)
  location' : b.location = Location.ofSpan file'.relativePath (t'.span id)
  code : a.code = b.code
  rule : a.rule = b.rule
  severity : a.severity = b.severity
  suggestion : a.suggestion = b.suggestion
  minutesToFix : a.minutesToFix = b.minutesToFix
  /-- Each names the type as it is written in its own module. -/
  message : ∃ name name', typeName? t id = some name ∧ typeName? t' id = some name' ∧
    foldText name = foldText name' ∧
      a.message = UnixObject.message file.language (String.ofList name) ∧
      b.message = UnixObject.message file'.language (String.ofList name')

theorem denial_alike (h : t.Derived source content) {source' : List Char}
    {content' : List Derivation} (h' : t'.Derived source' content')
    (hlanguage : file.language = file'.language) {name name' : List Char}
    (hname : offence? r t id = some name) (hname' : offence? r t' id = some name')
    (hfold : foldText name = foldText name') :
    TellsAlike file file' t t' id (denial r file t id name) (denial r file' t' id name') := by
  obtain ⟨hnew, htype, -, -⟩ := (offends_iff h).mp ((offence?_eq_some_iff h).mp hname)
  obtain ⟨hnew', htype', -, -⟩ := (offends_iff h').mp ((offence?_eq_some_iff h').mp hname')
  have hsuggestion : some (suggestion file.language r.guardToken) =
      some (suggestion file'.language r.guardToken) := by
    rw [hlanguage]
  exact {
    isNew := hnew
    isNew' := hnew'
    location := rfl
    location' := rfl
    code := rfl
    rule := rfl
    severity := rfl
    suggestion := hsuggestion
    minutesToFix := rfl
    message := ⟨name, name', htype, htype', hfold, rfl, rfl⟩ }

end UnixObject

/-! ### Layout and letter case -/

/-- **Two tokens are alike**: of one kind, and with the same text up to case. -/
def Token.Alike (a b : Token) : Prop :=
  a.kind = b.kind ∧ foldText a.text = foldText b.text

instance : DecidableRel Token.Alike := fun a b =>
  inferInstanceAs (Decidable (a.kind = b.kind ∧ foldText a.text = foldText b.text))

/-- Trees over tokens that are alike are the same up to case. -/
theorem sameUpTo_foldChar {source source' : List Char} (h : parse source = .ok t)
    (h' : parse source' = .ok t')
    (htokens : List.Forall₂ Token.Alike t.lexed.tokens.toList t'.lexed.tokens.toList) :
    t.SameUpTo foldChar t' := by
  have hmap : ∀ {β : Type} (g : Token → β), (∀ a b, a.Alike b → g a = g b) →
      t.lexed.tokens.toList.map g = t'.lexed.tokens.toList.map g := by
    intro β g hg
    rw [← List.forall₂_eq_eq_eq, List.forall₂_map_left_iff, List.forall₂_map_right_iff]
    exact htokens.imp fun a b => hg a b
  obtain ⟨content', hcontent'⟩ := parse_derived h'
  constructor
  · -- the kinds of the tokens decide the nodes
    have hkinds : t.lexed.kinds = t'.lexed.kinds := hmap Token.kind fun a b hab => hab.1
    obtain ⟨s, hs, -, hnodes⟩ := exists_parse_of_kinds h hcontent'.lexed hkinds
    rw [h', Except.ok.injEq] at hs
    rw [hnodes, hs]
  · exact hmap _ fun a b hab => hab.2

open UnixObject in
/-- **Findings ignore layout and letter case.**  In two modules without directives whose
tokens are alike one by one, the rule finds the same: its findings correspond one by one, lie
at the same node, and differ at most in the spelling of the name of the type. -/
theorem check_alike (r : UnixObject) {file file' : FileContext} {source source' : List Char}
    (h : parse source = .ok t) (h' : parse source' = .ok t') (hfree : t.Undirected)
    (hfree' : t'.Undirected)
    (htokens : List.Forall₂ Token.Alike t.lexed.tokens.toList t'.lexed.tokens.toList)
    (hlanguage : file.language = file'.language) :
    t.nodes = t'.nodes ∧ (r.check file t).length = (r.check file' t').length ∧
      List.Forall₂ (fun a b => ∃ id, TellsAlike file file' t t' id a b)
        (r.check file t) (r.check file' t') := by
  have hsame := sameUpTo_foldChar h h' htokens
  obtain ⟨content, hcontent⟩ := parse_derived h
  obtain ⟨content', hcontent'⟩ := parse_derived h'
  have hall : List.Forall₂ (fun a b => ∃ id, TellsAlike file file' t t' id a b)
      (r.check file t) (r.check file' t') := by
    rw [check_of_undirected hcontent hfree, check_of_undirected hcontent' hfree',
      Tree.descendants_congr hsame.nodes]
    -- node by node, both offend or none does
    refine List.rel_filterMap (R := Eq) ?_ (List.forall₂_refl _)
    rintro id - rfl
    show Option.Rel _ ((offence? r t id).map _) ((offence? r t' id).map _)
    have hoffence := map_offence? hsame (fun _ _ hcd => hcd) r id
    cases hname : offence? r t id with
    | none =>
      rw [hname, Option.map_none, eq_comm, Option.map_eq_none_iff] at hoffence
      rw [hoffence]
      exact .none
    | some name =>
      rw [hname, Option.map_some, eq_comm, Option.map_eq_some_iff] at hoffence
      obtain ⟨name', hname', hfold⟩ := hoffence
      rw [hname']
      exact .some ⟨id, denial_alike hcontent hcontent' hlanguage hname hname' hfold.symm⟩
  exact ⟨hsame.nodes, hall.length_eq, hall⟩

theorem exists_of_isOk {ε α : Type} {x : Except ε α} (h : x.isOk = true) : ∃ a, x = .ok a := by
  cases x with
  | error e => cases h
  | ok a => exact ⟨a, rfl⟩

/-- A module on one line. -/
def onOneLine : List Char := "a=New Mail(b);".toList

/-- The same module on several lines, with a preprocessor line, a comment and other letters. -/
def onManyLines : List Char := "#if x\nA = nEw // note\n\tMAIL( B\n);".toList

theorem parse_onOneLine : (parse onOneLine).isOk = true := by decide +kernel

theorem parse_onManyLines : (parse onManyLines).isOk = true := by decide +kernel

open UnixObject in
theorem check_alike_layout : ∃ t t', parse onOneLine = .ok t ∧ parse onManyLines = .ok t' ∧
    t.Undirected ∧ t'.Undirected ∧
    List.Forall₂ Token.Alike t.lexed.tokens.toList t'.lexed.tokens.toList ∧
    (check .default ⟨"a.bsl", .bsl, .en⟩ t).length = 1 ∧
    List.Forall₂ (fun a b => ∃ id, TellsAlike ⟨"a.bsl", .bsl, .en⟩ ⟨"a.bsl", .bsl, .en⟩ t t' id a b)
      (check .default ⟨"a.bsl", .bsl, .en⟩ t) (check .default ⟨"a.bsl", .bsl, .en⟩ t') := by
  obtain ⟨t, ht⟩ := exists_of_isOk parse_onOneLine
  obtain ⟨t', ht'⟩ := exists_of_isOk parse_onManyLines
  have hfacts : ∀ t ∈ (parse onOneLine).toOption, ∀ t' ∈ (parse onManyLines).toOption,
      t.Undirected ∧ t'.Undirected ∧
      List.Forall₂ Token.Alike t.lexed.tokens.toList t'.lexed.tokens.toList ∧
      (check .default ⟨"a.bsl", .bsl, .en⟩ t).length = 1 := by
    decide +kernel
  obtain ⟨hfree, hfree', htokens, hlength⟩ :=
    hfacts t (by rw [ht]; rfl) t' (by rw [ht']; rfl)
  exact ⟨t, t', ht, ht', hfree, hfree', htokens, hlength,
    (check_alike .default ht ht' hfree hfree' htokens rfl).2.2⟩

end ModuleLint
