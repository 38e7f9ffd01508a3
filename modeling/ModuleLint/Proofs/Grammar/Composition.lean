/-
ModuleLint/Proofs/Grammar/Composition.lean

Blocks compose.  A source that is parsed into one block of statements can be joined to another
one by a semicolon, and it can be put into each place of a module where a block stands: into
the branches of `If`, into loops, into `Try` and into procedures.  Its statements stay what
they are, as long as the levels of nesting that it needs are left there.

Main result: `blocks_compose`.
-/
import ModuleLint.Proofs.Grammar.Completeness
import ModuleLint.Proofs.Grammar.Deepening
import ModuleLint.Proofs.Grammar.Endings
import ModuleLint.Proofs.Grammar.Parsed
import ModuleLint.Proofs.Lexical.Join
import ModuleLint.Proofs.Lexical.Respelling

namespace ModuleLint

open Grammar Reader ModuleLint.Derivation

/-! ### Lines -/

/-- A source spells tokens of these kinds. -/
def Spells (source : List Char) (kinds : List TokenKind) : Prop :=
  ∃ lexed, tokenize source = .ok lexed ∧ lexed.kinds = kinds

/-- **Lines spell their tokens one after the other.** -/
theorem Spells.line {s t : List Char} {kinds kinds' : List TokenKind} (h : Spells s kinds)
    (h' : Spells t kinds') : Spells (s ++ '\n' :: t) (kinds ++ kinds') := by
  obtain ⟨_, hlexed, rfl⟩ := h
  obtain ⟨_, hlexed', rfl⟩ := h'
  obtain ⟨pieces, hscan, rfl⟩ := tokenize_eq_ok_iff.mp hlexed
  obtain ⟨pieces', hscan', rfl⟩ := tokenize_eq_ok_iff.mp hlexed'
  refine ⟨_, tokenize_eq_ok_iff.mpr ⟨_, hscan.join rfl hscan', rfl⟩, ?_⟩
  rw [kinds_ofPlaced, kinds_ofPlaced, kinds_ofPlaced, List.map_append, List.filterMap_append]
  rfl

/-- What is spelled and derived is parsed, and the tree holds the derivation. -/
theorem Spells.exists_parse {source : List Char} {kinds : List TokenKind}
    {content : List Derivation} (h : Spells source kinds)
    (hderive : derive kinds = .ok [.node .module [] content]) :
    ∃ t, parse source = .ok t ∧ t.Derived source content := by
  obtain ⟨lexed, hlexed, rfl⟩ := h
  have ht := parse_eq_ok hlexed hderive
  obtain ⟨found, hfound⟩ := parse_derived ht
  have hsame := hfound.derives.symm.trans hderive
  cases hsame
  exact ⟨_, ht, hfound⟩

/-! ### Blocks -/

/-- **A source that is one block of statements**: it is parsed, and these items, the
statements with the semicolons between them, are all that its module is made of. -/
structure Block where
  source : List Char
  tree : Tree
  items : List Derivation
  parses : parse source = .ok tree
  derived : tree.Derived source [.node .codeBlock [] items]

namespace Block

/-- The skeletons of the statements. -/
def statements (b : Block) : List Skeleton := skeletonsAll b.items

/-- The kinds of the tokens. -/
def kinds (b : Block) : List TokenKind := b.tree.lexed.kinds

/-- In the tree, the module has one child, a block, and the statements are its children. -/
theorem shaped (b : Block) :
    b.tree.Shaped Tree.root (.node .module [.node .codeBlock b.statements]) :=
  b.derived.holds.shaped

/-- **Every source that is parsed into a module with one child** is a block. -/
theorem exists_of_parse {source : List Char} {t : Tree} {block : Nat}
    (ht : parse source = .ok t) (hroot : t.children Tree.root = [block]) :
    ∃ b : Block, b.source = source ∧ b.tree = t := by
  obtain ⟨content, hcontent⟩ := parse_derived ht
  have hchildren := (Tree.shaped_iff.mp hcontent.holds.shaped).2
  rw [hroot] at hchildren
  obtain ⟨k, _, -, hnone, hone⟩ := List.forall₂_cons_left_iff.mp hchildren
  cases hnone
  have hderives := hcontent.derives
  rw [derive_eq_ok_iff (beginsDeclaration_of_derive hderives hone)] at hderives
  obtain ⟨items, hitems, -⟩ := hderives
  cases hitems
  exact ⟨⟨source, t, items, ht, hcontent⟩, rfl, rfl⟩

theorem spells (b : Block) : Spells b.source b.kinds := ⟨_, b.derived.lexed, rfl⟩

theorem beginsDeclaration_kinds (b : Block) : beginsDeclaration b.kinds = false :=
  beginsDeclaration_of_derive b.derived.derives rfl

/-- What the grammar reads at the limit of nesting. -/
theorem block_kinds (b : Block) :
    block (below nestingLimit) [] b.kinds = .ok ([.node .codeBlock [] b.items], []) := by
  obtain ⟨items, hitems, hstatements⟩ :=
    (derive_eq_ok_iff b.beginsDeclaration_kinds).mp b.derived.derives
  cases hitems
  exact block_eq_ok_iff.mpr ⟨_, rfl, hstatements⟩

theorem module_isOk (b : Block) : (module (below nestingLimit) b.kinds).isOk = true := by
  rw [module_eq nestingLimit b.beginsDeclaration_kinds, b.block_kinds]
  rfl

theorem exists_levels (b : Block) : ∃ n, (module (below n) b.kinds).isOk = true :=
  ⟨nestingLimit, b.module_isOk⟩

/-- **The levels of nesting that a block needs by itself**: with fewer it is not read. -/
def need (b : Block) : Nat := Nat.find b.exists_levels

theorem need_le (b : Block) : b.need ≤ nestingLimit := Nat.find_min' b.exists_levels b.module_isOk

/-- **What a block holds is read** wherever the levels that it needs are left. -/
theorem block_of_need (b : Block) {n : Nat} (hneed : b.need ≤ n) :
    block (below n) [] b.kinds = .ok ([.node .codeBlock [] b.items], []) := by
  have hspec : (module (below b.need) b.kinds).isOk = true := Nat.find_spec b.exists_levels
  have hmono {m : Nat} (h : b.need ≤ m) : Refines (block (below b.need) []) (block (below m) []) :=
    closed_refines.block (nested_refines h) []
  rw [module_eq b.need b.beginsDeclaration_kinds] at hspec
  cases hread : block (below b.need) [] b.kinds with
  | error stop =>
    rw [hread] at hspec
    cases hspec
  | ok found =>
    obtain ⟨found, rest⟩ := found
    -- what is read with so many levels is what is read at the limit
    have hlimit := hmono b.need_le b.kinds found rest hread
    rw [b.block_kinds] at hlimit
    cases hlimit
    exact hmono hneed b.kinds _ _ hread

/-- The block itself takes one of the levels. -/
theorem sequence (b : Block) {n : Nat} (hneed : b.need ≤ n + 1) : Sequence n b.kinds b.items := by
  obtain ⟨items, hitems, hstatements⟩ := block_eq_ok_iff.mp (b.block_of_need hneed)
  cases hitems
  exact statements_eq_ok_iff.mp hstatements

/-- In front of a word that ends the block around it, a block is read as it is by itself. -/
theorem runs (b : Block) {m : Nat} (hneed : b.need ≤ m) {ends : List Keyword} {word : Keyword}
    (hends : ∀ w ∈ ends, isStatementEnd (.keyword w) = true) (hword : word ∈ ends) :
    Runs (block (below m) ends) True b.kinds [.node .codeBlock [] b.items]
      (Next (.keyword word)) := by
  refine Runs.of_ok fun rest hrest => ?_
  obtain ⟨rest, rfl⟩ := List.head?_eq_some_iff.mp hrest
  cases m with
  | zero => exact nomatch b.block_of_need hneed
  | succ m =>
    exact block_eq_ok_iff.mpr ⟨_, rfl, statements_before (b.sequence hneed) hends hword rest⟩

/-- **Two blocks and a semicolon between them are a block.** -/
theorem exists_join (a b : Block) :
    ∃ t, parse (a.source ++ '\n' :: ';' :: '\n' :: b.source) = .ok t ∧
      t.Shaped Tree.root (.node .module [.node .codeBlock (a.statements ++ b.statements)]) := by
  have hsemicolon : Spells [';'] [.semicolon] := ⟨_, rfl, rfl⟩
  have hspells : Spells (a.source ++ '\n' :: ';' :: '\n' :: b.source)
      (a.kinds ++ .semicolon :: b.kinds) := a.spells.line (hsemicolon.line b.spells)
  have hbegins := beginsDeclaration_append_semicolon a.beginsDeclaration_kinds b.kinds
  obtain ⟨all, hall, hskeletons⟩ :=
    (a.sequence (n := nestingLimit - 1) a.need_le).append_semicolon (b.sequence b.need_le)
  obtain ⟨t, ht, hderived⟩ := hspells.exists_parse
    ((derive_eq_ok_iff hbegins).mpr ⟨all, rfl, statements_eq_ok_iff.mpr hall⟩)
  have hshaped := hderived.holds.shaped
  simp only [List.nil_append, skeletonsAll_cons, skeletons_node, skeletonsAll_nil, hskeletons,
    List.append_nil] at hshaped
  exact ⟨t, ht, hshaped⟩

end Block

/-! ### Frames -/

/-- The words in front of a block, and the block. -/
structure Part where
  words : List TokenKind
  body : Block

/-- The tokens of a part. -/
def Part.kinds (part : Part) : List TokenKind := part.words ++ part.body.kinds

/-- **What blocks can be put into**: the statements that hold blocks, and procedures. -/
inductive Frame where
  | ifElse (first : Expr) (yes : Block) (second : Expr) (other no : Block)
  | whileDo (condition : Expr) (body : Block)
  | forTo (first last : Expr) (body : Block)
  | forEach (items : Expr) (body : Block)
  | tryExcept (attempt handler : Block)
  | procedure (body : Block)

namespace Frame

/-- The parts, each up to the end of its block. -/
def parts : Frame → List Part
  | ifElse first yes second other no =>
    [⟨.keyword .If :: (first.print ++ [.keyword .Then]), yes⟩,
      ⟨.keyword .ElsIf :: (second.print ++ [.keyword .Then]), other⟩, ⟨[.keyword .Else], no⟩]
  | whileDo condition body => [⟨.keyword .While :: (condition.print ++ [.keyword .Do]), body⟩]
  | forTo first last body =>
    [⟨.keyword .For :: .identifier :: .eq ::
      (first.print ++ .keyword .To :: (last.print ++ [.keyword .Do])), body⟩]
  | forEach items body =>
    [⟨.keyword .For :: .keyword .Each :: .identifier :: .keyword .In ::
      (items.print ++ [.keyword .Do]), body⟩]
  | tryExcept attempt handler => [⟨[.keyword .Try], attempt⟩, ⟨[.keyword .Except], handler⟩]
  | procedure body => [⟨[.keyword .Procedure, .identifier, .lParen, .rParen], body⟩]

/-- The word at the end. -/
def finish : Frame → Keyword
  | ifElse .. => .EndIf
  | whileDo .. | forTo .. | forEach .. => .EndDo
  | tryExcept .. => .EndTry
  | procedure .. => .EndProcedure

/-- The expressions in the words. -/
def expressions : Frame → List Expr
  | ifElse first _ second _ _ => [first, second]
  | whileDo condition _ => [condition]
  | forTo first last _ => [first, last]
  | forEach items _ => [items]
  | tryExcept .. | procedure .. => []

/-- The levels of nesting around the blocks: a statement stands in the block of the module. -/
def levels : Frame → Nat
  | procedure _ => 0
  | _ => 1

/-- The tokens. -/
def print (f : Frame) : List TokenKind := f.parts.flatMap Part.kinds ++ [.keyword f.finish]

/-! The tokens of each frame, one after the other. -/

theorem print_ifElse (first second : Expr) (yes other no : Block) :
    (ifElse first yes second other no).print =
      .keyword .If :: (first.print ++ .keyword .Then :: yes.kinds) ++
        (.keyword .ElsIf :: (second.print ++ .keyword .Then :: other.kinds) ++
          (.keyword .Else :: no.kinds ++ [.keyword .EndIf])) := by
  simp [print, parts, finish, Part.kinds]

theorem print_whileDo (e : Expr) (b : Block) :
    (whileDo e b).print =
      .keyword .While :: (e.print ++ .keyword .Do :: (b.kinds ++ [.keyword .EndDo])) := by
  simp [print, parts, finish, Part.kinds]

theorem print_forTo (first last : Expr) (b : Block) :
    (forTo first last b).print =
      .keyword .For :: .identifier :: .eq :: (first.print ++ .keyword .To ::
        (last.print ++ .keyword .Do :: (b.kinds ++ [.keyword .EndDo]))) := by
  simp [print, parts, finish, Part.kinds]

theorem print_forEach (e : Expr) (b : Block) :
    (forEach e b).print =
      .keyword .For :: .keyword .Each :: .identifier :: .keyword .In ::
        (e.print ++ .keyword .Do :: (b.kinds ++ [.keyword .EndDo])) := by
  simp [print, parts, finish, Part.kinds]

theorem print_tryExcept (attempt handler : Block) :
    (tryExcept attempt handler).print =
      .keyword .Try :: (attempt.kinds ++
        (.keyword .Except :: handler.kinds ++ [.keyword .EndTry])) := by
  simp [print, parts, finish, Part.kinds]

theorem print_procedure (b : Block) :
    (procedure b).print =
      .keyword .Procedure :: .identifier :: .lParen :: .rParen ::
        (b.kinds ++ [.keyword .EndProcedure]) := by
  simp [print, parts, finish, Part.kinds]

/-- A condition and the block that it guards. -/
def guarded (keyword : Keyword) (condition : Expr) (body : Block) : List Derivation :=
  [.token (.keyword keyword), condition.derivation, .token (.keyword .Then),
    .node .codeBlock [] body.items]

/-- The body of a loop. -/
def looped (body : Block) : List Derivation :=
  [.token (.keyword .Do), .node .codeBlock [] body.items, .token (.keyword .EndDo)]

/-- **The derivation of a frame**, in which the items of the blocks are what they are. -/
def derivation : Frame → Derivation
  | ifElse first yes second other no =>
    .node .ifStatement [] [.node .ifBranch [] (guarded .If first yes),
      .node .elsIfBranch [] (guarded .ElsIf second other),
      .node .elseBranch [] [.token (.keyword .Else), .node .codeBlock [] no.items],
      .token (.keyword .EndIf)]
  | whileDo condition body =>
    .node .whileStatement [] (.token (.keyword .While) :: condition.derivation :: looped body)
  | forTo first last body =>
    .node .forStatement [] (.token (.keyword .For) :: Expr.identifier.derivation :: .token .eq ::
      first.derivation :: .token (.keyword .To) :: last.derivation :: looped body)
  | forEach items body =>
    .node .forEachStatement [] (.token (.keyword .For) :: .token (.keyword .Each) ::
      Expr.identifier.derivation :: .token (.keyword .In) :: items.derivation :: looped body)
  | tryExcept attempt handler =>
    .node .tryStatement [] [.token (.keyword .Try), .node .codeBlock [] attempt.items,
      .node .exceptBranch [] [.token (.keyword .Except), .node .codeBlock [] handler.items],
      .token (.keyword .EndTry)]
  | procedure body =>
    .node .procedure [] [.token (.keyword .Procedure), Expr.identifier.derivation,
      .node .parameterList [] [.token .lParen, .token .rParen],
      .node .codeBlock [] body.items, .token (.keyword .EndProcedure)]

/-- What a module of one frame is made of. -/
def content : Frame → List Derivation
  | procedure body => [(procedure body).derivation, .node .codeBlock [] []]
  | f => [.node .codeBlock [] [f.derivation]]

/-- **A frame fits**: its expressions obey the levels of precedence, and what they and the
blocks need is left where they stand. -/
structure Fits (f : Frame) : Prop where
  obeys : ∀ e ∈ f.expressions, e.Obeys
  expressions : ∀ e ∈ f.expressions, e.need + f.levels ≤ nestingLimit
  bodies : ∀ part ∈ f.parts, part.body.need + f.levels ≤ nestingLimit

variable {f : Frame}

theorem Fits.need_expression (h : f.Fits) (hlevels : f.levels = 1) :
    ∀ e ∈ f.expressions, e.need ≤ nestingLimit - 1 :=
  fun e he => Nat.le_sub_of_add_le (hlevels ▸ h.expressions e he)

theorem Fits.need_body (h : f.Fits) (hlevels : f.levels = 1) :
    ∀ part ∈ f.parts, part.body.need ≤ nestingLimit - 1 :=
  fun part hpart => Nat.le_sub_of_add_le (hlevels ▸ h.bodies part hpart)

end Frame

namespace Grammar

section Runs

variable {m : Nat} {b : Block} {e : Expr} {front : List TokenKind} {items : List Derivation}
  {after : List TokenKind → Prop}

/-- A name. -/
theorem runs_identifier :
    Runs identifier True [.identifier] [Expr.identifier.derivation] Anything :=
  Runs.ifNext_pos rfl ((Runs.take .identifier).node .identifier)

/-- An expression in front of a token that ends it. -/
theorem runs_value (he : e.Obeys) (hneed : e.need ≤ m) {kind : TokenKind}
    (hkind : continuationLevel kind = 0) {r : Reader}
    (h : Runs r True (kind :: front) items after) :
    Runs (expression (below m) >> r) True (e.print ++ kind :: front) (e.derivation :: items)
      after :=
  ((runs_expression e he m).congr (iff_true_intro hneed).symm).andThen_left h fun _ _ =>
    ends_of_zero hkind

/-- A condition and the block that it guards, in front of a word that ends the block. -/
theorem runs_condition (he : e.Obeys) (hneed : e.need ≤ m) (hb : b.need ≤ m) (keyword : Keyword)
    {word : Keyword} (hword : word ∈ [Keyword.ElsIf, .Else, .EndIf]) :
    Runs (condition (below m)) True
      (.keyword keyword :: (e.print ++ .keyword .Then :: b.kinds)) (Frame.guarded keyword e b)
      (Next (.keyword word)) :=
  (Runs.take _).andThen_right
    (runs_value he hneed rfl ((Runs.expect _).andThen_right (b.runs hb (by decide) hword)))

/-- The body of a loop. -/
theorem runs_loopBody (hb : b.need ≤ m) :
    Runs (loopBody (below m)) True (.keyword .Do :: (b.kinds ++ [.keyword .EndDo]))
      (Frame.looped b) Anything :=
  (Runs.expect _).andThen_right
    ((b.runs hb (by decide) List.mem_cons_self).andThen_left (Runs.expect _) fun _ _ => rfl)

/-- `If` with one branch of each kind. -/
theorem runs_ifElse {first second : Expr} {yes other no : Block} (hfirst : first.Obeys)
    (hsecond : second.Obeys) (hneed : first.need ≤ m) (hneed' : second.need ≤ m)
    (hyes : yes.need ≤ m) (hother : other.need ≤ m) (hno : no.need ≤ m) :
    Runs (statement (below m)) True (Frame.ifElse first yes second other no).print
      [(Frame.ifElse first yes second other no).derivation] Anything := by
  have helse : Runs
      (ifNext (isWord .Else) (node .elseBranch (take >> block (below m) [.EndIf])) pass) True
      (.keyword .Else :: no.kinds)
      [.node .elseBranch [] [.token (.keyword .Else), .node .codeBlock [] no.items]]
      (Next (.keyword .EndIf)) :=
    Runs.ifNext_pos rfl
      (((Runs.take _).andThen_right (no.runs hno (by decide) List.mem_cons_self)).node _)
  have helsIf : Runs (many (nextIs (isWord .ElsIf)) (node .elsIfBranch (condition (below m)))) True
      (.keyword .ElsIf :: (second.print ++ .keyword .Then :: other.kinds))
      [.node .elsIfBranch [] (Frame.guarded .ElsIf second other)] (Next (.keyword .Else)) := by
    have hbranch := (runs_condition hsecond hneed' hother .ElsIf
      (show Keyword.Else ∈ _ by decide)).node .elsIfBranch
    refine Runs.many_once rfl hbranch fun rest hrest => ⟨hrest, ?_⟩
    obtain ⟨rest, rfl⟩ := List.head?_eq_some_iff.mp hrest
    rfl
  have hif : Runs (node .ifBranch (condition (below m))) True
      (.keyword .If :: (first.print ++ .keyword .Then :: yes.kinds))
      [.node .ifBranch [] (Frame.guarded .If first yes)] (Next (.keyword .ElsIf)) :=
    (runs_condition hfirst hneed hyes .If (by decide)).node _
  have hends := helse.andThen_left (Runs.expect (.keyword .EndIf)) fun _ _ => rfl
  have hwhole := (hif.andThen_left (helsIf.andThen_left hends fun _ _ => rfl) fun _ _ => rfl).node
    .ifStatement
  rw [Frame.print_ifElse]
  exact Runs.peek hwhole

theorem runs_whileDo (he : e.Obeys) (hneed : e.need ≤ m) (hb : b.need ≤ m) :
    Runs (statement (below m)) True (Frame.whileDo e b).print [(Frame.whileDo e b).derivation]
      Anything := by
  rw [Frame.print_whileDo]
  exact Runs.peek
    (((Runs.take _).andThen_right (runs_value he hneed rfl (runs_loopBody hb))).node _)

theorem runs_forTo {first last : Expr} (hfirst : first.Obeys) (hlast : last.Obeys)
    (hneed : first.need ≤ m) (hneed' : last.need ≤ m) (hb : b.need ≤ m) :
    Runs (statement (below m)) True (Frame.forTo first last b).print
      [(Frame.forTo first last b).derivation] Anything := by
  have hlimit := (Runs.expect (.keyword .To)).andThen_right
    (runs_value hlast hneed' rfl (runs_loopBody hb))
  have hrange := (Runs.take (.keyword .For)).andThen_right (runs_identifier.andThen_right
    ((Runs.expect .eq).andThen_right (runs_value hfirst hneed rfl hlimit)))
  rw [Frame.print_forTo]
  exact Runs.peek ((hrange.node .forStatement).of_eq fun rest => rfl)

theorem runs_forEach (he : e.Obeys) (hneed : e.need ≤ m) (hb : b.need ≤ m) :
    Runs (statement (below m)) True (Frame.forEach e b).print [(Frame.forEach e b).derivation]
      Anything := by
  have hin := (Runs.expect (.keyword .In)).andThen_right
    (runs_value he hneed rfl (runs_loopBody hb))
  have heach := (Runs.take (.keyword .For)).andThen_right
    ((Runs.take (.keyword .Each)).andThen_right (runs_identifier.andThen_right hin))
  rw [Frame.print_forEach]
  exact Runs.peek ((heach.node .forEachStatement).of_eq fun rest => rfl)

theorem runs_tryExcept {attempt handler : Block} (hattempt : attempt.need ≤ m)
    (hhandler : handler.need ≤ m) :
    Runs (statement (below m)) True (Frame.tryExcept attempt handler).print
      [(Frame.tryExcept attempt handler).derivation] Anything := by
  have hexcept : Runs (node .exceptBranch (word .Except >> block (below m) [.EndTry])) True
      (.keyword .Except :: handler.kinds)
      [.node .exceptBranch [] [.token (.keyword .Except), .node .codeBlock [] handler.items]]
      (Next (.keyword .EndTry)) :=
    ((Runs.expect _).andThen_right
      (handler.runs hhandler (by decide) List.mem_cons_self)).node _
  have hends := hexcept.andThen_left (Runs.expect (.keyword .EndTry)) fun _ _ => rfl
  have htry : Runs (block (below m) [.Except]) True attempt.kinds
      [.node .codeBlock [] attempt.items] (Next (.keyword .Except)) :=
    attempt.runs hattempt (by decide) List.mem_cons_self
  have hwhole := ((Runs.take (.keyword .Try)).andThen_right
    (htry.andThen_left hends fun _ _ => rfl)).node .tryStatement
  rw [Frame.print_tryExcept]
  exact Runs.peek hwhole

/-- No statement begins with `Export`, which may stand behind the head of a method. -/
theorem Sequence.head?_ne {n : Nat} {kinds : List TokenKind} {ds : List Derivation}
    (h : Sequence n kinds ds) : kinds.head? ≠ some (.keyword .Export) := by
  intro hnext
  cases h with
  | nil => cases hnext
  | skip hmore => cases hnext
  | cons hkind hitems hmore =>
    cases hnext
    exact nomatch hitems

/-- A procedure without parameters. -/
theorem runs_procedure (hb : b.need ≤ m) :
    Runs (method (below m)) True (Frame.procedure b).print [(Frame.procedure b).derivation]
      Anything := by
  have hlead : Runs (directives (below m) >> accept (.keyword .Async)) True [] []
      (Next (.keyword .Procedure)) := by
    refine Runs.of_ok fun rest hrest => ?_
    obtain ⟨rest, rfl⟩ := List.head?_eq_some_iff.mp hrest
    rfl
  have hparameters : Runs (parameterList (below m)) True [.lParen, .rParen]
      [.node .parameterList [] [.token .lParen, .token .rParen]] Anything :=
    ((Runs.expect .lParen).andThen_right (Runs.ifNext_pos rfl (Runs.take .rParen))).node _
  have hbody : Runs (block (below m) [.EndProcedure]) True b.kinds
      [.node .codeBlock [] b.items] (Next (.keyword .EndProcedure)) :=
    b.runs hb (by decide) List.mem_cons_self
  have hfinish : Runs (expectAs (.keyword .EndProcedure) .endOfMethod) True
      [.keyword .EndProcedure] [.token (.keyword .EndProcedure)] Anything :=
    Runs.ifNext_pos (beq_self_eq_true _) (Runs.take _)
  have hends := hbody.andThen_left hfinish fun _ _ => rfl
  have hnext (rest : List TokenKind) :
      NotNext (.keyword .Export) (b.kinds ++ [.keyword .EndProcedure] ++ rest) := by
    have hhead := (b.sequence (n := nestingLimit - 1) b.need_le).head?_ne
    cases hkinds : b.kinds with
    | nil => exact nofun
    | cons kind kinds =>
      rw [hkinds] at hhead
      exact hhead
  have hexport := (Runs.ifNext_pass (.keyword .Export) take).andThen_left hends fun rest _ =>
    hnext rest
  have hcontent := (Runs.take (.keyword .Procedure)).andThen_right
    (runs_identifier.andThen_right (hparameters.andThen_right hexport))
  rw [Frame.print_procedure]
  exact Runs.wrap hlead (fun _ _ => rfl) rfl hcontent

end Runs

/-- A module of one statement. -/
theorem derive_of_runs {kinds ahead : List TokenKind} {kind : TokenKind} {d : Derivation}
    (hkinds : kinds = kind :: ahead) (hkind : kind ≠ .semicolon)
    (hbegins : beginsDeclaration (kind :: ahead) = false)
    (h : Runs (statement (below (nestingLimit - 1))) True kinds [d] Anything) :
    derive kinds = .ok [.node .module [] [.node .codeBlock [] [d]]] := by
  subst hkinds
  have hstatement := h.ok trivial [] trivial
  rw [List.append_nil] at hstatement
  exact (derive_eq_ok_iff hbegins).mpr
    ⟨[d], rfl, statements_eq_ok_iff.mpr (.cons hkind hstatement .nil)⟩

/-- A module of one procedure. -/
theorem derive_procedure {b : Block} (hb : b.need ≤ nestingLimit) :
    derive (Frame.procedure b).print = .ok [.node .module [] (Frame.procedure b).content] := by
  have hmethod := (runs_procedure hb).ok trivial [] trivial
  rw [List.append_nil] at hmethod
  have hdeclarations : many beginsDeclaration (declaration (below nestingLimit))
      (Frame.procedure b).print = .ok ([(Frame.procedure b).derivation], []) := by
    rw [Frame.print_procedure] at hmethod ⊢
    have hbegins : ∀ ahead, beginsDeclaration (.keyword .Procedure :: ahead) = true := fun _ => rfl
    have hdeclaration := @ifNext_of_false (isWord .Var) (.keyword .Procedure) rfl varDeclaration
    rw [many_eq rfl (takesAt_declaration nestingLimit), if_pos (hbegins _), declaration,
      hdeclaration, hmethod]
    rfl
  have hblock : block (below nestingLimit) [] [] = .ok ([.node .codeBlock [] []], []) :=
    block_eq_ok_iff.mpr ⟨[], rfl, rfl⟩
  rw [derive, module, node_eq, andThen_eq, hdeclarations, bind_ok, hblock]
  rfl

/-- **A frame that fits is derived.** -/
theorem derive_frame {f : Frame} (h : f.Fits) :
    derive f.print = .ok [.node .module [] f.content] := by
  cases f with
  | ifElse first yes second other no =>
    obtain ⟨hfirst, hsecond⟩ : first.Obeys ∧ second.Obeys := by
      simpa [Frame.expressions] using h.obeys
    obtain ⟨hneed, hneed'⟩ : first.need ≤ nestingLimit - 1 ∧ second.need ≤ nestingLimit - 1 := by
      simpa [Frame.expressions] using h.need_expression rfl
    obtain ⟨hyes, hother, hno⟩ : yes.need ≤ nestingLimit - 1 ∧ other.need ≤ nestingLimit - 1 ∧
        no.need ≤ nestingLimit - 1 := by
      simpa [Frame.parts] using h.need_body rfl
    exact derive_of_runs (Frame.print_ifElse ..) nofun rfl
      (runs_ifElse hfirst hsecond hneed hneed' hyes hother hno)
  | whileDo condition body =>
    have hcondition : condition.Obeys := h.obeys _ List.mem_cons_self
    have hneed : condition.need ≤ nestingLimit - 1 := by
      simpa [Frame.expressions] using h.need_expression rfl
    have hbody : body.need ≤ nestingLimit - 1 := by simpa [Frame.parts] using h.need_body rfl
    exact derive_of_runs (Frame.print_whileDo ..) nofun rfl (runs_whileDo hcondition hneed hbody)
  | forTo first last body =>
    obtain ⟨hfirst, hlast⟩ : first.Obeys ∧ last.Obeys := by
      simpa [Frame.expressions] using h.obeys
    obtain ⟨hneed, hneed'⟩ : first.need ≤ nestingLimit - 1 ∧ last.need ≤ nestingLimit - 1 := by
      simpa [Frame.expressions] using h.need_expression rfl
    have hbody : body.need ≤ nestingLimit - 1 := by simpa [Frame.parts] using h.need_body rfl
    exact derive_of_runs (Frame.print_forTo ..) nofun rfl
      (runs_forTo hfirst hlast hneed hneed' hbody)
  | forEach items body =>
    have hitems : items.Obeys := h.obeys _ List.mem_cons_self
    have hneed : items.need ≤ nestingLimit - 1 := by
      simpa [Frame.expressions] using h.need_expression rfl
    have hbody : body.need ≤ nestingLimit - 1 := by simpa [Frame.parts] using h.need_body rfl
    exact derive_of_runs (Frame.print_forEach ..) nofun rfl (runs_forEach hitems hneed hbody)
  | tryExcept attempt handler =>
    obtain ⟨hattempt, hhandler⟩ : attempt.need ≤ nestingLimit - 1 ∧
        handler.need ≤ nestingLimit - 1 := by
      simpa [Frame.parts] using h.need_body rfl
    exact derive_of_runs (Frame.print_tryExcept ..) nofun rfl (runs_tryExcept hattempt hhandler)
  | procedure body =>
    have hbody : body.need ≤ nestingLimit := by
      simpa [Frame.parts, Frame.levels] using h.bodies
    exact derive_procedure hbody

end Grammar

/-- **Blocks compose.**  Two blocks with a semicolon on a line between them are a block, and
its statements are those of the one and then those of the other.  A block that is put between
the lines of a frame that fits, in the place of one of its blocks, gives a source that is
parsed; the tree holds the derivation of the frame, in which the items of the block are what
they are by themselves. -/
theorem blocks_compose :
    (∀ a b : Block, ∃ t, parse (a.source ++ '\n' :: ';' :: '\n' :: b.source) = .ok t ∧
      t.Shaped Tree.root (.node .module [.node .codeBlock (a.statements ++ b.statements)])) ∧
    ∀ (f : Frame) (before behind : List Part) (words : List TokenKind) (s : Block)
      (head tail : List Char), f.Fits → f.parts = before ++ ⟨words, s⟩ :: behind →
      Spells head (before.flatMap Part.kinds ++ words) →
      Spells tail (behind.flatMap Part.kinds ++ [.keyword f.finish]) →
      ∃ t, parse (head ++ '\n' :: (s.source ++ '\n' :: tail)) = .ok t ∧
        t.Holds (.child Tree.root) (.node .module [] f.content) := by
  refine ⟨Block.exists_join, fun f before behind words s head tail hfits hparts hhead htail => ?_⟩
  have hprint : before.flatMap Part.kinds ++ words ++
      (s.kinds ++ (behind.flatMap Part.kinds ++ [.keyword f.finish])) = f.print := by
    rw [Frame.print, hparts]
    simp [Part.kinds]
  have hspells := hhead.line (s.spells.line htail)
  rw [hprint] at hspells
  obtain ⟨t, ht, hderived⟩ := hspells.exists_parse (derive_frame hfits)
  exact ⟨t, ht, hderived.holds⟩

/-- A block of one statement, which an expression could follow. -/
def returnText : List Char := "Return".toList

/-- A loop around it. -/
def whileReturnText : List Char := "While a Do\nReturn\nEndDo".toList

theorem blocks_compose_return :
    ∃ s : Block, s.source = returnText ∧
      (∃ t, parse (returnText ++ '\n' :: ';' :: '\n' :: returnText) = .ok t ∧
        t.Shaped Tree.root (.node .module [.node .codeBlock (s.statements ++ s.statements)])) ∧
      (Frame.whileDo .identifier s).Fits ∧
      Spells "While a Do".toList [.keyword .While, .identifier, .keyword .Do] ∧
      Spells "EndDo".toList [.keyword .EndDo] ∧
      ∃ t, parse whileReturnText = .ok t ∧
        t.Holds (.child Tree.root) (.node .module [] (Frame.whileDo .identifier s).content) := by
  have hparse : (parse returnText).toOption.map (fun t => (t.children Tree.root, t.lexed.kinds)) =
      some ([1], [.keyword .Return]) := by decide +kernel
  obtain ⟨t, ht, hpair⟩ := exists_parse_of_map hparse
  obtain ⟨hroot, hkinds⟩ := Prod.mk.inj hpair
  obtain ⟨s, hsource, rfl⟩ := Block.exists_of_parse ht hroot
  have hneed : s.need ≤ 1 := by
    refine Nat.find_min' s.exists_levels ?_
    rw [Block.kinds, hkinds]
    rfl
  have hfits : (Frame.whileDo .identifier s).Fits := by
    refine ⟨fun e he => ?_, fun e he => ?_, fun part hpart => ?_⟩
    · obtain rfl := List.mem_singleton.mp he
      trivial
    · obtain rfl := List.mem_singleton.mp he
      exact show 1 + 1 ≤ nestingLimit by decide
    · obtain rfl := List.mem_singleton.mp hpart
      exact (Nat.add_le_add_right hneed 1).trans (by decide)
  have hhead : Spells "While a Do".toList [.keyword .While, .identifier, .keyword .Do] :=
    exists_tokenize_of_map (by decide +kernel)
  have htail : Spells "EndDo".toList [.keyword .EndDo] :=
    exists_tokenize_of_map (by decide +kernel)
  have hjoin := blocks_compose.1 s s
  have hloop := blocks_compose.2 _ [] [] _ s _ _ hfits rfl hhead htail
  rw [hsource] at hjoin hloop
  exact ⟨s, hsource, hjoin, hfits, hhead, htail, hloop⟩

end ModuleLint
