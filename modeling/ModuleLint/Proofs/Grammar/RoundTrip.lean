/-
ModuleLint/Proofs/Grammar/RoundTrip.lean

Printing an expression and parsing it again.  A source whose tokens are a name, `=`, the
tokens of an expression and `;` is read as an assignment: the block of the module opens
one level of nesting, and the expression as many as it needs.

Main result: `parse_assignment`.  Such a source parses if and only if these levels are
within the limit, and the tree then holds the expression, node for node, as the second
child of the assignment.
-/
import ModuleLint.Proofs.Grammar.Completeness
import ModuleLint.Proofs.Grammar.Conformance

namespace ModuleLint

namespace Grammar

open Reader ModuleLint.Derivation

variable {e : Expr}

/-- The node of an assignment to a name. -/
def assignment (e : Expr) : Derivation :=
  .node .assignmentStatement [Expr.identifier.derivation] [.token .eq, e.derivation]

/-- What a module of one assignment is made of. -/
def assignmentBlock (e : Expr) : Derivation :=
  .node .codeBlock [] [assignment e, .token .semicolon]

/-- **An assignment** needs what its expression needs. -/
theorem runs_assignment (he : e.Obeys) (m : Nat) :
    Runs (statement (below m)) (e.need ≤ m) (.identifier :: .eq :: e.print) [assignment e]
      (Ends 1) := by
  have htarget : Runs (suffixed (expression (below m))) True [.identifier]
      [Expr.identifier.derivation] (Ends 8) :=
    (climbs_identifier.runs le_rfl).congr (iff_true_intro (Nat.zero_le m)).symm
  have hvalue : Runs (take >> expression (below m)) (e.need ≤ m) (.eq :: e.print)
      [.token .eq, e.derivation] (Ends 1) :=
    (Runs.take .eq).andThen_right (runs_expression e he m)
  have hends : ∀ rest, Ends 1 rest → Ends 8 (.eq :: e.print ++ rest) := fun _ _ =>
    ends_cons (by decide)
  exact Runs.peek (Runs.wrap (Runs.ifNext_neg rfl htarget) hends rfl hvalue)

/-- The statements of a block, up to the end of input. -/
theorem runs_statements (he : e.Obeys) (m : Nat) :
    Runs (many (nextIs (continuesBlock []))
        (ifNext (· == .semicolon) take (statement (below m))))
      (e.need ≤ m) (.identifier :: .eq :: (e.print ++ [.semicolon]))
      [assignment e, .token .semicolon] (· = []) := by
  have hstatement : Runs (ifNext (· == .semicolon) take (statement (below m))) (e.need ≤ m)
      (.identifier :: .eq :: e.print) [assignment e] (Ends 1) :=
    Runs.ifNext_neg rfl (runs_assignment he m)
  have hends : Ends 1 [.semicolon] := ends_of_zero rfl
  refine ⟨fun hneed rest hrest => ?_, fun hneed rest hrest => ?_⟩
  · subst hrest
    rw [List.append_nil]
    change manyFrom _ _ (.identifier :: .eq :: (e.print ++ [.semicolon])) []
      ((.identifier :: .eq :: e.print) ++ [.semicolon]) = _
    have hsemicolon : ifNext (· == .semicolon) take (statement (below m)) [.semicolon] =
        .ok ([.token .semicolon], []) := rfl
    rw [manyFrom_turn rfl (hstatement.ok hneed _ hends), manyFrom_turn rfl hsemicolon,
      manyFrom_stop _ _ rfl]
    rfl
  · subst hrest
    obtain ⟨stop, hstop⟩ := hstatement.error hneed _ hends
    rw [List.append_nil]
    change ∃ stop, manyFrom _ _ (.identifier :: .eq :: (e.print ++ [.semicolon])) []
      ((.identifier :: .eq :: e.print) ++ [.semicolon]) = _
    exact ⟨stop, manyFrom_error rfl hstop⟩

/-- **A module of one assignment** needs one level more. -/
theorem runs_module (he : e.Obeys) (m : Nat) :
    Runs (module (below m)) (e.need + 1 ≤ m) (.identifier :: .eq :: (e.print ++ [.semicolon]))
      [.node .module [] [assignmentBlock e]] (· = []) := by
  have hdeclarations : Runs (many beginsDeclaration (declaration (below m))) True [] []
      (fun rest => beginsDeclaration rest = false) := by
    refine Runs.of_ok fun rest hrest => ?_
    exact manyFrom_stop _ [] hrest
  have hblock : Runs (block (below m) []) (e.need + 1 ≤ m)
      (.identifier :: .eq :: (e.print ++ [.semicolon])) [assignmentBlock e] (· = []) := by
    refine runs_deeper (fun m => ?_) m
    have hstatements := runs_statements he m
    rw [← statement_level] at hstatements
    exact hstatements.node _
  have hboth := hdeclarations.andThen hblock fun rest _ => rfl
  exact (hboth.congr ⟨fun hneed => ⟨trivial, hneed⟩, And.right⟩).node _

theorem derive_assignment (he : e.Obeys) :
    (1 + e.need ≤ nestingLimit →
      derive (.identifier :: .eq :: (e.print ++ [.semicolon])) =
        .ok [.node .module [] [assignmentBlock e]]) ∧
    (¬ 1 + e.need ≤ nestingLimit →
      ∃ stop, derive (.identifier :: .eq :: (e.print ++ [.semicolon])) = .error stop) := by
  have hmodule := (runs_module he nestingLimit).congr
    (show 1 + e.need ≤ nestingLimit ↔ _ by rw [Nat.add_comm])
  refine ⟨fun hneed => ?_, fun hneed => ?_⟩
  · have hok := hmodule.ok hneed [] rfl
    rw [List.append_nil] at hok
    rw [derive, hok]
  · obtain ⟨stop, hstop⟩ := hmodule.error hneed [] rfl
    rw [List.append_nil] at hstop
    rw [derive, hstop]
    exact ⟨stop, rfl⟩

end Grammar

open Grammar

namespace Tree

/-- **A tree is an assignment of an expression**: its only statement assigns the value
that the expression stands for, node for node. -/
def Assigns (t : Tree) (e : Expr) : Prop :=
  ∃ block statement target value,
    t.children root = [block] ∧ t.kind? block = some .codeBlock ∧
    t.children block = [statement] ∧ t.kind? statement = some .assignmentStatement ∧
    t.children statement = [target, value] ∧ t.Holds (.child value) e.derivation

variable {t : Tree}

/-- The items of a node, one by one. -/
theorem exists_item {found : List Item} {d : Derivation} {ds : List Derivation}
    (h : List.Forall₂ t.Holds found (d :: ds)) :
    ∃ item behind, found = item :: behind ∧ t.Holds item d ∧ List.Forall₂ t.Holds behind ds := by
  cases h with
  | cons hitem hbehind => exact ⟨_, _, rfl, hitem, hbehind⟩

theorem Holds.assigns {e : Expr}
    (h : t.Holds (.child root) (.node .module [] [assignmentBlock e])) : t.Assigns e := by
  obtain ⟨id, hid, -, hroot⟩ := h.exists_child
  obtain rfl : root = id := Item.child.inj hid
  -- the block, the statement and its value, from the outside to the inside
  obtain ⟨item, behind, hrootItems, hblock, hnone⟩ := exists_item hroot
  obtain rfl := List.forall₂_nil_right_iff.mp hnone
  obtain ⟨block, rfl, hblockKind, hblock⟩ := hblock.exists_child
  obtain ⟨item, behind, hblockItems, hstatement, hbehind⟩ := exists_item hblock
  obtain ⟨semicolon, behind, rfl, hsemicolon, hnone⟩ := exists_item hbehind
  obtain rfl := List.forall₂_nil_right_iff.mp hnone
  cases hsemicolon
  obtain ⟨statement, rfl, hstatementKind, hstatement⟩ := hstatement.exists_child
  obtain ⟨item, behind, hstatementItems, htarget, hrest⟩ := exists_item hstatement
  obtain ⟨target, rfl, -, -⟩ := htarget.exists_child
  obtain ⟨equals, more, rfl, hequals, hlast⟩ := exists_item hrest
  cases hequals
  obtain ⟨item, behind, rfl, hvalue, hnone⟩ := exists_item hlast
  obtain rfl := List.forall₂_nil_right_iff.mp hnone
  obtain ⟨value, rfl⟩ : ∃ value, item = .child value := by
    cases hd : e.derivation with
    | token kind => cases e <;> cases hd
    | node kind lead items =>
      rw [hd] at hvalue
      obtain ⟨value, rfl, -⟩ := hvalue.exists_child
      exact ⟨value, rfl⟩
  refine ⟨block, statement, target, value, ?_, hblockKind, ?_, hstatementKind, ?_, hvalue⟩
  · rw [children_eq_filterMap, hrootItems]
    rfl
  · rw [children_eq_filterMap, hblockItems]
    rfl
  · rw [children_eq_filterMap, hstatementItems]
    rfl

end Tree

/-- **Printing an expression and parsing it again.**  A name, `=`, the tokens of an
expression and `;` are parsed if and only if the levels of nesting that the expression
needs, and that of the block around it, are within the limit; the tree then assigns the
expression. -/
theorem parse_assignment {source : List Char} {lexed : Lexed} {e : Expr} (he : e.Obeys)
    (hlexed : tokenize source = .ok lexed)
    (hkinds : lexed.kinds = .identifier :: .eq :: (e.print ++ [.semicolon])) :
    ((∃ t, parse source = .ok t) ↔ 1 + e.need ≤ nestingLimit) ∧
      ∀ t, parse source = .ok t → t.Assigns e := by
  have hderive := derive_assignment he
  rw [← hkinds] at hderive
  -- a tree of this source is laid out from what the grammar derives
  have hparsed : ∀ t, parse source = .ok t → 1 + e.need ≤ nestingLimit ∧
      t.Holds (.child Tree.root) (.node .module [] [assignmentBlock e]) := by
    intro t ht
    obtain ⟨content, hcontent⟩ := parse_derived ht
    obtain rfl : lexed = t.lexed := Except.ok.inj (hlexed.symm.trans hcontent.lexed)
    by_cases hneed : 1 + e.need ≤ nestingLimit
    · have hderives := (hderive.1 hneed).symm.trans hcontent.derives
      have hholds := hcontent.holds
      rw [← List.head_eq_of_cons_eq (Except.ok.inj hderives)] at hholds
      exact ⟨hneed, hholds⟩
    · obtain ⟨stop, hstop⟩ := hderive.2 hneed
      rw [hcontent.derives] at hstop
      cases hstop
  refine ⟨⟨fun ⟨t, ht⟩ => (hparsed t ht).1, fun hneed => ?_⟩, fun t ht => (hparsed t ht).2.assigns⟩
  exact ⟨_, parse_eq_ok hlexed (hderive.1 hneed)⟩

/-- The value of the sample: a new object with one argument. -/
def sampleValue : Expr := .newTypeArgs [some (.unary .minus .identifier)]

theorem parse_assignment_sample : sampleValue.Obeys ∧
    ((∃ t, parse sample = .ok t) ↔ 1 + sampleValue.need ≤ nestingLimit) ∧
      ∀ t, parse sample = .ok t → t.Assigns sampleValue := by
  have hobeys : sampleValue.Obeys := ⟨⟨by decide, by decide, trivial⟩, trivial⟩
  obtain ⟨lexed, hlexed, hkinds⟩ := tokenize_sample
  exact ⟨hobeys, parse_assignment hobeys hlexed hkinds⟩

end ModuleLint
