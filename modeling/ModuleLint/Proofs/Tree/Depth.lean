/-
ModuleLint/Proofs/Tree/Depth.lean

How deep the tree of a module is.  The limit of nesting bounds the ancestors of a node that
are no links (`length_ancestors_le`), with room to spare.  It does not bound the links: no
level is opened for a step from an expression to one of its members, so a module of a few
tokens more is always a tree that is deeper by as many nodes (`exists_deep`), and no constant
bounds the depth of all trees (`not_forall_length_ancestors_le`).
-/
import ModuleLint.Proofs.Grammar.Nesting
import ModuleLint.Proofs.Grammar.RoundTrip
import ModuleLint.Proofs.Lexical.Respelling
import ModuleLint.Proofs.Tree.WellFormed

namespace ModuleLint

open Grammar Outline

/-! ### The limit of nesting -/

/-- **Apart from links a node has no more ancestors than the limit of nesting allows**: at
most three for each level, and six for what stands around all blocks. -/
theorem length_ancestors_le {source : List Char} {t : Tree} (h : parse source = .ok t) {id : Nat}
    (hid : id < t.size) :
    (t.ancestors id).length ≤ 3 * nestingLimit + 6 + (t.ancestors id).countP t.isLink := by
  obtain ⟨content, hcontent⟩ := parse_derived h
  have hheight : (moduleOutline content).height ≤ 3 * nestingLimit + 6 := by
    have hderive := hcontent.derives
    unfold derive at hderive
    split at hderive
    · cases hderive
    · rename_i items rest hmodule
      have hle := Reader.AtMost.module nestingLimit _ _ _ hmodule
      rw [Except.ok.inj hderive, Derivation.heightAll_singleton,
        ← Derivation.heightAll_outline _ 0 0, outline_module, Outline.heightAll, Outline.heightAll,
        Nat.max_zero] at hle
      exact hle
  have hcount := hcontent.outlined.countP_ancestors_le hid
  have hsplit := List.length_eq_countP_add_countP t.isLink (l := t.ancestors id)
  have hothers : (fun id => decide ¬ t.isLink id = true) = fun id => !t.isLink id := by
    funext id
    cases t.isLink id <;> rfl
  rw [hothers] at hsplit
  omega

/-! ### Members of members -/

/-- A name, and so many steps to a member. -/
def Expr.members : Nat → Expr
  | 0 => .identifier
  | n + 1 => .member (members n) .identifier

theorem Expr.level_members (n : Nat) : (members n).level = 8 := by
  cases n <;> rfl

theorem Expr.obeys_members (n : Nat) : (members n).Obeys := by
  induction n with
  | zero => trivial
  | succ n ih => exact ⟨Nat.le_of_eq (level_members n).symm, ih, rfl⟩

/-- However many steps there are, one level of nesting is enough. -/
theorem Expr.need_members (n : Nat) : (members n).need = 1 := by
  induction n with
  | zero => rfl
  | succ n ih => exact ih

/-- **A tree that holds so many steps to a member is deeper by so many nodes.** -/
theorem Tree.Holds.exists_deep {t : Tree} {o : Outline} (ho : t.OutlinedBy o) (n : Nat) {id : Nat}
    (hid : id < t.size) (h : t.Holds (.child id) (Expr.members n).derivation) :
    ∃ deep, deep < t.size ∧ (t.ancestors deep).length = (t.ancestors id).length + n := by
  induction n generalizing id with
  | zero => exact ⟨id, hid, rfl⟩
  | succ n ih =>
    obtain ⟨own, hown, -, hitems⟩ := Holds.exists_child h
    obtain rfl := Item.child.inj hown
    -- the base of the last step is a child, and holds the steps before
    obtain ⟨item, behind, hsplit, hbase, -⟩ := exists_item hitems
    obtain ⟨base, rfl⟩ : ∃ base, item = .child base := by
      cases n with
      | zero => exact (Holds.exists_child hbase).imp fun base h => h.1
      | succ n => exact (Holds.exists_child hbase).imp fun base h => h.1
    have hmem : base ∈ t.children id := by
      rw [children_eq_filterMap, hsplit]
      exact List.mem_cons_self
    obtain ⟨hbaseNode, hparent⟩ := ho.parent?_of_mem hmem
    obtain ⟨deep, hdeep, hlength⟩ := ih hbaseNode hbase
    refine ⟨deep, hdeep, ?_⟩
    rw [hlength, ho.ancestors_eq_cons hparent, List.length_cons]
    omega

/-- The tokens of so many steps to a member. -/
theorem Expr.print_members (n : Nat) :
    (members n).print = .identifier :: (List.replicate n [.dot, .identifier]).flatten := by
  induction n with
  | zero => rfl
  | succ n ih =>
    rw [members, print, ih, List.replicate_succ', List.flatten_append]
    rfl

/-- The pieces of so many steps to a member, and of a semicolon. -/
def memberPieces : Nat → List Piece
  | 0 => [⟨.token .semicolon, [';']⟩]
  | n + 1 => ⟨.token .dot, ['.']⟩ :: ⟨.token .identifier, ['a']⟩ :: memberPieces n

theorem kinds_memberPieces (n : Nat) :
    ((memberPieces n).map Piece.kind).filterMap PieceKind.token? =
      (List.replicate n [.dot, .identifier]).flatten ++ [.semicolon] := by
  induction n with
  | zero => rfl
  | succ n ih =>
    rw [List.replicate_succ, List.flatten_cons, List.append_assoc, ← ih]
    rfl

/-- **A module that assigns a member of a member**, and so on. -/
def membersText (n : Nat) : List Char := 'a' :: '=' :: 'a' :: (memberPieces n).flatMap Piece.text

/-- A token of one character. -/
theorem Scans.single {touched : Bool} {c : Char} {rest : List Char} {kind : TokenKind}
    {pieces : List Piece} (hmunch : Lexical.munch touched c rest = .ok (.token kind, 0))
    (hrest : Scans true rest ⟨pieces, none⟩) :
    Scans touched (c :: rest) ⟨⟨.token kind, [c]⟩ :: pieces, none⟩ :=
  @Scans.piece touched c [] rest (.token kind) ⟨pieces, none⟩ hmunch hrest

open Lexical in
/-- A name ends before what continues no word. -/
theorem munch_name (touched : Bool) {d : Char} (rest : List Char) (hd : isWordPart d = false) :
    munch touched 'a' (d :: rest) = .ok (.token .identifier, 0) := by
  have hword : wordLength (d :: rest) = 0 := by
    rw [wordLength, List.takeWhile_cons_of_neg (Bool.eq_false_iff.mp hd)]
    rfl
  have hkind : wordKind ['a'] = .identifier := rfl
  have hstart : isWordStart 'a' = true ∧ isSeparator 'a' = false := ⟨rfl, rfl⟩
  simp [munch, hword, hkind, hstart]

theorem munch_name_memberPieces (touched : Bool) (n : Nat) :
    Lexical.munch touched 'a' ((memberPieces n).flatMap Piece.text) =
      .ok (.token .identifier, 0) := by
  cases n with
  | zero => exact munch_name touched _ rfl
  | succ n => exact munch_name touched _ rfl

theorem scans_memberPieces (n : Nat) :
    Scans true ((memberPieces n).flatMap Piece.text) ⟨memberPieces n, none⟩ := by
  induction n with
  | zero => exact .single rfl (.done true)
  | succ n ih => exact .single rfl (.single (munch_name_memberPieces true n) ih)

theorem tokenize_membersText (n : Nat) : ∃ lexed, tokenize (membersText n) = .ok lexed ∧
    lexed.kinds = .identifier :: .eq :: ((Expr.members n).print ++ [.semicolon]) := by
  have hscan := Scans.single (munch_name false _ (d := '=') rfl)
    (.single rfl (.single (munch_name_memberPieces true n) (scans_memberPieces n)))
  refine ⟨_, tokenize_eq_ok_iff.mpr ⟨_, hscan, rfl⟩, ?_⟩
  rw [kinds_ofPlaced, Expr.print_members, List.cons_append, ← kinds_memberPieces]
  rfl

/-- **No limit of nesting bounds the links**: for so many steps to a member there is a node with
more ancestors. -/
theorem exists_deep (n : Nat) : ∃ t, parse (membersText n) = .ok t ∧
    ∃ id < t.size, (t.ancestors id).length = n + 3 := by
  obtain ⟨lexed, hlexed, hkinds⟩ := tokenize_membersText n
  obtain ⟨hparses, hassigns⟩ := parse_assignment (Expr.obeys_members n) hlexed hkinds
  obtain ⟨t, ht⟩ := hparses.mpr (by rw [Expr.need_members]; decide)
  obtain ⟨block, statement, target, value, hblock, -, hstatement, -, hvalue, hholds⟩ :=
    hassigns t ht
  obtain ⟨content, hcontent⟩ := parse_derived ht
  have ho := hcontent.outlined
  -- three nodes lie above the value
  have hchild : ∀ {p c : Nat}, c ∈ t.children p → t.ancestors c = p :: t.ancestors p :=
    fun hc => ho.ancestors_eq_cons (ho.parent?_of_mem hc).2
  have hroot : t.ancestors Tree.root = [] := by
    have hnone : t.parent? Tree.root = none := ho.parent?_root
    rw [Tree.ancestors, hnone]
    cases t.size <;> rfl
  have hvalueAbove : t.ancestors value = [statement, block, Tree.root] := by
    rw [hchild (p := statement) (by simp [hvalue]), hchild (p := block) (by simp [hstatement]),
      hchild (p := Tree.root) (by simp [hblock]), hroot]
  obtain ⟨deep, hdeep, hlength⟩ := hholds.exists_deep ho n
    (ho.parent?_of_mem (p := statement) (by simp [hvalue])).1
  refine ⟨t, ht, deep, hdeep, ?_⟩
  rw [hlength, hvalueAbove]
  exact Nat.add_comm 3 n

/-- Of all the ancestors that there are then, the limit of nesting leaves most to the links. -/
theorem length_ancestors_le_members : ∃ t, parse (membersText 1022) = .ok t ∧
    ∃ id < t.size, (t.ancestors id).length = 1025 ∧
      (t.ancestors id).length ≤ 3 * nestingLimit + 6 + (t.ancestors id).countP t.isLink := by
  obtain ⟨t, ht, id, hid, hlength⟩ := exists_deep 1022
  exact ⟨t, ht, id, hid, hlength, length_ancestors_le ht hid⟩

/-- **The depth of trees is not bounded** by sixteen times the limit of nesting. -/
theorem not_forall_length_ancestors_le : ¬ ∀ (source : List Char) (t : Tree),
    parse source = .ok t → ∀ id < t.size, (t.ancestors id).length ≤ 16 * nestingLimit := by
  intro h
  obtain ⟨t, ht, id, hid, hlength⟩ := exists_deep 1022
  have hle := h _ t ht id hid
  rw [hlength] at hle
  exact absurd hle (by decide)

end ModuleLint
