/-
ModuleLint/Proofs/Grammar/Seams.lean

Where the grammar lets two names stand side by side.  `OpenAt kinds i` says that a word
can run on into the token number `i` from the one before it; a node has a *gap* there if
it is one of

    a block in which two statements meet,
    a loop over a collection, with the variable before `In` and the collection behind it,
    a parameter, or a module with its declarations.

Main result: `exists_gap`, each such seam inside a node is a gap, of the node or of one
below it.  The proof goes down the derivation: a seam inside an item is one of the item, and
a seam between two items lies in a node whose items need not stand apart.
-/
import ModuleLint.Proofs.Grammar.Apart
import ModuleLint.Proofs.Tree.Items

namespace ModuleLint

open Outline

/-! ### Seams between tokens -/

/-- **A word can run on from one token to the next**, the token number `i`. -/
structure OpenAt (kinds : List TokenKind) (i : Nat) : Prop where
  pos : 0 < i
  front : ∃ kind, kinds[i - 1]? = some kind ∧ kind.isFront = true
  back : ∃ kind, kinds[i]? = some kind ∧ kind.isBack = true

/-- A seam between tokens is one among the first of them, or among the others, or lies
between both. -/
theorem OpenAt.of_append {front back : List TokenKind} {i : Nat} (h : OpenAt (front ++ back) i) :
    OpenAt front i ∨
      (i = front.length ∧ (∃ kind ∈ front.getLast?, kind.isFront = true) ∧
        ∃ kind ∈ back.head?, kind.isBack = true) ∨
      ∃ j, i = front.length + j ∧ OpenAt back j := by
  obtain ⟨hpos, ⟨a, ha, hfront⟩, ⟨b, hb, hback⟩⟩ := h
  rcases Nat.lt_trichotomy i front.length with hlt | heq | hgt
  · rw [List.getElem?_append_left (by omega)] at ha
    rw [List.getElem?_append_left hlt] at hb
    exact .inl ⟨hpos, ⟨a, ha, hfront⟩, ⟨b, hb, hback⟩⟩
  · rw [List.getElem?_append_left (by omega)] at ha
    rw [List.getElem?_append_right (by omega)] at hb
    refine .inr (.inl ⟨heq, ⟨a, ?_, hfront⟩, ⟨b, ?_, hback⟩⟩)
    · rwa [List.getLast?_eq_getElem?, ← heq]
    · rwa [heq, Nat.sub_self, ← List.head?_eq_getElem?] at hb
  · rw [List.getElem?_append_right (by omega)] at ha
    rw [List.getElem?_append_right (by omega)] at hb
    refine .inr (.inr ⟨i - front.length, by omega, ⟨by omega, ⟨a, ?_, hfront⟩, ⟨b, hb, hback⟩⟩⟩)
    rwa [Nat.sub_right_comm]

/-- The seams among some tokens that follow each other are those between them. -/
theorem openAt_iff_openAt {part kinds : List TokenKind} {first i : Nat}
    (hpart : part <+: kinds.drop first) (hpos : 0 < i) (hi : i < part.length) :
    OpenAt part i ↔ OpenAt kinds (first + i) := by
  obtain ⟨more, hmore⟩ := hpart
  have hentry : ∀ n < part.length, part[n]? = kinds[first + n]? := by
    intro n hn
    rw [← List.getElem?_drop, ← hmore, List.getElem?_append_left hn]
  have hbefore := hentry (i - 1) (by omega)
  rw [← Nat.add_sub_assoc hpos] at hbefore
  constructor
  · rintro ⟨-, hfront, hback⟩
    rw [hbefore] at hfront
    rw [hentry i hi] at hback
    exact ⟨by omega, hfront, hback⟩
  · rintro ⟨-, hfront, hback⟩
    rw [← hbefore] at hfront
    rw [← hentry i hi] at hback
    exact ⟨hpos, hfront, hback⟩

theorem not_openAt_singleton {kind : TokenKind} {i : Nat} : ¬ OpenAt [kind] i := by
  rintro ⟨hpos, -, ⟨b, hb, -⟩⟩
  rw [List.getElem?_eq_none (Nat.succ_le_of_lt hpos)] at hb
  cases hb

/-! ### What items are shut -/

/-- A node with a shut beginning begins with an item that has one. -/
theorem headed_production {s : Shape} (h : (Symbol.node s).beginsShut = true) :
    Headed (production s) := by
  obtain ⟨kind, operator⟩ := s
  cases kind
  case argumentList | parameterList | elseBranch | exceptBranch => exact (Headed.tok rfl).left _
  case directive => exact ((Headed.tok rfl).left _).left _
  case elsIfBranch => exact (((Headed.tok rfl).left _).left _).left _
  all_goals cases h

/-- A node with a shut end ends with an item that has one. -/
theorem ended_production {s : Shape} (h : (Symbol.node s).endsShut = true) :
    Ended (production s) := by
  obtain ⟨kind, operator⟩ := s
  cases kind
  case argumentList | parameterList => exact .right _ ((Ended.tok rfl).add (.right _ (.tok rfl)))
  all_goals cases h

namespace Derivation

/-- **No word runs on into an item with a shut beginning.** -/
theorem Sound.head?_of_beginsShut {d : Derivation} (h : Sound d)
    (hshut : (symbol d).beginsShut = true) : ∃ kind ∈ (tokens d).head?, kind.isBack = false := by
  induction d with
  | token kind => exact ⟨kind, rfl, by simpa [symbol, Symbol.beginsShut] using hshut⟩
  | node kind lead items ihlead ihitems =>
    obtain ⟨hword, hlead, hitems⟩ := h
    obtain ⟨s, hs, hbegin⟩ := headed_production hshut _ hword
    rw [tokens, ← tokensAll_append]
    -- the first item is shut, so it is not empty
    rcases hall : lead ++ items with - | ⟨d, rest⟩
    · rw [hall] at hs
      cases hs
    · rw [hall] at hs
      obtain rfl := Option.some.inj hs
      have hd : d ∈ lead ++ items := by rw [hall]; exact List.mem_cons_self
      have ih : ∃ kind ∈ (tokens d).head?, kind.isBack = false := by
        rcases List.mem_append.mp hd with hd | hd
        · exact ihlead d hd (hlead.of_mem hd) hbegin
        · exact ihitems d hd (hitems.of_mem hd) hbegin
      obtain ⟨kind, hkind, hback⟩ := ih
      exact ⟨kind, List.mem_head?_append_of_mem_head? hkind, hback⟩

/-- **No word runs on over a shut end.** -/
theorem Sound.getLast?_of_endsShut {d : Derivation} (h : Sound d)
    (hshut : (symbol d).endsShut = true) :
    ∃ kind ∈ (tokens d).getLast?, kind.isFront = false := by
  induction d with
  | token kind => exact ⟨kind, rfl, by simpa [symbol, Symbol.endsShut] using hshut⟩
  | node kind lead items ihlead ihitems =>
    obtain ⟨hword, hlead, hitems⟩ := h
    obtain ⟨s, hs, hend⟩ := ended_production hshut _ hword
    rw [tokens, ← tokensAll_append]
    rcases (lead ++ items).eq_nil_or_concat' with hall | ⟨front, d, hall⟩
    · rw [hall] at hs
      cases hs
    · rw [hall, List.map_append, List.map_singleton, List.getLast?_concat] at hs
      obtain rfl := Option.some.inj hs
      have hd : d ∈ lead ++ items := by rw [hall]; exact List.mem_append_right _ List.mem_cons_self
      have ih : ∃ kind ∈ (tokens d).getLast?, kind.isFront = false := by
        rcases List.mem_append.mp hd with hd | hd
        · exact ihlead d hd (hlead.of_mem hd) hend
        · exact ihitems d hd (hitems.of_mem hd) hend
      obtain ⟨kind, hkind, hfront⟩ := ih
      rw [hall, tokensAll_append, tokensAll_cons, tokensAll_nil, List.append_nil]
      exact ⟨kind, List.mem_getLast?_append_of_mem_getLast? hkind, hfront⟩

/-- **A seam among the tokens of some items** is one of an item, or lies between two items
that do not stand apart. -/
theorem openAt_tokensAll {ds : List Derivation} (hds : SoundAll ds) {i : Nat}
    (h : OpenAt (tokensAll ds) i) :
    ∃ before d behind, ds = before ++ d :: behind ∧
      ((∃ j, i = (tokensAll before).length + j ∧ OpenAt (tokens d) j) ∨
        ∃ e rest, behind = e :: rest ∧ i = (tokensAll before).length + (tokens d).length ∧
          ¬ (symbol d).Apart (symbol e)) := by
  induction ds generalizing i with
  | nil =>
    obtain ⟨-, -, ⟨b, hb, -⟩⟩ := h
    cases hb
  | cons d rest ih =>
    rcases h.of_append with hown | ⟨hi, ⟨a, ha, hfront⟩, ⟨b, hb, hback⟩⟩ | ⟨j, hi, hrest⟩
    · exact ⟨[], d, rest, rfl, .inl ⟨i, (Nat.zero_add i).symm, hown⟩⟩
    · cases rest with
      | nil => cases hb
      | cons e behind =>
        refine ⟨[], d, e :: behind, rfl, .inr ⟨e, behind, rfl, by rw [hi]; simp, ?_⟩⟩
        rintro (hend | hbegin)
        · obtain ⟨k, hk, hshut⟩ := hds.1.getLast?_of_endsShut hend
          obtain rfl := Option.mem_unique ha hk
          rw [hshut] at hfront
          cases hfront
        · obtain ⟨k, hk, hshut⟩ := hds.2.1.head?_of_beginsShut hbegin
          obtain rfl := Option.mem_unique hb (List.mem_head?_append_of_mem_head? hk)
          rw [hshut] at hback
          cases hback
    · obtain ⟨before, e, behind, rfl, hseam⟩ := ih hds.2 hrest
      refine ⟨d :: before, e, behind, rfl, ?_⟩
      rw [tokensAll_cons, List.length_append]
      rcases hseam with ⟨k, rfl, hk⟩ | ⟨e', rest', hrest', rfl, happart⟩
      · exact .inl ⟨k, by omega, hk⟩
      · exact .inr ⟨e', rest', hrest', by omega, happart⟩

/-- Each node among some derivations has its outline among theirs. -/
theorem mem_outlineAll_of_mem (before : List Derivation) (d : Derivation)
    (behind : List Derivation) (fresh first : Nat) :
    ∃ fresh', ∀ y ∈ outline d fresh' (first + (tokensAll before).length),
      y ∈ outlineAll (before ++ d :: behind) fresh first := by
  induction before generalizing fresh first with
  | nil => exact ⟨fresh, fun y hy => List.mem_append_left _ hy⟩
  | cons e rest ih =>
    obtain ⟨fresh', h⟩ := ih (fresh + (preorderAll (outline e fresh first)).length)
      (first + (tokens e).length)
    refine ⟨fresh', fun y hy => List.mem_append_right _ (h y ?_)⟩
    rwa [tokensAll_cons, List.length_append, ← Nat.add_assoc] at hy

/-- Each node among the items of a node has its outline among the children. -/
theorem mem_children_of_mem {x : Outline} {kind : NodeKind}
    {lead items before behind : List Derivation} {d : Derivation} {fresh first : Nat}
    (hx : outline (.node kind lead items) fresh first = [x])
    (hsplit : lead ++ items = before ++ d :: behind) :
    ∃ fresh', ∀ y ∈ outline d fresh' (first + (tokensAll before).length), y ∈ x.children := by
  obtain ⟨lead', items', heq, -, -, hchildren⟩ := outline_eq_singleton hx
  injection heq with _ hlead hitems
  subst hlead hitems
  rw [hchildren]
  -- among the items read after the node was opened, or among those read before
  have hitem : ∀ more, before = lead ++ more → items = more ++ d :: behind → ∃ fresh',
      ∀ y ∈ outline d fresh' (first + (tokensAll before).length), y ∈ outlineAll lead fresh first ++
        outlineAll items (x.number + 1) (first + (tokensAll lead).length) := by
    rintro more rfl rfl
    obtain ⟨fresh', h⟩ := mem_outlineAll_of_mem more d behind (x.number + 1)
      (first + (tokensAll lead).length)
    refine ⟨fresh', fun y hy => List.mem_append_right _ (h y ?_)⟩
    rwa [tokensAll_append, List.length_append, ← Nat.add_assoc] at hy
  rcases List.append_eq_append_iff.mp hsplit with ⟨more, hbefore, hitems⟩ | ⟨more, hlead, hmore⟩
  · exact hitem more hbefore hitems
  · cases more with
    | nil => exact hitem [] (by simpa using hlead.symm) hmore.symm
    | cons e more =>
      obtain ⟨rfl, -⟩ := List.cons.inj hmore
      obtain ⟨fresh', h⟩ := mem_outlineAll_of_mem before d more fresh first
      exact ⟨fresh', fun y hy => List.mem_append_left _ (hlead ▸ h y hy)⟩

/-- **Each node among the items of a node is a child.** -/
theorem exists_child {x : Outline} {kind : NodeKind} {lead items before behind : List Derivation}
    {d : Derivation} {fresh first : Nat} (hx : outline (.node kind lead items) fresh first = [x])
    (hsplit : lead ++ items = before ++ d :: behind) {s : Shape} (hd : symbol d = .node s) :
    ∃ y ∈ x.children, ∃ fresh', outline d fresh' (first + (tokensAll before).length) = [y] := by
  obtain ⟨fresh', h⟩ := mem_children_of_mem hx hsplit
  cases d with
  | token kind => cases hd
  | node kind lead items => exact ⟨_, h _ List.mem_cons_self, fresh', rfl⟩

/-! ### Gaps -/

/-- The derivation of a node with an identifier is one token. -/
theorem Sound.tokens_identifier {d : Derivation} (h : Sound d)
    (hd : symbol d = .node ⟨.identifier, none⟩) : ∃ kind, tokens d = [kind] := by
  cases d with
  | token kind => cases hd
  | node kind lead items =>
    obtain rfl : kind = .identifier := congrArg Shape.kind (Symbol.node.inj hd)
    obtain ⟨kind, hword, -⟩ := h.1
    obtain ⟨d, hall, hsymbol⟩ := List.map_eq_singleton_iff.mp hword
    rw [tokens, ← tokensAll_append, hall, eq_token_of_symbol hsymbol]
    exact ⟨kind, rfl⟩

/-- **A loop over a collection**, item by item. -/
theorem Sound.items_forEachStatement {lead items : List Derivation}
    (h : Sound (.node .forEachStatement lead items)) : ∃ name collection block,
      lead ++ items = [.token (.keyword .For), .token (.keyword .Each), name,
        .token (.keyword .In), collection, .token (.keyword .Do), block,
        .token (.keyword .EndDo)] ∧
      symbol name = .node ⟨.identifier, none⟩ ∧ (∃ kind, tokens name = [kind]) ∧
      (∃ s, symbol collection = .node s ∧ 1 ≤ s.level) ∧
      symbol block = .node ⟨.codeBlock, none⟩ := by
  obtain ⟨hword, hlead, hitems⟩ := h
  have hsound : SoundAll (lead ++ items) := soundAll_append.mpr ⟨hlead, hitems⟩
  generalize lead ++ items = ds at hword hsound
  obtain ⟨u₁, hu₁, body, hbody, heq⟩ := Language.mem_mul.mp hword
  obtain ⟨u₂, hu₂, collection, ⟨s, rfl, hs⟩, rfl⟩ := Language.mem_mul.mp hu₁
  obtain ⟨u₃, hu₃, inWord, rfl, rfl⟩ := Language.mem_mul.mp hu₂
  obtain ⟨u₄, hu₄, name, rfl, rfl⟩ := Language.mem_mul.mp hu₃
  obtain ⟨forWord, rfl, each, rfl, rfl⟩ := Language.mem_mul.mp hu₄
  obtain ⟨u₅, hu₅, endDo, rfl, rfl⟩ := Language.mem_mul.mp hbody
  obtain ⟨doWord, rfl, block, rfl, rfl⟩ := Language.mem_mul.mp hu₅
  obtain ⟨d₁, rest, rfl, h₁, hrest⟩ := List.map_eq_cons_iff.mp heq.symm
  obtain ⟨d₂, rest, rfl, h₂, hrest⟩ := List.map_eq_cons_iff.mp hrest
  obtain ⟨name, rest, rfl, hname, hrest⟩ := List.map_eq_cons_iff.mp hrest
  obtain ⟨d₃, rest, rfl, h₃, hrest⟩ := List.map_eq_cons_iff.mp hrest
  obtain ⟨collection, rest, rfl, hcollection, hrest⟩ := List.map_eq_cons_iff.mp hrest
  obtain ⟨d₄, rest, rfl, h₄, hrest⟩ := List.map_eq_cons_iff.mp hrest
  obtain ⟨block, rest, rfl, hblock, hrest⟩ := List.map_eq_cons_iff.mp hrest
  obtain ⟨d₅, rest, rfl, h₅, hrest⟩ := List.map_eq_cons_iff.mp hrest
  obtain rfl := List.map_eq_nil_iff.mp hrest
  refine ⟨name, collection, block, ?_, hname, hsound.2.2.1.tokens_identifier hname,
    ⟨s, hcollection, hs⟩, hblock⟩
  rw [eq_token_of_symbol h₁, eq_token_of_symbol h₂, eq_token_of_symbol h₃, eq_token_of_symbol h₄,
    eq_token_of_symbol h₅]

/-- What is no semicolon in a block is a statement. -/
theorem symbol_codeBlock {operator : Option TokenKind} {w : List Symbol}
    (h : w ∈ production ⟨.codeBlock, operator⟩) {s : Symbol} (hs : s ∈ w) :
    s = .token .semicolon ∨ ∃ shape, s = .node shape := by
  obtain ⟨words, rfl, hwords⟩ := Language.mem_kstar.mp h
  obtain ⟨u, hu, hsu⟩ := List.mem_flatten.mp hs
  rcases (Language.mem_add _ _ _).mp (hwords u hu) with rfl | ⟨kind, rfl, -⟩
  · exact .inl (List.mem_singleton.mp hsu)
  · exact .inr ⟨_, List.mem_singleton.mp hsu⟩

end Derivation

/-- **A node has a gap at a token**: a word can run on into the token there. -/
inductive Outline.Gap (x : Outline) (i : Nat) : Prop
  /-- Two statements of a block meet. -/
  | statements {a b : Outline} (hkind : x.kind = .codeBlock) (ha : a ∈ x.children)
      (hb : b ∈ x.children) (hstop : a.stop = i) (hfirst : b.first = i)
  /-- In the header of a loop, `In` follows the variable or the collection follows `In`. -/
  | header (hkind : x.kind = .forEachStatement) (hi : i = x.first + 3 ∨ i = x.first + 4)
  /-- A parameter, or the declarations of a module. -/
  | declaration (hkind : x.kind = .module ∨ x.kind = .parameter)

namespace Derivation

variable {x : Outline} {lead items before rest : List Derivation} {d e : Derivation}
  {fresh first i : Nat}

/-- Items of a block that do not stand apart are statements that meet. -/
theorem gap_codeBlock (hx : outline (.node .codeBlock lead items) fresh first = [x])
    (h : Sound (.node .codeBlock lead items)) (hsplit : lead ++ items = before ++ d :: e :: rest)
    (hi : i = first + (tokensAll before).length + (tokens d).length)
    (hapart : ¬ (symbol d).Apart (symbol e)) : x.Gap i := by
  obtain ⟨_, _, heq, -⟩ := outline_eq_singleton hx
  injection heq with hkind
  have hmem : ∀ c ∈ [d, e], symbol c ∈ (lead ++ items).map symbol := by
    intro c hc
    rw [hsplit]
    exact List.mem_map_of_mem (by simp at hc ⊢; tauto)
  -- a semicolon would keep them apart
  obtain ⟨s, hd⟩ : ∃ s, symbol d = .node s := by
    rcases symbol_codeBlock h.1 (hmem d (by simp)) with hd | hd
    · exact absurd (.inl (by rw [hd]; rfl)) hapart
    · exact hd
  obtain ⟨s', he⟩ : ∃ s, symbol e = .node s := by
    rcases symbol_codeBlock h.1 (hmem e (by simp)) with he | he
    · exact absurd (.inr (by rw [he]; rfl)) hapart
    · exact he
  obtain ⟨a, ha, _, houta⟩ := exists_child hx hsplit hd
  have hsplit' : lead ++ items = (before ++ [d]) ++ e :: rest := by simpa using hsplit
  obtain ⟨b, hb, _, houtb⟩ := exists_child hx hsplit' he
  obtain ⟨-, -, -, hfirsta, hstop, -⟩ := outline_eq_singleton houta
  obtain ⟨-, -, -, hfirst, -⟩ := outline_eq_singleton houtb
  refine .statements hkind.symm ha hb (hstop.trans hi.symm) (hfirst.trans ?_)
  simp only [hi, tokensAll_append, tokensAll_cons, tokensAll_nil, List.append_nil,
    List.length_append, Nat.add_assoc]

/-- Items of a loop over a collection that do not stand apart: `In` is one of them. -/
theorem gap_forEachStatement (hx : outline (.node .forEachStatement lead items) fresh first = [x])
    (h : Sound (.node .forEachStatement lead items))
    (hsplit : lead ++ items = before ++ d :: e :: rest)
    (hi : i = first + (tokensAll before).length + (tokens d).length)
    (hapart : ¬ (symbol d).Apart (symbol e)) : x.Gap i := by
  obtain ⟨_, _, heq, hfirst, -⟩ := outline_eq_singleton hx
  injection heq with hkind
  obtain ⟨name, collection, block, hitems, -, ⟨kind, hname⟩, -⟩ := h.items_forEachStatement
  rw [hitems] at hsplit
  -- one case for each pair of items that follow each other
  rcases before with - | ⟨_, - | ⟨_, - | ⟨_, - | ⟨_, - | ⟨_, - | ⟨_, - | ⟨_, - | ⟨_, before⟩⟩⟩⟩⟩⟩⟩⟩
  all_goals
    simp only [List.nil_append, List.cons_append, List.cons.injEq] at hsplit
  · obtain ⟨rfl, rfl, -⟩ := hsplit
    exact absurd (.inl rfl) hapart
  · obtain ⟨-, rfl, rfl, -⟩ := hsplit
    exact absurd (.inl rfl) hapart
  · obtain ⟨rfl, rfl, rfl, rfl, -⟩ := hsplit
    refine .header hkind.symm (.inl ?_)
    simp [hi, hfirst, hname, tokens]
  · obtain ⟨rfl, rfl, rfl, rfl, rfl, -⟩ := hsplit
    refine .header hkind.symm (.inr ?_)
    simp [hi, hfirst, hname, tokens]
  · obtain ⟨-, -, -, -, rfl, rfl, -⟩ := hsplit
    exact absurd (.inr rfl) hapart
  · obtain ⟨-, -, -, -, -, rfl, rfl, -⟩ := hsplit
    exact absurd (.inl rfl) hapart
  · obtain ⟨-, -, -, -, -, -, rfl, rfl, -⟩ := hsplit
    exact absurd (.inr rfl) hapart
  · simp at hsplit
  · simp at hsplit

/-- **A seam inside a node is a gap** of the node, or of one below it. -/
theorem exists_gap (hx : outline d fresh first = [x]) (h : Sound d)
    (hopen : OpenAt (tokens d) i) : ∃ y ∈ x.preorder, y.Gap (first + i) := by
  induction d generalizing fresh first x i with
  | token kind => exact absurd hopen not_openAt_singleton
  | node kind lead items ihlead ihitems =>
    have hsound : SoundAll (lead ++ items) := soundAll_append.mpr h.2
    have ih : ∀ c ∈ lead ++ items, ∀ {fresh first i : Nat} {y : Outline},
        outline c fresh first = [y] → Sound c → OpenAt (tokens c) i →
          ∃ z ∈ y.preorder, z.Gap (first + i) := by
      intro c hc
      rcases List.mem_append.mp hc with hc | hc
      · exact ihlead c hc
      · exact ihitems c hc
    rw [tokens, ← tokensAll_append] at hopen
    obtain ⟨before, c, behind, hsplit, hseam⟩ := openAt_tokensAll hsound hopen
    have hc : c ∈ lead ++ items := by rw [hsplit]; exact List.mem_append_right _ List.mem_cons_self
    rcases hseam with ⟨j, rfl, hj⟩ | ⟨e, rest, rfl, rfl, hapart⟩
    · -- the seam lies inside an item, which is a node
      rcases hs : symbol c with kind | s
      · rw [eq_token_of_symbol hs] at hj
        exact absurd hj not_openAt_singleton
      · obtain ⟨y, hy, _, hout⟩ := exists_child hx hsplit hs
        obtain ⟨z, hz, hgap⟩ := ih c hc hout (hsound.of_mem hc) hj
        rw [← Nat.add_assoc]
        exact ⟨z, mem_preorder_iff.mpr (.inr ⟨y, hy, hz⟩), hgap⟩
    · -- the seam lies between two items, of a kind of node that allows it
      refine ⟨x, self_mem_preorder x, ?_⟩
      obtain ⟨_, _, heq, -⟩ := outline_eq_singleton hx
      injection heq with hkind
      by_cases hgaps : kind.hasGaps = true
      · cases kind
        case module => exact .declaration (.inl hkind.symm)
        case parameter => exact .declaration (.inr hkind.symm)
        case codeBlock => exact gap_codeBlock hx h hsplit (Nat.add_assoc _ _ _).symm hapart
        case forEachStatement =>
          exact gap_forEachStatement hx h hsplit (Nat.add_assoc _ _ _).symm hapart
        all_goals cases hgaps
      · have hchain := production_tight (Bool.eq_false_iff.mpr hgaps) _ h.1
        rw [hsplit, List.map_append, List.map_cons, List.map_cons] at hchain
        exact absurd (List.isChain_append_cons_cons.mp hchain).2.1 hapart

end Derivation

end ModuleLint
