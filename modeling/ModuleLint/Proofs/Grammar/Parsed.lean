/-
ModuleLint/Proofs/Grammar/Parsed.lean

What parsing leaves behind.  A tree that `parse` returns is laid out from a sound
derivation of the tokens of its source: `Tree.Derived` puts together what was shown of
the grammar and of the laying out, and `parse_derived` is the only place where `parse`
is opened.

Each node of such a tree then has a sound derivation of its own, which spells the tokens
that the node covers (`Derived.exists_node`).
-/
import ModuleLint.Proofs.Grammar.Soundness
import ModuleLint.Proofs.Tree.Items

namespace ModuleLint

open Outline ModuleLint.Derivation

/-- Each token has its kind. -/
theorem Lexed.length_kinds (lexed : Lexed) : lexed.kinds.length = lexed.tokens.size := by
  rw [kinds, List.length_map, Array.length_toList]

/-- The outline of a module, given what it is made of. -/
def moduleOutline (content : List Derivation) : Outline :=
  .node 0 .module 0 (tokensAll content).length (outlineAll content 1 0)

theorem outline_module (content : List Derivation) :
    outline (.node .module [] content) 0 0 = [moduleOutline content] := by
  simp [outline, outlineAll, moduleOutline]

/-- **A tree is laid out from a derivation** of the tokens of a source. -/
structure Tree.Derived (t : Tree) (source : List Char) (content : List Derivation) : Prop where
  lexed : tokenize source = .ok t.lexed
  derives : Grammar.derive t.lexed.kinds = .ok [.node .module [] content]
  kinds : tokensAll content = t.lexed.kinds
  sound : Sound (.node .module [] content)
  outlined : t.OutlinedBy (moduleOutline content)

theorem Builder.ready_empty : empty.Ready := fun p hp => by cases hp

/-- The tree of a module has its outline. -/
theorem outlinedBy_ofDerivations (source : List Char) (lexed : Lexed)
    (content : List Derivation) :
    (Tree.ofDerivations source lexed [.node .module [] content]).OutlinedBy
      (moduleOutline content) := by
  have hopened := Builder.opens_start Builder.ready_empty .module
  have hcontent := gains_emitAll content _ hopened.ready (by rw [hopened.opened]; simp)
  have hall := hopened.close hcontent
  rw [hopened.size, hopened.tokens] at hall
  -- nothing is left open
  have hnodes : (Tree.ofDerivations source lexed [.node .module [] content]).nodes =
      (emitAll content (Builder.empty.start .module)).finish.nodes := by
    change (Builder.finishAll (emitAll content (Builder.empty.start .module)).finish).nodes = _
    rw [Builder.finishAll, hall.opened]
    rfl
  constructor
  · rw [hnodes]
    have hstored := hall.stored _ (List.mem_singleton_self _)
    simpa [moduleOutline, Builder.empty] using hstored
  · have hsize := hall.size
    have hnumbers := hall.numbers
    rw [Tree.size, hnodes, hsize, List.range_eq_range']
    simpa [moduleOutline, Builder.empty] using hnumbers

/-- **Parsing lays out a sound derivation** of all tokens of the source. -/
theorem parse_derived {source : List Char} {t : Tree} (h : parse source = .ok t) :
    ∃ content, t.Derived source content := by
  unfold parse at h
  split at h
  · cases h
  · rename_i lexed hlexed
    split at h
    · cases h
    · rename_i items hderive
      obtain rfl := Except.ok.inj h
      obtain ⟨content, rfl, hsound, htokens⟩ := Grammar.derive_sound hderive
      exact ⟨content, hlexed, hderive, htokens, hsound,
        outlinedBy_ofDerivations source lexed content⟩

/-- **A node shows a sound derivation** of tokens, from the first one that it covers. -/
def Outline.Shows (kinds : List TokenKind) (x : Outline) : Prop :=
  ∃ d fresh, outline d fresh x.first = [x] ∧ Sound d ∧ tokens d <+: kinds.drop x.first

namespace Derivation

variable {kinds : List TokenKind} {fresh first : Nat} {o x : Outline}

/-- What lies below some derivations shows a part of one of them. -/
theorem shows_of_mem {ds : List Derivation}
    (ih : ∀ d ∈ ds, ∀ {fresh first o}, outline d fresh first = [o] → x ∈ o.preorder → Sound d →
      tokens d <+: kinds.drop first → x.Shows kinds)
    (hds : SoundAll ds) (htokens : tokensAll ds <+: kinds.drop first)
    (ho : o ∈ outlineAll ds fresh first) (hx : x ∈ o.preorder) : x.Shows kinds := by
  obtain ⟨before, d, behind, fresh', rfl, hd⟩ := mem_outlineAll ho
  have hmem : d ∈ before ++ d :: behind := List.mem_append_right _ List.mem_cons_self
  rw [tokensAll_append, tokensAll_cons] at htokens
  exact ih d hmem hd hx (hds.of_mem hmem)
    ((List.prefix_append _ _).trans (Tree.prefix_drop_append htokens))

/-- Each node below the outline of a sound derivation shows a derivation of its own. -/
theorem shows_of_mem_preorder {d : Derivation} (ho : outline d fresh first = [o])
    (hx : x ∈ o.preorder) (hsound : Sound d) (htokens : tokens d <+: kinds.drop first) :
    x.Shows kinds := by
  induction d generalizing fresh first o with
  | token kind => cases ho
  | node kind lead items ihlead ihitems =>
    obtain ⟨lead', items', heq, hfirst, -, hchildren⟩ := outline_eq_singleton ho
    injection heq with hkind hlead hitems
    subst hlead hitems
    rcases mem_preorder_iff.mp hx with rfl | ⟨c, hc, hxc⟩
    · exact ⟨_, fresh, hfirst ▸ ho, hsound, hfirst ▸ htokens⟩
    · -- the items begin where the lead ends
      obtain ⟨-, hslead, hsitems⟩ := hsound
      rw [tokens] at htokens
      rw [hchildren] at hc
      rcases List.mem_append.mp hc with hc | hc
      · exact shows_of_mem ihlead hslead ((List.prefix_append _ _).trans htokens) hc hxc
      · exact shows_of_mem ihitems hsitems (Tree.prefix_drop_append htokens) hc hxc

end Derivation

namespace Tree.Derived

variable {t : Tree} {source : List Char} {content : List Derivation}

theorem tokens_prefix (h : t.Derived source content) :
    Derivation.tokens (.node .module [] content) <+: t.lexed.kinds.drop 0 := by
  rw [Derivation.tokens, tokensAll_nil, List.nil_append, h.kinds, List.drop_zero]

/-- A tree holds the derivation that it was laid out from. -/
theorem holds (h : t.Derived source content) :
    t.Holds (.child root) (.node .module [] content) :=
  h.outlined.holds _ (outline_module content) (self_mem_preorder _) h.tokens_prefix

/-- **Each node of a tree shows a sound derivation.** -/
theorem exists_node (h : t.Derived source content) {id : Nat} (hid : id < t.size) :
    ∃ x ∈ (moduleOutline content).preorder, x.number = id ∧ x.Shows t.lexed.kinds := by
  obtain ⟨x, hx, hnumber⟩ := h.outlined.exists_number hid
  exact ⟨x, hx, hnumber,
    shows_of_mem_preorder (outline_module content) hx h.sound h.tokens_prefix⟩

end Tree.Derived

/-! ### When a source parses -/

/-- A source parses if the grammar derives the kinds of its tokens. -/
theorem parse_eq_ok {source : List Char} {lexed : Lexed} {items : List Derivation}
    (hlexed : tokenize source = .ok lexed) (hderive : Grammar.derive lexed.kinds = .ok items) :
    parse source = .ok (Tree.ofDerivations source lexed items) := by
  unfold parse
  rw [hlexed]
  simp only [hderive]

/-- A tree lies over the source that it was parsed from. -/
theorem source_of_parse {source : List Char} {t : Tree} (h : parse source = .ok t) :
    t.source = source := by
  obtain ⟨content, hcontent⟩ := parse_derived h
  rw [parse_eq_ok hcontent.lexed hcontent.derives] at h
  rw [← Except.ok.inj h]
  rfl

/-- What parsing is seen to give, it gives for a tree. -/
theorem exists_parse_of_map {α : Type} {source : List Char} {f : Tree → α} {a : α}
    (h : (parse source).toOption.map f = some a) : ∃ t, parse source = .ok t ∧ f t = a := by
  cases ht : parse source with
  | error e =>
    rw [ht] at h
    cases h
  | ok t =>
    rw [ht] at h
    exact ⟨t, rfl, Option.some.inj h⟩

theorem exists_tokenize_of_map {α : Type} {source : List Char} {f : Lexed → α} {a : α}
    (h : (tokenize source).toOption.map f = some a) :
    ∃ lexed, tokenize source = .ok lexed ∧ f lexed = a := by
  cases hlexed : tokenize source with
  | error e =>
    rw [hlexed] at h
    cases h
  | ok lexed =>
    rw [hlexed] at h
    exact ⟨lexed, rfl, Option.some.inj h⟩

/-- A module of one statement. -/
def sample : List Char := "a=New Mail(-b);".toList

theorem tokenize_sample : ∃ lexed, tokenize sample = .ok lexed ∧
    lexed.kinds = [.identifier, .eq, .keyword .New, .identifier, .lParen, .minus, .identifier,
      .rParen, .semicolon] := by
  have h : (tokenize sample).toOption.map Lexed.kinds =
      some [.identifier, .eq, .keyword .New, .identifier, .lParen, .minus, .identifier,
        .rParen, .semicolon] := by cbv
  exact exists_tokenize_of_map h

theorem parse_sample : ∃ t, parse sample = .ok t := by
  obtain ⟨lexed, hlexed, hkinds⟩ := tokenize_sample
  have hderive : (Grammar.derive lexed.kinds).isOk = true := by
    rw [hkinds]
    decide
  rcases hitems : Grammar.derive lexed.kinds with stop | items
  · rw [hitems] at hderive
    cases hderive
  · exact ⟨_, parse_eq_ok hlexed hitems⟩

end ModuleLint
