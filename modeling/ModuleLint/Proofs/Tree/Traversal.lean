/-
ModuleLint/Proofs/Tree/Traversal.lean

What a visitor meets.  Three kinds of hooks stand at some nodes of a tree; all other nodes
are passed through.  A hook may go on to the children of its node or leave them out, and
`Visitor.acting` is the visitor that decides so for each kind of hook, and acts whenever a
hook is entered or left.

    t.events prunes        the events of such a visitor, in order
    t.Brackets s es s'     es leads from the open hooks s to s', hooks are left in the
                           reverse order, and where one is entered, those above are open

Main result: `visit_traversal`, for every source that parses.  The hooks that are entered
are the hooked nodes on the way down from the root, less those below a hook that prunes;
the events are bracketed; and they are all that any visitor of this form is told.

The events of a tree are those of its outline (`Outline.events`), so each of these is an
induction on outlines, with one case for a node that is hooked and one for a node that
is not.
-/
import ModuleLint.Proofs.Tree.Duality

namespace ModuleLint

open Outline

/-- A hook of a visitor. -/
inductive Hook where
  | method | branch | newExpression
  deriving DecidableEq, Repr

/-- The hook that is called at nodes of a kind, if there is one. -/
def NodeKind.hook? : NodeKind → Option Hook
  | .procedure | .function => some .method
  | .ifBranch => some .branch
  | .newExpression => some .newExpression
  | _ => none

/-- What a visitor is told: a hook is entered at a node, or left. -/
inductive Event where
  | enter (hook : Hook) (id : Nat)
  | leave (hook : Hook) (id : Nat)
  deriving DecidableEq, Repr

/-- The hook that is entered, and its node. -/
def Event.entered? : Event → Option (Hook × Nat)
  | .enter hook id => some (hook, id)
  | .leave _ _ => none

namespace Visitor

variable {σ : Type}

/-- A hook that acts when it is entered and when it is left; in between it goes on to the
children, unless it prunes. -/
def around (prunes : Hook → Bool) (act : Event → σ → σ) (hook : Hook) (id : Nat)
    (children : σ → σ) (s : σ) : σ :=
  let entered := act (.enter hook id) s
  act (.leave hook id) (if prunes hook then entered else children entered)

/-- **A visitor whose hooks act**, some of which prune. -/
def acting (prunes : Hook → Bool) (act : Event → σ → σ) : Visitor σ where
  method := around prunes act .method
  branch := around prunes act .branch
  newExpression := around prunes act .newExpression

theorem hook_acting (prunes : Hook → Bool) (act : Event → σ → σ) (kind : NodeKind) (id : Nat)
    (children : σ → σ) (s : σ) :
    (acting prunes act).hook kind id children s =
      match kind.hook? with
      | none => children s
      | some hook => around prunes act hook id children s := by
  cases kind <;> rfl

end Visitor

namespace Tree

/-- The hook at a node, and the node. -/
def hooked? (t : Tree) (id : Nat) : Option (Hook × Nat) :=
  ((t.kind? id).bind NodeKind.hook?).map fun hook => (hook, id)

/-- Whether the hook at a node leaves out what lies below. -/
def isPruned (t : Tree) (prunes : Hook → Bool) (id : Nat) : Bool :=
  (t.hooked? id).any fun entry => prunes entry.1

/-- **Whether a node is reached**: no hook above it prunes. -/
def isReached (t : Tree) (prunes : Hook → Bool) (id : Nat) : Bool :=
  !(t.ancestors id).any (t.isPruned prunes)

/-- **The events of a traversal**, in order. -/
def events (t : Tree) (prunes : Hook → Bool) : List Event :=
  (Visitor.acting prunes fun e found => found ++ [e]).visit t []

/-- **Events are bracketed**: they lead from some open hooks to others, the innermost one
first.  A hook is entered where the open ones are those above its node, and only the
innermost one is left. -/
inductive Brackets (t : Tree) : List (Hook × Nat) → List Event → List (Hook × Nat) → Prop
  | done (opened : List (Hook × Nat)) : Brackets t opened [] opened
  | enter {hook : Hook} {id : Nat} {opened opened' : List (Hook × Nat)} {es : List Event}
      (habove : opened = (t.ancestors id).filterMap t.hooked?)
      (hrest : Brackets t ((hook, id) :: opened) es opened') :
      Brackets t opened (.enter hook id :: es) opened'
  | leave {hook : Hook} {id : Nat} {opened opened' : List (Hook × Nat)} {es : List Event}
      (hrest : Brackets t opened es opened') :
      Brackets t ((hook, id) :: opened) (.leave hook id :: es) opened'

/-- **What a visitor is told of a tree.** -/
structure Traversal (t : Tree) (prunes : Hook → Bool) (es : List Event) : Prop where
  /-- Hooks are entered at the hooked nodes that are reached, on the way down. -/
  entries : es.filterMap Event.entered? =
    ((t.descendants root).filter (t.isReached prunes)).filterMap t.hooked?
  /-- They are left in the reverse order, and open below their nodes. -/
  brackets : t.Brackets [] es []
  /-- A visitor with such hooks acts on these events, one after the other. -/
  drives : ∀ (σ : Type) (act : Event → σ → σ) (s : σ),
    (Visitor.acting prunes act).visit t s = es.foldl (fun s e => act e s) s

end Tree

/-! ### The events of an outline -/

namespace Outline

mutual

/-- The events of a traversal of an outline. -/
def events (prunes : Hook → Bool) : Outline → List Event
  | .node id kind _ _ children =>
    match kind.hook? with
    | none => eventsAll prunes children
    | some hook =>
      .enter hook id ::
        ((if prunes hook then [] else eventsAll prunes children) ++ [.leave hook id])

/-- The events of outlines, one after the other. -/
def eventsAll (prunes : Hook → Bool) : List Outline → List Event
  | [] => []
  | o :: rest => events prunes o ++ eventsAll prunes rest

end

variable {prunes : Hook → Bool} {hook : Hook} {x : Outline}

theorem eventsAll_eq_flatMap (os : List Outline) :
    eventsAll prunes os = os.flatMap (events prunes) := by
  induction os with
  | nil => rfl
  | cons o rest ih => rw [eventsAll, ih, List.flatMap_cons]

/-- A node without a hook is passed through. -/
theorem events_of_none (h : x.kind.hook? = none) :
    x.events prunes = x.children.flatMap (events prunes) := by
  obtain ⟨id, kind, first, stop, children⟩ := x
  change kind.hook? = none at h
  rw [events, h]
  exact eventsAll_eq_flatMap children

/-- At a node with a hook the hook is entered and left. -/
theorem events_of_some (h : x.kind.hook? = some hook) :
    x.events prunes = .enter hook x.number ::
      ((if prunes hook then [] else x.children.flatMap (events prunes)) ++
        [.leave hook x.number]) := by
  obtain ⟨id, kind, first, stop, children⟩ := x
  change kind.hook? = some hook at h
  rw [events, h]
  simp only [eventsAll_eq_flatMap]
  rfl

end Outline

namespace Visitor

open ModuleLint.Tree

variable {σ : Type} {t : Tree} {o x : Outline}

/-- **A visitor acts on the events** of the outline that it visits. -/
theorem visitNode_acting (prunes : Hook → Bool) (act : Event → σ → σ) (h : t.OutlinedBy o)
    (n : Nat) (hx : x ∈ o.preorder) (hn : x.preorder.length ≤ n) (s : σ) :
    (acting prunes act).visitNode t n x.number s =
      (x.events prunes).foldl (fun s e => act e s) s := by
  induction n generalizing x s with
  | zero =>
    rw [preorder_eq] at hn
    cases hn
  | succ n ih =>
    have hchildren : ∀ s, (t.children x.number).foldl
        (fun s child => (acting prunes act).visitNode t n child s) s =
          (x.children.flatMap (events prunes)).foldl (fun s e => act e s) s := by
      intro s
      rw [h.children_eq hx, List.foldl_map, List.foldl_flatMap]
      apply List.foldl_ext
      intro s c hc
      have hlength := length_preorder_child hc
      exact ih (child_mem_preorder hx hc) (by omega) s
    rw [visitNode, h.kind?_eq hx]
    simp only [hook_acting, hchildren]
    rcases hhook : x.kind.hook? with - | hook
    · rw [events_of_none hhook]
    · rw [events_of_some hhook]
      by_cases hprunes : prunes hook = true
      · simp [around, hprunes]
      · simp [around, hprunes]

theorem visit_acting (prunes : Hook → Bool) (act : Event → σ → σ) (h : t.OutlinedBy o)
    (hroot : o.number = root) (s : σ) :
    (acting prunes act).visit t s = (o.events prunes).foldl (fun s e => act e s) s := by
  rw [visit, ← hroot]
  exact visitNode_acting prunes act h t.size (self_mem_preorder o)
    (Nat.le_of_eq h.length_preorder) s

end Visitor

namespace Tree

variable {t : Tree} {o x c : Outline} {prunes : Hook → Bool}

/-! ### Brackets -/

namespace Brackets

variable {s s' s'' : List (Hook × Nat)} {es es' : List Event}

theorem append (h : t.Brackets s es s') (h' : t.Brackets s' es' s'') :
    t.Brackets s (es ++ es') s'' := by
  induction h with
  | done => exact h'
  | enter habove _ ih => exact .enter habove (ih h')
  | leave _ ih => exact .leave (ih h')

/-- Events that are bracketed one by one are bracketed together. -/
theorem flatMap {α : Type} {f : α → List Event} {xs : List α}
    (h : ∀ x ∈ xs, t.Brackets s (f x) s) : t.Brackets s (xs.flatMap f) s := by
  induction xs with
  | nil => exact .done s
  | cons x rest ih =>
    rw [List.flatMap_cons]
    exact (h x List.mem_cons_self).append (ih fun y hy => h y (List.mem_cons_of_mem x hy))

end Brackets

namespace OutlinedBy

theorem hooked?_eq (h : t.OutlinedBy o) (hx : x ∈ o.preorder) :
    t.hooked? x.number = x.kind.hook?.map fun hook => (hook, x.number) := by
  rw [hooked?, h.kind?_eq hx]
  rfl

theorem ancestors_child (h : t.OutlinedBy o) (hx : x ∈ o.preorder) (hc : c ∈ x.children) :
    t.ancestors c.number = x.number :: t.ancestors x.number :=
  h.ancestors_eq_cons (h.parent?_child hx hc)

/-- **The events of an outline are bracketed** inside the hooks above its top. -/
theorem brackets_events (h : t.OutlinedBy o) (hx : x ∈ o.preorder) :
    t.Brackets ((t.ancestors x.number).filterMap t.hooked?) (x.events prunes)
      ((t.ancestors x.number).filterMap t.hooked?) := by
  induction x using Outline.children_induct with
  | step x ih =>
    have hbelow : t.Brackets ((x.number :: t.ancestors x.number).filterMap t.hooked?)
        (x.children.flatMap (Outline.events prunes))
        ((x.number :: t.ancestors x.number).filterMap t.hooked?) := by
      apply Brackets.flatMap
      intro c hc
      have hchild := ih c hc (child_mem_preorder hx hc)
      rwa [h.ancestors_child hx hc] at hchild
    have hhooked := h.hooked?_eq hx
    rcases hhook : x.kind.hook? with - | hook
    · -- the node is not hooked, so no more is open below it
      rw [hhook, Option.map_none] at hhooked
      rw [List.filterMap_cons_none hhooked] at hbelow
      rw [events_of_none hhook]
      exact hbelow
    · rw [hhook, Option.map_some] at hhooked
      rw [List.filterMap_cons_some hhooked] at hbelow
      have hbody : t.Brackets ((hook, x.number) :: (t.ancestors x.number).filterMap t.hooked?)
          (if prunes hook then [] else x.children.flatMap (Outline.events prunes))
          ((hook, x.number) :: (t.ancestors x.number).filterMap t.hooked?) := by
        split
        · exact .done _
        · exact hbelow
      rw [events_of_some hhook]
      apply Brackets.enter rfl
      exact hbody.append (.leave (.done _))

/-! ### Entries -/

theorem isReached_child (h : t.OutlinedBy o) (hx : x ∈ o.preorder) (hc : c ∈ x.children) :
    t.isReached prunes c.number = (!t.isPruned prunes x.number && t.isReached prunes x.number) := by
  rw [isReached, h.ancestors_child hx hc, List.any_cons, Bool.not_or]
  rfl

/-- Nothing below a hook that prunes is reached. -/
theorem isReached_eq_false (h : t.OutlinedBy o) (hx : x ∈ o.preorder)
    (hpruned : t.isPruned prunes x.number = true) {y : Outline} (hy : y ∈ preorderAll x.children) :
    t.isReached prunes y.number = false := by
  obtain ⟨c, hc, hyc⟩ := mem_preorderAll.mp hy
  have habove : t.Above x.number y.number := by
    have hparent := h.parent?_child hx hc
    rcases h.above_of_mem_preorder (child_mem_preorder hx hc) hyc with rfl | habove
    · exact .single hparent
    · exact .head hparent habove
  rw [isReached, Bool.not_eq_false', List.any_eq_true]
  exact ⟨x.number, h.mem_ancestors_iff.mpr habove, hpruned⟩

/-- **The hooks entered in an outline** are those of its nodes that are reached. -/
theorem entries_events (h : t.OutlinedBy o) (hx : x ∈ o.preorder)
    (hreached : t.isReached prunes x.number = true) :
    (x.events prunes).filterMap Event.entered? =
      ((x.preorder.map number).filter (t.isReached prunes)).filterMap t.hooked? := by
  induction x using Outline.children_induct with
  | step x ih =>
    have hhooked := h.hooked?_eq hx
    have hpruned : t.isPruned prunes x.number = x.kind.hook?.any prunes := by
      rw [isPruned, hhooked]
      cases x.kind.hook? <;> rfl
    -- what is entered below, unless the hook of the node prunes
    have hbelow (hopen : t.isPruned prunes x.number = false) :
        (x.children.flatMap (Outline.events prunes)).filterMap Event.entered? =
          (((preorderAll x.children).map number).filter (t.isReached prunes)).filterMap
            t.hooked? := by
      rw [preorderAll_eq_flatMap, List.map_flatMap, List.filter_flatMap, List.filterMap_flatMap,
        List.filterMap_flatMap]
      apply List.flatMap_congr
      intro c hc
      apply ih c hc (child_mem_preorder hx hc)
      rw [h.isReached_child hx hc, hreached, hopen]
      rfl
    rw [preorder_eq, List.map_cons, List.filter_cons_of_pos hreached]
    rcases hhook : x.kind.hook? with - | hook
    · rw [hhook] at hhooked hpruned
      rw [events_of_none hhook, List.filterMap_cons_none hhooked]
      exact hbelow hpruned
    · rw [hhook] at hhooked hpruned
      rw [events_of_some hhook, List.filterMap_cons_some hhooked, List.filterMap_cons,
        List.filterMap_append]
      cases hprunes : prunes hook with
      | true =>
        -- nothing more is entered, and nothing below is reached
        have hnone : ((preorderAll x.children).map number).filter (t.isReached prunes) = [] := by
          rw [List.filter_eq_nil_iff]
          intro id hid
          obtain ⟨y, hy, rfl⟩ := List.mem_map.mp hid
          rw [h.isReached_eq_false hx (hpruned.trans hprunes) hy]
          exact Bool.false_ne_true
        rw [hnone]
        rfl
      | false =>
        rw [if_neg Bool.false_ne_true, hbelow (hpruned.trans hprunes)]
        show _ :: (_ ++ []) = _
        rw [List.append_nil]

/-- **A traversal of a tree with an outline.** -/
theorem traversal (h : t.OutlinedBy o) (hroot : o.number = root) (prunes : Hook → Bool) :
    t.Traversal prunes (t.events prunes) := by
  have hevents : t.events prunes = o.events prunes := by
    rw [Tree.events, Visitor.visit_acting prunes _ h hroot, List.foldl_append_eq_append,
      ← List.flatMap_def, List.flatMap_singleton', List.nil_append]
  have hself := self_mem_preorder o
  have hnone : t.ancestors o.number = [] := h.ancestors_root
  constructor
  case entries =>
    rw [hevents, ← hroot, h.descendants_eq hself]
    apply h.entries_events hself
    rw [isReached, hnone]
    rfl
  case brackets =>
    have hbrackets : t.Brackets _ (o.events prunes) _ := h.brackets_events hself
    rw [hnone] at hbrackets
    rw [hevents]
    exact hbrackets
  case drives =>
    intro σ act s
    rw [hevents]
    exact Visitor.visit_acting prunes act h hroot s

end OutlinedBy

end Tree

/-- **A visitor is told of the hooked nodes that it reaches**, in every tree that parsing
returns and whichever of its hooks prune. -/
theorem visit_traversal {source : List Char} {t : Tree} (h : parse source = .ok t)
    (prunes : Hook → Bool) : t.Traversal prunes (t.events prunes) := by
  obtain ⟨content, hcontent⟩ := parse_derived h
  exact hcontent.outlined.traversal rfl prunes

/-- Creations inside a creation, in a branch and behind it. -/
def nestedCreations : List Char :=
  "Procedure P() If a Then b=New A(New B); EndIf; c=New D(New E); EndProcedure".toList

/-- What lies in the branch is left out by a visitor that does not go into branches. -/
theorem visit_nestedCreations : ∃ t, parse nestedCreations = .ok t ∧
    t.Traversal (· == .branch) (t.events (· == .branch)) ∧
    t.events (· == .branch) =
      [.enter .method 1, .enter .branch 6, .leave .branch 6, .enter .newExpression 18,
        .enter .newExpression 21, .leave .newExpression 21, .leave .newExpression 18,
        .leave .method 1] := by
  have hrun : (parse nestedCreations).toOption.map (Tree.events · (· == .branch)) =
      some [.enter .method 1, .enter .branch 6, .leave .branch 6, .enter .newExpression 18,
        .enter .newExpression 21, .leave .newExpression 21, .leave .newExpression 18,
        .leave .method 1] := by decide +kernel
  obtain ⟨t, ht, hevents⟩ := exists_parse_of_map hrun
  exact ⟨t, ht, visit_traversal ht _, hevents⟩

end ModuleLint
