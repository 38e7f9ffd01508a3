/-
ModuleLint/Tree/Visitor.lean

Depth-first traversal with hooks.  A visitor has one hook for each kind of node
that rules care about; all other nodes are passed through.  A hook receives the
node and the traversal of its children, and decides whether and when to run it.
-/
import ModuleLint.Tree.Basic

namespace ModuleLint

/-- **A visitor over nodes** that carries a state.  Each hook is given the node and how
to go on to its children. -/
structure Visitor (σ : Type) where
  /-- A procedure or a function. -/
  method : Nat → (σ → σ) → σ → σ := fun _ children => children
  /-- The leading branch of an `If`. -/
  branch : Nat → (σ → σ) → σ → σ := fun _ children => children
  /-- A `New` expression. -/
  newExpression : Nat → (σ → σ) → σ → σ := fun _ children => children

namespace Visitor

variable {σ : Type}

/-- The hook for a kind of node. -/
def hook (v : Visitor σ) : NodeKind → Nat → (σ → σ) → σ → σ
  | .newExpression => v.newExpression
  | .ifBranch => v.branch
  | .procedure => v.method
  | .function => v.method
  | _ => fun _ children => children

/-- Visits a node and what lies below it, at most `n` levels deep. -/
def visitNode (v : Visitor σ) (t : Tree) : Nat → Nat → σ → σ
  | 0, _ => id
  | n + 1, id =>
    match t.kind? id with
    | none => fun s => s
    | some kind =>
      v.hook kind id fun s => (t.children id).foldl (fun s child => visitNode v t n child s) s

/-- **Visits a whole tree** from its root. -/
def visit (v : Visitor σ) (t : Tree) (s : σ) : σ :=
  v.visitNode t t.size Tree.root s

end Visitor

end ModuleLint
