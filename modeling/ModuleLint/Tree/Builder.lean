/-
ModuleLint/Tree/Builder.lean

Building a forest of nodes while tokens are read.  Nodes are numbered in the
order of their creation; each knows its parent, its children and the range of
tokens it covers.  A node is opened at the current token and becomes a child of
the innermost open node.  It can also be opened at an earlier *checkpoint*: it
then takes over every child that the node open at that time has received since.
-/
import ModuleLint.Tree.Kind

namespace ModuleLint

/-- A node of a forest.  It covers the tokens from `firstToken` up to, not with,
`endToken`. -/
structure Node where
  kind : NodeKind
  parent : Option Nat
  children : List Nat
  firstToken : Nat
  endToken : Nat
  deriving DecidableEq, Repr, Inhabited

/-- A moment in the building of a forest: the node that was innermost, how many
children it had, and how many tokens were read. -/
structure Checkpoint where
  parent : Nat
  childCount : Nat
  tokens : Nat
  deriving DecidableEq, Repr, Inhabited

/-- A forest under construction: its nodes, the numbers of the open ones with the
innermost first, and how many tokens were read. -/
structure Builder where
  nodes : Array Node
  opened : List Nat
  tokens : Nat
  deriving DecidableEq, Repr, Inhabited

namespace Builder

/-- The forest before anything is read. -/
def empty : Builder := ⟨#[], [], 0⟩

/-- **Opens a node** at the current token. -/
def start (b : Builder) (kind : NodeKind) : Builder :=
  let id := b.nodes.size
  let node : Node := ⟨kind, b.opened.head?, [], b.tokens, b.tokens⟩
  match b.opened with
  | [] => { b with nodes := b.nodes.push node, opened := [id] }
  | parent :: _ =>
    { b with
      nodes := (b.nodes.push node).modify parent fun p =>
        { p with children := p.children ++ [id] }
      opened := id :: b.opened }

/-- **Closes the innermost open node** at the current token. -/
def finish (b : Builder) : Builder :=
  match b.opened with
  | [] => b
  | id :: rest =>
    { b with
      nodes := b.nodes.modify id fun n => { n with endToken := b.tokens }
      opened := rest }

/-- **Reads a token** into the innermost open node. -/
def token (b : Builder) : Builder :=
  { b with tokens := b.tokens + 1 }

/-- **The present moment**, to open a node at later. -/
def checkpoint (b : Builder) : Checkpoint :=
  let parent := b.opened.head?.getD 0
  ⟨parent, ((b.nodes[parent]?).map fun n => n.children.length).getD 0, b.tokens⟩

/-- The nodes with `id` as the parent of each of the given ones. -/
def reparent (nodes : Array Node) (ids : List Nat) (id : Nat) : Array Node :=
  ids.foldl (fun nodes child => nodes.modify child fun n => { n with parent := some id }) nodes

/-- **Opens a node at a checkpoint**; it takes over the children that the node
open at that moment has received since. -/
def startAt (b : Builder) (mark : Checkpoint) (kind : NodeKind) : Builder :=
  let id := b.nodes.size
  let siblings := ((b.nodes[mark.parent]?).map Node.children).getD []
  let adopted := siblings.drop mark.childCount
  let node : Node := ⟨kind, some mark.parent, adopted, mark.tokens, mark.tokens⟩
  let nodes := reparent (b.nodes.push node) adopted id
  { b with
    nodes := nodes.modify mark.parent fun p =>
      { p with children := siblings.take mark.childCount ++ [id] }
    opened := id :: b.opened }

/-- Closes every node that is still open. -/
def finishAll (b : Builder) : Builder :=
  b.opened.foldl (fun b _ => b.finish) b

end Builder

end ModuleLint
