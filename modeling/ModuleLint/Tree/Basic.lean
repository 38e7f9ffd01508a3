/-
ModuleLint/Tree/Basic.lean

The tree of a module: its nodes over its tokens.  Every question about a node is
answered by its number.  A node covers a range of tokens; its text is the texts of
those tokens without what lies between them, its span reaches from the first of
them to the last.
-/
import ModuleLint.Tree.Builder
import ModuleLint.Lexical.Scan

namespace ModuleLint

/-- **The tree of a module**: the source, its tokens and trivia, and the nodes,
with the root under number zero. -/
structure Tree where
  source : List Char
  lexed : Lexed
  nodes : Array Node
  deriving DecidableEq, Repr, Inhabited

/-- The part of a source that a node covers. -/
structure Span where
  offset : Nat
  length : Nat
  line : Nat
  column : Nat
  deriving DecidableEq, Repr, Inhabited

namespace Builder

/-- The finished forest over a source; what is still open ends at the last token read. -/
def toTree (b : Builder) (source : List Char) (lexed : Lexed) : Tree :=
  ⟨source, lexed, b.finishAll.nodes⟩

end Builder

namespace Tree

/-- The number of the root. -/
def root : Nat := 0

/-- The number of nodes. -/
def size (t : Tree) : Nat := t.nodes.size

/-- The kind of a node. -/
def kind? (t : Tree) (id : Nat) : Option NodeKind :=
  (t.nodes[id]?).map Node.kind

/-- Whether a node is of the given kind. -/
def hasKind (t : Tree) (kind : NodeKind) (id : Nat) : Bool :=
  t.kind? id == some kind

/-- The parent of a node; the root has none. -/
def parent? (t : Tree) (id : Nat) : Option Nat :=
  (t.nodes[id]?).bind Node.parent

/-- The children of a node, in source order. -/
def children (t : Tree) (id : Nat) : List Nat :=
  ((t.nodes[id]?).map Node.children).getD []

/-- The first child of the given kind. -/
def childOfKind? (t : Tree) (id : Nat) (kind : NodeKind) : Option Nat :=
  (t.children id).find? (t.hasKind kind)

/-- The chain of parents from a given start, of at most `n` nodes. -/
def chain (t : Tree) : Nat → Option Nat → List Nat
  | 0, _ => []
  | _, none => []
  | n + 1, some id => id :: chain t n (t.parent? id)

/-- **The strict ancestors of a node**, innermost first. -/
def ancestors (t : Tree) (id : Nat) : List Nat :=
  chain t t.size (t.parent? id)

/-- Nodes in the order in which they are met from a stack of nodes still to visit:
the top is met, and its children take its place.  At most `n` nodes are met. -/
def meet (t : Tree) : Nat → List Nat → List Nat
  | 0, _ => []
  | _, [] => []
  | n + 1, id :: stack => id :: meet t n (t.children id ++ stack)

/-- **A node and all nodes below it**, a node before its children and these in
source order. -/
def descendants (t : Tree) (id : Nat) : List Nat :=
  meet t t.size [id]

/-- The tokens that a node covers. -/
def tokensOf (t : Tree) (id : Nat) : List Token :=
  match t.nodes[id]? with
  | some node => (t.lexed.tokens.extract node.firstToken node.endToken).toList
  | none => []

/-- **The text of a node**: the texts of its tokens, without blanks and comments. -/
def text (t : Tree) (id : Nat) : List Char :=
  (t.tokensOf id).flatMap Token.text

/-- The empty span at the end of the source. -/
def endSpan (t : Tree) : Span :=
  ⟨byteLength t.source, 0, max 1 (lineCount t.source), 1⟩

/-- The span over a range of tokens.  An empty range lies before the token that
follows it, or at the end of the source if none does. -/
def spanOver (t : Tree) (first stop : Nat) : Span :=
  match t.lexed.tokens[first]?, t.lexed.tokens[stop - 1]? with
  | some a, some z =>
    if first < stop then
      ⟨a.position.offset, z.stop - a.position.offset, a.position.line, a.position.column⟩
    else ⟨a.position.offset, 0, a.position.line, a.position.column⟩
  | some a, none => ⟨a.position.offset, 0, a.position.line, a.position.column⟩
  | none, _ => t.endSpan

/-- **The part of the source that a node covers.** -/
def span (t : Tree) (id : Nat) : Span :=
  match t.nodes[id]? with
  | some node => t.spanOver node.firstToken node.endToken
  | none => t.endSpan

/-- The comments that begin on a line. -/
def commentsOnLine (t : Tree) (line : Nat) : List (List Char) :=
  (t.lexed.trivia.toList.filter fun c => c.kind == .comment && c.position.line == line).map
    Trivia.text

end Tree

end ModuleLint
