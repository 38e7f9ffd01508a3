/-
ModuleLint/Tree/Derivation.lean

What the grammar reads: a derivation is a token, or a node with the items it was
read from, in order.  It says nothing about places, so a derivation is the same
for all texts with the same kinds of tokens.

A node is known to be there when its first token is seen, or only later, after some
items that then turn out to belong to it: the left operand of an operator, the
directives before a method.  Such items are its *lead*.  `Derivation.emit` lays a
derivation out in a forest under construction: a node is opened, its items follow,
the node is closed; and a node with a lead is opened at the checkpoint before the
lead, once the lead has been laid out.
-/
import ModuleLint.Tree.Builder
import ModuleLint.Lexical.Token

namespace ModuleLint

/-- **What was read**: a token, or a node of some kind.  The node holds its lead,
which was read before the node was known to begin there, and its further items. -/
inductive Derivation where
  | token (kind : TokenKind)
  | node (kind : NodeKind) (lead items : List Derivation)
  deriving Repr, Inhabited

namespace Derivation

mutual

/-- Lays a derivation out in a forest under construction. -/
def emit : Derivation → Builder → Builder
  | .token _, b => b.token
  | .node kind lead items, b =>
    let opened :=
      if lead.isEmpty then b.start kind
      else (emitAll lead b).startAt b.checkpoint kind
    (emitAll items opened).finish

/-- Lays derivations out one after the other. -/
def emitAll : List Derivation → Builder → Builder
  | [], b => b
  | d :: rest, b => emitAll rest (emit d b)

end

mutual

/-- The tokens of a derivation, in order. -/
def tokens : Derivation → List TokenKind
  | .token kind => [kind]
  | .node _ lead items => tokensAll lead ++ tokensAll items

/-- The tokens of derivations, in order. -/
def tokensAll : List Derivation → List TokenKind
  | [] => []
  | d :: rest => tokens d ++ tokensAll rest

end

end Derivation

end ModuleLint
