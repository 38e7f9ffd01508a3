/-
ModuleLint/Grammar/Reader.lean

Readers, of which the grammar is made.  A reader looks at the kinds of the tokens
ahead, at no more than two of them at a time, and either takes some of them into
items or stops.  Where it stops is told by how many tokens were left unread, and
why by what was expected there; texts and places play no part, so a reader treats
all sources with the same kinds of tokens alike.

The repetitions `many` and `chain` end because each turn takes a token.  They
count their turns along the tokens that lay ahead at the start, which are
therefore enough.
-/
import ModuleLint.Tree.Derivation

namespace ModuleLint

/-- What the grammar expected where it stopped. -/
inductive Expected where
  | token (kind : TokenKind)
  | identifier | expression | typeName | memberName
  | method | endOfMethod
  | nesting (limit : Nat)
  deriving DecidableEq, Repr, Inhabited

/-- Why reading stopped, and how many tokens were left unread. -/
structure Stop where
  unread : Nat
  expected : Expected
  deriving DecidableEq, Repr, Inhabited

/-- A reader takes tokens into items and leaves the rest, or stops. -/
abbrev Reader := List TokenKind → Except Stop (List Derivation × List TokenKind)

namespace Reader

/-- Takes nothing. -/
def pass : Reader := fun ahead => .ok ([], ahead)

/-- Stops here. -/
def stop (expected : Expected) : Reader := fun ahead => .error ⟨ahead.length, expected⟩

/-- **Takes the next token**, whatever it is. -/
def take : Reader
  | [] => .ok ([], [])
  | kind :: rest => .ok ([.token kind], rest)

/-- One reader after the other. -/
def andThen (first second : Reader) : Reader := fun ahead =>
  match first ahead with
  | .error e => .error e
  | .ok (items, rest) =>
    match second rest with
    | .error e => .error e
    | .ok (more, rest) => .ok (items ++ more, rest)

instance : AndThen Reader := ⟨fun first second => andThen first (second ())⟩

/-- **Makes one node** of all that a reader takes. -/
def node (kind : NodeKind) (content : Reader) : Reader := fun ahead =>
  match content ahead with
  | .error e => .error e
  | .ok (items, rest) => .ok ([.node kind [] items], rest)

/-- Whether there is a next token and it satisfies `p`. -/
def nextIs (p : TokenKind → Bool) : List TokenKind → Bool
  | [] => false
  | kind :: _ => p kind

/-- Chooses a reader by the next token. -/
def peek (choice : Option TokenKind → Reader) : Reader := fun ahead =>
  choice ahead.head? ahead

/-- Chooses between two readers by what lies ahead. -/
def ifAhead (p : List TokenKind → Bool) (yes no : Reader) : Reader := fun ahead =>
  if p ahead then yes ahead else no ahead

/-- Chooses between two readers by whether the next token satisfies `p`. -/
def ifNext (p : TokenKind → Bool) (yes no : Reader) : Reader :=
  ifAhead (nextIs p) yes no

/-- Takes a token of the given kind if it is next. -/
def accept (kind : TokenKind) : Reader := ifNext (· == kind) take pass

/-- Takes a token of the given kind, or stops and tells what was expected. -/
def expectAs (kind : TokenKind) (expected : Expected) : Reader :=
  ifNext (· == kind) take (stop expected)

/-- **Takes a token of the given kind**, or stops. -/
def expect (kind : TokenKind) : Reader := expectAs kind (.token kind)

/-- Repeats a reader while what lies ahead satisfies `p`; `found` holds the items so
far, the last one first, and the first list bounds the number of turns. -/
def manyFrom (p : List TokenKind → Bool) (content : Reader) :
    List TokenKind → List Derivation → Reader
  | [], found, ahead => .ok (found.reverse, ahead)
  | _ :: turns, found, ahead =>
    if p ahead then
      match content ahead with
      | .error e => .error e
      | .ok (items, rest) => manyFrom p content turns (items.reverse ++ found) rest
    else .ok (found.reverse, ahead)

/-- **Repeats a reader** while what lies ahead satisfies `p`. -/
def many (p : List TokenKind → Bool) (content : Reader) : Reader := fun ahead =>
  manyFrom p content ahead [] ahead

/-- One item, and further ones after commas. -/
def commaSeparated (item : Reader) : Reader :=
  item >> many (nextIs (· == .comma)) (take >> item)

/-- **Wraps what came first.**  After `first`, the next token decides the kind of a
node and how it goes on; the items of `first` are its lead. -/
def wrap (first : Reader) (choice : Option TokenKind → Except Expected (NodeKind × Reader)) :
    Reader := fun ahead =>
  match first ahead with
  | .error e => .error e
  | .ok (items, rest) =>
    match choice rest.head? with
    | .error expected => stop expected rest
    | .ok (kind, content) =>
      match content rest with
      | .error e => .error e
      | .ok (more, rest) => .ok ([.node kind items more], rest)

/-- Wraps `items` again and again, as long as `step` names a node for the next
token; each node is the lead of the one around it.  The first list bounds the number
of turns. -/
def chainFrom (step : TokenKind → Option (NodeKind × Reader)) :
    List TokenKind → List Derivation → Reader
  | [], items, ahead => .ok (items, ahead)
  | _ :: turns, items, ahead =>
    match ahead.head?.bind step with
    | none => .ok (items, ahead)
    | some (kind, content) =>
      match content ahead with
      | .error e => .error e
      | .ok (more, rest) => chainFrom step turns [.node kind items more] rest

/-- **A chain that grows to the left**: `first`, wrapped once for each continuation
that `step` names. -/
def chain (first : Reader) (step : TokenKind → Option (NodeKind × Reader)) : Reader :=
  fun ahead =>
    match first ahead with
    | .error e => .error e
    | .ok (items, rest) => chainFrom step rest items rest

end Reader

end ModuleLint
