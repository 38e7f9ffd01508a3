/-
ModuleLint/Files/IgnoreRule.lean

Lines of ignore files.  A line is a pattern for paths below the directory of its
file; after `!` it keeps what it covers, and with a closing slash it covers only
directories.  A pattern without a slash covers names at any depth.  Patterns are
matched byte by byte: `?` stands for one byte, `*` for any number of them, neither
for a slash, and braces hold alternatives.  A line whose pattern is malformed says
nothing.
-/
import ModuleLint.Text.Rests
import ModuleLint.Text.Blank
import ModuleLint.Text.Cut

namespace ModuleLint

/-- A piece of a pattern in an ignore file. -/
inductive IgnoreToken where
  | literal (bytes : List UInt8)
  /-- One byte that is no slash. -/
  | any
  /-- Any number of bytes, none of them a slash. -/
  | run
  /-- Any number of folders at the start. -/
  | foldersFirst
  /-- A slash, or any number of folders between two slashes. -/
  | foldersBetween
  /-- A slash and all that follows. -/
  | foldersLast
  /-- One byte, within some ranges or, if negated, outside of them. -/
  | byteOf (negated : Bool) (ranges : List (UInt8 × UInt8))
  /-- One of some alternatives; without any, nothing. -/
  | either (branches : List (List IgnoreToken))
  deriving Repr, Inhabited

namespace IgnoreToken

/-- The byte of a slash. -/
def slash : UInt8 := 0x2F

/-! ### Matching -/

mutual

/-- What a token leaves of a text. -/
def rests : IgnoreToken → List UInt8 → List (List UInt8)
  | .literal bytes, text => if bytes.isPrefixOf text then [text.drop bytes.length] else []
  | .any, text => Rests.one (· != slash) text
  | .run, text => Rests.run (· != slash) text
  | .foldersFirst, text => text :: Rests.afterSeparators slash text
  | .foldersBetween, text =>
    (Rests.one (· == slash) text).flatMap fun rest => rest :: Rests.afterSeparators slash rest
  | .foldersLast, text =>
    (Rests.one (· == slash) text).flatMap fun rest => Rests.run (fun _ => true) rest
  | .byteOf negated ranges, text =>
    Rests.one (fun b => (ranges.any fun (low, high) => low ≤ b && b ≤ high) != negated) text
  | .either [], text => [text]
  | .either (branch :: more), text => restsOfAny (branch :: more) text

/-- What tokens leave of texts one after the other. -/
def restsOfAll : List IgnoreToken → List (List UInt8) → List (List UInt8)
  | [], texts => texts
  | token :: more, texts => restsOfAll more (Rests.afterPiece (rests token) texts)

/-- What any of some alternatives leaves of a text. -/
def restsOfAny : List (List IgnoreToken) → List UInt8 → List (List UInt8)
  | [], _ => []
  | branch :: more, text => restsOfAll branch [text] ++ restsOfAny more text

end

/-- **Whether a pattern covers a path.**  Folders alone cover everything. -/
def cover (tokens : List IgnoreToken) (path : List UInt8) : Bool :=
  match tokens with
  | [.foldersFirst] => true
  | tokens => Rests.anyEmpty (restsOfAll tokens [path])

/-! ### Reading -/

/-- The bytes of a range between two characters: those between the last byte of the one and
the first of the other, and each of their other bytes. -/
def byteRanges (low high : Char) : List (UInt8 × UInt8) :=
  let a := String.utf8EncodeChar low
  let z := String.utf8EncodeChar high
  let single := fun (b : UInt8) => (b, b)
  if low = high then a.map single
  else
    a.dropLast.map single ++ [(a.getLast?.getD 0, z.head?.getD 0)] ++ z.tail.map single

/-- What a class holds before its closing bracket, and what follows that.  `dash` tells that
a dash stands after the character before. -/
def readClassItems : (first dash : Bool) → List (Char × Char) → List Char →
    Option (List (Char × Char) × List Char)
  | _, _, _, [] => none
  | first, dash, items, c :: rest =>
    if c = ']' ∧ !first then
      some ((if dash then ('-', '-') :: items else items).reverse, rest)
    else if c = '-' ∧ !first ∧ !dash then readClassItems false true items rest
    else
      match dash, items with
      | true, (low, _) :: items => readClassItems false false ((low, c) :: items) rest
      | _, items => readClassItems false false ((c, c) :: items) rest

/-- A class after its opening bracket: a token, or a refusal if a range ends before it
begins; `none` if the bracket is not closed. -/
def readClass? (text : List Char) : Option (Option IgnoreToken × List Char) :=
  let negated := text.head? == some '!' || text.head? == some '^'
  let inside := if negated then text.tail else text
  (readClassItems true false [] inside).map fun (items, rest) =>
    if items.all fun (low, high) => low ≤ high then
      (some (.byteOf negated (items.flatMap fun (low, high) => byteRanges low high)), rest)
    else (none, rest)

/-- Whether a token matches only the empty text, for it holds nothing. -/
def isVoid : IgnoreToken → Bool
  | .either [] => true
  | _ => false

/-- A pattern that is being read: the tokens since the innermost open brace or comma, the
last one first, and for every open brace the alternatives that are complete and the tokens
before it. -/
structure Reading where
  current : List IgnoreToken
  opened : List (List (List IgnoreToken) × List IgnoreToken)
  deriving Inhabited

namespace Reading

/-- The pattern with a further token. -/
def push (r : Reading) (token : IgnoreToken) : Reading :=
  { r with current := token :: r.current }

/-- The pattern with two stars read as single ones. -/
def pushRuns (r : Reading) : Reading := (r.push .run).push .run

/-- The pattern with folders in place of the separator read last. -/
def pushFolders (r : Reading) (last : Bool) : Reading :=
  match r.current with
  | .foldersFirst :: _ => r
  | .foldersLast :: _ => r
  | _ :: before => { r with current := (if last then .foldersLast else .foldersBetween) :: before }
  | [] => r

/-- The alternative that ends here. -/
def closeBranch (r : Reading) : Option Reading :=
  match r.opened with
  | [] => none
  | (branches, before) :: more => some ⟨[], (branches ++ [r.current.reverse], before) :: more⟩

/-- The pattern after a closing brace. -/
def closeBrace (r : Reading) : Option Reading :=
  match r.closeBranch with
  | some ⟨_, (branches, before) :: more⟩ =>
    some ⟨.either (branches.filter fun branch => !branch.all isVoid) :: before, more⟩
  | _ => none

/-- Two stars after `previous`, with `rest` to follow. -/
def stars (r : Reading) (previous : Option Char) (rest : List Char) : Reading × List Char :=
  if r.current.isEmpty then
    match rest with
    | [] => (r.push .foldersFirst, [])
    | '/' :: rest => (r.push .foldersFirst, rest)
    | rest => (r.pushRuns, rest)
  else if previous != some '/' &&
      (r.opened.isEmpty || (previous != some ',' && previous != some '\x7b')) then
    (r.pushRuns, rest)
  else
    match rest with
    | [] => (r.pushFolders true, [])
    | '/' :: rest => (r.pushFolders false, rest)
    | c :: rest =>
      if !r.opened.isEmpty && (c == ',' || c == '\x7d') then (r.pushFolders true, c :: rest)
      else (r.pushRuns, c :: rest)

end Reading

/-- Reads a pattern, given the character before it, in at most `n` steps. -/
def readFrom : Nat → Option Char → Reading → List Char → Option Reading
  | _, _, r, [] => some r
  | 0, _, _, _ => none
  | n + 1, previous, r, c :: rest =>
    match c, rest with
    | '?', rest => readFrom n (some c) (r.push .any) rest
    | '*', '*' :: rest =>
      let (r, after) := r.stars previous rest
      readFrom n (some (if after.length < rest.length then '/' else '*')) r after
    | '*', rest => readFrom n (some c) (r.push .run) rest
    | '[', rest =>
      match readClass? rest with
      | some (some token, rest) => readFrom n (some ']') (r.push token) rest
      | some (none, _) => none
      | none => readFrom n (some c) (r.push (.literal [0x5B])) rest
    | '\x7b', rest => readFrom n (some c) ⟨[], ([], r.current) :: r.opened⟩ rest
    | '\x7d', rest => r.closeBrace.bind fun r => readFrom n (some c) r rest
    | '\\', [] => none
    | '\\', e :: rest => readFrom n (some e) (r.push (.literal (String.utf8EncodeChar e))) rest
    | c, rest =>
      match c == ',', r.closeBranch with
      | true, some r => readFrom n (some c) r rest
      | _, _ => readFrom n (some c) (r.push (.literal (String.utf8EncodeChar c))) rest

/-- **The tokens of a pattern**, unless it is malformed. -/
def read? (pattern : List Char) : Option (List IgnoreToken) :=
  match readFrom pattern.length none ⟨[], []⟩ pattern with
  | some ⟨tokens, []⟩ => some tokens.reverse
  | _ => none

end IgnoreToken

/-- **A line of an ignore file.** -/
structure IgnoreRule where
  tokens : List IgnoreToken
  /-- Whether what it covers is kept, not ignored. -/
  keeps : Bool
  onlyDirectories : Bool
  deriving Repr, Inhabited

/-- What ignore files say about a path. -/
inductive IgnoreVerdict where
  | ignored
  | kept
  deriving DecidableEq, Repr, Inhabited

namespace IgnoreRule

/-- Whether a text ends with another one. -/
def endsWith (suffix text : List Char) : Bool := suffix.isSuffixOf text

/-- The pattern without a closing slash, and whether it had one. -/
def withoutSlash (pattern : List Char) : List Char × Bool :=
  if pattern.getLast? != some '/' then (pattern, false)
  else
    let body := pattern.dropLast
    (if body.getLast? == some '\\' then body.dropLast else body, true)

/-- The rule of a pattern; `anchored` tells that it holds for whole paths only. -/
def ofPattern? (keeps anchored : Bool) (pattern : List Char) : Option IgnoreRule :=
  let (body, onlyDirectories) := withoutSlash pattern
  let anywhere := !anchored && !body.contains '/' && body != ['*', '*']
  let body := if anywhere then ['*', '*', '/'] ++ body else body
  let body := if endsWith ['/', '*', '*'] body then body ++ ['/', '*'] else body
  (IgnoreToken.read? body).map fun tokens => ⟨tokens, keeps, onlyDirectories⟩

/-- The rule of a pattern that is anchored by a slash at its start. -/
def ofSlashed? (keeps : Bool) : List Char → Option IgnoreRule
  | '/' :: pattern => ofPattern? keeps true pattern
  | pattern => ofPattern? keeps false pattern

/-- **The rule of a line**, if it has one: a line may be blank or a comment. -/
def ofLine? (line : List Char) : Option IgnoreRule :=
  match if endsWith ['\\', ' '] line then line else trimEnd line with
  | [] => none
  | '#' :: _ => none
  | '\\' :: '#' :: rest => ofPattern? false false ('#' :: rest)
  | '\\' :: '!' :: rest => ofPattern? false false ('!' :: rest)
  | '!' :: rest => ofSlashed? true rest
  | pattern => ofSlashed? false pattern

/-- Whether the rule covers a path. -/
def covers (r : IgnoreRule) (path : List UInt8) (isDirectory : Bool) : Bool :=
  (!r.onlyDirectories || isDirectory) && IgnoreToken.cover r.tokens path

/-- **The verdict of a file's rules on a path**: that of the last one that covers it. -/
def verdict? (rules : List IgnoreRule) (path : List UInt8) (isDirectory : Bool) :
    Option IgnoreVerdict :=
  (rules.reverse.find? fun r => r.covers path isDirectory).map fun r =>
    if r.keeps then .kept else .ignored

/-- The lines of a file up to the first that is no text. -/
def textLines : List (List UInt8) → List (List Char)
  | [] => []
  | line :: rest =>
    let bytes := if line.getLast? == some 0x0D then line.dropLast else line
    match String.fromUTF8? ⟨bytes.toArray⟩ with
    | some text => text.toList :: textLines rest
    | none => []

/-- **The rules of an ignore file.**  A byte order mark before the first line is passed over. -/
def ofFile (content : ByteArray) : List IgnoreRule :=
  let lines := textLines (content.toList.splitOn 0x0A)
  let lines := match lines with
    | first :: rest => first.dropWhile (· == '\ufeff') :: rest
    | [] => []
  lines.filterMap ofLine?

end IgnoreRule

end ModuleLint
