/-
ModuleLint/Lint/UnixObject.lean

The rule against objects that do not exist on Linux.

COM objects and the mail object can only be created on Windows, so `New COMObject`
has to stand in a branch that checks the platform.  A type is flagged when its name
begins with one of the configured words, up to case.  A place is *guarded* when the
text of some conditional branch around it mentions the guard token, up to case; the
whole branch is searched, its body included.  An allow directive silences a finding;
without a reason it leaves a warning behind, if the rule reports errors.
-/
import ModuleLint.Lint.Rule
import ModuleLint.Lint.Allowance
import ModuleLint.Text.Folding
import ModuleLint.Tree.Visitor

namespace ModuleLint

/-- The settings of the rule: how flagged types begin, what marks a platform check, and
how grave a finding is. -/
structure UnixObject where
  typeStarts : List String
  guardToken : String
  severity : Severity
  deriving DecidableEq, Repr, Inhabited

namespace UnixObject

/-- The code of the rule. -/
def code : String := "BSL001"

/-- The name of the rule. -/
def name : String := "using-object-not-available-unix"

/-- Types that exist on Windows only. -/
def defaultTypeStarts : List String := ["COMObject", "COMОбъект", "Mail", "Почта"]

/-- The platform that a check has to mention. -/
def defaultGuardToken : String := "Linux_x86"

/-- The default settings. -/
def default : UnixObject := ⟨defaultTypeStarts, defaultGuardToken, .error⟩

/-! ### What is flagged, and where it is guarded -/

/-- **Whether a type name is flagged**: it begins with a configured word. -/
def flags (typeStarts : List String) (typeName : List Char) : Bool :=
  typeStarts.any fun start => !start.toList.isEmpty && startsWithFolded start.toList typeName

/-- **Whether a node is guarded**: a conditional branch around it mentions the token. -/
def isGuarded (guardToken : String) (t : Tree) (id : Nat) : Bool :=
  !guardToken.toList.isEmpty &&
    ((t.ancestors id).filter (t.hasKind .ifBranch)).any fun branch =>
      containsFolded guardToken.toList (t.text branch)

/-- The name of the type that a `New` expression creates, if it is written out. -/
def typeName? (t : Tree) (id : Nat) : Option (List Char) :=
  (t.childOfKind? id .typeName).map t.text

/-! ### Wording -/

/-- What a finding says. -/
def message (language : MessageLanguage) (typeName : String) : String :=
  language.pick
    ("Проверьте использование \"" ++ typeName ++ "\": объект недоступен в Linux")
    ("Check the use of \"" ++ typeName ++ "\": the object is not available on Linux")

/-- What a finding suggests. -/
def suggestion (language : MessageLanguage) (guardToken : String) : String :=
  language.pick
    ("Создавайте объект внутри условия, проверяющего тип платформы (" ++ guardToken ++ ")")
    ("Create the object inside a branch that checks the platform type (" ++ guardToken ++ ")")

/-! ### Checking -/

/-- What is reported about an unguarded creation of a flagged type. -/
def report (r : UnixObject) (file : FileContext) (t : Tree) (id : Nat) (typeName : List Char) :
    List Finding :=
  let span := t.span id
  let location := Location.ofSpan file.relativePath span
  match allowanceAt t span.line name.toList with
  | .denied =>
    [{ code := code, rule := name, severity := r.severity, location := location
       message := message file.language (String.ofList typeName)
       suggestion := some (suggestion file.language r.guardToken) }]
  | .allowed none =>
    if r.severity == .error then
      [{ code := code, rule := name, severity := .warning, location := location
         message := "Allow directive for '" ++ name ++ "' is missing required reason"
         suggestion :=
           some "Add reason=\"...\" to explain why this exception is necessary" }]
    else []
  | .allowed (some _) => []

/-- The findings at one `New` expression. -/
def findingsAt (r : UnixObject) (file : FileContext) (t : Tree) (id : Nat) : List Finding :=
  match typeName? t id with
  | none => []
  | some typeName =>
    if flags r.typeStarts typeName && !isGuarded r.guardToken t id then
      report r file t id typeName
    else []

/-- The visitor that collects the findings, each `New` before those inside it. -/
def collector (r : UnixObject) (file : FileContext) (t : Tree) : Visitor (Array Finding) where
  newExpression := fun id children found => children (found ++ (findingsAt r file t id).toArray)

/-- **The findings in a module**, in the order of its nodes. -/
def check (r : UnixObject) (file : FileContext) (t : Tree) : List Finding :=
  ((collector r file t).visit t #[]).toList

/-- A note for every flagged type that is guarded. -/
def notes (r : UnixObject) (file : FileContext) (t : Tree) : List String :=
  ((t.descendants Tree.root).filter (t.hasKind .newExpression)).filterMap fun id => do
    let typeName ← typeName? t id
    if flags r.typeStarts typeName && isGuarded r.guardToken t id then
      some (file.relativePath ++ ":" ++ toString (t.span id).line ++ ": '" ++
        String.ofList typeName ++ "' is under a platform check")
    else none

/-- **The rule with these settings.** -/
def rule (r : UnixObject) : Rule where
  code := code
  name := name
  description := "Flags COMObject and Mail instantiations not guarded by a Linux platform check"
  severity := r.severity
  kind := .error
  minutes := 30
  scope := .only .bsl
  check := check r
  notes := notes r

end UnixObject

end ModuleLint
