/-
ModuleLint/CommandLine/Arguments.lean

The arguments of the program.  Options that hold for all commands may stand before
or after the name of the command.  An option is long, with its value after `=` or as
the next argument, or short, with its value right behind it or next; short options
without a value may be joined.  After `--` all is taken as it is.
-/
namespace ModuleLint

/-- The format in which findings are written. -/
inductive OutputFormat where
  | text
  | json
  | compact
  | rich
  deriving DecidableEq, Repr, Inhabited

namespace OutputFormat

/-- The name of a format. -/
def name : OutputFormat → String
  | .text => "text"
  | .json => "json"
  | .compact => "compact"
  | .rich => "rich"

/-- The format of a given name. -/
def ofName? (s : String) : Option OutputFormat :=
  [.text, .json, .compact, .rich].find? fun format => format.name == s

end OutputFormat

/-- **What to do.** -/
inductive Command where
  /-- Check the sources at or below a path. -/
  | check (path : String) (format : OutputFormat) (rules : Option String) (exclude : List String)
  /-- List all rules. -/
  | listRules
  /-- Write a configuration file. -/
  | init (force : Bool)
  deriving DecidableEq, Repr, Inhabited

/-- **What the arguments ask for.** -/
structure Invocation where
  verbose : Bool
  config : Option String
  command : Command
  deriving DecidableEq, Repr, Inhabited

/-- Why the arguments lead to no command. -/
inductive ArgumentsStop where
  | usage
  | help
  | version
  deriving DecidableEq, Repr, Inhabited

namespace Arguments

/-- What an option may be followed by, and how often it may be given. -/
inductive OptionKind where
  /-- No value. -/
  | flag
  /-- A value. -/
  | single
  /-- A value, any number of times. -/
  | repeated
  deriving DecidableEq, Repr, Inhabited

/-- An option. -/
structure OptionSpec where
  long : String
  short : Option Char := none
  kind : OptionKind
  /-- Which values it takes. -/
  accepts : String → Bool := fun _ => true
  deriving Inhabited

/-- A command, or the program itself, as far as arguments go. -/
structure Level where
  options : List OptionSpec
  /-- How many arguments it takes that are no options. -/
  operands : Nat
  /-- Whether the first such argument names a command. -/
  leads : Bool

/-- A text that names a file. -/
def isPath (s : String) : Bool := !s.isEmpty

/-- The options that hold for all commands. -/
def common : List OptionSpec :=
  [{ long := "verbose", short := some 'v', kind := .flag },
   { long := "config", short := some 'c', kind := .single, accepts := isPath }]

/-- The options of a check. -/
def checkOptions : List OptionSpec :=
  [{ long := "format", short := some 'f', kind := .single
     accepts := fun s => (OutputFormat.ofName? s).isSome },
   { long := "rules", kind := .single },
   { long := "exclude", short := some 'e', kind := .repeated }]

/-- The options of writing a configuration file. -/
def initOptions : List OptionSpec := [{ long := "force", kind := .flag }]

/-- The program itself. -/
def program : Level := ⟨common, 0, true⟩

/-! ### Reading -/

/-- What has been read so far. -/
structure Reading where
  /-- The options given, with their values, in order. -/
  given : List (String × String) := []
  operands : List String := []
  /-- An option that waits for its value. -/
  pending : Option OptionSpec := none
  /-- Whether all that follows is taken as it is. -/
  plain : Bool := false
  deriving Inhabited

namespace Reading

/-- The values of an option. -/
def values (r : Reading) (long : String) : List String :=
  (r.given.filter fun g => g.1 == long).map Prod.snd

/-- The last value of an option. -/
def value? (r : Reading) (long : String) : Option String := (r.values long).getLast?

/-- Whether an option is given. -/
def has (r : Reading) (long : String) : Bool := !(r.values long).isEmpty

/-- Takes an option with its value. -/
def give (r : Reading) (o : OptionSpec) (value : String) : Except ArgumentsStop Reading :=
  if !o.accepts value || (o.kind != .repeated && r.has o.long) then .error .usage
  else .ok { r with given := r.given ++ [(o.long, value)], pending := none }

/-- Takes a long option, given what stands behind its dashes. -/
def readLong (level : Level) (r : Reading) (text : List Char) : Except ArgumentsStop Reading :=
  let name := text.takeWhile (· != '=')
  let value := text.dropWhile (· != '=')
  match level.options.find? fun o => o.long.toList == name with
  | none =>
    if !value.isEmpty then .error .usage
    else if name == "help".toList then .error .help
    else if level.leads && name == "version".toList then .error .version
    else .error .usage
  | some o =>
    match o.kind, value with
    | .flag, [] => r.give o ""
    | .flag, _ => .error .usage
    | _, [] => .ok { r with pending := some o }
    | _, _ :: value => r.give o (String.ofList value)

/-- Takes short options, given what stands behind their dash. -/
def readShort (level : Level) : List Char → Reading → Except ArgumentsStop Reading
  | [], r => .ok r
  | c :: rest, r =>
    match level.options.find? fun o => o.short == some c with
    | none =>
      if c = 'h' then .error .help
      else if level.leads && c = 'V' then .error .version
      else .error .usage
    | some o =>
      match o.kind, rest with
      | .flag, rest => do readShort level rest (← r.give o "")
      | _, [] => .ok { r with pending := some o }
      | _, '=' :: value => r.give o (String.ofList value)
      | _, value => r.give o (String.ofList value)

/-- Takes an argument that is no option. -/
def readOperand (level : Level) (r : Reading) (text : String) : Except ArgumentsStop Reading :=
  if r.operands.length < level.operands then .ok { r with operands := r.operands ++ [text] }
  else .error .usage

/-- Whether an argument looks like an option. -/
def isOption (text : List Char) : Bool :=
  text.head? == some '-' && text.length != 1

end Reading

/-- **Reads arguments** at a level, up to the name of a command if one leads on; what follows
that name is left over with it. -/
def read (level : Level) : List String → Reading → Except ArgumentsStop (Reading × List String)
  | [], r => if r.pending.isSome then .error .usage else .ok (r, [])
  | arg :: rest, r =>
    let text := arg.toList
    match r.pending with
    | some o => do
      if Reading.isOption text then .error .usage else read level rest (← r.give o arg)
    | none => do
      if r.plain || !Reading.isOption text then
        if level.leads && !r.plain then return (r, arg :: rest)
        else read level rest (← r.readOperand level arg)
      else
        match text with
        | '-' :: '-' :: [] => read level rest { r with plain := true }
        | '-' :: '-' :: long => read level rest (← r.readLong level long)
        | _ => read level rest (← r.readShort level text.tail)

/-- The level of a command of a given name. -/
def level? (name : String) : Option Level :=
  match name with
  | "check" => some ⟨checkOptions ++ common, 1, false⟩
  | "list-rules" => some ⟨common, 0, false⟩
  | "init" => some ⟨initOptions ++ common, 0, false⟩
  | _ => none

/-- The command of a given name with what was read for it. -/
def command (name : String) (r : Reading) : Except ArgumentsStop Command :=
  match name with
  | "check" =>
    let path := r.operands.head?.getD "."
    let format := ((r.value? "format").bind OutputFormat.ofName?).getD .text
    if isPath path then .ok (.check path format (r.value? "rules") (r.values "exclude"))
    else .error .usage
  | "init" => .ok (.init (r.has "force"))
  | _ => .ok .listRules

/-- **What arguments ask for.**  `configVariable` stands in for a configuration file that is
named neither before nor after the command. -/
def invocation (configVariable : Option String) (args : List String) :
    Except ArgumentsStop Invocation := do
  match ← read program args {} with
  | (_, []) => .error .usage
  | (before, name :: rest) =>
    match level? name with
    | none => if name == "help" then .error .help else .error .usage
    | some level =>
      let (after, _) ← read level rest {}
      let command ← command name after
      let everywhere := before.has "config" && after.has "config"
      if configVariable == some "" && !everywhere then .error .usage
      else
        return {
          verbose := before.has "verbose" || after.has "verbose"
          config := (after.value? "config") <|> (before.value? "config") <|> configVariable
          command := command }

end Arguments

end ModuleLint
