/-
ModuleLint/Lexical/Keyword.lean

The reserved words.  Each has a Russian and an English spelling, `Null` one for
both languages, and letter case does not matter.  `Keyword.lookup` finds the word
that a spelling stands for; `Keyword.spellings` is the table it reads.
-/
namespace ModuleLint

/-- A reserved word of the language, named by its English spelling. -/
inductive Keyword where
  | If | Then | ElsIf | Else | EndIf
  | For | Each | In | To | Do | EndDo | While
  | Procedure | EndProcedure | Function | EndFunction
  | Var | Export | Val | Return
  | Try | Except | EndTry | Raise
  | Continue | Break
  | And | Or | Not
  | True | False | Undefined | Null
  | New | Goto | Execute | AddHandler | RemoveHandler
  | Async | Await
  deriving DecidableEq, Repr, Inhabited

namespace Keyword

/-- **The spellings of all reserved words**, in lower case. -/
def spellings : List (String × Keyword) :=
  [("если", .If), ("if", .If),
   ("тогда", .Then), ("then", .Then),
   ("иначеесли", .ElsIf), ("elsif", .ElsIf),
   ("иначе", .Else), ("else", .Else),
   ("конецесли", .EndIf), ("endif", .EndIf),
   ("для", .For), ("for", .For),
   ("каждого", .Each), ("each", .Each),
   ("из", .In), ("in", .In),
   ("по", .To), ("to", .To),
   ("цикл", .Do), ("do", .Do),
   ("конеццикла", .EndDo), ("enddo", .EndDo),
   ("пока", .While), ("while", .While),
   ("процедура", .Procedure), ("procedure", .Procedure),
   ("конецпроцедуры", .EndProcedure), ("endprocedure", .EndProcedure),
   ("функция", .Function), ("function", .Function),
   ("конецфункции", .EndFunction), ("endfunction", .EndFunction),
   ("перем", .Var), ("var", .Var),
   ("экспорт", .Export), ("export", .Export),
   ("знач", .Val), ("val", .Val),
   ("возврат", .Return), ("return", .Return),
   ("попытка", .Try), ("try", .Try),
   ("исключение", .Except), ("except", .Except),
   ("конецпопытки", .EndTry), ("endtry", .EndTry),
   ("вызватьисключение", .Raise), ("raise", .Raise),
   ("продолжить", .Continue), ("continue", .Continue),
   ("прервать", .Break), ("break", .Break),
   ("и", .And), ("and", .And),
   ("или", .Or), ("or", .Or),
   ("не", .Not), ("not", .Not),
   ("истина", .True), ("true", .True),
   ("ложь", .False), ("false", .False),
   ("неопределено", .Undefined), ("undefined", .Undefined),
   ("null", .Null),
   ("новый", .New), ("new", .New),
   ("перейти", .Goto), ("goto", .Goto),
   ("выполнить", .Execute), ("execute", .Execute),
   ("добавитьобработчик", .AddHandler), ("addhandler", .AddHandler),
   ("удалитьобработчик", .RemoveHandler), ("removehandler", .RemoveHandler),
   ("асинх", .Async), ("async", .Async),
   ("ждать", .Await), ("await", .Await)]

/-- The lower-case form of the letters that reserved words are written in: Latin,
with the Kelvin sign as a form of `k`, and Russian.  The lower-case form of any
other character occurs in no reserved word, so it is left as it is. -/
def lowerChar (c : Char) : Char :=
  if 'A' ≤ c ∧ c ≤ 'Z' then Char.ofNat (c.toNat + 0x20)
  else if 'А' ≤ c ∧ c ≤ 'Я' then Char.ofNat (c.toNat + 0x20)
  else if c = '\u212a' then 'k'
  else c

/-- **The reserved word a text spells**, in either language and any letter case. -/
def lookup (word : List Char) : Option Keyword :=
  let lowered := word.map lowerChar
  (spellings.find? fun entry => entry.1.toList == lowered).map Prod.snd

/-- The name of a reserved word in reports about tokens. -/
def name : Keyword → String
  | .If => "If" | .Then => "Then" | .ElsIf => "ElsIf" | .Else => "Else" | .EndIf => "EndIf"
  | .For => "For" | .Each => "Each" | .In => "In" | .To => "To" | .Do => "Do"
  | .EndDo => "EndDo" | .While => "While"
  | .Procedure => "Procedure" | .EndProcedure => "EndProcedure"
  | .Function => "Function" | .EndFunction => "EndFunction"
  | .Var => "Var" | .Export => "Export" | .Val => "Val" | .Return => "Return"
  | .Try => "Try" | .Except => "Except" | .EndTry => "EndTry" | .Raise => "Raise"
  | .Continue => "Continue" | .Break => "Break"
  | .And => "And" | .Or => "Or" | .Not => "Not"
  | .True => "True" | .False => "False" | .Undefined => "Undefined" | .Null => "Null"
  | .New => "New" | .Goto => "Goto" | .Execute => "Execute"
  | .AddHandler => "AddHandler" | .RemoveHandler => "RemoveHandler"
  | .Async => "Async" | .Await => "Await"

end Keyword

end ModuleLint
