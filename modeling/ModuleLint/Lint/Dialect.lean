/-
ModuleLint/Lint/Dialect.lean

The dialect of a source file, told by its extension, and the language in which
findings are worded.
-/
import ModuleLint.Files.Path

namespace ModuleLint

/-- The dialect of a source file. -/
inductive Dialect where
  /-- A module of 1C:Enterprise. -/
  | bsl
  /-- A OneScript script. -/
  | os
  deriving DecidableEq, Repr, Inhabited

namespace Dialect

/-- The extension of files in a dialect; it is also the name of the dialect. -/
def name : Dialect → String
  | .bsl => "bsl"
  | .os => "os"

/-- Both dialects. -/
def all : List Dialect := [.bsl, .os]

/-- The dialect of a given name. -/
def ofName? (s : String) : Option Dialect :=
  all.find? fun dialect => dialect.name == s

/-- The dialect of a file, by its extension in any letter case. -/
def ofPath? (path : Path.Text) : Option Dialect :=
  (Path.extension? path).bind fun ext =>
    all.find? fun dialect => dialect.name.toList == ext.map Char.toLower

end Dialect

/-- The language in which findings are worded. -/
inductive MessageLanguage where
  | ru
  | en
  deriving DecidableEq, Repr, Inhabited

namespace MessageLanguage

/-- The name of a language. -/
def name : MessageLanguage → String
  | .ru => "ru"
  | .en => "en"

/-- The language of a given name. -/
def ofName? (s : String) : Option MessageLanguage :=
  [.ru, .en].find? fun language => language.name == s

/-- The wording in this language. -/
def pick (language : MessageLanguage) (ru en : String) : String :=
  match language with
  | .ru => ru
  | .en => en

end MessageLanguage

end ModuleLint
