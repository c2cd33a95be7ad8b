import Offside.Log.Level
import Offside.Token.Basic

/-!
# Log lines

An entry of a log belongs to a topic, for which a threshold of its own can be set.  It is written on
one line: the level, what happened and the fields that tell the details.
-/

namespace Offside.Log

inductive Topic where
  | general
  | lexer
  | parser
deriving DecidableEq

/-- The name under which the entries of a topic are filtered, where they have one. -/
def Topic.target? : Topic → Option String
  | general => none
  | lexer => some "sable::lexer"
  | parser => some "sable::parser"

structure Entry where
  level : Level
  topic : Topic
  message : String
  fields : List (String × String)

/-- The entry on a line of its own, with the level in five columns. -/
def Entry.line (entry : Entry) : String :=
  Token.padLeft 5 entry.level.label ++ " " ++ entry.message ++
    String.join (entry.fields.map fun field => " " ++ field.1 ++ "=" ++ field.2) ++ "\n"

/-! ## Thresholds -/

/-- What a configuration says about the log; a missing level is left to others. -/
structure Preferences where
  level? : Option Level
  lexer? : Option Level
  parser? : Option Level
deriving DecidableEq

def Preferences.unset : Preferences := ⟨none, none, none⟩

/-- The threshold of all entries and those of the topics that have their own. -/
structure Thresholds where
  general : Level
  lexer? : Option Level
  parser? : Option Level
deriving DecidableEq

namespace Thresholds

def ofPreferences (preferences : Preferences) : Thresholds :=
  ⟨preferences.level?.getD .warn, preferences.lexer?, preferences.parser?⟩

def override (thresholds : Thresholds) (preferences : Preferences) : Thresholds where
  general := preferences.level?.getD thresholds.general
  lexer? := preferences.lexer?.or thresholds.lexer?
  parser? := preferences.parser?.or thresholds.parser?

def levelFor (thresholds : Thresholds) : Topic → Level
  | .general => thresholds.general
  | .lexer => thresholds.lexer?.getD thresholds.general
  | .parser => thresholds.parser?.getD thresholds.general

def admits (thresholds : Thresholds) (entry : Entry) : Bool :=
  (thresholds.levelFor entry.topic).admits entry.level

def write (thresholds : Thresholds) (entries : List Entry) : String :=
  String.join ((entries.filter thresholds.admits).map Entry.line)

end Thresholds

end Offside.Log
