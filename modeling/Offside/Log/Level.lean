/-!
# Levels of a log

A log line has a level.  A threshold lets through the lines of its own level and of all more urgent
ones.
-/

namespace Offside.Log

inductive Level where
  | error
  | warn
  | info
  | debug
  | trace
deriving DecidableEq

namespace Level

def all : List Level := [error, warn, info, debug, trace]

def name : Level → String
  | error => "error"
  | warn => "warn"
  | info => "info"
  | debug => "debug"
  | trace => "trace"

def label : Level → String
  | error => "ERROR"
  | warn => "WARN"
  | info => "INFO"
  | debug => "DEBUG"
  | trace => "TRACE"

def rank : Level → Nat
  | error => 0
  | warn => 1
  | info => 2
  | debug => 3
  | trace => 4

def admits (threshold level : Level) : Bool := level.rank ≤ threshold.rank

def ofName? (name : String) : Option Level := all.find? fun level => level.name == name

def lowerCase (text : String) : String := String.ofList (text.toList.map Char.toLower)

/-- A level by its name in either case, where `warning` is a second name for `warn`. -/
def parse (text : String) : Except String Level :=
  let name := lowerCase text
  match ofName? (if name = "warning" then "warn" else name) with
  | some level => .ok level
  | none => .error ("unknown log level '" ++ name ++ "'")

theorem ofName?_name (level : Level) : ofName? level.name = some level := by
  cases level <;> decide

end Level

end Offside.Log
