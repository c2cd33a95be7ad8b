import Offside.Log.Level

/-!
# The command line

Arguments are read from left to right.  The first one that cannot be read makes the command line
unusable; a request for help or for the version is answered if it comes before that.
-/

namespace Offside.Command

inductive Format where
  | text
  | json
deriving DecidableEq

inductive LogFormat where
  | pretty
  | compact
  | json
deriving DecidableEq

def Format.ofName? (name : String) : Option Format :=
  if name = "text" then some .text
  else if name = "json" then some .json
  else none

def LogFormat.ofName? (name : String) : Option LogFormat :=
  if name = "pretty" then some .pretty
  else if name = "compact" then some .compact
  else if name = "json" then some .json
  else none

/-- What was asked for; an option that was not given has no value. -/
structure Invocation where
  file? : Option String
  tokens : Bool
  tree : Bool
  format? : Option Format
  settings? : Option String
  verbose : Bool
  level? : Option Log.Level
  lexerLevel? : Option Log.Level
  parserLevel? : Option Log.Level
  logFormat? : Option LogFormat
  logFile? : Option String
deriving DecidableEq

namespace Invocation

def empty : Invocation := ⟨none, false, false, none, none, false, none, none, none, none, none⟩

def format (invocation : Invocation) : Format := invocation.format?.getD .text

def logFormat (invocation : Invocation) : LogFormat := invocation.logFormat?.getD .compact

def threshold? (invocation : Invocation) : Option Log.Level :=
  invocation.level?.or (if invocation.verbose then some .debug else none)

end Invocation

inductive Request where
  | run (file : String) (invocation : Invocation)
  | version
  | help
  | misuse
deriving DecidableEq

/-! ## Switches and options -/

/-- The new content of a place that may be set once, if it can be set to this value. -/
def setOnce {α : Type} (current? value? : Option α) : Option (Option α) :=
  match current?, value? with
  | none, some value => some (some value)
  | _, _ => none

def fileName? (value : String) : Option String := if value.isEmpty then none else some value

def level? (value : String) : Option Log.Level := (Log.Level.parse value).toOption

/-- The invocation with an option set, if there is such an option and it can be set to this
value. -/
def setOption? (name value : String) (invocation : Invocation) : Option Invocation :=
  if name = "format" then
    (setOnce invocation.format? (Format.ofName? value)).map ({ invocation with format? := · })
  else if name = "config" then
    (setOnce invocation.settings? (fileName? value)).map ({ invocation with settings? := · })
  else if name = "log-level" then
    (setOnce invocation.level? (level? value)).map ({ invocation with level? := · })
  else if name = "log-lexer" then
    (setOnce invocation.lexerLevel? (level? value)).map ({ invocation with lexerLevel? := · })
  else if name = "log-parser" then
    (setOnce invocation.parserLevel? (level? value)).map ({ invocation with parserLevel? := · })
  else if name = "log-format" then
    (setOnce invocation.logFormat? (LogFormat.ofName? value)).map
      ({ invocation with logFormat? := · })
  else if name = "log-file" then
    (setOnce invocation.logFile? (fileName? value)).map ({ invocation with logFile? := · })
  else none

def optionNames : List String :=
  ["format", "config", "log-level", "log-lexer", "log-parser", "log-format", "log-file"]

/-- The outcome of a switch: the request that it answers at once, or the invocation with it set. -/
def switch (name : String) (invocation : Invocation) : Except Request Invocation :=
  if name = "help" then .error .help
  else if name = "version" then .error .version
  else if name = "tokens" && !invocation.tokens then .ok { invocation with tokens := true }
  else if name = "ast" && !invocation.tree then .ok { invocation with tree := true }
  else if name = "verbose" && !invocation.verbose then .ok { invocation with verbose := true }
  else .error .misuse

def letterSwitch? (letter : Char) : Option String :=
  if letter = 'v' then some "verbose"
  else if letter = 'V' then some "version"
  else if letter = 'h' then some "help"
  else none

def switches : List Char → Invocation → Except Request Invocation
  | [], invocation => .ok invocation
  | letter :: more, invocation =>
      match letterSwitch? letter with
      | some name => do switches more (← switch name invocation)
      | none => .error .misuse

/-! ## Arguments -/

/-- A long argument: its name and the value behind an equals sign. -/
def splitLong (body : List Char) : String × Option String :=
  match body.dropWhile (· != '=') with
  | [] => (String.ofList body, none)
  | _ :: value => (String.ofList (body.takeWhile (· != '=')), some (String.ofList value))

def positional (value : String) (invocation : Invocation) : Except Request Invocation :=
  match setOnce invocation.file? (fileName? value) with
  | some file? => .ok { invocation with file? }
  | none => .error .misuse

def option (name value : String) (invocation : Invocation) : Except Request Invocation :=
  match setOption? name value invocation with
  | some invocation => .ok invocation
  | none => .error .misuse

def onlyFiles (arguments : List String) (invocation : Invocation) : Except Request Invocation :=
  arguments.foldlM (fun invocation argument => positional argument invocation) invocation

inductive Argument where
  | lone
  | long (name : String) (value? : Option String)
  | letters (letters : List Char)
  | plain (value : String)

def Argument.ofText (text : String) : Argument :=
  match text.toList with
  | ['-', '-'] => .lone
  | '-' :: '-' :: body =>
      let split := splitLong body
      .long split.1 split.2
  | '-' :: letter :: more => .letters (letter :: more)
  | _ => .plain text

/-- Reads arguments from left to right; `pending?` is an option that still wants its value. -/
def readArguments :
    List String → (pending? : Option String) → Invocation → Except Request Invocation
  | [], none, invocation => .ok invocation
  | [], some _, _ => .error .misuse
  | argument :: rest, some name, invocation =>
      match Argument.ofText argument with
      | .plain value => do readArguments rest none (← option name value invocation)
      | _ => .error .misuse
  | argument :: rest, none, invocation =>
      match Argument.ofText argument with
      | .lone => onlyFiles rest invocation
      | .long name (some value) => do readArguments rest none (← option name value invocation)
      | .long name none =>
          if optionNames.contains name then readArguments rest (some name) invocation
          else do readArguments rest none (← switch name invocation)
      | .letters letters => do readArguments rest none (← switches letters invocation)
      | .plain value => do readArguments rest none (← positional value invocation)

def Request.ofArguments (arguments : List String) : Request :=
  match readArguments arguments none .empty with
  | .error request => request
  | .ok invocation =>
      match invocation.file? with
      | some file => .run file invocation
      | none => .misuse

end Offside.Command
