import Offside.Parse.Run
import Offside.Report
import Offside.Text.Utf8

/-!
# The front end

From a source, given as text or as bytes, to its tokens and to its program.  A failure of the lexer
is the same failure whether the tokens or the program were asked for; every other error that stops
a parse is a failure of the parser.
-/

namespace Offside

open Scan (Scanner TokenStream)

structure RunConfig where
  /-- The width of a tabulator in front of a line. -/
  tabWidth : UInt64
  parser : Parse.Config
deriving DecidableEq

namespace RunConfig

def default : RunConfig := ⟨4, .default⟩

def describe (config : RunConfig) : String :=
  "RunConfig \x7b tab_width: " ++ toString config.tabWidth.toNat ++
    ", recover: " ++ toString config.parser.recover ++
    ", max_errors: " ++ toString config.parser.maxErrors ++
    ", max_depth: " ++ toString config.parser.maxDepth ++ " \x7d"

end RunConfig

/-! ## Text -/

def tokenize (text : String) (config : RunConfig) : Except Failure (List Token) :=
  (Scanner.ofText text config.tabWidth).tokens.mapError .lexer

def parseText (text : String) (config : RunConfig) : Parse.Outcome :=
  Parse.parseStream (.ofText text config.tabWidth) config.parser

/-- The program of a text and the errors behind which the parser went on. -/
def parse (text : String) (config : RunConfig) : Except Failure Parse.Parsed :=
  (parseText text config).parsed.mapError .ofParser

namespace Parse.Parsed

/-- No error was recorded. -/
def isClean (parsed : Parsed) : Bool := parsed.errors.isEmpty

def reports (parsed : Parsed) : List Report := parsed.errors.map Error.report

end Parse.Parsed

/-! ## Bytes -/

def decodeSource (bytes : List UInt8) : Except Failure String :=
  match Text.Utf8.decode bytes with
  | .ok text => .ok (String.ofList text)
  | .error offset => .error (.malformedSource offset)

def tokenizeBytes (bytes : List UInt8) (config : RunConfig) : Except Failure (List Token) := do
  tokenize (← decodeSource bytes) config

def parseBytes (bytes : List UInt8) (config : RunConfig) : Except Failure Parse.Parsed := do
  parse (← decodeSource bytes) config

end Offside
