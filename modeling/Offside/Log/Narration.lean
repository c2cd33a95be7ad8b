import Offside.FrontEnd
import Offside.Log.Entry

/-!
# What the front end tells of its work

The log of a run is told after the run, from the steps of its scanner and from the journal of its
parser.  Where the journal says that a token was asked for, the steps of that request are told.
-/

namespace Offside.Log

open Scan (Emission Lexer Mode Scanner)
open Text (quoted quotedChar)

/-! ## Values -/

def modeText : Mode → String
  | .fileStart => "FileStart"
  | .indent => "Indent"
  | .dispatch => "Dispatch"
  | .dedent target => "Dedent \x7b target: " ++ toString target.toNat ++ " \x7d"
  | .fileEnd => "FileEnd"
  | .eof => "Eof"
  | .done => "Done"

def applied (name value : String) : String := name ++ "(" ++ value ++ ")"

def faultText (fault : Fault) : String :=
  match fault with
  | .strayBang | .newlineInString | .unterminatedString => fault.name
  | .unexpectedCharacter c | .unmatchedCloser c | .unclosedBracket c | .invalidEscape c =>
      applied fault.name (quotedChar c)
  | .invalidNumber text | .integerOverflow text => applied fault.name (quoted text)
  | .mismatchedBracket expected found =>
      fault.name ++ " \x7b expected: " ++ quotedChar expected ++ ", found: " ++ quotedChar found ++
        " \x7d"

def payloadText : Payload → String
  | .integer value => applied "Integer" (toString value)
  | .float value => applied "Float" (Number.Style.listing.write value)
  | .string content => applied "String" (quoted content)
  | .identifier name => applied "Identifier" (quoted name)
  | .error fault => applied "Error" (faultText fault)

def payloadText? : Option Payload → String
  | some payload => applied "Some" (payloadText payload)
  | none => "None"

def numberField (name : String) (value : Nat) : String × String := (name, toString value)

/-! ## The lexer -/

def lexerEntry (level : Level) (message : String) (fields : List (String × String)) : Entry :=
  ⟨level, .lexer, message, fields⟩

def transition (source target : String) : Entry :=
  lexerEntry .trace "State transition" [("from", source), ("to", target)]

/-- The name of the state in which a token that is more than a symbol is read. -/
def readingState? (token : Token) : Option String :=
  match token.kind, token.fault? with
  | .integer, _ | .float, _ => some "Number"
  | .string, _ => some "String"
  | .identifier, _ => some "Word"
  | _, some (.invalidNumber _) | _, some (.integerOverflow _) => some "Number"
  | _, some (.invalidEscape _) | _, some .newlineInString | _, some .unterminatedString =>
      some "String"
  | kind, _ => if kind.isKeyword then some "Word" else none

def readingEntries (token : Token) : List Entry :=
  match token.fault? with
  | some (.invalidNumber text) => [lexerEntry .debug "Invalid number literal" [("lexeme", text)]]
  | _ =>
      if token.kind.isKeyword then
        [lexerEntry .trace "Matched keyword" [("keyword", token.kind.lexeme?.getD "")]]
      else []

def abandonedEntry (opener : Char) (line : Nat) : Entry :=
  lexerEntry .debug "Unclosed bracket before new statement"
    [numberField "line" line, ("opener", opener.toString)]

def emissionEntries (mode : Mode) (token : Token) (after : Scanner) : List Entry :=
  match mode, readingState? token, token.fault? with
  | .dispatch, some reading, _ =>
      transition (modeText mode) reading :: readingEntries token ++
        [transition reading (modeText after.mode)]
  | .dispatch, none, some (.unclosedBracket opener) => [abandonedEntry opener token.position.line]
  | _, _, _ =>
      (if mode = .indent && token.kind = .indent then
          [lexerEntry .trace "Indent" [numberField "width" after.context.indent.toNat]]
        else []) ++
        (if mode = after.mode then [] else [transition (modeText mode) (modeText after.mode)])

def stepEntries (before : Scanner) (emission : Emission) (after : Scanner) : List Entry :=
  match emission with
  | .failure failure => [lexerEntry .debug "Fatal lexer error" [("error", failure.display)]]
  | .silent =>
      if before.mode = after.mode then []
      else [transition (modeText before.mode) (modeText after.mode)]
  | .token token => emissionEntries before.mode token after

/-- The entries for a token that a lexer has given as its `produced`-th one. -/
def producedEntries (token : Token) (produced : Nat) : List Entry :=
  lexerEntry .trace "Produced token"
      [("kind", token.kind.name), ("value", payloadText? token.payload?),
        numberField "line" token.position.line, numberField "column" token.position.column] ::
    if token.kind = .eof then
      [lexerEntry .debug "Reached EOF" [numberField "tokens" produced]]
    else []

def requestEntries (lexer : Lexer) : List Entry :=
  lexer.scanner.stepsOfNext.flatMap (fun step => stepEntries step.1 step.2.1 step.2.2) ++
    match lexer.next with
    | (.ok token, after) => producedEntries token after.produced
    | (.error _, _) => []

def openingEntry (config : RunConfig) : Entry :=
  lexerEntry .trace "Creating new Scanner" [numberField "tab_width" config.tabWidth.toNat]

/-! ## The parser -/

def parserEntry (level : Level) (message : String) (fields : List (String × String)) : Entry :=
  ⟨level, .parser, message, fields⟩

/-- The entry for an event of a parser, if it is not a request to the lexer. -/
def eventEntry? : Parse.Event → Option Entry
  | .pulled => none
  | .began kind line =>
      some (parserEntry .trace "Parsing statement"
        [("kind", kind.name), numberField "line" line])
  | .recorded error =>
      some (parserEntry .debug "Recorded parse error" [("error", error.display)])
  | .resynchronized position kind =>
      some (parserEntry .debug "Resynchronized"
        [numberField "line" position.line, numberField "column" position.column,
          ("resume_at", kind.name)])
  | .startMissing error =>
      some (parserEntry .debug "Could not find start of input" [("error", error.display)])
  | .finished statements errors =>
      some (parserEntry .debug "Parse finished"
        [numberField "statements" statements, numberField "errors" errors])

/-- The entries for the events of a parser that pulls its tokens from a lexer. -/
def journalEntries : List Parse.Event → Lexer → List Entry
  | [], _ => []
  | event :: later, lexer =>
      match eventEntry? event with
      | some entry => entry :: journalEntries later lexer
      | none => requestEntries lexer ++ journalEntries later lexer.next.2

/-! ## Runs -/

def generalEntry (level : Level) (message : String) (fields : List (String × String)) : Entry :=
  ⟨level, .general, message, fields⟩

/-- The entries for at most `count` requests to a lexer that has not finished. -/
def iterationEntries : Nat → Lexer → List Entry
  | 0, _ => []
  | count + 1, lexer =>
      if lexer.finished then [] else requestEntries lexer ++ iterationEntries count lexer.next.2

def tokenizeEntries (text : String) (config : RunConfig) : List Entry :=
  let lexer := Lexer.ofText text config.tabWidth
  openingEntry config :: iterationEntries lexer.scanner.outcomes.length lexer ++
    match tokenize text config with
    | .ok tokens =>
        [generalEntry .debug "Tokenize completed" [numberField "count" tokens.length]]
    | .error _ => []

def parseEntries (text : String) (config : RunConfig) : List Entry :=
  let outcome := parseText text config
  openingEntry config :: generalEntry .info "Starting parse" [] ::
    journalEntries outcome.journal (.ofText text config.tabWidth) ++
    match outcome.result with
    | .ok block =>
        [generalEntry .info "Parse completed"
          [numberField "statements" block.length,
            numberField "errors" outcome.errors.length]]
    | .error _ => []

end Offside.Log
