import Offside.Command.Arguments
import Offside.Command.Directory
import Offside.Command.Snippet
import Offside.Document.Encode
import Offside.Log.Narration
import Offside.Settings.Reader

/-!
# Running a command

A command reads a source, shows its tokens and its tree where they are asked for, and reports what
is wrong with it.  Results go to the output; the log and problems go to the error output, unless
problems are part of a document.
-/

namespace Offside.Command

open Document (Json)

structure Output where
  exitCode : Nat
  out : String
  err : String
deriving DecidableEq

/-! ## Reports -/

def reportText (source : String) (report : Report) : String :=
  "❌ " ++ report.display ++ "\n" ++
    match report.line?, report.column? with
    | some line, some column => Snippet.render source line column
    | _, _ => ""

/-- The document of a run on the output, with the log on the error output. -/
def documentOutput (log : String) (exitCode : Nat) (document : Json) : Output :=
  ⟨exitCode, document.pretty 0 ++ "\n", log⟩

def stoppedOutput (format : Format) (log source : String) (failure : Failure) : Output :=
  match format with
  | .json => documentOutput log 1 (Document.run none none [failure.report] true)
  | .text => ⟨1, "", log ++ reportText source failure.report⟩

def summary (count : Nat) (file : String) : String :=
  if count = 0 then "" else toString count ++ " error(s) in " ++ file ++ "\n"

def finishedOutput (file : String) (invocation : Invocation) (log source : String)
    (tokens? : Option (List Token)) (parsed : Parse.Parsed) : Output :=
  let exitCode := if parsed.isClean then 0 else 1
  let reports := parsed.reports
  match invocation.format with
  | .json =>
      documentOutput log exitCode
        (Document.run tokens? (if invocation.tree then some parsed.block else none) reports false)
  | .text =>
      ⟨exitCode,
        (tokens?.map Token.listing).getD "" ++
          (if invocation.tree then Block.render parsed.block else ""),
        log ++ String.join (reports.map (reportText source)) ++ summary reports.length file⟩

/-! ## Analysis -/

structure Analysis where
  entries : List Log.Entry
  /-- The tokens, where they are asked for, and the program. -/
  result : Except Failure (Option (List Token) × Parse.Parsed)

/-- Reads the tokens, where they are asked for, and then the program. -/
def analyze (bytes : List UInt8) (config : RunConfig) (withTokens : Bool) : Analysis :=
  match decodeSource bytes with
  | .error failure => ⟨[], .error failure⟩
  | .ok text =>
      let parseEntries := Log.parseEntries text config
      if withTokens then
        let entries := Log.tokenizeEntries text config
        match tokenize text config with
        | .error failure => ⟨entries, .error failure⟩
        | .ok tokens => ⟨entries ++ parseEntries, (parse text config).map (some tokens, ·)⟩
      else ⟨parseEntries, (parse text config).map (none, ·)⟩

def configuredEntry (file : String) (config : RunConfig) : Log.Entry :=
  Log.generalEntry .debug "CLI configured" [("config", config.describe), ("file", file)]

/-- The lines of the log; only the compact form has no times in it and is written. -/
def writeLog (invocation : Invocation) (thresholds : Log.Thresholds) (entries : List Log.Entry) :
    String :=
  if invocation.logFormat = .compact then thresholds.write entries else ""

def sourceOutput (file : String) (invocation : Invocation) (config : RunConfig)
    (thresholds : Log.Thresholds) (bytes : List UInt8) : Output :=
  let analysis := analyze bytes config invocation.tokens
  let log := writeLog invocation thresholds (configuredEntry file config :: analysis.entries)
  let source := String.ofList (Text.Utf8.decodeLossy bytes)
  match analysis.result with
  | .error failure => stoppedOutput invocation.format log source failure
  | .ok (tokens?, parsed) => finishedOutput file invocation log source tokens? parsed

/-! ## Files -/

structure FileAccess (m : Type → Type) where
  read : String → m (Except String (List UInt8))
  /-- Opens a file for appending. -/
  openFile : String → m (Except String Unit)

def Directory.access : FileAccess (StateM Directory) where
  read path := fun directory =>
    ((directory.read path).mapError FileError.message, directory)
  openFile path := fun directory =>
    let result := directory.openFile path
    (result.1.mapError FileError.message, result.2)

def refusal (log reason : String) : Output := ⟨1, "", log ++ "Error: " ++ reason ++ "\n"⟩

def unreadableSettings (path reason : String) : Output :=
  refusal "" ("无法读取 '" ++ path ++ "': " ++ reason)

/-- Settings that are refused are reported without the place of the problem. -/
def refusedSettings (path : String) : Output := ⟨1, "", "Error: 解析 '" ++ path ++ "' 失败: "⟩

def settingsOfBytes (path : String) (bytes : List UInt8) : Except Output Settings :=
  match Text.Utf8.decode bytes with
  | .error _ => .error (unreadableSettings path "stream did not contain valid UTF-8")
  | .ok text => (Settings.parse (String.ofList text)).mapError fun _ => refusedSettings path

section

variable {m : Type → Type} [Monad m]

def readSettings (files : FileAccess m) : Option String → ExceptT Output m Settings
  | none => return .default
  | some path => do
      match ← files.read path with
      | .ok bytes => ExceptT.mk (pure (settingsOfBytes path bytes))
      | .error reason => throw (unreadableSettings path reason)

def openLog (files : FileAccess m) : Option String → ExceptT Output m Unit
  | none => return
  | some path => do
      match ← files.openFile path with
      | .ok _ => return
      | .error reason => throw (refusal "" ("cannot open log file '" ++ path ++ "': " ++ reason))

def Invocation.preferences (invocation : Invocation) : Log.Preferences :=
  ⟨invocation.threshold?, invocation.lexerLevel?, invocation.parserLevel?⟩

def performFile (files : FileAccess m) (file : String) (invocation : Invocation) :
    ExceptT Output m Output := do
  let settings ← readSettings files invocation.settings?
  let thresholds := (Log.Thresholds.ofPreferences settings.log).override invocation.preferences
  openLog files invocation.logFile?
  match ← files.read file with
  | .ok bytes => return sourceOutput file invocation settings.run thresholds bytes
  | .error reason =>
      let log := writeLog invocation thresholds [configuredEntry file settings.run]
      throw (refusal log ("Cannot read '" ++ file ++ "': " ++ reason))

def usage : String := "Usage: sable [OPTIONS] <FILE>\n"

/-- Does what a command line asks for.  An unusable one is answered by its exit code alone. -/
def perform (files : FileAccess m) (arguments : List String) : m Output := do
  match Request.ofArguments arguments with
  | .version => return ⟨0, "sable 0.1.0\n", ""⟩
  | .help => return ⟨0, usage, ""⟩
  | .misuse => return ⟨2, "", ""⟩
  | .run file invocation =>
      match ← (performFile files file invocation).run with
      | .ok output => return output
      | .error output => return output

end

def runIn (directory : Directory) (arguments : List String) : Output :=
  ((perform Directory.access arguments).run directory).1

end Offside.Command
