import Offside.Settings.Basic
import Offside.Settings.Skip

/-!
# Reading settings

A record is given by the names of its fields, as a JSON object in which every field may be missing
and unknown ones are skipped, or by position, as a list that may end early.
-/

namespace Offside.Settings.Reader

/-! ## Values -/

/-- Refuses a value of the wrong type, once it is known to be well formed.  A list or an object is
refused at its bracket. -/
def wrongType {α : Type} : Reader α := do
  let c ← peek
  if c = 'n' then letters nullWord; throw .unacceptable
  else if c = 't' then letters trueWord; throw .unacceptable
  else if c = 'f' then letters falseWord; throw .unacceptable
  else if c = '-' || c.isDigit then
    let _ ← number
    throw .unacceptable
  else if c = '"' then
    let _ ← string true
    throw .unacceptable
  else if c = '[' || c = '\x7b' then throw .unacceptable
  else throw .malformed

def boolean : Reader Bool := do
  let c ← peek
  if c = 't' then letters trueWord; return true
  else if c = 'f' then letters falseWord; return false
  else wrongType

def natural : Reader UInt64 := do
  let c ← peek
  if c = '-' || c.isDigit then
    match (← number).natural? with
    | some value => return value
    | none => throw .unacceptable
  else wrongType

def null : Reader Unit := do
  if (← peek) = 'n' then letters nullWord else wrongType

def levelName : Reader Log.Level := do
  match Log.Level.ofName? (← string true) with
  | some level => return level
  | none => throw .unacceptable

/-- A level by its name, or as the name of an object's only field, which is `null`.  There a name
has to be a string, as in every object. -/
def level : Reader Log.Level := do
  let c ← peek
  if c = '"' then levelName
  else if c = '\x7b' then
    drop
    if (← peek) != '"' then throw .malformed
    let level ← levelName
    mark ':'
    null
    mark '\x7d'
    return level
  else throw .malformed

def level? : Reader (Option Log.Level) := do
  if (← peek) = 'n' then
    letters nullWord
    return none
  else return some (← level)

/-! ## Records -/

/-- A field of a record, by the way in which its value changes the record. -/
structure Field (α : Type) where
  name : String
  read : α → Reader α

section

variable {α : Type}

/-- The members of an object from the next one on; `seen` are the known fields read before. -/
def members (fields : List (Field α)) : Nat → Bool → List String → α → Reader α
  | 0, _, _, _ => throw .unfinished
  | fuel + 1, isFirst, seen, record => do
      if (← peek) = '\x7d' then
        drop
        return record
      else
        if !isFirst then mark ','
        if (← peek) != '"' then throw .malformed
        let name ← string true
        match fields.find? fun field => field.name == name with
        | some field =>
            if seen.contains name then throw .unacceptable
            mark ':'
            members fields fuel false (name :: seen) (← field.read record)
        | none =>
            mark ':'
            skip
            members fields fuel false seen record

def entries : List (Field α) → Bool → α → Reader α
  | [], _, record => do
      mark ']'
      return record
  | field :: later, isFirst, record => do
      if (← peek) = ']' then
        drop
        return record
      else
        if !isFirst then mark ','
        if (← peek) = ']' then throw .malformed
        entries later false (← field.read record)

/-- A record in either form; `record` has the values of missing fields. -/
def structured (fields : List (Field α)) (record : α) : Reader α := do
  let c ← peek
  if c = '\x7b' then
    drop
    members fields ((← get).length + 1) true [] record
  else if c = '[' then
    drop
    entries fields true record
  else wrongType

end

/-! ## Settings -/

def lexerFields : List (Field RunConfig) :=
  [⟨"tab_width", fun config => return { config with tabWidth := ← natural }⟩]

def parserFields : List (Field Parse.Config) :=
  [⟨"recover", fun config => return { config with recover := ← boolean }⟩,
    ⟨"max_errors", fun config => return { config with maxErrors := (← natural).toNat }⟩,
    ⟨"max_depth", fun config => return { config with maxDepth := (← natural).toNat }⟩]

def logFields : List (Field Log.Preferences) :=
  [⟨"level", fun log => return { log with level? := ← level? }⟩,
    ⟨"lexer", fun log => return { log with lexer? := ← level? }⟩,
    ⟨"parser", fun log => return { log with parser? := ← level? }⟩]

def settingsFields : List (Field Settings) :=
  [⟨"lexer", fun settings => do
      let run ← structured lexerFields settings.run
      return { settings with run }⟩,
    ⟨"parser", fun settings => do
      let parser ← structured parserFields settings.run.parser
      return { settings with run := { settings.run with parser } }⟩,
    ⟨"logging", fun settings => do
      let log ← structured logFields settings.log
      return { settings with log }⟩]

def document : Reader Settings := do
  let settings ← structured settingsFields .default
  match ← peek? with
  | none => return settings
  | some _ => throw .malformed

end Reader

def parse (text : String) : Except Refusal Settings :=
  (Reader.document.run text.toList).map Prod.fst

end Offside.Settings
