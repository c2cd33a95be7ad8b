import Offside.Number.Style

/-!
# JSON values

Values and two ways to write them: on one line with the fields in their order, and over several
lines with the fields sorted by name.  Numbers without a finite value are written as `null`.
-/

namespace Offside.Document

inductive Json where
  | null
  | boolean (value : Bool)
  | integer (value : Int)
  | float (value : Number.Binary64)
  | string (text : String)
  | list (items : List Json)
  | object (fields : List (String × Json))

namespace Json

def natural (value : Nat) : Json := .integer value

def ofOption {α : Type} (encode : α → Json) : Option α → Json
  | some value => encode value
  | none => null

/-! ## Strings -/

def hexDigits (width n : Nat) : List Char :=
  let digits := Nat.toDigits 16 n
  List.replicate (width - digits.length) '0' ++ digits

/-- One character of a string; only controls, the quotation mark and the backslash are escaped. -/
def escapeChar (c : Char) : List Char :=
  if c = '"' then ['\\', '"']
  else if c = '\\' then ['\\', '\\']
  else if c = '\x08' then ['\\', 'b']
  else if c = '\t' then ['\\', 't']
  else if c = '\n' then ['\\', 'n']
  else if c = '\x0c' then ['\\', 'f']
  else if c = '\r' then ['\\', 'r']
  else if c.toNat < 0x20 then '\\' :: 'u' :: hexDigits 4 c.toNat
  else [c]

def writeString (text : String) : String :=
  String.ofList ('"' :: text.toList.flatMap escapeChar ++ ['"'])

def writeFloat (value : Number.Binary64) : String :=
  if value.isFinite then Number.Style.document.write value else "null"

/-! ## On one line -/

mutual

def compact : Json → String
  | .null => "null"
  | .boolean value => if value then "true" else "false"
  | .integer value => toString value
  | .float value => writeFloat value
  | .string text => writeString text
  | .list items => "[" ++ ",".intercalate (compactItems items) ++ "]"
  | .object fields => "\x7b" ++ ",".intercalate (compactFields fields) ++ "\x7d"

def compactItems : List Json → List String
  | [] => []
  | item :: rest => compact item :: compactItems rest

def compactFields : List (String × Json) → List String
  | [] => []
  | (name, value) :: rest => (writeString name ++ ":" ++ compact value) :: compactFields rest

end

/-! ## Over several lines -/

def margin (depth : Nat) : String := String.ofList (List.replicate (2 * depth) ' ')

def enclose (opener closer : String) (depth : Nat) (entries : List String) : String :=
  if entries.isEmpty then opener ++ closer
  else
    opener ++ "\n" ++ ",\n".intercalate (entries.map (margin (depth + 1) ++ ·)) ++ "\n" ++
      margin depth ++ closer

def sortFields (fields : List (String × String)) : List (String × String) :=
  fields.mergeSort fun first second => decide (first.1 ≤ second.1)

mutual

def pretty (depth : Nat) : Json → String
  | .null => "null"
  | .boolean value => if value then "true" else "false"
  | .integer value => toString value
  | .float value => writeFloat value
  | .string text => writeString text
  | .list items => enclose "[" "]" depth (prettyItems (depth + 1) items)
  | .object fields =>
      enclose "\x7b" "\x7d" depth
        ((sortFields (prettyFields (depth + 1) fields)).map fun field =>
          writeString field.1 ++ ": " ++ field.2)

def prettyItems (depth : Nat) : List Json → List String
  | [] => []
  | item :: rest => pretty depth item :: prettyItems depth rest

def prettyFields (depth : Nat) : List (String × Json) → List (String × String)
  | [] => []
  | (name, value) :: rest => (name, pretty depth value) :: prettyFields depth rest

end

end Json

end Offside.Document
