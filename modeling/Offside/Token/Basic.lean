import Offside.Number.Style
import Offside.Text.Quoted
import Offside.Token.Fault
import Offside.Token.Kind

/-!
# Tokens

A token has a kind, a position and, for literals, names and errors, a payload.  The listing of a
token is one line: its position in two columns, its kind and its payload.
-/

namespace Offside

open Text (Position quoted)

inductive Payload where
  | integer (value : Int)
  | float (value : Number.Binary64)
  /-- The content of a string literal, without its quotation marks and with its escapes resolved. -/
  | string (content : String)
  | identifier (name : String)
  | error (fault : Fault)
deriving DecidableEq

structure Token where
  kind : TokenKind
  position : Position
  payload? : Option Payload
deriving DecidableEq

namespace Token

def plain (kind : TokenKind) (position : Position) : Token := ⟨kind, position, none⟩

def integer (value : Int) (position : Position) : Token :=
  ⟨.integer, position, some (.integer value)⟩

def float (value : Number.Binary64) (position : Position) : Token :=
  ⟨.float, position, some (.float value)⟩

def string (content : String) (position : Position) : Token :=
  ⟨.string, position, some (.string content)⟩

def identifier (name : String) (position : Position) : Token :=
  ⟨.identifier, position, some (.identifier name)⟩

def error (fault : Fault) (position : Position) : Token :=
  ⟨.error, position, some (.error fault)⟩

/-- The name or the content of a string, whatever the kind of the token. -/
def text? (token : Token) : Option String :=
  match token.payload? with
  | some (.identifier name) => some name
  | some (.string content) => some content
  | _ => none

def fault? (token : Token) : Option Fault :=
  match token.payload? with
  | some (.error fault) => some fault
  | _ => none

/-! ## Listing -/

def padLeft (width : Nat) (text : String) : String :=
  String.ofList (List.replicate (width - text.length) ' ') ++ text

def padRight (width : Nat) (text : String) : String :=
  text ++ String.ofList (List.replicate (width - text.length) ' ')

def listPayload : Payload → String
  | .integer value => " " ++ toString value
  | .float value => " " ++ Number.Style.listing.write value
  | .string content => " " ++ quoted content
  | .identifier name => " " ++ name
  | .error fault => " (" ++ fault.message ++ ")"

def display (token : Token) : String :=
  padLeft 4 (toString token.position.line) ++ ":" ++
    padRight 3 (toString token.position.column) ++ " " ++ token.kind.name ++
    (token.payload?.map listPayload).getD ""

def listing (tokens : List Token) : String :=
  String.join (tokens.map fun token => token.display ++ "\n")

end Token

end Offside
