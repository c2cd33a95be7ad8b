import Offside.Token.Basic

/-!
# Source snippets

A snippet shows the line of a problem between its neighbours, with a caret under its column.
-/

namespace Offside.Command.Snippet

/-! ## Lines -/

/-- The content of a line that a line feed ends: a carriage return in front of it is no content. -/
def dropReturn (line : List Char) : List Char :=
  if line.getLast? = some '\r' then line.dropLast else line

/-- The lines of a text, of which each but the last is ended by a line feed; `current` is the
present line in reverse.  An empty last line is none. -/
def linesFrom : List Char → List Char → List (List Char)
  | current, [] => if current.isEmpty then [] else [current.reverse]
  | current, c :: rest =>
      if c = '\n' then dropReturn current.reverse :: linesFrom [] rest
      else linesFrom (c :: current) rest

def lines (text : String) : List (List Char) := linesFrom [] text.toList

/-! ## Rows -/

/-- How many lines are shown before and after the line of the problem. -/
def neighbours : Nat := 2

def border (width : Nat) : String :=
  String.ofList (List.replicate (width + 1) '-') ++ "|--\n"

def row (width : Nat) (label content : String) : String :=
  Token.padLeft width label ++ " | " ++ content ++ "\n"

def caretRow (width column : Nat) : String :=
  row width "" (String.ofList (List.replicate (column - 1) ' ') ++ "^")

/-- The rows of one line, which is empty if it lies behind the text. -/
def lineRows (all : List (List Char)) (width line column number : Nat) : String :=
  row width (toString number) (String.ofList ((all[number - 1]?).getD [])) ++
    if number = line then caretRow width column else ""

/-- The snippet for a place; a place may lie in the line behind the last one, but no further. -/
def render (text : String) (line column : Nat) : String :=
  let all := lines text
  if line = 0 || all.length + 1 < line then ""
  else
    let first := max (line - neighbours) 1
    let last := max (min (line + neighbours) all.length) line
    let width := (toString last).length
    let numbers := List.range' first (last + 1 - first)
    border width ++ String.join (numbers.map (lineRows all width line column)) ++ border width

end Offside.Command.Snippet
