import Offside.Text.Position

/-!
# A text read at byte offsets

A stream holds a whole text and the byte offset of its next character.  It reads one logical character
at a time, as a cursor does, but it slices the text for it, and a slice has to start where a character
starts.  At the end of the text reading changes nothing.
-/

namespace Offside.Text

/-- The text from a byte offset on, if this is where a character starts or the text ends. -/
def suffixFrom? : List Char → Nat → Option (List Char)
  | text, 0 => some text
  | [], _ + 1 => none
  | c :: text, offset + 1 =>
      if offset + 1 < c.utf8Size then none else suffixFrom? text (offset + 1 - c.utf8Size)

structure Stream where
  text : String
  /-- Where the next character starts. -/
  offset : Nat
  position : Position
deriving DecidableEq

namespace Stream

def ofText (text : String) : Stream := ⟨text, 0, .start⟩

def atEnd (stream : Stream) : Bool := decide (stream.text.utf8ByteSize ≤ stream.offset)

/-- The text from a byte offset on as it is written, empty where no character starts. -/
def textFrom (stream : Stream) (offset : Nat) : String :=
  String.ofList ((suffixFrom? stream.text.toList offset).getD [])

def newline (stream : Stream) (bytes : Nat) : Stream :=
  { stream with
    offset := stream.offset + bytes
    position := stream.position.newline bytes }

/-- The next logical character with its position, and the stream behind it; at the end of the text no
character and the same stream.  There is no result at all where a slice fails. -/
def advance? (stream : Stream) : Option (Option (Position × Char) × Stream) := do
  let rest ← suffixFrom? stream.text.toList stream.offset
  match rest with
  | [] => return (none, stream)
  | c :: _ =>
      if c = '\r' then
        let behind ← suffixFrom? rest 1
        let bytes := if behind.head? = some '\n' then 2 else 1
        return (some (stream.position, '\n'), stream.newline bytes)
      else if c = '\n' then return (some (stream.position, '\n'), stream.newline 1)
      else
        return (some (stream.position, c),
          { stream with
            offset := stream.offset + c.utf8Size
            position := stream.position.advance c })

end Stream

end Offside.Text
