import Offside.Text.Stream

/-!
# Two characters read ahead

A window keeps the current character of a stream and the one behind it, each with its position.  Its
stream has read both of them already, so the unread text starts at the position that is kept with the
current character.
-/

namespace Offside.Scan

open Text (Position Stream)

structure Window where
  stream : Stream
  current? : Option Char
  currentPosition : Position
  next? : Option Char
  nextPosition : Position
deriving DecidableEq

namespace Window

/-- The next character of a stream with its position, or the position of the end. -/
def pull? (stream : Stream) : Option ((Position × Option Char) × Stream) := do
  let (reading?, behind) ← stream.advance?
  match reading? with
  | some (position, c) => return ((position, some c), behind)
  | none => return ((behind.position, none), behind)

def ofStream? (stream : Stream) : Option Window := do
  let ((currentPosition, current?), stream) ← pull? stream
  let ((nextPosition, next?), stream) ← pull? stream
  return { stream, current?, currentPosition, next?, nextPosition }

def atEnd (window : Window) : Bool := window.current?.isNone

def isAt (window : Window) (c : Char) : Bool := window.current? == some c

def remaining (window : Window) : String :=
  window.stream.textFrom window.currentPosition.offset

def advance? (window : Window) : Option (Option Char × Window) := do
  let ((position, c?), stream) ← pull? window.stream
  return (window.current?,
    { stream
      current? := window.next?
      currentPosition := window.nextPosition
      next? := c?
      nextPosition := position })

def skip? (window : Window) (c : Char) : Option (Bool × Window) := do
  if window.isAt c then
    let (_, after) ← window.advance?
    return (true, after)
  else return (false, window)

end Window

end Offside.Scan
