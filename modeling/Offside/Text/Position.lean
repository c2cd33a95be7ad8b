/-!
# Source positions

A position counts lines and columns from one and bytes from zero.  The position of a character is
where the character starts, so a line break still belongs to the line that it ends.
-/

namespace Offside.Text

structure Position where
  line : Nat
  column : Nat
  offset : Nat
deriving DecidableEq, Inhabited

namespace Position

def start : Position := ⟨1, 1, 0⟩

def newline (position : Position) (bytes : Nat) : Position :=
  ⟨position.line + 1, 1, position.offset + bytes⟩

/-- The position behind the character `c`; a column is one code point. -/
def advance (position : Position) (c : Char) : Position :=
  if c = '\n' then position.newline 1
  else ⟨position.line, position.column + 1, position.offset + c.utf8Size⟩

def display (position : Position) : String :=
  toString position.line ++ ":" ++ toString position.column

theorem advance_offset (position : Position) (c : Char) :
    (position.advance c).offset = position.offset + c.utf8Size := by
  by_cases h : c = '\n'
  · subst h; rfl
  · simp [advance, h]

end Position

end Offside.Text
