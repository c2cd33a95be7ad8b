import Offside.Text.Position

/-!
# Reading a text with any line endings

A cursor is the unread part of a text together with the position of its first character.  Reading
takes one logical character: a carriage return, a line feed and the two in this order all read as
one line feed.  A cursor never moves back, and at the end of the text reading changes nothing.
-/

namespace Offside.Text

structure Cursor where
  rest : List Char
  position : Position
deriving DecidableEq

namespace Cursor

def ofText (text : String) : Cursor := ⟨text.toList, .start⟩

def read? (cursor : Cursor) : Option (Char × Cursor) :=
  match cursor.rest with
  | [] => none
  | c :: tail =>
      if c = '\r' then
        match tail with
        | '\n' :: more => some ('\n', ⟨more, cursor.position.newline 2⟩)
        | _ => some ('\n', ⟨tail, cursor.position.newline 1⟩)
      else some (c, ⟨tail, cursor.position.advance c⟩)

def current? (cursor : Cursor) : Option Char := cursor.read?.map Prod.fst

/-- The cursor behind the current character; the same cursor at the end of the text. -/
def advance (cursor : Cursor) : Cursor :=
  match cursor.read? with
  | none => cursor
  | some (_, next) => next

def peek? (cursor : Cursor) : Option Char := cursor.advance.current?

def atEnd (cursor : Cursor) : Bool := cursor.rest.isEmpty

def remaining (cursor : Cursor) : String := String.ofList cursor.rest

def isAt (cursor : Cursor) (c : Char) : Bool := cursor.current? == some c

/-! ## Progress -/

theorem read?_eq_none_iff (cursor : Cursor) : cursor.read? = none ↔ cursor.rest = [] := by
  unfold read?
  split
  · simp_all
  · split
    · split <;> simp_all
    · simp_all

theorem length_lt_of_read? {cursor next : Cursor} {c : Char} (h : cursor.read? = some (c, next)) :
    next.rest.length < cursor.rest.length := by
  unfold read? at h
  split at h
  · simp at h
  · rename_i first tail hrest
    rw [hrest]
    split at h
    · split at h <;> (injection h with h; injection h with _ h; subst h; grind)
    · injection h with h; injection h with _ h; subst h; simp

theorem advance_length_le (cursor : Cursor) :
    cursor.advance.rest.length ≤ cursor.rest.length := by
  unfold advance
  split
  · exact Nat.le_refl _
  · rename_i h
    exact Nat.le_of_lt (length_lt_of_read? h)

theorem advance_length_lt {cursor : Cursor} (h : cursor.rest ≠ []) :
    cursor.advance.rest.length < cursor.rest.length := by
  unfold advance
  split
  · rename_i hread
    exact absurd ((read?_eq_none_iff cursor).1 hread) h
  · rename_i hread
    exact length_lt_of_read? hread

theorem current?_eq_none_iff (cursor : Cursor) : cursor.current? = none ↔ cursor.rest = [] := by
  simp [current?, read?_eq_none_iff]

theorem rest_ne_nil_of_current? {cursor : Cursor} {c : Char} (h : cursor.current? = some c) :
    cursor.rest ≠ [] := by
  intro hrest
  rw [(current?_eq_none_iff cursor).2 hrest] at h
  simp at h

/-! ## Runs of characters -/

/-- The longest run of characters that satisfy `p`, and the cursor behind it. -/
def span (p : Char → Bool) (cursor : Cursor) : List Char × Cursor :=
  match _h : cursor.read? with
  | none => ([], cursor)
  | some (c, next) =>
      if p c then
        let tail := next.span p
        (c :: tail.1, tail.2)
      else ([], cursor)
termination_by cursor.rest.length
decreasing_by exact length_lt_of_read? _h

theorem span_length_le (p : Char → Bool) (cursor : Cursor) :
    (cursor.span p).2.rest.length ≤ cursor.rest.length := by
  fun_induction span p cursor with
  | case1 => exact Nat.le_refl _
  | case2 cursor c next h _ tail ih =>
    have := length_lt_of_read? h
    show (next.span p).2.rest.length ≤ _
    omega
  | case3 => exact Nat.le_refl _

theorem span_length_lt {p : Char → Bool} {cursor : Cursor} (h : (cursor.span p).1 ≠ []) :
    (cursor.span p).2.rest.length < cursor.rest.length := by
  unfold span at h ⊢
  split at h
  · simp at h
  · rename_i c next hread
    split at h
    · rename_i hp
      have hlt := length_lt_of_read? hread
      have hle := span_length_le p next
      simp only [hp, if_true]
      omega
    · simp at h

end Cursor

end Offside.Text
