import Offside.Proofs.Scanning.Layout
import Offside.Proofs.Scanning.Levels
import Offside.Proofs.Scanning.Shape

/-!
# Lines of one name each

What a scanner gives for lines that consist of a margin and a name: at the start of each line its stack
of open widths is the one of the offside rule, a line that does not fit is refused, and any other one
opens or closes as many blocks as there are levels more or less.
-/

namespace Offside

namespace Text.Cursor

theorem Reaches.line {cursor after : Cursor} (h : cursor.Reaches after) (hreturn : '\r' ∉ cursor.rest) :
    after.position.line + after.rest.count '\n' = cursor.position.line + cursor.rest.count '\n' := by
  induction h with
  | refl => rfl
  | @read cursor next after c hread _ ih =>
      have hnext : '\r' ∉ next.rest ∧
          next.position.line + next.rest.count '\n' =
            cursor.position.line + cursor.rest.count '\n' := by
        unfold read? Position.advance Position.newline at hread
        grind
      rw [ih hnext.1, hnext.2]

end Text.Cursor

namespace Scan

open Text (Cursor)

/-! ## Lines -/

structure NameLine where
  margin : List Char
  name : String
  margin_blank : ∀ c ∈ margin, c = ' ' ∨ c = '\t'
  word : Word name

namespace NameLine

variable (line : NameLine)

def chars : List Char := line.margin ++ (line.name.toList ++ ['\n'])

def text : String := String.ofList line.chars

def width (tabWidth : UInt64) : Nat :=
  line.margin.count ' ' + tabWidth.toNat * line.margin.count '\t'

/-- The tokens of a line, apart from those that open and close blocks. -/
def tokens : List Token := [.identifier line.name .start, .plain .newline .start]

theorem solid_of_mem_name : ∀ c ∈ line.name.toList, Cursor.isSolid c = true :=
  fun c hc => Cursor.isSolid_of_isWordChar (line.word.chars c hc)

theorem isBlank_of_margin :
    ∀ c ∈ line.margin, Text.isInlineBlank c = true ∧ Cursor.isSolid c = true := by
  intro c hc
  rcases line.margin_blank c hc with rfl | rfl <;> decide

theorem count_lineFeed : (line.name.toList ++ ['\n']).count '\n' = 1 := by
  have hname : line.name.toList.count '\n' = 0 := by
    rw [List.count_eq_zero]
    intro hmem
    have hsolid := line.solid_of_mem_name '\n' hmem
    contradiction
  simp [hname]

theorem count_lineFeed_chars : line.chars.count '\n' = 1 := by
  have hmargin : line.margin.count '\n' = 0 := by
    rw [List.count_eq_zero]
    intro hmem
    have hsolid := (line.isBlank_of_margin '\n' hmem).2
    contradiction
  rw [chars, List.count_append, hmargin, line.count_lineFeed]

theorem not_mem_chars : '\r' ∉ line.chars := by
  rw [chars, List.mem_append, List.mem_append]
  rintro (hmem | hmem | hmem)
  · have hsolid := (line.isBlank_of_margin '\r' hmem).2
    contradiction
  · have hsolid := line.solid_of_mem_name '\r' hmem
    contradiction
  · simp at hmem

end NameLine

def NameLine.source (lines : List NameLine) : List Char := lines.flatMap NameLine.chars

theorem NameLine.toList_join (lines : List NameLine) :
    (String.join (lines.map NameLine.text)).toList = NameLine.source lines := by
  simp [NameLine.source, NameLine.text, List.flatMap, Function.comp_def]

theorem NameLine.toList_join_cons (before : List NameLine) (line : NameLine)
    (behind : List NameLine) :
    (String.join ((before ++ line :: behind).map NameLine.text)).toList =
      NameLine.source before ++ (line.chars ++ NameLine.source behind) := by
  rw [NameLine.toList_join]
  simp [NameLine.source]

theorem NameLine.count_source (lines : List NameLine) :
    (NameLine.source lines).count '\n' = lines.length := by
  induction lines with
  | nil => rfl
  | cons line lines ih =>
      rw [NameLine.source, List.flatMap_cons, List.count_append, line.count_lineFeed_chars]
      rw [NameLine.source] at ih
      rw [ih, List.length_cons, Nat.add_comm]

/-! ## Closing blocks -/

def closingTokens (count : Nat) : List Token :=
  List.replicate count (.plain .dedent .start) ++ [.plain .dedent .start, .plain .eof .start]

theorem scans_closeFile {inner : List UInt64} (hinner : ∀ level ∈ inner, 0 < level) :
    Scans (AtClose (inner ++ [0])) (closingTokens inner.length)
      fun scanner => scanner.outcomes = [] :=
  Scans.silent scans_end ((scans_descend hinner).trans scans_closed)

end Scan

end Offside
