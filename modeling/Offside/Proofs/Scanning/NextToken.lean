import Offside.Proofs.Scanning.BracketLine

/-!
# The next token

A scanner that is in front of a character that is no blank reads the token of this character next,
and comes to stand behind the text of the token.
-/

namespace Offside.Scan

open Text (Cursor Position)

/-- A scanner in front of `source`, in a line or at the start of a line that opens and closes no
block: it reads a token next, unless there are blanks in front of it. -/
structure Facing (source : List Char) (scanner : Scanner) : Prop where
  rest : scanner.context.cursor.rest = source
  mode : scanner.mode = .dispatch ∨
    (scanner.mode = .indent ∧ (scanner.context.inBrackets = true ∨ scanner.position.column ≠ 1 ∨
      scanner.context.indent = 0))

/-- The scanner behind a token that is written as `text`, in front of `rest`. -/
def Scanner.past (scanner : Scanner) (text rest : List Char) : Scanner :=
  { scanner with
    context := { scanner.context with cursor := ⟨rest, scanner.position.behind text⟩ }
    mode := .indent
    lineOpen := true }

variable {scanner : Scanner} {source text more : List Char} {c : Char} {token : Token}

theorem facing_opened (text : String) (tabWidth : UInt64) :
    Facing text.toList (Scanner.opened text tabWidth) :=
  ⟨rfl, .inr ⟨rfl, .inr (.inr rfl)⟩⟩

theorem Facing.mode_ne_done (h : Facing source scanner) : scanner.mode ≠ .done := by
  rcases h.mode with hmode | ⟨hmode, -⟩ <;> simp [hmode]

theorem Scanner.step_of_flush (hmode : scanner.mode = .indent)
    (hrest : scanner.context.cursor.rest = c :: more) (hblank : Text.isBlank c = false)
    (hindent : scanner.context.indent = 0) :
    scanner.step = (.silent, { scanner with mode := .dispatch }) := by
  have hread := (Cursor.read?_cons hrest (Cursor.isSolid_of_not_isBlank hblank)).1
  have hfeed : ¬ c = '\n' := by
    rintro rfl
    contradiction
  have hspan : scanner.context.cursor.span Text.isInlineBlank = ([], scanner.context.cursor) := by
    have hinline : ¬ Text.isInlineBlank c = true := by simp [Text.isInlineBlank, hblank]
    unfold Cursor.span
    grind
  have hend : scanner.context.cursor.atEnd = false := by simp [Cursor.atEnd, hrest]
  by_cases hinside : scanner.context.inBrackets = true ∨ scanner.position.column ≠ 1
  · exact step_of_inside hmode hend hinside
  · simp only [not_or, Bool.not_eq_true, not_not] at hinside
    rw [step_of_content hmode hend hinside.1 hinside.2 (by rw [hspan]; exact hread) hfeed, hspan,
      leadingWidth_nil, compareWidth]
    rw [if_pos hindent.symm]
    rfl

theorem Facing.next_eq (h : Facing (c :: more) scanner) (hblank : Text.isBlank c = false) :
    scanner.next = ({ scanner with mode := .dispatch } : Scanner).next := by
  rcases h.mode with hmode | ⟨hmode, hinside⟩
  · rw [← hmode]
  · apply Scanner.next_of_silent h.mode_ne_done
    have hend : scanner.context.cursor.atEnd = false := by simp [Cursor.atEnd, h.rest]
    rcases hinside with hbrackets | hcolumn | hindent
    · exact Scanner.step_of_inside hmode hend (.inl hbrackets)
    · exact Scanner.step_of_inside hmode hend (.inr hcolumn)
    · exact Scanner.step_of_flush hmode h.rest hblank hindent

theorem Facing.next_past {after : Cursor} (h : Facing source scanner)
    (hfirst : source = c :: more) (hblank : Text.isBlank c = false)
    (hscan : Scanner.scanToken scanner.context c scanner.context.cursor.advance =
      (token, { scanner.context with cursor := after }))
    (hcovers : scanner.context.cursor.Covers after text)
    (hsolid : ∀ d ∈ text, Cursor.isSolid d = true) :
    scanner.next = (.ok token, scanner.past text after.rest) := by
  subst hfirst
  have hread := (Cursor.read?_cons h.rest (Cursor.isSolid_of_not_isBlank hblank)).1
  have hfeed : ¬ c = '\n' := by
    rintro rfl
    contradiction
  have hopen : Scanner.lineOpenAfter scanner.lineOpen token.kind = true := by
    have hlexical := Scanner.scanToken_lexical scanner.context c scanner.context.cursor.advance
    rw [hscan] at hlexical
    exact Scanner.lineOpenAfter_of_content hlexical.kind scanner.lineOpen
  have hstep : ({ scanner with mode := .dispatch } : Scanner).step =
      scanner.emit token .indent { scanner.context with cursor := after } := by
    show Scanner.stepDispatch _ = _
    unfold Scanner.stepDispatch
    simp only [Scanner.skipBlanks_cons h.rest hblank, Bool.false_eq_true, if_false, hread, hfeed]
    rw [hscan]
    rfl
  have hposition : scanner.position.behind text = after.position :=
    (hcovers.position hsolid).symm
  rw [h.next_eq hblank, Scanner.next_of_token (by simp) hstep, Scanner.past, hposition, hopen]

theorem column_behind (hsolid : ∀ d ∈ text, Cursor.isSolid d = true) (position : Position) :
    (position.behind text).column = position.column + text.length := by
  induction text generalizing position with
  | nil => rfl
  | cons c text ih =>
      have hc := hsolid c (by simp)
      simp only [Cursor.isSolid, Bool.and_eq_true, bne_iff_ne] at hc
      have hcolumn : (position.advance c).column = position.column + 1 := by
        rw [Position.advance, if_neg hc.2]
      have htail := ih (fun d hd => hsolid d (by simp [hd])) (position.advance c)
      show ((position.advance c).behind text).column = _
      rw [htail, hcolumn, List.length_cons, Nat.add_right_comm, Nat.add_assoc]

theorem Scanner.inLine_past {rest : List Char} (scanner : Scanner) (htext : text ≠ [])
    (hsolid : ∀ d ∈ text, Cursor.isSolid d = true) (hcolumn : scanner.position.column ≠ 0) :
    InLine rest scanner.context.openers scanner.context.indents (scanner.past text rest) := by
  have hbehind := column_behind hsolid scanner.position
  have hlength := List.length_pos_iff.2 htext
  refine ⟨rfl, rfl, rfl, ?_, .inr ⟨rfl, fun _ => ?_⟩⟩
  · show (scanner.position.behind text).column ≠ 0
    omega
  · show (scanner.position.behind text).column ≠ 1
    omega

end Offside.Scan
