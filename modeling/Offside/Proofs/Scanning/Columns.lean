import Offside.Proofs.Scanning.NextLine

/-!
# Columns and machine words

A leading space takes one column and a leading tab as many as the configuration says.  A machine word
sums them up, both at the start of a line and in the look at the line behind a joined line break.  It
holds their number if this is below two to the sixty-fourth, and then wider blanks have a greater width
and a tab is an indentation.  Any more columns make the width start again from zero.
-/

namespace Offside.Scan

open Text (Cursor isInlineBlank)

variable {tabWidth limit width : UInt64} {blanks wider line : List Char}

theorem columns_pos_of_tab (htab : '\t' ∈ blanks) (hwidth : 0 < tabWidth) :
    0 < columns tabWidth blanks := by
  have hcount := List.count_pos_iff.2 htab
  have hword : 0 < tabWidth.toNat := UInt64.lt_iff_toNat_lt.1 hwidth
  exact Nat.lt_of_lt_of_le (Nat.mul_pos hword hcount) (Nat.le_add_left _ _)

/-! ## Widths -/

theorem toNat_leadingWidth_eq_iff :
    (leadingWidth tabWidth blanks).toNat = columns tabWidth blanks ↔
      columns tabWidth blanks < 2 ^ 64 := by
  rw [toNat_leadingWidth, Nat.mod_eq_iff_lt (by decide)]

theorem leadingWidth_le_of_sublist (h : blanks.Sublist wider)
    (hfits : columns tabWidth wider < 2 ^ 64) :
    leadingWidth tabWidth blanks ≤ leadingWidth tabWidth wider := by
  have hle := columns_le_of_sublist tabWidth h
  rw [UInt64.le_iff_toNat_le, toNat_leadingWidth_eq_iff.2 hfits,
    toNat_leadingWidth_eq_iff.2 (Nat.lt_of_le_of_lt hle hfits)]
  exact hle

theorem leadingWidth_ne_zero_of_tab (htab : '\t' ∈ blanks) (hwidth : 0 < tabWidth)
    (hfits : columns tabWidth blanks < 2 ^ 64) : leadingWidth tabWidth blanks ≠ 0 := by
  intro hzero
  have hcolumns := toNat_leadingWidth_eq_iff.2 hfits
  rw [hzero] at hcolumns
  exact Nat.ne_of_lt (columns_pos_of_tab htab hwidth) hcolumns

/-! ## Lines -/

namespace Scanner

variable {scanner : Scanner} {context : Context}

/-- The scanner is outside of brackets, at the start of a line that is not blank. -/
structure AtContent (scanner : Scanner) : Prop where
  mode : scanner.mode = .indent
  column : scanner.position.column = 1
  brackets : scanner.context.inBrackets = false
  content : ∃ c next, (scanner.context.cursor.span isInlineBlank).2.read? = some (c, next) ∧
    c ≠ '\n'

theorem AtContent.step (h : scanner.AtContent) :
    scanner.step = scanner.compareWidth
      (leadingWidth scanner.tabWidth (scanner.context.cursor.span isInlineBlank).1)
      { scanner.context with cursor := (scanner.context.cursor.span isInlineBlank).2 } := by
  obtain ⟨c, next, hread, hc⟩ := h.content
  have hend : scanner.context.cursor.atEnd = false := by
    have hle := Cursor.span_length_le isInlineBlank scanner.context.cursor
    have hlt := Cursor.length_lt_of_read? hread
    rw [Cursor.atEnd, List.isEmpty_eq_false_iff, ← List.length_pos_iff]
    omega
  exact step_of_content h.mode hend h.brackets h.column hread hc

/-- The scanner takes the line in front of it for one inside of a block. -/
structure Indented (scanner : Scanner) : Prop where
  dedent : scanner.mode ≠ .dedent 0
  dispatch : scanner.mode = .dispatch → scanner.context.indent ≠ 0

theorem compareWidth_indented (hwidth : width ≠ 0) (hmode : scanner.mode = .indent) :
    (scanner.compareWidth width context).2.Indented := by
  unfold compareWidth
  simp only
  split
  · rename_i hlevel
    exact ⟨by simp [goTo], fun _ => hlevel ▸ hwidth⟩
  · split
    · rename_i hdeeper
      refine ⟨by simp [emit], fun _ => ?_⟩
      have hpush : (context.pushIndent width).indent = width := by
        unfold Context.pushIndent Context.acceptsIndent
        rw [decide_eq_true hdeeper, Bool.or_true, if_pos rfl]
        rfl
      exact hpush.symm ▸ hwidth
    · split
      · exact ⟨by simpa [goTo] using hwidth, by simp [goTo]⟩
      · exact ⟨by simp [hmode], by simp [hmode]⟩

end Scanner

/-- Wherever a scanner stands at the start of a line, the width that it compares with the open levels is
the word that sums up the leading blanks, and so is the width that the look at a line compares with its
limit.  This word is the number of columns exactly if that is below two to the sixty-fourth.  Then no
blanks that are added make a line narrower, and a tab with a width always puts a line inside of a block. -/
theorem widths_of_columns (tabWidth : UInt64) :
    (∀ blanks, (leadingWidth tabWidth blanks).toNat = columns tabWidth blanks ↔
        columns tabWidth blanks < 2 ^ 64) ∧
      (∀ scanner : Scanner, scanner.AtContent → scanner.tabWidth = tabWidth →
        let margin := scanner.context.cursor.span isInlineBlank
        scanner.step = scanner.compareWidth (leadingWidth tabWidth margin.1)
            { scanner.context with cursor := margin.2 } ∧
          (columns tabWidth margin.1 < 2 ^ 64 → 0 < tabWidth → '\t' ∈ margin.1 →
            scanner.step.2.Indented)) ∧
      (∀ limit line, startsStatement tabWidth limit line = true ↔
        leadingWidth tabWidth (line.takeWhile isInlineBlank) ≤ limit ∧ StartsWithKeyword line) ∧
      ∀ blanks wider : List Char, blanks.Sublist wider → columns tabWidth wider < 2 ^ 64 →
        leadingWidth tabWidth blanks ≤ leadingWidth tabWidth wider := by
  refine ⟨fun blanks => toNat_leadingWidth_eq_iff, ?_, fun limit line => ?_,
    fun blanks wider => leadingWidth_le_of_sublist⟩
  · rintro scanner hcontent rfl margin
    refine ⟨hcontent.step, fun hfits hwidth htab => ?_⟩
    rw [hcontent.step]
    exact Scanner.compareWidth_indented (leadingWidth_ne_zero_of_tab htab hwidth hfits) hcontent.mode
  · rw [startsStatement_eq_true, mem_statementWords]
    rfl

/-- A line behind a tab and a space, and a look at a line behind a tab. -/
theorem widths_of_columns_tab :
    let scanner := (repeatedly Scanner.next 3 (.ofText "x\n\t y\n" 4)).2
    scanner.AtContent ∧ columns 4 ['\t', ' '] < 2 ^ 64 ∧ (leadingWidth 4 ['\t', ' ']).toNat = 5 ∧
      scanner.step.2.Indented ∧ startsStatement 4 4 "\tif x".toList = true ∧
        leadingWidth 4 ['\t'] ≤ leadingWidth 4 ['\t', ' '] := by
  intro scanner
  obtain ⟨hwidths, hlines, hlook, hwider⟩ := widths_of_columns 4
  have hcontent : scanner.AtContent :=
    ⟨by decide +kernel, by decide +kernel, by decide +kernel, 'y', ⟨['\n'], ⟨2, 4, 5⟩⟩,
      by decide +kernel, by decide⟩
  have hfits : columns 4 ['\t', ' '] < 2 ^ 64 := by decide
  have hmargin : (scanner.context.cursor.span isInlineBlank).1 = ['\t', ' '] := by decide +kernel
  refine ⟨hcontent, hfits, (hwidths _).2 hfits, ?_, (hlook 4 _).2 ?_, hwider _ _ (by decide) hfits⟩
  · refine (hlines scanner hcontent (by decide +kernel)).2 ?_ (by decide) ?_
    · rw [hmargin]
      exact hfits
    · rw [hmargin]
      exact List.mem_cons_self
  · exact ⟨by decide, by unfold StartsWithKeyword; decide +kernel⟩

/-- Where a tab has half of all widths, a second one takes the line back to the margin. -/
theorem not_widths_of_columns_twoTabs :
    ¬ ((leadingWidth 9223372036854775808 ['\t', '\t']).toNat =
        columns 9223372036854775808 ['\t', '\t']) ∧
      leadingWidth 9223372036854775808 ['\t', '\t'] < leadingWidth 9223372036854775808 ['\t'] ∧
      (Scanner.ofText "x\n\t\ty\n" 9223372036854775808).tokens.map (·.map (·.kind)) =
        .ok [.indent, .identifier, .newline, .identifier, .newline, .dedent, .eof] := by
  decide +kernel

end Offside.Scan
