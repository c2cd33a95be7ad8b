import Offside.Proofs.Scanning.Fork
import Offside.Proofs.Scanning.LineFeeds
import Offside.Proofs.Scanning.SameText

/-!
# A blank line between two lines

A text with a blank line more is scanned in lockstep up to that line.  Between two lines the blank
line is skipped.  Within brackets it is joined, and the look at the next line sees no statement on it:
if the line behind it starts one, the brackets are given up behind the blank line instead of in front
of it.  From there on both scanners are in front of the same text.
-/

namespace Offside.Scan

open Text (Cursor isInlineBlank)

variable {blanks second : List Char} {cursor cursor' last last' next next' : Cursor}
  {tabWidth limit : UInt64}

/-! ## Where a line begins -/

namespace Scanner

variable {scanner scanner' : Scanner}

/-- At the start of a line no other line is open, even if a line before it was at no open width. -/
structure Settled (scanner : Scanner) : Prop where
  column : 0 < scanner.position.column
  start : scanner.mode = .fileStart → scanner.lineOpen = false
  line : scanner.mode = .indent → scanner.context.cursor.atEnd = false →
    scanner.context.openers = [] → scanner.position.column = 1 → scanner.lineOpen = false

theorem Settled.inside (h : scanner.Settled) (hmode : scanner.mode = .indent)
    (hend : scanner.context.cursor.atEnd = false) (hopen : scanner.lineOpen = true) :
    scanner.context.inBrackets = true ∨ scanner.position.column ≠ 1 := by
  by_cases hopeners : scanner.context.openers = []
  · right
    intro hcolumn
    rw [h.line hmode hend hopeners hcolumn] at hopen
    contradiction
  · left
    simpa [Context.inBrackets] using hopeners

theorem settled_of_mode (hcolumn : 0 < scanner.position.column)
    (hstart : scanner.mode ≠ .fileStart) (hline : scanner.mode ≠ .indent) : scanner.Settled :=
  ⟨hcolumn, fun h => absurd h hstart, fun h => absurd h hline⟩

private theorem settled_of_closed (hcolumn : 0 < scanner.position.column)
    (hclosed : scanner.lineOpen = false) : scanner.Settled :=
  ⟨hcolumn, fun _ => hclosed, fun _ _ _ _ => hclosed⟩

private theorem settled_of_indent (hcolumn : 0 < scanner.position.column)
    (hmode : scanner.mode = .indent)
    (hline : scanner.context.cursor.atEnd = true ∨ scanner.position.column ≠ 1) :
    scanner.Settled :=
  ⟨hcolumn, fun h => by rw [hmode] at h; contradiction,
    fun _ hend _ hfirst => hline.elim (fun h => by rw [hend] at h; contradiction) (absurd hfirst)⟩

private theorem endOfText_settled {context : Context} (hcolumn : 0 < context.cursor.position.column)
    (hend : context.cursor.atEnd = true) : (scanner.endOfText context).2.Settled := by
  unfold endOfText
  split
  · exact settled_of_indent hcolumn rfl (.inl hend)
  · split
    · exact settled_of_indent hcolumn rfl (.inl hend)
    · exact settled_of_mode hcolumn (by simp [goTo]) (by simp [goTo])

private theorem startLine_settled (hcolumn : 0 < scanner.position.column)
    (hclosed : scanner.lineOpen = false) :
    scanner.startLine.2.Settled := by
  have hblanks := Cursor.column_pos_of_span hcolumn isInlineBlank
  unfold startLine
  simp only
  split
  · rename_i hread
    exact endOfText_settled hblanks (List.isEmpty_iff.2 ((Cursor.read?_eq_none_iff _).1 hread))
  · rename_i c next hread
    split
    · exact settled_of_closed (Cursor.column_pos_of_read? hread) hclosed
    · unfold compareWidth Context.pushIndent
      simp only
      split
      · exact settled_of_closed hblanks hclosed
      · split
        · split
          · exact settled_of_closed hblanks hclosed
          · exact settled_of_closed hblanks hclosed
        · split
          · exact settled_of_closed hblanks hclosed
          · exact settled_of_closed hblanks hclosed

private theorem stepDispatch_settled (hcolumn : 0 < scanner.position.column) :
    scanner.stepDispatch.2.Settled := by
  have hblanks := column_pos_of_skipBlanks hcolumn scanner.tabWidth scanner.context.bracketIndent
    scanner.context.inBrackets
  unfold stepDispatch
  simp only
  split
  · exact settled_of_mode hblanks (by simp [abandonBrackets, emit]) (by simp [abandonBrackets, emit])
  · split
    · rename_i hread
      exact settled_of_indent hblanks rfl
        (.inl (List.isEmpty_iff.2 ((Cursor.read?_eq_none_iff _).1 hread)))
    · rename_i c next hread
      split
      · exact settled_of_closed (Cursor.column_pos_of_read? hread) rfl
      · rename_i hc
        have hless := @column_lt_of_scanToken { scanner.context with cursor := _ } _ _ hread hc
        exact settled_of_indent (Nat.lt_trans hblanks hless) rfl
          (.inr (Nat.ne_of_gt (Nat.lt_of_le_of_lt hblanks hless)))

theorem Settled.step (h : scanner.Settled) : scanner.step.2.Settled := by
  have hcolumn := h.column
  unfold Scanner.step
  split
  · rename_i hmode
    unfold Context.pushIndent
    split <;> exact settled_of_closed hcolumn (h.start hmode)
  · rename_i hmode
    unfold stepIndent
    split
    · rename_i hend
      exact endOfText_settled hcolumn hend
    · rename_i hend
      split
      · exact settled_of_mode hcolumn (by simp [goTo]) (by simp [goTo])
      · rename_i hstart
        simp only [Context.inBrackets, Bool.or_eq_true, Bool.not_eq_true',
          List.isEmpty_eq_false_iff, bne_iff_ne, not_or, Decidable.not_not] at hstart
        exact startLine_settled hcolumn (h.line hmode (by simpa using hend) hstart.1 hstart.2)
  · exact stepDispatch_settled hcolumn
  · unfold stepDedent
    simp only
    split
    · exact settled_of_mode hcolumn (by simp [emit]) (by simp [emit])
    · split <;> exact settled_of_mode hcolumn (by simp [goTo]) (by simp [goTo])
  · exact settled_of_mode hcolumn (by simp [emit]) (by simp [emit])
  · exact settled_of_mode hcolumn (by simp [emit]) (by simp [emit])
  · exact h

end Scanner

/-! ## The blank line -/

theorem Met.skipsLine (hblanks : ∀ c ∈ blanks, isInlineBlank c = true ∧ Cursor.isSolid c = true)
    (h : Met second (blanks ++ '\n' :: second) cursor cursor') :
    ∃ next, (cursor'.span isInlineBlank).2.read? = some ('\n', next) ∧ SameText cursor next := by
  obtain ⟨-, hpasses⟩ := Cursor.span_passes h.rest' hblanks (by simp [Text.isInlineBlank_lineFeed])
  have hread : (cursor'.span isInlineBlank).2.read? =
      some ('\n', ⟨second, (cursor'.span isInlineBlank).2.position.newline 1⟩) := by
    unfold Cursor.read?
    rw [hpasses.rest]
    rfl
  exact ⟨_, hread, h.rest.symm, fun _ => h.column.symm⟩

/-- The look at the blank line sees no statement, so that the line break behind it is the last one. -/
theorem Crosses.skipsLine (hblanks : ∀ c ∈ blanks, isInlineBlank c = true ∧ Cursor.isSolid c = true)
    (hmet : Met second (blanks ++ '\n' :: second) next next')
    (h : Crosses tabWidth limit cursor' last' next') :
    ∃ last behind, Crosses tabWidth limit cursor' last behind ∧ SameText next behind := by
  obtain ⟨behind, hread, hsame⟩ := hmet.skipsLine hblanks
  have hskip := h.skip
  rw [hmet.rest', startsStatement_of_lineFeed fun c hc => (hblanks c hc).1,
    if_neg Bool.false_ne_true, skipBlanks_span _ _ next', skipBlanks_of_joined hread,
    dropLineBreak_of_read? hread] at hskip
  exact ⟨_, behind, ⟨hread, hskip⟩, hsame⟩

namespace Scanner

variable {scanner scanner' : Scanner}

theorem outcomes_of_met (hblanks : ∀ c ∈ blanks, isInlineBlank c = true ∧ Cursor.isSolid c = true)
    (h : scanner.Abreast (Met second (blanks ++ '\n' :: second)) scanner')
    (hbetween : scanner.BetweenLines) :
    scanner'.outcomes.map bareItem = scanner.outcomes.map bareItem := by
  obtain ⟨next, hread, hsame⟩ := h.context.cursor.skipsLine hblanks
  have hbetween' : scanner'.BetweenLines :=
    ⟨h.mode.trans hbetween.mode, h.context.openers.trans hbetween.openers,
      h.lineOpen.trans hbetween.lineOpen⟩
  have hcolumn : scanner'.context.cursor.position.column = 1 := by
    rw [h.context.cursor.position, h.context.cursor.column]
  have hmoved := (outcomes_of_blankLines (.line hread (.none next)) hbetween' hcolumn).1
  change scanner'.outcomes = (scanner'.moved next).outcomes at hmoved
  rw [hmoved]
  exact Abreast.outcomes_of_sameText
    ⟨h.context.withCursor hsame, h.mode, h.tabWidth, h.lineOpen⟩

theorem outcomes_of_skips (hmode : scanner.mode = .dispatch)
    (hbrackets : scanner.context.inBrackets = true)
    (hskip : skipBlanks scanner.tabWidth scanner.context.bracketIndent true scanner.context.cursor =
      skipBlanks scanner.tabWidth scanner.context.bracketIndent true next) :
    scanner.outcomes = (scanner.moved next).outcomes := by
  have hbrackets' : ({ scanner.context with cursor := next } : Context).inBrackets = true := hbrackets
  apply outcomes_of_step_eq (by simp [hmode]) (by simp [moved, hmode])
  unfold Scanner.step stepDispatch
  simp only [moved, hmode, hbrackets, hbrackets', hskip]
  rfl

/-- Within brackets two scanners that come to the same text behind a line break both join it, or both
give up their brackets. -/
theorem outcomes_of_crosses {within : Cursor → Cursor → Prop} (h : scanner.Abreast within scanner')
    (hmode : scanner.mode = .dispatch) (hbrackets : scanner.context.inBrackets = true)
    (hcrosses : Crosses scanner.tabWidth scanner.context.bracketIndent scanner.context.cursor last next)
    (hcrosses' : Crosses scanner.tabWidth scanner.context.bracketIndent scanner'.context.cursor last'
      next') (hsame : SameText next next') :
    scanner'.outcomes.map bareItem = scanner.outcomes.map bareItem := by
  have hmode' := h.mode.trans hmode
  have hbrackets' := h.context.inBrackets_eq.trans hbrackets
  have hskip := hcrosses.skip
  have hskip' := hcrosses'.skip
  rw [hsame.rest] at hskip'
  cases hstarts : startsStatement scanner.tabWidth scanner.context.bracketIndent next.rest with
  | true =>
      rw [hstarts, if_pos rfl] at hskip hskip'
      obtain ⟨place, houtcomes⟩ := outcomes_of_abandon hmode hbrackets (by rw [hskip])
        (by rw [hskip]; exact hcrosses.read)
      obtain ⟨place', houtcomes'⟩ := @outcomes_of_abandon scanner' next' hmode' hbrackets'
        (by rw [h.tabWidth, h.context.bracketIndent, hskip'])
        (by rw [h.tabWidth, h.context.bracketIndent, hskip']; exact hcrosses'.read)
      have hbehind : (scanner.abandoned next).Abreast SameText (scanner'.abandoned next') :=
        ⟨⟨hsame, h.context.indents, rfl, h.context.bracketIndent⟩, rfl, h.tabWidth, rfl⟩
      rw [houtcomes, houtcomes', h.context.openers, List.map_cons, List.map_cons, List.map_cons,
        List.map_cons, hbehind.outcomes_of_sameText]
      rfl
  | false =>
      rw [hstarts, if_neg Bool.false_ne_true] at hskip hskip'
      rw [outcomes_of_skips hmode hbrackets hskip, @outcomes_of_skips next' scanner' hmode' hbrackets'
        (by rw [h.tabWidth, h.context.bracketIndent, hskip'])]
      exact Abreast.outcomes_of_sameText
        ⟨h.context.withCursor hsame, h.mode, h.tabWidth, h.lineOpen⟩

theorem outcomes_of_joined
    (hblanks : ∀ c ∈ blanks, isInlineBlank c = true ∧ Cursor.isSolid c = true)
    (h : scanner.Abreast (Joined second (blanks ++ '\n' :: second)) scanner')
    (hsettled : scanner.Settled) :
    scanner'.outcomes.map bareItem = scanner.outcomes.map bareItem := by
  induction scanner using step_induction generalizing scanner' with
  | done scanner hmode => rw [outcomes_of_done hmode, outcomes_of_done (h.mode.trans hmode)]
  | step scanner hmode ih =>
      rcases h.step_joined hsettled.line with
        ⟨hbare, hafter⟩ | ⟨hdispatch, hbrackets, _, _, _, _, hmet, hcrosses, hcrosses'⟩
      · have hbehind : scanner'.step.2.outcomes.map bareItem =
            scanner.step.2.outcomes.map bareItem := by
          rcases hafter with hjoined | ⟨hbetween, hafter⟩
          · exact ih hjoined hsettled.step
          · rcases hafter.context.cursor with hcursor | hcursor
            · exact ih (hafter.withCursor hcursor) hsettled.step
            · exact outcomes_of_met hblanks (hafter.withCursor hcursor) hbetween
        rw [outcomes_eq_items_append hmode, outcomes_eq_items_append (h.mode ▸ hmode),
          List.map_append, List.map_append, Emission.items_bare hbare, hbehind]
      · obtain ⟨_, _, hcrosses', hsame⟩ := hcrosses'.skipsLine hblanks hmet
        exact outcomes_of_crosses h hdispatch hbrackets hcrosses hcrosses' hsame

theorem outcomes_blankLine {first blanks second : String} {tabWidth : UInt64}
    (hfirst : first = "" ∨ ∃ front, first = front ++ "\n")
    (hblanks : ∀ c ∈ blanks.toList, Text.isBlank c = true ∧ c ≠ '\n' ∧ c ≠ '\r') :
    (ofText (first ++ blanks ++ "\n" ++ second) tabWidth).outcomes.map bareItem =
      (ofText (first ++ second) tabWidth).outcomes.map bareItem := by
  have hblanks : ∀ c ∈ blanks.toList, isInlineBlank c = true ∧ Cursor.isSolid c = true := by
    intro c hc
    simp [isInlineBlank, Cursor.isSolid, hblanks c hc]
  rw [outcomes_ofText_eq, outcomes_ofText_eq, List.map_cons, List.map_cons]
  congr 1
  rcases hfirst with rfl | ⟨front, rfl⟩
  · have hmet : (opened ("" ++ second) tabWidth).Abreast
        (Met second.toList (blanks.toList ++ '\n' :: second.toList))
        (opened ("" ++ blanks ++ "\n" ++ second) tabWidth) := by
      refine ⟨⟨⟨rfl, rfl, ?_, ?_⟩, rfl, rfl, rfl⟩, rfl, rfl, rfl⟩ <;>
        simp [opened, Context.ofText, Cursor.ofText]
    exact outcomes_of_met hblanks hmet ⟨rfl, rfl, rfl⟩
  · have hjoined : (opened (front ++ "\n" ++ second) tabWidth).Abreast
        (Joined second.toList (blanks.toList ++ '\n' :: second.toList))
        (opened (front ++ "\n" ++ blanks ++ "\n" ++ second) tabWidth) := by
      refine ⟨⟨⟨rfl, front.toList, ?_, ?_⟩, rfl, rfl, rfl⟩, rfl, rfl, rfl⟩ <;>
        simp [opened, Context.ofText, Cursor.ofText]
    exact outcomes_of_joined hblanks hjoined (settled_of_closed Nat.one_pos rfl)

end Scanner

end Offside.Scan
