import Offside.Proofs.Scanning.Fork
import Offside.Proofs.Scanning.LineFeeds
import Offside.Proofs.Scanning.SameText

/-!
# A line break at the end of a text

With a line break at its end a text is scanned as without it, as long as there is more than blanks on
its last line.  From there on the one scanner is at the end of the text where the other one has the
line break in front of it.  The line break ends the last line if that line is open, as the end of the
text does; otherwise it is that of a blank line, or it is joined.  Only a string literal that is not
closed on the last line is reported as another error.
-/

namespace Offside.Scan

open Parse (Item)
open Text (Cursor isInlineBlank)

/-! ## Kinds -/

def kindsOf : List Item → List (Except LexFailure TokenKind)
  | [] => []
  | .ok token :: rest => .ok token.kind :: kindsOf rest
  | .error failure :: _ => [.error failure.bare]

theorem kindsOf_bareItem (items : List Item) : kindsOf (items.map bareItem) = kindsOf items := by
  induction items with
  | nil => rfl
  | cons item items ih =>
      cases item with
      | ok token =>
          rw [List.map_cons, bareItem, kindsOf, kindsOf, ih]
          rfl
      | error failure => cases failure <;> rfl

theorem kindsOf_eq_of_bareItem {items items' : List Item}
    (h : items'.map bareItem = items.map bareItem) : kindsOf items' = kindsOf items := by
  rw [← kindsOf_bareItem items', h, kindsOf_bareItem]

theorem kindsOf_tokens (tokens : List Token) :
    kindsOf (tokens.map .ok) = tokens.map fun token => .ok token.kind := by
  induction tokens with
  | nil => rfl
  | cons token tokens ih => rw [List.map_cons, kindsOf, ih, List.map_cons]

theorem kindsOf_items_append {emission emission' : Emission} {items items' : List Item}
    (hbare : emission'.bare = emission.bare)
    (h : (∀ failure, emission ≠ .failure failure) → (∀ failure, emission' ≠ .failure failure) →
      kindsOf items' = kindsOf items) :
    kindsOf (emission'.items ++ items') = kindsOf (emission.items ++ items) := by
  cases emission with
  | silent =>
      cases emission' with
      | silent => exact h (by simp) (by simp)
      | token | failure => contradiction
  | token token =>
      cases emission' with
      | silent | failure => contradiction
      | token token' =>
          have hkind : token'.bare.kind = token.bare.kind :=
            congrArg Token.kind (Emission.token.inj hbare)
          simp only [Emission.items, List.cons_append, List.nil_append, kindsOf]
          rw [h (by simp) (by simp), show token'.kind = token.kind from hkind]
  | failure failure =>
      cases emission' with
      | silent | token => contradiction
      | failure failure' =>
          simp only [Emission.items, List.cons_append, List.nil_append, kindsOf]
          rw [Emission.failure.inj hbare]

/-! ## Cursors -/

variable {cursor cursor' next next' : Cursor} {tabWidth limit : UInt64}

structure Trailing (cursor cursor' : Cursor) : Prop where
  position : cursor'.position = cursor.position
  rest : cursor'.rest = cursor.rest ++ ['\n']

/-- Behind a line break the texts may be over both, if the last line break was read as one with a
carriage return in front of it. -/
def TrailingOrOver (cursor cursor' : Cursor) : Prop := Trailing cursor cursor' ∨ SameText cursor cursor'

theorem Trailing.atEnd (h : Trailing cursor cursor') : cursor'.atEnd = false := by
  rw [Cursor.atEnd, h.rest]
  simp

theorem Trailing.read?_of_end (h : Trailing cursor cursor') (hend : cursor.read? = none) :
    ∃ next', cursor'.read? = some ('\n', next') ∧ SameText cursor next' := by
  have hrest := (Cursor.read?_eq_none_iff cursor).1 hend
  refine ⟨⟨[], cursor'.position.newline 1⟩, ?_, hrest.symm, ?_⟩
  · unfold Cursor.read?
    rw [h.rest, hrest]
    rfl
  · intro hopen
    rw [Cursor.atEnd, hrest] at hopen
    contradiction

theorem Trailing.abreast (h : Trailing cursor cursor') {c : Char}
    (hread : cursor.read? = some (c, next)) : Abreast Trailing TrailingOrOver cursor cursor' := by
  obtain ⟨rest, position⟩ := cursor
  obtain ⟨rest', position'⟩ := cursor'
  obtain rfl : position' = position := h.position
  obtain rfl : rest' = rest ++ ['\n'] := h.rest
  cases rest with
  | nil => contradiction
  | cons d rest =>
      by_cases hreturn : d = '\r'
      · subst hreturn
        cases rest with
        | nil => exact .breaks rfl rfl (.inr ⟨rfl, fun hopen => by contradiction⟩)
        | cons e rest =>
            by_cases hfeed : e = '\n'
            · subst hfeed
              exact .breaks rfl rfl (.inl ⟨rfl, rfl⟩)
            · have hread : ∀ rest, (⟨'\r' :: e :: rest, position'⟩ : Cursor).read? =
                  some ('\n', ⟨e :: rest, position'.newline 1⟩) := by
                simp [Cursor.read?, hfeed]
              exact .breaks (hread _) (hread _) (.inl ⟨rfl, rfl⟩)
      · have hread : ∀ rest, (⟨d :: rest, position'⟩ : Cursor).read? =
            some (d, ⟨rest, position'.advance d⟩) := by
          simp [Cursor.read?, hreturn]
        by_cases hfeed : d = '\n'
        · subst hfeed
          exact .breaks (hread _) (hread _) (.inl ⟨rfl, rfl⟩)
        · exact .reads hfeed (hread _) (hread _) ⟨rfl, rfl⟩

theorem parallel_trailing : Parallel Trailing := by
  intro cursor cursor' h
  cases hread : cursor.read? with
  | none =>
      obtain ⟨next', hread', -⟩ := h.read?_of_end hread
      exact .ended (.ended hread) (.breaks hread')
  | some first =>
      cases h.abreast hread with
      | ended hend => simp [hend] at hread
      | breaks hbreak hbreak' => exact .ended (.breaks hbreak) (.breaks hbreak')
      | reads hc hfirst hfirst' hnext => exact .reads hc hfirst hfirst' hnext

def HasMore (cursor : Cursor) : Prop := ∃ c next, (cursor.span isInlineBlank).2.read? = some (c, next)

theorem Trailing.sameLine (h : Trailing cursor cursor') (hmore : HasMore cursor) :
    SameLine Trailing TrailingOrOver cursor cursor' := by
  obtain ⟨c, next, hread⟩ := hmore
  obtain ⟨hblanks, hafter⟩ := parallel_trailing.span h Text.isInlineBlank_lineFeed
  refine ⟨?_, fun _ => by rw [h.position], hblanks, hafter, hafter.abreast hread⟩
  rw [h.atEnd, eq_comm, Cursor.atEnd, List.isEmpty_eq_false_iff]
  intro hnil
  have hle := Cursor.span_length_le isInlineBlank cursor
  have hlt := Cursor.length_lt_of_read? hread
  simp only [hnil, List.length_nil] at hle
  omega

theorem Trailing.not_atLexeme (h : Trailing cursor cursor') (hblank : ¬ HasMore cursor) :
    ¬ cursor'.AtLexeme := by
  rintro ⟨c, next', hread', hsolid⟩
  cases hread : cursor.read? with
  | none =>
      obtain ⟨_, hfeed, -⟩ := h.read?_of_end hread
      rw [hread'] at hfeed
      cases hfeed
      contradiction
  | some first =>
      obtain ⟨d, next⟩ := first
      apply hblank
      refine ⟨d, next, ?_⟩
      have hsame : d = c := by
        cases h.abreast hread with
        | ended hend => simp [hend] at hread
        | breaks hfirst hfirst' => grind
        | reads _ hfirst hfirst' => grind
      rw [Cursor.span_of_read? hread, if_neg (by simp [isInlineBlank, hsame, hsolid])]
      exact hread

/-- Where only blanks are left, the line break behind them is the last character of the other text. -/
theorem Trailing.lastBreak (h : Trailing cursor cursor') (hover : ¬ HasMore cursor) :
    (cursor.span isInlineBlank).2.read? = none ∧
      ∃ next', (cursor'.span isInlineBlank).2.read? = some ('\n', next') ∧
        SameText (cursor.span isInlineBlank).2 next' := by
  have hafter := (parallel_trailing.span h Text.isInlineBlank_lineFeed).2
  have hend : (cursor.span isInlineBlank).2.read? = none := by
    cases hread : (cursor.span isInlineBlank).2.read? with
    | none => rfl
    | some first => exact absurd ⟨first.1, first.2, hread⟩ hover
  exact ⟨hend, hafter.read?_of_end hend⟩

theorem Trailing.skipBlanks (h : Trailing cursor cursor') (tabWidth limit : UInt64) :
    (Scan.skipBlanks tabWidth limit true cursor').1 =
        (Scan.skipBlanks tabWidth limit true cursor).1 ∧
      ((Trailing (Scan.skipBlanks tabWidth limit true cursor).2
          (Scan.skipBlanks tabWidth limit true cursor').2 ∧
        Abreast Trailing TrailingOrOver (Scan.skipBlanks tabWidth limit true cursor).2
          (Scan.skipBlanks tabWidth limit true cursor').2) ∨
        SameText (Scan.skipBlanks tabWidth limit true cursor).2
          (Scan.skipBlanks tabWidth limit true cursor').2) := by
  induction hlength : cursor.rest.length using Nat.strongRecOn generalizing cursor cursor' with
  | ind length ih =>
      cases hread : cursor.read? with
      | none =>
          obtain ⟨next', hread', hsame⟩ := h.read?_of_end hread
          have hend : next'.rest = [] := by rw [hsame.rest, (Cursor.read?_eq_none_iff _).1 hread]
          rw [skipBlanks_of_end hread, skipBlanks_of_joined hread', dropLineBreak_of_read? hread', hend,
            startsStatement_nil, if_neg Bool.false_ne_true,
            skipBlanks_of_end ((Cursor.read?_eq_none_iff _).2 hend)]
          exact ⟨rfl, .inr hsame⟩
      | some first =>
          have habreast := h.abreast hread
          cases habreast with
          | ended hend => simp [hend] at hread
          | breaks hbreak hbreak' hnext =>
              have hshorter := Cursor.length_lt_of_read? hbreak
              rw [skipBlanks_of_joined hbreak, skipBlanks_of_joined hbreak',
                dropLineBreak_of_read? hbreak, dropLineBreak_of_read? hbreak']
              rcases hnext with hnext | hsame
              · rw [hnext.rest, startsStatement_line]
                split
                · exact ⟨rfl, .inl ⟨h, .breaks hbreak hbreak' (.inl hnext)⟩⟩
                · exact ih _ (hlength ▸ hshorter) hnext rfl
              · rw [hsame.rest]
                split
                · exact ⟨rfl, .inl ⟨h, .breaks hbreak hbreak' (.inr hsame)⟩⟩
                · obtain ⟨hflag, hafter⟩ := hsame.skipBlanks tabWidth limit true
                  exact ⟨hflag, .inr hafter⟩
          | reads hc hfirst hfirst' hnext =>
              rw [skipBlanks_of_char hfirst hc, skipBlanks_of_char hfirst' hc]
              split
              · exact ih _ (hlength ▸ Cursor.length_lt_of_read? hfirst) hnext rfl
              · exact ⟨rfl, .inl ⟨h, .reads hc hfirst hfirst' hnext⟩⟩

theorem skipBlanks_of_lastBlanks (hend : (cursor.span isInlineBlank).2.read? = none)
    (tabWidth limit : UInt64) (joined : Bool) :
    skipBlanks tabWidth limit joined cursor = (false, (cursor.span isInlineBlank).2) := by
  cases joined with
  | false => exact skipBlanks_unjoined ..
  | true => rw [skipBlanks_span, skipBlanks_of_end hend]

theorem skipBlanks_of_lastBreak (hread : (cursor.span isInlineBlank).2.read? = some ('\n', next))
    (hend : next.read? = none) (tabWidth limit : UInt64) :
    skipBlanks tabWidth limit true cursor = (false, next) := by
  rw [skipBlanks_span, skipBlanks_of_joined hread, dropLineBreak_of_read? hread,
    (Cursor.read?_eq_none_iff _).1 hend, startsStatement_nil, if_neg Bool.false_ne_true,
    skipBlanks_of_end hend]

/-! ## Before the end of the last line -/

namespace Scanner

variable {scanner scanner' : Scanner} {place place' : Place}

theorem Abreast.stepDispatch_trailing (h : scanner.Abreast Trailing scanner')
    (hmore : HasMore scanner.context.cursor) :
    (scanner'.stepDispatch.1.bare = scanner.stepDispatch.1.bare ∧
        scanner.stepDispatch.2.Abreast TrailingOrOver scanner'.stepDispatch.2) ∨
      ErrsAlike Trailing scanner.stepDispatch scanner'.stepDispatch := by
  have hparallel : StepsAlike Trailing TrailingOrOver scanner.stepDispatch scanner'.stepDispatch ∨
      ErrsAlike Trailing scanner.stepDispatch scanner'.stepDispatch →
      (scanner'.stepDispatch.1.bare = scanner.stepDispatch.1.bare ∧
          scanner.stepDispatch.2.Abreast TrailingOrOver scanner'.stepDispatch.2) ∨
        ErrsAlike Trailing scanner.stepDispatch scanner'.stepDispatch :=
    Or.imp_left fun halike => ⟨halike.1, halike.abreast (fun _ _ => .inl) fun _ _ h => h⟩
  cases hbrackets : scanner.context.inBrackets with
  | false =>
      obtain ⟨c, next, hread⟩ := hmore
      have hafter := (parallel_trailing.span h.context.cursor Text.isInlineBlank_lineFeed).2
      apply hparallel
      apply h.stepDispatch_parallel parallel_trailing
      all_goals
        rw [h.tabWidth, h.context.bracketIndent, h.context.inBrackets_eq, hbrackets,
          skipBlanks_unjoined, skipBlanks_unjoined]
      · exact hafter
      · exact hafter.abreast hread
  | true =>
      obtain ⟨hflag, ⟨htrailing, habreast⟩ | hsame⟩ :=
        h.context.cursor.skipBlanks scanner.tabWidth scanner.context.bracketIndent
      · apply hparallel
        apply h.stepDispatch_parallel parallel_trailing
        all_goals
          rw [h.tabWidth, h.context.bracketIndent, h.context.inBrackets_eq, hbrackets]
        · exact hflag
        · exact htrailing
        · exact habreast
      · have halike : StepsAlike SameText SameText scanner.stepDispatch scanner'.stepDispatch := by
          apply h.stepDispatch lockstep_sameText
          all_goals
            rw [h.tabWidth, h.context.bracketIndent, h.context.inBrackets_eq, hbrackets]
          · exact hflag
          · exact hsame
        exact .inl ⟨halike.1, halike.abreast (fun _ _ => .inr) fun _ _ => .inr⟩

theorem Abreast.step_trailing (h : scanner.Abreast Trailing scanner')
    (hstands : scanner.Stands place)
    (hmore : scanner.mode ≠ .fileStart → HasMore scanner.context.cursor) :
    (scanner'.step.1.bare = scanner.step.1.bare ∧
        scanner.step.2.Abreast TrailingOrOver scanner'.step.2) ∨
      ErrsAlike Trailing scanner.step scanner'.step := by
  by_cases hmode : scanner.mode = .dispatch
  · have hmode' := h.mode.trans hmode
    unfold Scanner.step
    simp only [hmode, hmode']
    exact h.stepDispatch_trailing (hmore (by simp [hmode]))
  · have halike := h.step (fun hstarted => h.context.cursor.sameLine (hmore hstarted))
      (.inr fun hindent hend hopeners hcolumn => hstands.lineOpen hindent hend hopeners hcolumn) hmode
    exact .inl ⟨halike.1, halike.abreast (fun _ _ => .inl) fun _ _ h => h⟩

/-! ## At the end of the last line -/

/-- A scanner that has not come to the end of its text, where only blanks are left, is between two
tokens of a line or at the start of one. -/
theorem Stands.mode_of_blanks (h : scanner.Stands place)
    (hend : scanner.context.cursor.atEnd = false) (hblank : ¬ scanner.context.cursor.AtLexeme)
    (hstarted : scanner.mode ≠ .fileStart) :
    scanner.lineOpen = true ∧ (scanner.mode = .dispatch ∨ scanner.mode = .indent ∧
        (scanner.context.inBrackets = true ∨ scanner.position.column ≠ 1)) ∨
      scanner.lineOpen = false ∧ scanner.mode = .indent ∧ scanner.context.openers = [] ∧
        scanner.position.column = 1 := by
  have hfits := h.fits
  cases hmode : scanner.mode <;> cases hopen : scanner.lineOpen <;>
    simp_all [Fits]

theorem outcomes_of_inside (hmode : scanner.mode = .indent)
    (hinside : scanner.context.inBrackets = true ∨ scanner.position.column ≠ 1) :
    scanner.outcomes = ({ scanner with mode := .dispatch } : Scanner).outcomes := by
  cases hend : scanner.context.cursor.atEnd with
  | true =>
      have hread := (Cursor.read?_eq_none_iff _).2 (List.isEmpty_iff.1 hend)
      symm
      apply outcomes_of_silent (by simp) ?_ (by simp [hmode])
      have hstep := @step_of_lastBlanks { scanner with mode := .dispatch } _ rfl
        (skipBlanks_of_end hread ..) hread
      rw [hstep, goTo, ← hmode]
  | false => exact outcomes_of_silent (by simp [hmode]) (step_of_inside hmode hend hinside) (by simp)

theorem outcomes_of_lastDispatch (h : scanner.Abreast Trailing scanner')
    (hmode : scanner.mode = .dispatch) (hopen : scanner.lineOpen = true)
    (hover : ¬ HasMore scanner.context.cursor) :
    scanner'.outcomes.map bareItem = scanner.outcomes.map bareItem := by
  have hmode' := h.mode.trans hmode
  obtain ⟨hend, next', hread', hsame⟩ := h.context.cursor.lastBreak hover
  have hend' : next'.read? = none := by
    rw [Cursor.read?_eq_none_iff] at hend ⊢
    rw [hsame.rest, hend]
  have hstep := step_of_lastBlanks hmode (skipBlanks_of_lastBlanks hend ..) hend
  have houtcomes := outcomes_of_silent (by simp [hmode]) hstep (by simp)
  cases hbrackets : scanner.context.inBrackets with
  | true =>
      have hstep' := step_of_lastBlanks hmode'
        (by rw [h.context.inBrackets_eq, hbrackets, skipBlanks_of_lastBreak hread' hend']) hend'
      rw [houtcomes, outcomes_of_silent (by simp [hmode']) hstep' (by simp)]
      exact (h.goTo (h.context.withCursor hsame) .indent).outcomes_of_sameText
  | false =>
      have hstep' := step_of_lineBreak hmode'
        (by rw [h.context.inBrackets_eq, hbrackets, skipBlanks_unjoined]) hread'
      have hopeners : scanner.context.openers = [] := by
        simpa [Context.inBrackets] using hbrackets
      have hnewline := @step_of_openLine (scanner.goTo .indent { scanner.context with
        cursor := (scanner.context.cursor.span isInlineBlank).2 }).2 rfl hend hopeners hopen
      have hbehind := (h.emit (h.context.withCursor hsame)
        (show (Token.plain .newline (scanner'.context.cursor.span isInlineBlank).2.position).bare =
          (Token.plain .newline (scanner.context.cursor.span isInlineBlank).2.position).bare from rfl)
        .indent).2.outcomes_of_sameText
      rw [outcomes_of_token (by simp [hmode']) hstep',
        houtcomes.trans (outcomes_of_token (by simp) hnewline)]
      exact congrArg₂ List.cons rfl hbehind

/-- Between two lines the text is over, whether or not a line break ends its last blanks. -/
theorem outcomes_of_lastLine (h : scanner.Abreast Trailing scanner') (hbetween : scanner.BetweenLines)
    (hcolumn : scanner.position.column = 1) (hover : ¬ HasMore scanner.context.cursor) :
    scanner'.outcomes.map bareItem = scanner.outcomes.map bareItem := by
  obtain ⟨hend, next', hread', hsame⟩ := h.context.cursor.lastBreak hover
  have hbetween' : scanner'.BetweenLines :=
    ⟨h.mode.trans hbetween.mode, h.context.openers.trans hbetween.openers,
      h.lineOpen.trans hbetween.lineOpen⟩
  have hmoved' := (outcomes_of_blankLines (.line hread' (.none next')) hbetween' (by
    rw [h.context.cursor.position]
    exact hcolumn)).1
  change scanner'.outcomes = (scanner'.moved next').outcomes at hmoved'
  have hmoved : scanner.outcomes =
      (scanner.moved (scanner.context.cursor.span isInlineBlank).2).outcomes := by
    have hatEnd : (scanner.context.cursor.span isInlineBlank).2.atEnd = true :=
      List.isEmpty_iff.2 ((Cursor.read?_eq_none_iff _).1 hend)
    cases hstart : scanner.context.cursor.atEnd with
    | true =>
        rw [Cursor.span_of_end ((Cursor.read?_eq_none_iff _).2 (List.isEmpty_iff.1 hstart))]
        rfl
    | false =>
        apply outcomes_of_step_eq (by simp [hbetween.mode]) (by simp [moved, hbetween.mode])
        unfold Scanner.step stepIndent startLine
        simp [moved, hbetween.mode, hstart, hatEnd, hend, hcolumn, Context.inBrackets,
          hbetween.openers, endOfText, goTo, hbetween.lineOpen]
  rw [hmoved', hmoved]
  exact Abreast.outcomes_of_sameText
    ⟨h.context.withCursor hsame, h.mode, h.tabWidth, h.lineOpen⟩

theorem outcomes_of_lastBlanks (h : scanner.Abreast Trailing scanner') (hstands : scanner'.Stands place')
    (hstarted : scanner.mode ≠ .fileStart) (hover : ¬ HasMore scanner.context.cursor) :
    scanner'.outcomes.map bareItem = scanner.outcomes.map bareItem := by
  have hcolumn : scanner'.position.column = scanner.position.column := by
    rw [position, h.context.cursor.position, position]
  have hcases := hstands.mode_of_blanks h.context.cursor.atEnd
    (h.context.cursor.not_atLexeme hover) (by rw [h.mode]; exact hstarted)
  rw [h.mode, h.lineOpen, h.context.openers, h.context.inBrackets_eq, hcolumn] at hcases
  rcases hcases with ⟨hopen, hmode | ⟨hmode, hinside⟩⟩ | ⟨hclosed, hmode, hopeners, hfirst⟩
  · exact outcomes_of_lastDispatch h hmode hopen hover
  · rw [outcomes_of_inside hmode hinside, outcomes_of_inside (h.mode.trans hmode)
      (by rw [h.context.inBrackets_eq, hcolumn]; exact hinside)]
    exact outcomes_of_lastDispatch ⟨h.context, rfl, h.tabWidth, h.lineOpen⟩ rfl hopen hover
  · exact outcomes_of_lastLine h ⟨hmode, hopeners, hclosed⟩ hfirst hover

/-! ## Texts -/

/-- With a line break at the end of the text the tokens have the same kinds, up to the first failure. -/
theorem kindsOf_outcomes (h : scanner.Abreast TrailingOrOver scanner')
    (hstands : scanner.Stands place) (hstands' : scanner'.Stands place') :
    kindsOf scanner'.outcomes = kindsOf scanner.outcomes := by
  induction scanner using step_induction generalizing scanner' place place' with
  | done scanner hmode => rw [outcomes_of_done hmode, outcomes_of_done (h.mode.trans hmode)]
  | step scanner hmode ih =>
      rcases h.context.cursor with htrailing | hsame
      · have h : scanner.Abreast Trailing scanner' :=
          ⟨h.context.withCursor htrailing, h.mode, h.tabWidth, h.lineOpen⟩
        by_cases hover : scanner.mode ≠ .fileStart ∧ ¬ HasMore scanner.context.cursor
        · exact kindsOf_eq_of_bareItem (outcomes_of_lastBlanks h hstands' hover.1 hover.2)
        · have hmode' : scanner'.mode ≠ .done := h.mode ▸ hmode
          rw [outcomes_eq_items_append hmode, outcomes_eq_items_append hmode']
          rcases h.step_trailing hstands fun hstarted =>
              Classical.not_not.1 fun hmore => hover ⟨hstarted, hmore⟩ with
            ⟨hbare, hafter⟩ | ⟨⟨token, htoken, hkind⟩, ⟨token', htoken', hkind'⟩, -, hafter⟩
          · refine kindsOf_items_append hbare fun hsafe hsafe' => ?_
            obtain ⟨_, hstands⟩ := hstands.step hmode hsafe
            obtain ⟨_, hstands'⟩ := hstands'.step hmode' hsafe'
            exact ih hafter hstands hstands'
          · obtain ⟨_, hstands⟩ := hstands.step hmode (by simp [htoken])
            obtain ⟨_, hstands'⟩ := hstands'.step hmode' (by simp [htoken'])
            have hbehind := ih (hafter.mono fun _ _ => .inl) hstands hstands'
            simp only [htoken, htoken', Emission.items, List.cons_append, List.nil_append, kindsOf,
              hkind, hkind', hbehind]
      · exact kindsOf_eq_of_bareItem (Abreast.outcomes_of_sameText
          ⟨h.context.withCursor hsame, h.mode, h.tabWidth, h.lineOpen⟩)

theorem kindsOf_outcomes_append (text : String) (tabWidth : UInt64) :
    kindsOf (ofText (text ++ "\n") tabWidth).outcomes = kindsOf (ofText text tabWidth).outcomes := by
  have hstands : ∀ text : String, (ofText text tabWidth).Stands .start :=
    fun _ => ⟨⟨rfl, rfl, rfl, rfl⟩, fun h => by contradiction, Nat.one_pos⟩
  refine kindsOf_outcomes ⟨⟨.inl ⟨rfl, ?_⟩, rfl, rfl, rfl⟩, rfl, rfl, rfl⟩ (hstands text) (hstands _)
  simp [ofText, Context.ofText, Cursor.ofText]

end Scanner

end Offside.Scan
