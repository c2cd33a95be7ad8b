import Offside.Proofs.Scanning.Lockstep

/-!
# Two texts that part behind a line

Two texts that are the same up to the end of a line are scanned in lockstep up to there.  Whether a
line starts a statement does not depend on the lines behind it, so within brackets the scanners agree
on all line breaks but the last one: behind it the texts part.
-/

namespace Offside.Scan

open Text (Cursor)

variable {ahead behind : List Char} {cursor cursor' : Cursor} {tabWidth limit : UInt64}

/-! ## Cursors -/

structure Joined (ahead behind : List Char) (cursor cursor' : Cursor) : Prop where
  position : cursor'.position = cursor.position
  rest : ∃ front, cursor.rest = front ++ '\n' :: ahead ∧ cursor'.rest = front ++ '\n' :: behind

structure Met (ahead behind : List Char) (cursor cursor' : Cursor) : Prop where
  position : cursor'.position = cursor.position
  column : cursor.position.column = 1
  rest : cursor.rest = ahead
  rest' : cursor'.rest = behind

theorem lockstep_joined :
    Lockstep (Joined ahead behind) fun cursor cursor' =>
      Joined ahead behind cursor cursor' ∨ Met ahead behind cursor cursor' := by
  rintro ⟨_, _⟩ ⟨_, position⟩ ⟨rfl, front, rfl, rfl⟩
  cases front with
  | nil => exact .breaks rfl rfl (.inr ⟨rfl, rfl, rfl, rfl⟩)
  | cons c front =>
      by_cases hreturn : c = '\r'
      · subst hreturn
        cases front with
        | nil => exact .breaks rfl rfl (.inr ⟨rfl, rfl, rfl, rfl⟩)
        | cons d front =>
            by_cases hfeed : d = '\n'
            · subst hfeed
              exact .breaks rfl rfl (.inl ⟨rfl, front, rfl, rfl⟩)
            · have hread : ∀ rest, (⟨'\r' :: d :: rest, position⟩ : Cursor).read? =
                  some ('\n', ⟨d :: rest, position.newline 1⟩) := by
                simp [Cursor.read?, hfeed]
              exact .breaks (hread _) (hread _) (.inl ⟨rfl, d :: front, rfl, rfl⟩)
      · have hread : ∀ rest, (⟨c :: rest, position⟩ : Cursor).read? =
            some (c, ⟨rest, position.advance c⟩) := by
          simp [Cursor.read?, hreturn]
        by_cases hfeed : c = '\n'
        · subst hfeed
          exact .breaks (hread _) (hread _) (.inl ⟨rfl, front, rfl, rfl⟩)
        · exact .reads hfeed (hread _) (hread _) ⟨rfl, front, rfl, rfl⟩

theorem Joined.atEnd (h : Joined ahead behind cursor cursor') : cursor.atEnd = false := by
  obtain ⟨front, hrest, -⟩ := h.rest
  rw [Cursor.atEnd, hrest]
  simp

/-! ## Blanks -/

theorem takeWhile_stop {p : Char → Bool} {c : Char} (hc : p c = false) (front behind : List Char) :
    (front ++ c :: behind).takeWhile p = front.takeWhile p ∧
      (front ++ c :: behind).dropWhile p = front.dropWhile p ++ c :: behind := by
  induction front with
  | nil => simp [hc]
  | cons d front ih => cases hd : p d <;> simp [hd, ih]

theorem startsStatement_line (tabWidth limit : UInt64) (front behind : List Char) :
    startsStatement tabWidth limit (front ++ '\n' :: behind) =
      startsStatement tabWidth limit front := by
  have hblanks := takeWhile_stop Text.isInlineBlank_lineFeed front behind
  unfold startsStatement
  rw [hblanks.1, hblanks.2, (takeWhile_stop isWordChar_lineFeed _ behind).1]

theorem startsStatement_nil (tabWidth limit : UInt64) :
    startsStatement tabWidth limit [] = false := by
  have hkeyword : TokenKind.keyword? (String.ofList []) = none := by decide
  unfold startsStatement
  simp only [List.takeWhile_nil, List.dropWhile_nil, hkeyword, Bool.and_false]

/-- Within brackets the blanks are skipped up to the line break in front of `next`, where a statement
may follow. -/
structure Crosses (tabWidth limit : UInt64) (cursor last next : Cursor) : Prop where
  read : last.read? = some ('\n', next)
  skip : skipBlanks tabWidth limit true cursor =
    if startsStatement tabWidth limit next.rest then (true, last)
    else skipBlanks tabWidth limit true next

inductive SkipsAlike (ahead behind : List Char) (tabWidth limit : UInt64) (cursor cursor' : Cursor) :
    Prop where
  | before (hflag : (skipBlanks tabWidth limit true cursor').1 =
        (skipBlanks tabWidth limit true cursor).1)
      (hjoined : Joined ahead behind (skipBlanks tabWidth limit true cursor).2
        (skipBlanks tabWidth limit true cursor').2)
  | across {last last' next next' : Cursor} (hmet : Met ahead behind next next')
      (hcrosses : Crosses tabWidth limit cursor last next)
      (hcrosses' : Crosses tabWidth limit cursor' last' next')

theorem SkipsAlike.of_eq {next next' : Cursor} (h : SkipsAlike ahead behind tabWidth limit next next')
    (hskip : skipBlanks tabWidth limit true cursor = skipBlanks tabWidth limit true next)
    (hskip' : skipBlanks tabWidth limit true cursor' = skipBlanks tabWidth limit true next') :
    SkipsAlike ahead behind tabWidth limit cursor cursor' := by
  cases h with
  | before hflag hjoined =>
      rw [← hskip, ← hskip'] at hflag hjoined
      exact .before hflag hjoined
  | across hmet hcrosses hcrosses' =>
      exact .across hmet ⟨hcrosses.read, hskip.trans hcrosses.skip⟩
        ⟨hcrosses'.read, hskip'.trans hcrosses'.skip⟩

theorem Joined.skipsAlike (h : Joined ahead behind cursor cursor') (tabWidth limit : UInt64) :
    SkipsAlike ahead behind tabWidth limit cursor cursor' := by
  induction hlength : cursor.rest.length using Nat.strongRecOn generalizing cursor cursor' with
  | ind length ih =>
      cases lockstep_joined h with
      | ended hread =>
          rw [Cursor.read?_eq_none_iff] at hread
          have hend := h.atEnd
          rw [Cursor.atEnd, hread] at hend
          contradiction
      | breaks hread hread' hnext =>
          have hskip := skipBlanks_of_joined hread tabWidth limit
          have hskip' := skipBlanks_of_joined hread' tabWidth limit
          rw [dropLineBreak_of_read? hread] at hskip
          rw [dropLineBreak_of_read? hread'] at hskip'
          rcases hnext with hnext | hmet
          · obtain ⟨front, hrest, hrest'⟩ := hnext.rest
            rw [hrest, startsStatement_line] at hskip
            rw [hrest', startsStatement_line] at hskip'
            cases hstarts : startsStatement tabWidth limit front with
            | true =>
                rw [hstarts, if_pos rfl] at hskip hskip'
                exact .before (by rw [hskip, hskip']) (by rw [hskip, hskip']; exact h)
            | false =>
                rw [hstarts, if_neg Bool.false_ne_true] at hskip hskip'
                exact (ih _ (hlength ▸ Cursor.length_lt_of_read? hread) hnext rfl).of_eq hskip hskip'
          · exact .across hmet ⟨hread, hskip⟩ ⟨hread', hskip'⟩
      | reads hc hread hread' hnext =>
          have hskip := skipBlanks_of_char hread hc tabWidth limit true
          have hskip' := skipBlanks_of_char hread' hc tabWidth limit true
          split at hskip
          · rename_i hblank
            rw [if_pos hblank] at hskip'
            exact (ih _ (hlength ▸ Cursor.length_lt_of_read? hread) hnext rfl).of_eq hskip hskip'
          · rename_i hblank
            rw [if_neg hblank] at hskip'
            exact .before (by rw [hskip, hskip']) (by rw [hskip, hskip']; exact h)

/-! ## Scanners -/

namespace Scanner

variable {scanner scanner' : Scanner}

/-- A step before the texts part is the same in both, unless it joins the last line break. -/
theorem Abreast.step_joined (h : scanner.Abreast (Joined ahead behind) scanner')
    (hclosed : scanner.mode = .indent → scanner.context.cursor.atEnd = false →
      scanner.context.openers = [] → scanner.position.column = 1 → scanner.lineOpen = false) :
    StepsAlike (Joined ahead behind)
        (fun cursor cursor' => Joined ahead behind cursor cursor' ∨ Met ahead behind cursor cursor')
        scanner.step scanner'.step ∨
      (scanner.mode = .dispatch ∧ scanner.context.inBrackets = true ∧
        ∃ last last' next next', Met ahead behind next next' ∧
          Crosses scanner.tabWidth scanner.context.bracketIndent scanner.context.cursor last next ∧
          Crosses scanner.tabWidth scanner.context.bracketIndent scanner'.context.cursor last'
            next') := by
  by_cases hmode : scanner.mode = .dispatch
  · have hmode' := h.mode.trans hmode
    unfold Scanner.step
    simp only [hmode, hmode']
    cases hbrackets : scanner.context.inBrackets with
    | false =>
        have hskip := lockstep_joined.skipBlanks h.context.cursor scanner.tabWidth
          scanner.context.bracketIndent
        left
        apply h.stepDispatch lockstep_joined
        all_goals
          rw [h.tabWidth, h.context.bracketIndent, h.context.inBrackets_eq, hbrackets]
        · rw [hskip.1]
          exact hskip.2.1
        · exact hskip.2.2
    | true =>
        cases h.context.cursor.skipsAlike scanner.tabWidth scanner.context.bracketIndent with
        | before hflag hjoined =>
            left
            apply h.stepDispatch lockstep_joined
            all_goals
              rw [h.tabWidth, h.context.bracketIndent, h.context.inBrackets_eq, hbrackets]
            · exact hflag
            · exact hjoined
        | across hmet hcrosses hcrosses' =>
            exact .inr ⟨trivial, rfl, _, _, _, _, hmet, hcrosses, hcrosses'⟩
  · left
    exact h.step (fun _ => lockstep_joined.sameLine h.context.cursor fun _ => by
      rw [h.context.cursor.position]) (.inr hclosed) hmode

end Scanner

end Offside.Scan
