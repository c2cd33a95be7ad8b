import Offside.Proofs.Scanning.BlankLine
import Offside.Proofs.Scanning.Lossless
import Offside.Proofs.Scanning.NextLine
import Offside.Proofs.Scanning.Reading

/-!
# Joined lines

Within brackets a line break is a blank unless a statement follows, and so a text gives the same tokens
with a space instead of it.  Up to the line break both scanners read the same characters.  No lexeme
but a string literal tells the two blanks apart, and a look at the line in front of the space sees a
statement only where the look at the line behind it does, since a wider line starts no more statements.
Behind the blanks both scanners are in front of the same token, and its column is not looked at.
-/

namespace Offside.Scan

open Text (Cursor isInlineBlank)

variable {back : List Char} {cursor cursor' next : Cursor} {tabWidth limit : UInt64}

/-! ## The line break -/

def Emission.fault? : Emission → Option Fault
  | .token first => first.fault?
  | .silent | .failure _ => none

/-- The scanner comes to skip the line break in front of `back` as a blank within brackets, and does
not report before that a string literal runs into this line break. -/
inductive Scanner.Joins (back : List Char) : Scanner → Prop where
  | here {scanner : Scanner} (hmode : scanner.mode = .dispatch)
      (hbrackets : scanner.context.inBrackets = true)
      (hahead : '\n' :: back <:+ scanner.context.cursor.rest)
      (hskip : (skipBlanks scanner.tabWidth scanner.context.bracketIndent true
        scanner.context.cursor).2.rest <:+ back) : Joins back scanner
  | later {scanner : Scanner}
      (hreported : scanner.step.1.fault? = some .newlineInString →
        scanner.step.2.context.cursor.rest ≠ '\n' :: back)
      (hlater : Joins back scanner.step.2) : Joins back scanner

/-! ## Cursors -/

theorem exists_read?_of_lineFeed (h : cursor.rest = '\n' :: back) :
    ∃ next, cursor.read? = some ('\n', next) ∧ next.rest = back := by
  unfold Cursor.read?
  rw [h]
  exact ⟨_, rfl, rfl⟩

structure Apart (tabWidth : UInt64) (back : List Char) (cursor cursor' : Cursor) : Prop where
  position : cursor'.position = cursor.position
  rest : ∃ front, '\r' ∉ front ∧ cursor.rest = front ++ '\n' :: back ∧
    cursor'.rest = front ++ ' ' :: back
  narrow : Narrow tabWidth cursor'.rest

theorem Apart.read_cases (h : Apart tabWidth back cursor cursor') :
    (cursor.rest = '\n' :: back ∧ ∃ next next', cursor.read? = some ('\n', next) ∧
      cursor'.read? = some (' ', next') ∧ next.rest = back ∧ next'.rest = back) ∨
    (cursor.rest ≠ '\n' :: back ∧ ∃ c next next', cursor.read? = some (c, next) ∧
      cursor'.read? = some (c, next') ∧ Apart tabWidth back next next') := by
  obtain ⟨rest, position⟩ := cursor
  obtain ⟨rest', position'⟩ := cursor'
  obtain ⟨hposition, ⟨front, hreturn, hrest, hrest'⟩, hnarrow⟩ := h
  simp only at hposition hrest hrest' hnarrow
  subst hposition hrest hrest'
  cases front with
  | nil => exact .inl ⟨rfl, _, _, rfl, rfl, rfl, rfl⟩
  | cons c front =>
      have hc : c ≠ '\r' := fun hc => hreturn (by simp [hc])
      have hread : ∀ rest, (⟨c :: rest, position'⟩ : Cursor).read? =
          some (c, ⟨rest, position'.advance c⟩) := by
        simp [Cursor.read?, hc]
      refine .inr ⟨?_, c, _, _, hread _, hread _, rfl, ⟨front, ?_, rfl, rfl⟩, ?_⟩
      · intro hrest
        have hlength := congrArg List.length hrest
        simp only [List.cons_append, List.length_cons, List.length_append] at hlength
        omega
      · exact fun hmem => hreturn (List.mem_cons_of_mem c hmem)
      · exact hnarrow.sublist (List.sublist_cons_self c _)

theorem Apart.length_lt (h : Apart tabWidth back cursor cursor') :
    back.length < cursor.rest.length := by
  obtain ⟨front, -, hrest, -⟩ := h.rest
  simp [hrest]
  omega

theorem Apart.atEnd (h : Apart tabWidth back cursor cursor') :
    cursor.atEnd = false ∧ cursor'.atEnd = false := by
  obtain ⟨front, -, hrest, hrest'⟩ := h.rest
  simp [Cursor.atEnd, hrest, hrest']

theorem nearby_apart : Nearby (Apart tabWidth back) := by
  intro cursor cursor' h
  rcases h.read_cases with ⟨-, next, next', hread, hread', -⟩ | ⟨-, c, next, next', hread, hread', hnext⟩
  · refine .gap ?_ ?_
    · intro c hc
      obtain rfl : '\n' = c := by simpa [Cursor.current?, hread] using hc
      decide
    · intro c hc
      obtain rfl : ' ' = c := by simpa [Cursor.current?, hread'] using hc
      decide
  · exact .reads hread hread' hnext

theorem Apart.abreast (h : Apart tabWidth back cursor cursor') (hbreak : cursor.rest ≠ '\n' :: back) :
    Abreast (Apart tabWidth back) (Apart tabWidth back) cursor cursor' := by
  rcases h.read_cases with ⟨hrest, -⟩ | ⟨-, c, next, next', hread, hread', hnext⟩
  · contradiction
  · by_cases hc : c = '\n'
    · subst hc
      exact .breaks hread hread' hnext
    · exact .reads hc hread hread' hnext

theorem Apart.span (h : Apart tabWidth back cursor cursor')
    (hbreak : (cursor.span isInlineBlank).2.rest ≠ '\n' :: back) :
    (cursor'.span isInlineBlank).1 = (cursor.span isInlineBlank).1 ∧
      Apart tabWidth back (cursor.span isInlineBlank).2 (cursor'.span isInlineBlank).2 := by
  have hstep : ∀ ⦃cursor cursor' : Cursor⦄,
      (Apart tabWidth back cursor cursor' ∧ (cursor.span isInlineBlank).2.rest ≠ '\n' :: back) →
      (cursor.span isInlineBlank = ([], cursor) ∧ cursor'.span isInlineBlank = ([], cursor')) ∨
      ∃ c next next', cursor.read? = some (c, next) ∧ cursor'.read? = some (c, next') ∧
        Apart tabWidth back next next' ∧ (next.span isInlineBlank).2.rest ≠ '\n' :: back := by
    rintro cursor cursor' ⟨h, hbreak⟩
    rcases h.read_cases with ⟨hrest, next, _, hread, -⟩ | ⟨-, c, next, next', hread, hread', hnext⟩
    · rw [Cursor.span_of_read? hread] at hbreak
      exact absurd hrest hbreak
    · rw [Cursor.span_of_read? hread] at hbreak ⊢
      rw [Cursor.span_of_read? hread']
      by_cases hc : isInlineBlank c = true
      · rw [if_pos hc] at hbreak
        exact .inr ⟨c, next, next', hread, hread', hnext, hbreak⟩
      · rw [if_neg hc, if_neg hc]
        exact .inl ⟨rfl, rfl⟩
  obtain ⟨hblanks, hafter, -⟩ := span_alike hstep ⟨h, hbreak⟩
  exact ⟨hblanks, hafter⟩

/-! ## The look at a line -/

theorem startsStatement_append_content {text more : List Char} {c : Char}
    (hcontent : ¬ ∀ d ∈ text, isInlineBlank d = true) (hc : isWordChar c = false) :
    startsStatement tabWidth limit (text ++ c :: more) = startsStatement tabWidth limit text := by
  have hempty : ¬ (text.dropWhile isInlineBlank).isEmpty = true := by
    rwa [List.isEmpty_iff, List.dropWhile_eq_nil_iff]
  unfold startsStatement
  rw [blanks_append hcontent, List.dropWhile_append, if_neg hempty, (takeWhile_stop hc _ _).1]

/-- A look at the line in front of the space sees nothing new, or the statement behind it. -/
theorem Apart.startsStatement_cases (h : Apart tabWidth back cursor cursor') (limit : UInt64) :
    startsStatement tabWidth limit cursor'.rest = startsStatement tabWidth limit cursor.rest ∨
    (startsStatement tabWidth limit cursor.rest = false ∧
      startsStatement tabWidth limit back = true ∧
      (cursor.span isInlineBlank).2.rest = '\n' :: back) := by
  have hnarrow := h.narrow
  obtain ⟨front, hreturn, hrest, hrest'⟩ := h.rest
  rw [hrest'] at hnarrow ⊢
  by_cases hblanks : ∀ c ∈ front, isInlineBlank c = true
  · have hfeed : startsStatement tabWidth limit cursor.rest = false := by
      rw [hrest, startsStatement_of_lineFeed hblanks]
    rw [hfeed]
    cases hstarts : startsStatement tabWidth limit (front ++ ' ' :: back) with
    | false => exact .inl rfl
    | true =>
        have hspaced : ∀ c ∈ front ++ [' '], isInlineBlank c = true := by
          intro c hc
          rcases List.mem_append.1 hc with hc | hc
          · exact hblanks c hc
          · rw [List.mem_singleton.1 hc]
            decide
        have hsolid : ∀ c ∈ front, isInlineBlank c = true ∧ Cursor.isSolid c = true := by
          intro c hc
          refine ⟨hblanks c hc, ?_⟩
          have hc' : c ≠ '\r' := fun heq => hreturn (heq ▸ hc)
          have hfeed' : c ≠ '\n' := by
            rintro rfl
            have hblank := hblanks _ hc
            contradiction
          simp [Cursor.isSolid, hc', hfeed']
        rw [List.append_cons] at hstarts hnarrow
        obtain ⟨-, hpasses⟩ :=
          Cursor.span_passes hrest hsolid (by simp [Text.isInlineBlank_lineFeed])
        exact .inr ⟨rfl, startsStatement_of_blanks hspaced hnarrow hstarts, hpasses.rest⟩
  · left
    rw [hrest, startsStatement_append_content hblanks isWordChar_lineFeed,
      startsStatement_append_content hblanks (by decide)]

/-! ## Blanks -/

/-- What the scanners skip within brackets: the same blanks in front of the line break, blanks up to a
statement behind the line break, or blanks beyond it. -/
inductive SkipsApart (tabWidth limit : UInt64) (back : List Char) (cursor cursor' : Cursor) : Prop where
  | before (hflag : (skipBlanks tabWidth limit true cursor').1 =
        (skipBlanks tabWidth limit true cursor).1)
      (hapart : Apart tabWidth back (skipBlanks tabWidth limit true cursor).2
        (skipBlanks tabWidth limit true cursor').2)
      (hbreak : (skipBlanks tabWidth limit true cursor).2.rest ≠ '\n' :: back)
  | stops (hflag : (skipBlanks tabWidth limit true cursor).1 = true)
      (hbreak : (skipBlanks tabWidth limit true cursor).2.rest = '\n' :: back)
  | across {next next' : Cursor} (hrest : next.rest = back) (hrest' : next'.rest = back)
      (hcolumn : 0 < next.position.column) (hcolumn' : 0 < next'.position.column)
      (hskip : skipBlanks tabWidth limit true cursor = skipBlanks tabWidth limit true next)
      (hskip' : skipBlanks tabWidth limit true cursor' = skipBlanks tabWidth limit true next')

theorem SkipsApart.of_eq {next' : Cursor} (h : SkipsApart tabWidth limit back next next')
    (hskip : skipBlanks tabWidth limit true cursor = skipBlanks tabWidth limit true next)
    (hskip' : skipBlanks tabWidth limit true cursor' = skipBlanks tabWidth limit true next') :
    SkipsApart tabWidth limit back cursor cursor' := by
  cases h with
  | before hflag hapart hbreak =>
      rw [← hskip, ← hskip'] at hflag hapart
      rw [← hskip] at hbreak
      exact .before hflag hapart hbreak
  | stops hflag hbreak =>
      rw [← hskip] at hflag hbreak
      exact .stops hflag hbreak
  | across hrest hrest' hcolumn hcolumn' hnext hnext' =>
      exact .across hrest hrest' hcolumn hcolumn' (hskip.trans hnext) (hskip'.trans hnext')

/-- In front of both line breaks: an earlier line break is skipped in both texts or in none, unless a
blank line lies between it and the line break, behind which a statement is seen. -/
theorem Apart.skipsApart_of_lineFeed {next' : Cursor} (h : Apart tabWidth back cursor cursor')
    (hbreak : cursor.rest ≠ '\n' :: back) (hread : cursor.read? = some ('\n', next))
    (hread' : cursor'.read? = some ('\n', next')) (hnext : Apart tabWidth back next next')
    (htail : SkipsApart tabWidth limit back next next') :
    SkipsApart tabWidth limit back cursor cursor' := by
  have hskip := skipBlanks_of_joined hread tabWidth limit
  have hskip' := skipBlanks_of_joined hread' tabWidth limit
  rw [dropLineBreak_of_read? hread] at hskip
  rw [dropLineBreak_of_read? hread'] at hskip'
  rcases hnext.startsStatement_cases limit with hsame | ⟨hstarts, hback, hblank⟩
  · rw [hsame] at hskip'
    cases hstarts : startsStatement tabWidth limit next.rest with
    | true =>
        rw [hstarts, if_pos rfl] at hskip hskip'
        exact .before (by rw [hskip, hskip']) (by rw [hskip, hskip']; exact h)
          (by rw [hskip]; exact hbreak)
    | false =>
        rw [hstarts, if_neg Bool.false_ne_true] at hskip hskip'
        exact htail.of_eq hskip hskip'
  · rw [hstarts, if_neg Bool.false_ne_true, skipBlanks_span _ _ next] at hskip
    obtain ⟨behind, hlast, hbehind⟩ := exists_read?_of_lineFeed hblank
    rw [skipBlanks_of_joined hlast, dropLineBreak_of_read? hlast, hbehind, hback, if_pos rfl] at hskip
    exact .stops (by rw [hskip]) (by rw [hskip]; exact hblank)

theorem Apart.skipsApart (h : Apart tabWidth back cursor cursor') (limit : UInt64) :
    SkipsApart tabWidth limit back cursor cursor' := by
  induction hlength : cursor.rest.length using Nat.strongRecOn generalizing cursor cursor' with
  | ind length ih =>
      rcases h.read_cases with
        ⟨hbreak, next, next', hread, hread', hrest, hrest'⟩ | ⟨hbreak, c, next, next', hread, hread', hnext⟩
      · have hskip := skipBlanks_of_joined hread tabWidth limit
        rw [dropLineBreak_of_read? hread, hrest] at hskip
        cases hstarts : startsStatement tabWidth limit back with
        | true =>
            rw [hstarts, if_pos rfl] at hskip
            exact .stops (by rw [hskip]) (by rw [hskip]; exact hbreak)
        | false =>
            rw [hstarts, if_neg Bool.false_ne_true] at hskip
            have hskip' := skipBlanks_of_char hread' (by decide) tabWidth limit true
            rw [if_pos (by decide)] at hskip'
            exact .across hrest hrest' (Cursor.column_pos_of_read? hread)
              (Cursor.column_pos_of_read? hread') hskip hskip'
      · have hshorter := Cursor.length_lt_of_read? hread
        have htail := ih _ (hlength ▸ hshorter) hnext rfl
        by_cases hc : c = '\n'
        · subst hc
          exact h.skipsApart_of_lineFeed hbreak hread hread' hnext htail
        · have hskip := skipBlanks_of_char hread hc tabWidth limit true
          have hskip' := skipBlanks_of_char hread' hc tabWidth limit true
          cases hblank : isInlineBlank c with
          | true =>
              rw [hblank, if_pos rfl] at hskip hskip'
              exact htail.of_eq hskip hskip'
          | false =>
              rw [hblank, if_neg Bool.false_ne_true] at hskip hskip'
              exact .before (by rw [hskip, hskip']) (by rw [hskip, hskip']; exact h)
                (by rw [hskip]; exact hbreak)

/-! ## String literals -/

theorem Apart.readQuotation (h : Apart tabWidth back cursor cursor') :
    ((Scan.readQuotation cursor).ending = .lineBreak ∧
      (Scan.readQuotation cursor).cursor.rest = '\n' :: back) ∨
    ∃ after', Scan.readQuotation cursor' = { Scan.readQuotation cursor with cursor := after' } ∧
      Apart tabWidth back (Scan.readQuotation cursor).cursor after' := by
  induction hlength : cursor.rest.length using Nat.strongRecOn generalizing cursor cursor' with
  | ind length ih =>
      rcases h.read_cases with ⟨hbreak, next, _, hread, -⟩ | ⟨-, c, next, next', hread, hread', hnext⟩
      · rw [readQuotation_of_lineFeed hread]
        exact .inl ⟨rfl, hbreak⟩
      · have hshorter := Cursor.length_lt_of_read? hread
        have htail := ih _ (hlength ▸ hshorter) hnext rfl
        by_cases hfeed : c = '\n'
        · subst hfeed
          rw [readQuotation_of_lineFeed hread, readQuotation_of_lineFeed hread']
          exact .inr ⟨_, rfl, h⟩
        by_cases hmark : c = '"'
        · subst hmark
          rw [readQuotation_of_mark hread, readQuotation_of_mark hread']
          exact .inr ⟨_, rfl, hnext⟩
        by_cases hbackslash : c = '\\'
        · subst hbackslash
          rcases hnext.read_cases with
            ⟨hbreak, later, _, hletter, -⟩ | ⟨-, letter, later, later', hletter, hletter', hlater⟩
          · rw [readQuotation_of_backslash_end hread (.breaks hletter),
              readQuotation_of_lineFeed hletter]
            exact .inl ⟨rfl, hbreak⟩
          · by_cases hend : letter = '\n'
            · subst hend
              rw [readQuotation_of_backslash_end hread (.breaks hletter),
                readQuotation_of_backslash_end hread' (.breaks hletter')]
              exact htail
            · have hshorter' := Cursor.length_lt_of_read? hletter
              have hrest := ih _ (hlength ▸ Nat.lt_trans hshorter' hshorter) hlater rfl
              rw [readQuotation_of_backslash hread, readQuotation_of_backslash hread', h.position]
              simp only [hletter, hletter', hend, if_false]
              rcases hrest with hrest | ⟨after', hrest, hafter⟩
              · left
                split <;> exact hrest
              · right
                split <;> exact ⟨after', by rw [hrest], hafter⟩
        · rw [readQuotation_of_char hread hfeed hmark hbackslash,
            readQuotation_of_char hread' hfeed hmark hbackslash]
          rcases htail with htail | ⟨after', htail, hafter⟩
          · exact .inl htail
          · exact .inr ⟨after', by rw [htail], hafter⟩

theorem Apart.scanQuotation (h : Apart tabWidth back cursor cursor')
    (hmark : cursor.current? = some '"') :
    ((Scan.scanQuotation cursor).1.fault? = some .newlineInString ∧
      (Scan.scanQuotation cursor).2.rest = '\n' :: back) ∨
    ((Scan.scanQuotation cursor').1.bare = (Scan.scanQuotation cursor).1.bare ∧
      Apart tabWidth back (Scan.scanQuotation cursor).2 (Scan.scanQuotation cursor').2) := by
  unfold Scan.scanQuotation
  rcases (nearby_apart.advance h hmark (by decide)).readQuotation with
    ⟨hending, hbreak⟩ | ⟨after', hquotation, hafter⟩
  · left
    refine ⟨?_, hbreak⟩
    unfold Quotation.token
    simp only [hending]
    rfl
  · right
    simp only [hquotation, h.position]
    refine ⟨?_, hafter⟩
    unfold Quotation.token
    cases (Scan.readQuotation cursor.advance).ending <;> rfl

/-! ## Behind the line break -/

def SameRest (cursor cursor' : Cursor) : Prop := cursor'.rest = cursor.rest

theorem lockstep_sameRest : Lockstep SameRest SameText := by
  rintro ⟨rest, position⟩ ⟨rest', position'⟩ hrest
  obtain rfl : rest' = rest := hrest
  rcases Cursor.read?_cases rest' with hread | ⟨more, bytes, hread⟩ | ⟨c, more, hc, hread⟩
  · exact .ended (hread _) (hread _)
  · exact .breaks (hread _) (hread _) ⟨rfl, fun _ => rfl⟩
  · exact .reads hc (hread _) (hread _) rfl

theorem SameRest.sameText (h : SameRest cursor cursor')
    (hcolumn : cursor.atEnd = true ∨ cursor.position.column = 1)
    (hcolumn' : cursor'.atEnd = true ∨ cursor'.position.column = 1) : SameText cursor cursor' := by
  have hend : cursor'.atEnd = cursor.atEnd := lockstep_sameRest.atEnd_eq h
  refine ⟨h, fun hmore => ?_⟩
  rw [hend, hmore] at hcolumn'
  rw [hmore] at hcolumn
  rw [hcolumn.resolve_left Bool.false_ne_true, hcolumn'.resolve_left Bool.false_ne_true]

namespace Scanner

variable {scanner scanner' : Scanner}

/-- Behind a token the line goes on, and behind its end the text is over or the next line begins. -/
theorem stepDispatch_leads (scanner : Scanner) :
    scanner.stepDispatch.2.mode = .dispatch ∨
    (scanner.stepDispatch.2.mode = .indent ∧
      (scanner.stepDispatch.2.lineOpen = true ∨
        scanner.stepDispatch.2.context.cursor.atEnd = true ∨
        scanner.stepDispatch.2.context.cursor.position.column = 1)) := by
  unfold stepDispatch
  simp only
  split
  · exact .inl rfl
  · split
    · rename_i hread
      exact .inr ⟨rfl, .inr (.inl (List.isEmpty_iff.2 ((Cursor.read?_eq_none_iff _).1 hread)))⟩
    · rename_i c behind hread
      split
      · rename_i hc
        subst hc
        exact .inr ⟨rfl, .inr (.inr (Cursor.column_of_lineFeed hread))⟩
      · exact .inr ⟨rfl, .inl (lineOpenAfter_of_content (scanToken_lexical ..).kind _)⟩

def BetweenTokens (scanner : Scanner) : Prop :=
  scanner.mode = .dispatch ∨ (scanner.mode = .indent ∧ scanner.lineOpen = true)

/-- A token that is read from the same text leads on in the line, or to where the columns agree. -/
theorem Abreast.step_sameRest (h : scanner.Abreast SameRest scanner') (hmode : scanner.mode = .dispatch) :
    scanner'.step.1.bare = scanner.step.1.bare ∧
      (scanner.step.2.Abreast SameText scanner'.step.2 ∨
        (scanner.step.2.BetweenTokens ∧ scanner.step.2.Abreast SameRest scanner'.step.2)) := by
  have hmode' := h.mode.trans hmode
  have hstep : scanner.step = scanner.stepDispatch := by simp only [Scanner.step, hmode]
  have hstep' : scanner'.step = scanner'.stepDispatch := by simp only [Scanner.step, hmode']
  have hskip := lockstep_sameRest.skipBlanks_sameText (fun _ _ h => h) (fun _ _ h => h.rest)
    h.context.cursor scanner.tabWidth scanner.context.bracketIndent scanner.context.inBrackets
  have hsteps : StepsAlike SameRest SameText scanner.step scanner'.step := by
    rw [hstep, hstep']
    apply h.stepDispatch lockstep_sameRest
    all_goals
      rw [h.tabWidth, h.context.bracketIndent, h.context.inBrackets_eq]
    · exact hskip.1
    · exact hskip.2
  refine ⟨hsteps.1, ?_⟩
  rcases hsteps.2 with hafter | ⟨-, hafter⟩
  · have hleads := scanner.stepDispatch_leads
    have hleads' := scanner'.stepDispatch_leads
    rw [← hstep] at hleads
    rw [← hstep', hafter.mode, hafter.lineOpen] at hleads'
    rcases hleads with hdispatch | ⟨hindent, hline⟩
    · exact .inr ⟨.inl hdispatch, hafter⟩
    · cases hopen : scanner.step.2.lineOpen with
      | true => exact .inr ⟨.inr ⟨hindent, hopen⟩, hafter⟩
      | false =>
          simp only [hindent, hopen, reduceCtorEq, Bool.false_eq_true, false_or, true_and]
            at hline hleads'
          exact .inl (hafter.withCursor (hafter.context.cursor.sameText hline hleads'))
  · exact .inl hafter

theorem Abreast.outcomes_of_sameRest (h : scanner.Abreast SameRest scanner')
    (hsettled : scanner.Settled) (hsettled' : scanner'.Settled) (hplace : scanner.BetweenTokens) :
    scanner'.outcomes.map bareItem = scanner.outcomes.map bareItem := by
  induction scanner using step_induction generalizing scanner' with
  | done scanner hdone => rw [outcomes_of_done hdone, outcomes_of_done (h.mode.trans hdone)]
  | step scanner hdone ih =>
      have hdone' : scanner'.mode ≠ .done := by rwa [h.mode]
      rcases hplace with hmode | ⟨hmode, hopen⟩
      · obtain ⟨hbare, hafter⟩ := h.step_sameRest hmode
        have hbehind : scanner'.step.2.outcomes.map bareItem =
            scanner.step.2.outcomes.map bareItem := by
          rcases hafter with hafter | ⟨hplace, hafter⟩
          · exact hafter.outcomes_of_sameText
          · exact ih hafter hsettled.step hsettled'.step hplace
        rw [outcomes_eq_items_append hdone, outcomes_eq_items_append hdone', List.map_append,
          List.map_append, Emission.items_bare hbare, hbehind]
      · have hmode' := h.mode.trans hmode
        have hatEnd := lockstep_sameRest.atEnd_eq h.context.cursor
        cases hend : scanner.context.cursor.atEnd with
        | true =>
            have hsame := h.context.cursor.sameText (.inl hend) (.inl (hatEnd.trans hend))
            exact (h.withCursor hsame).outcomes_of_sameText
        | false =>
            have hend' := hatEnd.trans hend
            have hstep := step_of_inside hmode hend (hsettled.inside hmode hend hopen)
            have hstep' := step_of_inside hmode' hend'
              (hsettled'.inside hmode' hend' (h.lineOpen.trans hopen))
            have hafter := hsettled.step
            have hafter' := hsettled'.step
            rw [hstep] at ih hafter
            rw [hstep'] at hafter'
            rw [outcomes_of_silent hdone hstep (by simp), outcomes_of_silent hdone' hstep' (by simp)]
            exact ih ⟨h.context, rfl, h.tabWidth, h.lineOpen⟩ hafter hafter' (.inl rfl)

theorem outcomes_of_across {within : Cursor → Cursor → Prop} {next next' : Cursor}
    (h : scanner.Abreast within scanner') (hmode : scanner.mode = .dispatch)
    (hbrackets : scanner.context.inBrackets = true) (hrest : SameRest next next')
    (hcolumn : 0 < next.position.column) (hcolumn' : 0 < next'.position.column)
    (hskip : skipBlanks scanner.tabWidth scanner.context.bracketIndent true scanner.context.cursor =
      skipBlanks scanner.tabWidth scanner.context.bracketIndent true next)
    (hskip' : skipBlanks scanner.tabWidth scanner.context.bracketIndent true
      scanner'.context.cursor =
      skipBlanks scanner.tabWidth scanner.context.bracketIndent true next') :
    scanner'.outcomes.map bareItem = scanner.outcomes.map bareItem := by
  have hmode' := h.mode.trans hmode
  rw [outcomes_of_skips hmode hbrackets hskip,
    @outcomes_of_skips next' scanner' hmode' (h.context.inBrackets_eq.trans hbrackets)
      (by rw [h.tabWidth, h.context.bracketIndent, hskip'])]
  have hmoved : (scanner.moved next).Abreast SameRest (scanner'.moved next') :=
    ⟨h.context.withCursor hrest, h.mode, h.tabWidth, h.lineOpen⟩
  have hsettled : ∀ {scanner : Scanner}, scanner.mode = .dispatch → 0 < scanner.position.column →
      scanner.Settled := by
    intro scanner hmode hcolumn
    exact settled_of_mode hcolumn (by simp [hmode]) (by simp [hmode])
  exact hmoved.outcomes_of_sameRest (hsettled hmode hcolumn) (hsettled hmode' hcolumn') (.inl hmode)

/-! ## Up to the line break -/

theorem step_length_le (scanner : Scanner) :
    scanner.step.2.context.cursor.rest.length ≤ scanner.context.cursor.rest.length := by
  have hcovers : ∀ {cursor after : Cursor} {text : List Char}, cursor.Covers after text →
      after.rest.length ≤ cursor.rest.length := by
    intro cursor after text hcovers
    simp [hcovers.rest]
  have hskips : ∀ {cursor after : Cursor}, cursor.Skips after →
      after.rest.length ≤ cursor.rest.length := by
    rintro cursor after ⟨blanks, hblanks, -⟩
    exact hcovers hblanks
  have hyields := scanner.step_yields
  cases hstep : scanner.step with
  | mk emission after =>
      rw [hstep] at hyields
      cases emission with
      | silent => exact hskips hyields
      | token token =>
          obtain ⟨start, hblanks, hcuts⟩ := hyields
          obtain ⟨text, htext, -⟩ := hcuts.text
          exact Nat.le_trans (hcovers htext) (hskips hblanks)
      | failure failure => exact hskips hyields.1

theorem Joins.length_lt (h : scanner.Joins back) :
    back.length < scanner.context.cursor.rest.length := by
  induction h with
  | here _ _ hahead _ => exact hahead.length_le
  | later _ _ ih => exact Nat.lt_of_lt_of_le ih (step_length_le _)

theorem Joins.mode_ne (h : scanner.Joins back) :
    scanner.mode ≠ .fileEnd ∧ scanner.mode ≠ .eof ∧ scanner.mode ≠ .done := by
  induction h with
  | here hmode _ _ _ => simp [hmode]
  | @later scanner _ _ ih =>
      refine ⟨fun hmode => ?_, fun hmode => ?_, fun hmode => ?_⟩
      · have hstep : scanner.step.2.mode = .eof := by simp only [Scanner.step, hmode, emit]
        exact ih.2.1 hstep
      · have hstep : scanner.step.2.mode = .done := by simp only [Scanner.step, hmode, emit]
        exact ih.2.2 hstep
      · have hstep : scanner.step.2 = scanner := by simp only [Scanner.step, hmode]
        rw [hstep] at ih
        exact ih.2.2 hmode

theorem not_joins_of_lineBreak (hmode : scanner.mode = .dispatch)
    (hbrackets : scanner.context.inBrackets = false)
    (hbreak : (scanner.context.cursor.span isInlineBlank).2.rest = '\n' :: back) :
    ¬ scanner.Joins back := by
  intro hjoins
  cases hjoins with
  | here _ hopen _ _ =>
      rw [hbrackets] at hopen
      contradiction
  | later _ hlater =>
      obtain ⟨behind, hread, hrest⟩ := exists_read?_of_lineFeed hbreak
      have hskip := skipBlanks_unjoined scanner.tabWidth scanner.context.bracketIndent
        scanner.context.cursor
      rw [← hbrackets] at hskip
      have hlength := hlater.length_lt
      rw [step_of_lineBreak hmode (by rw [hskip, hbrackets]) hread] at hlength
      exact absurd hlength (by simp [emit, hrest])

section

variable (h : scanner.Abreast (Apart scanner.tabWidth back) scanner')
include h

/-- In front of the line break the same token is read, unless a string literal runs into it. -/
theorem Abreast.stepDispatch_apart
    (hreported : scanner.stepDispatch.1.fault? = some .newlineInString →
      scanner.stepDispatch.2.context.cursor.rest ≠ '\n' :: back)
    (hflag : (skipBlanks scanner'.tabWidth scanner'.context.bracketIndent
        scanner'.context.inBrackets scanner'.context.cursor).1 =
      (skipBlanks scanner.tabWidth scanner.context.bracketIndent scanner.context.inBrackets
        scanner.context.cursor).1)
    (hskip : Apart scanner.tabWidth back
      (skipBlanks scanner.tabWidth scanner.context.bracketIndent scanner.context.inBrackets
        scanner.context.cursor).2
      (skipBlanks scanner'.tabWidth scanner'.context.bracketIndent
        scanner'.context.inBrackets scanner'.context.cursor).2)
    (hbreak : (skipBlanks scanner.tabWidth scanner.context.bracketIndent scanner.context.inBrackets
      scanner.context.cursor).2.rest ≠ '\n' :: back) :
    StepsAlike (Apart scanner.tabWidth back) (Apart scanner.tabWidth back) scanner.stepDispatch
      scanner'.stepDispatch := by
  rcases h.stepDispatch_cases hflag hskip (hskip.abreast hbreak) with
    halike | ⟨context, context', c, next, next', hcontext, hread, hnext, hstep, hstep'⟩
  · exact halike
  · rcases hcontext.scanToken_nearby nearby_apart c hnext with ⟨hbare, hafter⟩ | ⟨rfl, hscan, hscan'⟩
    · have hemit := h.emit hafter hbare .indent
      rw [hstep, hstep']
      exact ⟨hemit.1, .inl hemit.2⟩
    · rw [hscan] at hstep
      rw [hscan'] at hstep'
      rcases hcontext.cursor.scanQuotation (by simp [Cursor.current?, hread]) with
        ⟨hfault, hinto⟩ | ⟨hbare, hafter⟩
      · rw [hstep] at hreported
        exact absurd hinto (hreported hfault)
      · have hemit := h.emit (hcontext.withCursor hafter) hbare .indent
        rw [hstep, hstep']
        exact ⟨hemit.1, .inl hemit.2⟩

/-- Within brackets the steps are alike, or both scanners skip the blanks up to the same text. -/
theorem Abreast.stepDispatch_joined (hmode : scanner.mode = .dispatch)
    (hbrackets : scanner.context.inBrackets = true)
    (hreported : scanner.stepDispatch.1.fault? = some .newlineInString →
      scanner.stepDispatch.2.context.cursor.rest ≠ '\n' :: back)
    (hlater : scanner.stepDispatch.2.Joins back) :
    StepsAlike (Apart scanner.tabWidth back) (Apart scanner.tabWidth back) scanner.stepDispatch
        scanner'.stepDispatch ∨
      scanner'.outcomes.map bareItem = scanner.outcomes.map bareItem := by
  cases h.context.cursor.skipsApart scanner.context.bracketIndent with
  | before hflag hapart hbreak =>
      left
      apply h.stepDispatch_apart hreported
      all_goals
        simp only [h.tabWidth, h.context.bracketIndent, h.context.inBrackets_eq, hbrackets]
      · exact hflag
      · exact hapart
      · exact hbreak
  | stops hflag hbreak =>
      have hstep : scanner.stepDispatch = scanner.abandonBrackets { scanner.context with
          cursor := (skipBlanks scanner.tabWidth scanner.context.bracketIndent true
            scanner.context.cursor).2 } := by
        unfold Scanner.stepDispatch
        simp only [hbrackets, hflag, if_true]
      have hspan : ((skipBlanks scanner.tabWidth scanner.context.bracketIndent true
          scanner.context.cursor).2.span isInlineBlank).2.rest = '\n' :: back := by
        obtain ⟨behind, hread, -⟩ := exists_read?_of_lineFeed hbreak
        rw [Cursor.span_of_read? hread]
        exact hbreak
      rw [hstep] at hlater
      exact absurd hlater (not_joins_of_lineBreak rfl rfl hspan)
  | across hrest hrest' hcolumn hcolumn' hskip hskip' =>
      exact .inr (outcomes_of_across h hmode hbrackets (hrest'.trans hrest.symm) hcolumn hcolumn'
        hskip hskip')

/-- At the start of a line the scanners take the same step, since the line break does not end it. -/
theorem Abreast.step_indent_apart (hmode : scanner.mode = .indent)
    (hlater : scanner.step.2.Joins back) :
    StepsAlike (Apart scanner.tabWidth back) (Apart scanner.tabWidth back) scanner.step
      scanner'.step := by
  have hmode' := h.mode.trans hmode
  have hcolumn : scanner'.position.column = scanner.position.column := by
    rw [position, h.context.cursor.position, position]
  have hatEnd := h.context.cursor.atEnd
  by_cases hinside : scanner.context.inBrackets = true ∨ scanner.position.column ≠ 1
  · have hinside' : scanner'.context.inBrackets = true ∨ scanner'.position.column ≠ 1 := by
      rwa [h.context.inBrackets_eq, hcolumn]
    rw [step_of_inside hmode hatEnd.1 hinside, step_of_inside hmode' hatEnd.2 hinside']
    exact ⟨rfl, .inl ⟨h.context, rfl, h.tabWidth, h.lineOpen⟩⟩
  · simp only [not_or, Bool.not_eq_true, not_not] at hinside
    have hbreak : (scanner.context.cursor.span isInlineBlank).2.rest ≠ '\n' :: back := by
      intro hbreak
      obtain ⟨behind, hread, hrest⟩ := exists_read?_of_lineFeed hbreak
      have hlength := hlater.length_lt
      rw [step_of_blankLine hmode hatEnd.1 hinside.1 hinside.2 hread] at hlength
      exact absurd hlength (by simp [Scanner.goTo, hrest])
    obtain ⟨hblanks, hafter⟩ := h.context.cursor.span hbreak
    have hline : SameLine (Apart scanner.tabWidth back) (Apart scanner.tabWidth back)
        scanner.context.cursor scanner'.context.cursor :=
      ⟨hatEnd.2.trans hatEnd.1.symm, fun _ => hcolumn, hblanks, hafter, hafter.abreast hbreak⟩
    exact h.step (fun _ => hline) (.inl fun _ _ hnext => hnext) (by simp [hmode])

theorem Abreast.step_apart (hjoins : scanner.Joins back)
    (hreported : scanner.step.1.fault? = some .newlineInString →
      scanner.step.2.context.cursor.rest ≠ '\n' :: back) (hlater : scanner.step.2.Joins back) :
    StepsAlike (Apart scanner.tabWidth back) (Apart scanner.tabWidth back) scanner.step
        scanner'.step ∨
      scanner'.outcomes.map bareItem = scanner.outcomes.map bareItem := by
  have hends := hjoins.mode_ne
  cases hmode : scanner.mode with
  | fileStart =>
      exact .inl (h.step (absurd hmode) (.inl fun _ _ hnext => hnext) (by simp [hmode]))
  | indent => exact .inl (h.step_indent_apart hmode hlater)
  | dispatch =>
      have hmode' := h.mode.trans hmode
      have hstep : scanner.step = scanner.stepDispatch := by simp only [Scanner.step, hmode]
      have hstep' : scanner'.step = scanner'.stepDispatch := by simp only [Scanner.step, hmode']
      rw [hstep] at hreported hlater
      rw [hstep, hstep']
      cases hbrackets : scanner.context.inBrackets with
      | true => exact h.stepDispatch_joined hmode hbrackets hreported hlater
      | false =>
          left
          have hbreak : (scanner.context.cursor.span isInlineBlank).2.rest ≠ '\n' :: back :=
            fun hbreak => not_joins_of_lineBreak hmode hbrackets hbreak hjoins
          apply h.stepDispatch_apart hreported
          all_goals
            simp only [h.context.inBrackets_eq, hbrackets, skipBlanks_unjoined]
          · exact (h.context.cursor.span hbreak).2
          · exact hbreak
  | dedent target =>
      have hmode' := h.mode.trans hmode
      have hstep : scanner.step = scanner.stepDedent target := by simp only [Scanner.step, hmode]
      have hstep' : scanner'.step = scanner'.stepDedent target := by
        simp only [Scanner.step, hmode']
      have hatEnd := h.context.cursor.atEnd
      rw [hstep, hstep']
      exact .inl (h.stepDedent (hatEnd.2.trans hatEnd.1.symm) target)
  | fileEnd => exact absurd hmode hends.1
  | eof => exact absurd hmode hends.2.1
  | done => exact absurd hmode hends.2.2

end

/-- With a space instead of the joined line break the outcomes are the same up to their places. -/
theorem Joins.outcomes_eq (hjoins : scanner.Joins back)
    (h : scanner.Abreast (Apart scanner.tabWidth back) scanner') :
    scanner'.outcomes.map bareItem = scanner.outcomes.map bareItem := by
  induction hjoins generalizing scanner' with
  | @here scanner hmode hbrackets hahead hskip =>
      have hlength := hskip.length_le
      cases h.context.cursor.skipsApart scanner.context.bracketIndent with
      | before _ hapart _ => exact absurd hapart.length_lt (Nat.not_lt.2 hlength)
      | stops _ hbreak =>
          rw [hbreak] at hlength
          exact absurd hlength (by simp)
      | across hrest hrest' hcolumn hcolumn' hnext hnext' =>
          exact outcomes_of_across h hmode hbrackets (hrest'.trans hrest.symm) hcolumn hcolumn' hnext
            hnext'
  | @later scanner hreported hlater ih =>
      have hjoins := Joins.later hreported hlater
      rcases h.step_apart hjoins hreported hlater with hsteps | hsame
      · have hdone := hjoins.mode_ne.2.2
        have hafter : scanner.step.2.Abreast (Apart scanner.step.2.tabWidth back) scanner'.step.2 := by
          rw [step_tabWidth]
          exact hsteps.abreast (fun _ _ h => h) fun _ _ h => h
        rw [outcomes_eq_items_append hdone, outcomes_eq_items_append (h.mode ▸ hdone),
          List.map_append, List.map_append, Emission.items_bare hsteps.1, ih hafter]
      · exact hsame

/-- A space instead of a line break that is joined changes the outcomes of a text only in their
places. -/
theorem outcomes_joinedLine {front back : String}
    (hreturn : '\r' ∉ front.toList) (hnarrow : Narrow tabWidth (front ++ " " ++ back).toList)
    (hjoins : (ofText (front ++ "\n" ++ back) tabWidth).Joins back.toList) :
    (ofText (front ++ " " ++ back) tabWidth).outcomes.map bareItem =
      (ofText (front ++ "\n" ++ back) tabWidth).outcomes.map bareItem := by
  apply hjoins.outcomes_eq
  refine ⟨⟨⟨rfl, ⟨front.toList, hreturn, ?_, ?_⟩, hnarrow⟩, rfl, rfl, rfl⟩, rfl, rfl, rfl⟩ <;>
    simp [ofText, Context.ofText, Cursor.ofText]

end Scanner

end Offside.Scan
