import Offside.Proofs.Grammar.Bare
import Offside.Proofs.Scanning.Outcomes
import Offside.Proofs.Scanning.Parallel

/-!
# Scanners in lockstep

Two cursors are abreast if they read the same character, and a relation between cursors is in
lockstep if this goes on up to the end of the line.  Since no lexeme reaches over a line break, two
cursors in lockstep give the same lexemes, and two scanners take the same steps as long as they agree
on the line breaks that are blanks.
-/

namespace Offside

open Text (Cursor Position)

/-! ## Outcomes up to positions -/

def LexFailure.bare : LexFailure → LexFailure
  | .mismatchedIndent width levels _ => .mismatchedIndent width levels .start
  | .pastEndOfInput _ => .pastEndOfInput .start

namespace Scan

def Emission.bare : Emission → Emission
  | .silent => .silent
  | .token first => .token first.bare
  | .failure reason => .failure reason.bare

def bareItem : Except LexFailure Token → Except LexFailure Token
  | .ok token => .ok token.bare
  | .error failure => .error failure.bare

def Emission.items : Emission → List (Except LexFailure Token)
  | .silent => []
  | .token first => [.ok first]
  | .failure reason => [.error reason]

theorem Emission.items_bare {emission emission' : Emission} (h : emission'.bare = emission.bare) :
    emission'.items.map bareItem = emission.items.map bareItem := by
  have hitems : ∀ emission : Emission, emission.items.map bareItem = emission.bare.items := by
    rintro (_ | _ | _) <;> rfl
  rw [hitems, hitems, h]

theorem exists_tokens_of_bareItem {items : List (Except LexFailure Token)} {tokens : List Token}
    (h : items.map bareItem = (tokens.map .ok).map bareItem) :
    ∃ tokens' : List Token, items = tokens'.map .ok ∧ Grammar.Respelled tokens tokens' := by
  induction items generalizing tokens with
  | nil =>
      obtain rfl : tokens = [] := by simpa using h.symm
      exact ⟨[], rfl, rfl⟩
  | cons item items ih =>
      cases tokens with
      | nil => simp at h
      | cons token tokens =>
          rw [List.map_cons, List.map_cons, List.map_cons, List.cons.injEq] at h
          obtain ⟨tokens', rfl, hrest⟩ := ih h.2
          cases item with
          | error failure =>
              have hfirst := h.1
              simp [bareItem] at hfirst
          | ok first =>
              have hfirst : first.bare = token.bare := by
                simpa [bareItem] using h.1
              refine ⟨first :: tokens', rfl, ?_⟩
              rw [Grammar.Respelled, List.map_cons, List.map_cons, hfirst, hrest]

/-! ## Reading a blank -/

variable {cursor next : Cursor} {c : Char}

theorem skipBlanks_of_end (h : cursor.read? = none) (tabWidth limit : UInt64) (joined : Bool) :
    skipBlanks tabWidth limit joined cursor = (false, cursor) := by
  unfold skipBlanks
  grind

theorem skipBlanks_of_lineFeed (h : cursor.read? = some ('\n', next)) (tabWidth limit : UInt64) :
    skipBlanks tabWidth limit false cursor = (false, cursor) := by
  unfold skipBlanks
  grind [Text.isInlineBlank_lineFeed]

theorem skipBlanks_of_joined (h : cursor.read? = some ('\n', next)) (tabWidth limit : UInt64) :
    skipBlanks tabWidth limit true cursor =
      if startsStatement tabWidth limit (dropLineBreak cursor.rest) then (true, cursor)
      else skipBlanks tabWidth limit true next := by
  conv => lhs; unfold skipBlanks
  grind

theorem skipBlanks_of_char (h : cursor.read? = some (c, next)) (hc : c ≠ '\n')
    (tabWidth limit : UInt64) (joined : Bool) :
    skipBlanks tabWidth limit joined cursor =
      if Text.isInlineBlank c then skipBlanks tabWidth limit joined next
      else (false, cursor) := by
  conv => lhs; unfold skipBlanks
  grind

theorem skipBlanks_unjoined (tabWidth limit : UInt64) (cursor : Cursor) :
    skipBlanks tabWidth limit false cursor = (false, (cursor.span Text.isInlineBlank).2) := by
  fun_induction Cursor.span Text.isInlineBlank cursor with
  | case1 cursor hread => exact skipBlanks_of_end hread tabWidth limit false
  | case2 cursor c next hread hblank tail ih =>
      have hc : c ≠ '\n' := by
        rintro rfl
        contradiction
      rw [skipBlanks_of_char hread hc, if_pos hblank]
      exact ih
  | case3 cursor c next hread hblank =>
      by_cases hc : c = '\n'
      · subst hc
        exact skipBlanks_of_lineFeed hread tabWidth limit
      · rw [skipBlanks_of_char hread hc, if_neg hblank]

/-! ## Cursors -/

/-- The cursors read the same character; `behind` relates what is behind a line break, and `within`
what is behind any other character. -/
inductive Abreast (within behind : Cursor → Cursor → Prop) (cursor cursor' : Cursor) : Prop where
  | ended (h : cursor.read? = none) (h' : cursor'.read? = none)
  | breaks {next next' : Cursor} (h : cursor.read? = some ('\n', next))
      (h' : cursor'.read? = some ('\n', next')) (hnext : behind next next')
  | reads {c : Char} {next next' : Cursor} (hc : c ≠ '\n') (h : cursor.read? = some (c, next))
      (h' : cursor'.read? = some (c, next')) (hnext : within next next')

def Lockstep (within behind : Cursor → Cursor → Prop) : Prop :=
  ∀ ⦃cursor cursor' : Cursor⦄, within cursor cursor' → Abreast within behind cursor cursor'

namespace Lockstep

variable {within behind : Cursor → Cursor → Prop} {cursor cursor' : Cursor}

theorem parallel (hlock : Lockstep within behind) : Parallel within := by
  intro cursor cursor' h
  cases hlock h with
  | ended hread hread' => exact .ended (.ended hread) (.ended hread')
  | breaks hread hread' => exact .ended (.breaks hread) (.breaks hread')
  | reads hc hread hread' hnext => exact .reads hc hread hread' hnext

theorem current?_eq (hlock : Lockstep within behind) (h : within cursor cursor') :
    cursor'.current? = cursor.current? := by
  cases hlock h with
  | ended hread hread' => rw [Cursor.current?, Cursor.current?, hread, hread']
  | breaks hread hread' => rw [Cursor.current?, Cursor.current?, hread, hread']; rfl
  | reads _ hread hread' => rw [Cursor.current?, Cursor.current?, hread, hread']; rfl

theorem atEnd_eq (hlock : Lockstep within behind) (h : within cursor cursor') :
    cursor'.atEnd = cursor.atEnd := by
  have hread : ∀ {cursor next : Cursor} {c : Char}, cursor.read? = some (c, next) →
      cursor.atEnd = false := by
    intro cursor next c hread
    rw [Cursor.atEnd, List.isEmpty_eq_false_iff]
    intro hrest
    rw [(Cursor.read?_eq_none_iff cursor).2 hrest] at hread
    contradiction
  cases hlock h with
  | ended hend hend' =>
      rw [Cursor.atEnd, Cursor.atEnd, (Cursor.read?_eq_none_iff _).1 hend,
        (Cursor.read?_eq_none_iff _).1 hend']
  | breaks hfirst hfirst' => rw [hread hfirst, hread hfirst']
  | reads _ hfirst hfirst' => rw [hread hfirst, hread hfirst']

end Lockstep

/-- At the start of a line the same blanks are measured, and the cursors behind them are abreast. -/
structure SameLine (within behind : Cursor → Cursor → Prop) (cursor cursor' : Cursor) : Prop where
  atEnd : cursor'.atEnd = cursor.atEnd
  column : cursor.atEnd = false → cursor'.position.column = cursor.position.column
  blanks : (cursor'.span Text.isInlineBlank).1 = (cursor.span Text.isInlineBlank).1
  after : within (cursor.span Text.isInlineBlank).2 (cursor'.span Text.isInlineBlank).2
  first : Abreast within behind (cursor.span Text.isInlineBlank).2
    (cursor'.span Text.isInlineBlank).2

theorem Lockstep.sameLine {within behind : Cursor → Cursor → Prop} {cursor cursor' : Cursor}
    (hlock : Lockstep within behind) (h : within cursor cursor')
    (hcolumn : cursor.atEnd = false → cursor'.position.column = cursor.position.column) :
    SameLine within behind cursor cursor' := by
  obtain ⟨hblanks, hafter⟩ := hlock.parallel.span h Text.isInlineBlank_lineFeed
  exact ⟨hlock.atEnd_eq h, hcolumn, hblanks, hafter, hlock hafter⟩

/-! ## Blanks -/

variable {within behind : Cursor → Cursor → Prop} {cursor cursor' : Cursor}

theorem Lockstep.skipBlanks (hlock : Lockstep within behind) (h : within cursor cursor')
    (tabWidth limit : UInt64) :
    (Scan.skipBlanks tabWidth limit false cursor).1 = false ∧
      (Scan.skipBlanks tabWidth limit false cursor').1 = false ∧
      within (Scan.skipBlanks tabWidth limit false cursor).2
        (Scan.skipBlanks tabWidth limit false cursor').2 := by
  rw [skipBlanks_unjoined, skipBlanks_unjoined]
  exact ⟨rfl, rfl, (hlock.parallel.span h Text.isInlineBlank_lineFeed).2⟩

theorem ne_lineFeed_of_skipBlanks {tabWidth limit : UInt64} {cursor next : Cursor} {c : Char}
    (hflag : (skipBlanks tabWidth limit true cursor).1 = false)
    (h : (skipBlanks tabWidth limit true cursor).2.read? = some (c, next)) : c ≠ '\n' := by
  fun_induction skipBlanks tabWidth limit true cursor <;> grind

/-! ## Scanners -/

namespace Scanner

structure Abreast (within : Cursor → Cursor → Prop) (scanner scanner' : Scanner) : Prop where
  context : scanner.context.Abreast within scanner'.context
  mode : scanner'.mode = scanner.mode
  tabWidth : scanner'.tabWidth = scanner.tabWidth
  lineOpen : scanner'.lineOpen = scanner.lineOpen

theorem Abreast.withCursor {within within' : Cursor → Cursor → Prop} {scanner scanner' : Scanner}
    (h : scanner.Abreast within scanner')
    (hcursor : within' scanner.context.cursor scanner'.context.cursor) :
    scanner.Abreast within' scanner' :=
  ⟨h.context.withCursor hcursor, h.mode, h.tabWidth, h.lineOpen⟩

theorem Abreast.mono {within within' : Cursor → Cursor → Prop} {scanner scanner' : Scanner}
    (h : scanner.Abreast within scanner')
    (hmono : ∀ ⦃cursor cursor'⦄, within cursor cursor' → within' cursor cursor') :
    scanner.Abreast within' scanner' :=
  h.withCursor (hmono h.context.cursor)

structure BetweenLines (scanner : Scanner) : Prop where
  mode : scanner.mode = .indent
  openers : scanner.context.openers = []
  lineOpen : scanner.lineOpen = false

theorem BetweenLines.not_inBrackets {scanner : Scanner} (h : scanner.BetweenLines) :
    scanner.context.inBrackets = false := by
  simp [Context.inBrackets, h.openers]

def StepsAlike (within behind : Cursor → Cursor → Prop) (result result' : Emission × Scanner) : Prop :=
  result'.1.bare = result.1.bare ∧
    (result.2.Abreast within result'.2 ∨
      (result.2.BetweenLines ∧ result.2.Abreast behind result'.2))

theorem StepsAlike.abreast {within behind either : Cursor → Cursor → Prop}
    {result result' : Emission × Scanner} (h : StepsAlike within behind result result')
    (hwithin : ∀ ⦃cursor cursor'⦄, within cursor cursor' → either cursor cursor')
    (hbehind : ∀ ⦃cursor cursor'⦄, behind cursor cursor' → either cursor cursor') :
    result.2.Abreast either result'.2 :=
  h.2.elim (fun hwithin' => hwithin'.mono hwithin) fun hbehind' => hbehind'.2.mono hbehind

structure ErrsAlike (within : Cursor → Cursor → Prop) (result result' : Emission × Scanner) : Prop where
  token : ∃ token, result.1 = .token token ∧ token.kind = .error
  token' : ∃ token, result'.1 = .token token ∧ token.kind = .error
  differ : result'.2.context.cursor.current? ≠ result.2.context.cursor.current?
  abreast : result.2.Abreast within result'.2

namespace Abreast

variable {scanner scanner' : Scanner} {context context' : Context}

theorem emit (h : scanner.Abreast within scanner') {within' : Cursor → Cursor → Prop}
    (hcontext : context.Abreast within' context') {token token' : Token}
    (htoken : token'.bare = token.bare) (mode : Mode) :
    (Emission.token token').bare = (Emission.token token).bare ∧
      (scanner.emit token mode context).2.Abreast within' (scanner'.emit token' mode context').2 := by
  have hkind : token'.bare.kind = token.bare.kind := congrArg Token.kind htoken
  change token'.kind = token.kind at hkind
  refine ⟨congrArg Emission.token htoken, hcontext, rfl, h.tabWidth, ?_⟩
  simp only [Scanner.emit, h.lineOpen, hkind]

theorem goTo (h : scanner.Abreast within scanner') {within' : Cursor → Cursor → Prop}
    (hcontext : context.Abreast within' context') (mode : Mode) :
    (scanner.goTo mode context).2.Abreast within' (scanner'.goTo mode context').2 :=
  ⟨hcontext, rfl, h.tabWidth, h.lineOpen⟩

private theorem emit_within {start : Cursor → Cursor → Prop} (h : scanner.Abreast start scanner')
    (hcontext : context.Abreast within context') {token token' : Token}
    (htoken : token'.bare = token.bare) (mode : Mode) :
    StepsAlike within behind (scanner.emit token mode context)
      (scanner'.emit token' mode context') :=
  ⟨(h.emit hcontext htoken mode).1, .inl (h.emit hcontext htoken mode).2⟩

private theorem goTo_within {start : Cursor → Cursor → Prop} (h : scanner.Abreast start scanner')
    (hcontext : context.Abreast within context') (mode : Mode) :
    StepsAlike within behind (scanner.goTo mode context) (scanner'.goTo mode context') :=
  ⟨rfl, .inl (h.goTo hcontext mode)⟩

theorem endOfText (h : scanner.Abreast within scanner')
    (hcontext : context.Abreast within context') :
    StepsAlike within behind (scanner.endOfText context) (scanner'.endOfText context') := by
  unfold Scanner.endOfText
  rw [hcontext.openers, h.lineOpen]
  split
  · exact h.emit_within hcontext.drainBrackets rfl .indent
  · split
    · exact h.emit_within hcontext rfl .indent
    · exact h.goTo_within hcontext _

theorem compareWidth (h : scanner.Abreast within scanner')
    (hcontext : context.Abreast within context') (width : UInt64) :
    StepsAlike within behind (scanner.compareWidth width context)
      (scanner'.compareWidth width context') := by
  have hlevel : context'.hasIndent width = context.hasIndent width := by
    rw [Context.hasIndent, hcontext.indents, Context.hasIndent]
  unfold Scanner.compareWidth
  simp only [hcontext.indent_eq, hlevel]
  split
  · exact h.goTo_within hcontext _
  · split
    · exact h.emit_within (hcontext.pushIndent width) rfl .dispatch
    · split
      · exact h.goTo_within hcontext _
      · refine ⟨?_, .inl ⟨hcontext, h.mode, h.tabWidth, h.lineOpen⟩⟩
        simp only [Emission.bare, LexFailure.bare, Context.levels, hcontext.indents]

section

variable {start : Cursor → Cursor → Prop} (h : scanner.Abreast start scanner')
include h

/-- In front of a token the scanners take the same step if they skip the same blanks, or both read a
token from the same character on. -/
theorem stepDispatch_cases
    (hflag : (Scan.skipBlanks scanner'.tabWidth scanner'.context.bracketIndent
        scanner'.context.inBrackets scanner'.context.cursor).1 =
      (Scan.skipBlanks scanner.tabWidth scanner.context.bracketIndent scanner.context.inBrackets
        scanner.context.cursor).1)
    (hskip : within
      (Scan.skipBlanks scanner.tabWidth scanner.context.bracketIndent scanner.context.inBrackets
        scanner.context.cursor).2
      (Scan.skipBlanks scanner'.tabWidth scanner'.context.bracketIndent
        scanner'.context.inBrackets scanner'.context.cursor).2)
    (hfirst : Scan.Abreast within behind
      (Scan.skipBlanks scanner.tabWidth scanner.context.bracketIndent scanner.context.inBrackets
        scanner.context.cursor).2
      (Scan.skipBlanks scanner'.tabWidth scanner'.context.bracketIndent
        scanner'.context.inBrackets scanner'.context.cursor).2) :
    StepsAlike within behind scanner.stepDispatch scanner'.stepDispatch ∨
      ∃ (context context' : Context) (c : Char) (next next' : Cursor),
        context.Abreast within context' ∧ context.cursor.read? = some (c, next) ∧ within next next' ∧
        scanner.stepDispatch =
          scanner.emit (scanToken context c next).1 .indent (scanToken context c next).2 ∧
        scanner'.stepDispatch =
          scanner'.emit (scanToken context' c next').1 .indent (scanToken context' c next').2 := by
  have hcontext := h.context.withCursor hskip
  unfold Scanner.stepDispatch
  simp only [hflag]
  split
  · unfold abandonBrackets
    simp only [h.context.openers]
    exact .inl (h.emit_within hcontext.drainBrackets rfl .dispatch)
  · rename_i hstop
    cases hfirst with
    | ended hread hread' =>
        rw [hread, hread']
        exact .inl (h.goTo_within hcontext _)
    | breaks hread hread' hnext =>
        rw [hread, hread']
        simp only [if_true]
        obtain ⟨htoken, hafter⟩ := h.emit (h.context.withCursor hnext)
          (show (Token.plain .newline _).bare = (Token.plain .newline _).bare from rfl) .indent
        refine .inl ⟨htoken, .inr ⟨⟨rfl, ?_, rfl⟩, hafter⟩⟩
        show scanner.context.openers = []
        cases hbrackets : scanner.context.inBrackets with
        | false => simpa [Context.inBrackets] using hbrackets
        | true =>
            rw [hbrackets] at hread hstop
            exact absurd rfl (ne_lineFeed_of_skipBlanks (by simpa using hstop) hread)
    | reads hc hread hread' hnext =>
        rw [hread, hread']
        simp only [hc, if_false]
        exact .inr ⟨_, _, _, _, _, hcontext, hread, hnext, rfl, rfl⟩

/-- In parallel lines, only a string literal that is not closed is another error in a line that ends
differently. -/
theorem stepDispatch_parallel (hpar : Parallel within)
    (hflag : (Scan.skipBlanks scanner'.tabWidth scanner'.context.bracketIndent
        scanner'.context.inBrackets scanner'.context.cursor).1 =
      (Scan.skipBlanks scanner.tabWidth scanner.context.bracketIndent scanner.context.inBrackets
        scanner.context.cursor).1)
    (hskip : within
      (Scan.skipBlanks scanner.tabWidth scanner.context.bracketIndent scanner.context.inBrackets
        scanner.context.cursor).2
      (Scan.skipBlanks scanner'.tabWidth scanner'.context.bracketIndent
        scanner'.context.inBrackets scanner'.context.cursor).2)
    (hfirst : Scan.Abreast within behind
      (Scan.skipBlanks scanner.tabWidth scanner.context.bracketIndent scanner.context.inBrackets
        scanner.context.cursor).2
      (Scan.skipBlanks scanner'.tabWidth scanner'.context.bracketIndent
        scanner'.context.inBrackets scanner'.context.cursor).2) :
    StepsAlike within behind scanner.stepDispatch scanner'.stepDispatch ∨
      ErrsAlike within scanner.stepDispatch scanner'.stepDispatch := by
  rcases h.stepDispatch_cases hflag hskip hfirst with
    halike | ⟨context, context', c, next, next', hcontext, hread, hnext, hstep, hstep'⟩
  · exact .inl halike
  · obtain ⟨htoken, hafter⟩ := hcontext.scanToken hpar hread hnext
    rw [hstep, hstep']
    rcases htoken with hbare | ⟨herror, herror', hdiffer⟩
    · exact .inl (h.emit_within hafter hbare .indent)
    · refine .inr ⟨⟨_, rfl, herror⟩, ⟨_, rfl, herror'⟩, hdiffer, hafter, rfl, h.tabWidth, ?_⟩
      simp only [id_eq, Prod.map_fst] at herror herror'
      simp only [Scanner.emit, herror, herror', lineOpenAfter]

theorem stepDispatch (hlock : Lockstep within behind)
    (hflag : (Scan.skipBlanks scanner'.tabWidth scanner'.context.bracketIndent
        scanner'.context.inBrackets scanner'.context.cursor).1 =
      (Scan.skipBlanks scanner.tabWidth scanner.context.bracketIndent scanner.context.inBrackets
        scanner.context.cursor).1)
    (hskip : within
      (Scan.skipBlanks scanner.tabWidth scanner.context.bracketIndent scanner.context.inBrackets
        scanner.context.cursor).2
      (Scan.skipBlanks scanner'.tabWidth scanner'.context.bracketIndent
        scanner'.context.inBrackets scanner'.context.cursor).2) :
    StepsAlike within behind scanner.stepDispatch scanner'.stepDispatch := by
  rcases h.stepDispatch_parallel hlock.parallel hflag hskip (hlock hskip) with halike | herrs
  · exact halike
  · exact absurd (hlock.current?_eq herrs.abreast.context.cursor) herrs.differ

end

section

variable (h : scanner.Abreast within scanner')
include h

theorem stepIndent
    (hline : SameLine within behind scanner.context.cursor scanner'.context.cursor)
    (hclosed : (∀ ⦃next next'⦄, behind next next' → within next next') ∨
      (scanner.context.cursor.atEnd = false → scanner.context.openers = [] →
        scanner.position.column = 1 → scanner.lineOpen = false)) :
    StepsAlike within behind scanner.stepIndent scanner'.stepIndent := by
  unfold Scanner.stepIndent
  rw [hline.atEnd, h.context.inBrackets_eq]
  split
  · exact h.endOfText h.context
  · rename_i hend
    have hend : scanner.context.cursor.atEnd = false := by simpa using hend
    rw [show scanner'.position.column = scanner.position.column from hline.column hend]
    split
    · exact h.goTo_within h.context _
    · rename_i hstart
      simp only [Context.inBrackets, Bool.or_eq_true, Bool.not_eq_true', List.isEmpty_eq_false_iff,
        bne_iff_ne, not_or, Decidable.not_not] at hstart
      unfold startLine
      simp only [hline.blanks, h.tabWidth]
      cases hline.first with
      | ended hread hread' =>
          rw [hread, hread']
          exact h.endOfText (h.context.withCursor hline.after)
      | breaks hread hread' hnext =>
          rw [hread, hread']
          simp only [if_true]
          rcases hclosed with hall | hclosed
          · exact h.goTo_within (h.context.withCursor (hall hnext)) .indent
          · exact ⟨rfl, .inr ⟨⟨rfl, hstart.1, hclosed hend hstart.1 hstart.2⟩,
              h.goTo (h.context.withCursor hnext) .indent⟩⟩
      | reads hc hread hread' =>
          rw [hread, hread']
          simp only [hc, if_false]
          exact h.compareWidth (h.context.withCursor hline.after) _

theorem stepDedent (hatEnd : scanner'.context.cursor.atEnd = scanner.context.cursor.atEnd)
    (target : UInt64) :
    StepsAlike within behind (scanner.stepDedent target) (scanner'.stepDedent target) := by
  unfold Scanner.stepDedent
  simp only [h.context.indent_eq, hatEnd]
  split
  · exact h.emit_within h.context.popIndent rfl _
  · split
    · exact h.goTo_within h.context _
    · exact h.goTo_within h.context _

/-- Scanners that are not in front of a token take the same steps.  If the end of a line is told from
what is within a line, blank lines stand between lines only. -/
theorem step
    (hline : scanner.mode ≠ .fileStart →
      SameLine within behind scanner.context.cursor scanner'.context.cursor)
    (hclosed : (∀ ⦃next next'⦄, behind next next' → within next next') ∨
      (scanner.mode = .indent → scanner.context.cursor.atEnd = false →
        scanner.context.openers = [] → scanner.position.column = 1 → scanner.lineOpen = false))
    (hmode : scanner.mode ≠ .dispatch) : StepsAlike within behind scanner.step scanner'.step := by
  unfold Scanner.step
  rw [h.mode]
  split
  · exact h.emit_within (h.context.pushIndent 0) rfl .indent
  · rename_i hindent
    exact h.stepIndent (hline (by simp [hindent])) (hclosed.imp id fun hclosed => hclosed hindent)
  · contradiction
  · rename_i hdedent
    exact h.stepDedent (hline (by simp [hdedent])).atEnd _
  · exact h.emit_within h.context.popIndent rfl .eof
  · exact h.emit_within h.context rfl .done
  · exact ⟨rfl, .inl h⟩

end

end Abreast

/-! ## Outcomes -/

theorem outcomes_eq_items_append {scanner : Scanner} (h : scanner.mode ≠ .done) :
    scanner.outcomes = scanner.step.1.items ++ scanner.step.2.outcomes := by
  cases hstep : scanner.step with
  | mk emission after =>
      cases emission with
      | silent => exact outcomes_of_silent h hstep (mode_ne_done_of_silent hstep)
      | token token => exact outcomes_of_token h hstep
      | failure failure => exact outcomes_of_failure h hstep

end Scanner

end Scan

end Offside
