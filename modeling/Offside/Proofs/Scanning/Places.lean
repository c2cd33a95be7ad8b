import Offside.Proofs.Scanning.Balance
import Offside.Proofs.Scanning.Lockstep

/-!
# Places in a token stream

The kind of the token that was given last, and whether it is the first one, tells which kinds of token
may come next.  A scanner keeps to this: its mode and whether its line has content fit the place that
it has reached, and a step leads from one place to the next.
-/

namespace Offside

namespace Scan

open Parse (Item)

/-! ## Places -/

inductive Place where
  | start
  | first
  | between
  | closing
  | ending
  | opened
  | inLine
  | finished
deriving DecidableEq

def Place.behind? (place : Place) (kind : TokenKind) : Option Place :=
  match kind with
  | .indent =>
      match place with
      | .start => some .first
      | .first | .between => some .opened
      | _ => none
  | .dedent =>
      match place with
      | .first => some .ending
      | .between | .closing => some .closing
      | _ => none
  | .newline => if place = .inLine then some .between else none
  | .eof => if place = .closing ∨ place = .ending then some .finished else none
  | _ => if place = .start ∨ place = .ending ∨ place = .finished then none else some .inLine

theorem Place.behind?_of_content {place : Place} {kind : TokenKind} (h : kind.isStructural = false) :
    place.behind? kind =
      if place = .start ∨ place = .ending ∨ place = .finished then none else some .inLine := by
  unfold behind?
  split <;> first | contradiction | rfl

/-- Up to the first failure, only tokens stand where they may stand, and none is missing at the end. -/
def Shaped : Place → List Item → Prop
  | place, [] => place = .finished
  | _, .error _ :: _ => True
  | place, .ok token :: rest => ∃ place', place.behind? token.kind = some place' ∧ Shaped place' rest

end Scan

/-! ## Cursors -/

namespace Text.Cursor

variable {cursor next : Cursor} {c : Char}

def AtLexeme (cursor : Cursor) : Prop :=
  ∃ c next, cursor.read? = some (c, next) ∧ isBlank c = false

theorem atEnd_of_read? (h : cursor.read? = some (c, next)) : cursor.atEnd = false := by
  rw [atEnd, List.isEmpty_eq_false_iff]
  intro hrest
  rw [(read?_eq_none_iff cursor).2 hrest] at h
  contradiction

theorem column_pos_of_read? (h : cursor.read? = some (c, next)) : 0 < next.position.column := by
  unfold read? Position.advance Position.newline at h
  grind

theorem column_of_lineFeed (h : cursor.read? = some ('\n', next)) : next.position.column = 1 := by
  unfold read? Position.advance Position.newline at h
  grind

theorem column_pos_of_span (h : 0 < cursor.position.column) (p : Char → Bool) :
    0 < (cursor.span p).2.position.column := by
  fun_induction span p cursor <;> grind [column_pos_of_read?]

theorem span_stops {p : Char → Bool} (h : (cursor.span p).2.read? = some (c, next)) :
    p c = false := by
  fun_induction span p cursor <;> grind

end Text.Cursor

namespace Scan

open Parse (Item)
open Text (Cursor Position)

theorem column_pos_of_skipBlanks {cursor : Cursor} (h : 0 < cursor.position.column)
    (tabWidth limit : UInt64) (joined : Bool) :
    0 < (skipBlanks tabWidth limit joined cursor).2.position.column := by
  fun_induction skipBlanks tabWidth limit joined cursor <;> grind [Cursor.column_pos_of_read?]

theorem skipBlanks_of_atLexeme {cursor : Cursor} (h : cursor.AtLexeme)
    (tabWidth limit : UInt64) (joined : Bool) :
    skipBlanks tabWidth limit joined cursor = (false, cursor) := by
  obtain ⟨c, next, hread, hblank⟩ := h
  have hc : c ≠ '\n' := by
    rintro rfl
    contradiction
  have hinline : Text.isInlineBlank c = false := by simp [Text.isInlineBlank, hblank]
  rw [skipBlanks_of_char hread hc, hinline]
  rfl

theorem scanToken_keeps {P : Cursor → Prop}
    (hkeeps : ∀ {cursor next : Cursor} {c : Char}, P cursor → cursor.read? = some (c, next) →
      c ≠ '\n' → P next)
    {context : Context} {c : Char} {next : Cursor} (h : P context.cursor)
    (hread : context.cursor.read? = some (c, next)) (hc : c ≠ '\n') :
    P (Scanner.scanToken context c next).2.cursor := by
  have hpar : Parallel fun cursor cursor' => cursor' = cursor ∧ P cursor := by
    rintro _ cursor ⟨rfl, hcursor⟩
    cases hread : cursor.read? with
    | none => exact .ended (.ended hread) (.ended hread)
    | some first =>
        obtain ⟨c, next⟩ := first
        by_cases hc : c = '\n'
        · subst hc
          exact .ended (.breaks hread) (.breaks hread)
        · exact .reads hc hread hread ⟨rfl, hkeeps hcursor hread hc⟩
  have habreast : Context.Abreast (fun cursor cursor' => cursor' = cursor ∧ P cursor)
      context context := ⟨⟨rfl, h⟩, rfl, rfl, rfl⟩
  exact (habreast.scanToken hpar hread ⟨rfl, hkeeps h hread hc⟩).2.cursor.2

theorem column_lt_of_scanToken {context : Context} {c : Char} {next : Cursor}
    (hread : context.cursor.read? = some (c, next)) (hc : c ≠ '\n') :
    context.cursor.position.column <
      (Scanner.scanToken context c next).2.cursor.position.column := by
  have hsum := @scanToken_keeps
    (fun cursor => cursor.position.column + cursor.rest.length =
      context.cursor.position.column + context.cursor.rest.length)
    (by
      intro cursor next c hcursor hread hc
      unfold Cursor.read? Position.advance at hread
      grind) context c next rfl hread hc
  have hless := Scanner.scanToken_length_lt context c next hread
  omega

/-! ## Scanners -/

namespace Scanner

def Fits (place : Place) (scanner : Scanner) : Prop :=
  match scanner.mode, scanner.lineOpen with
  | .fileStart, false =>
      place = .start ∧ scanner.context.openers = [] ∧ scanner.context.indents = [] ∧
        scanner.position.column = 1
  | .indent, false =>
      (place = .first ∨ place = .between) ∧ scanner.context.openers = [] ∧
        (scanner.context.cursor.atEnd = true ∨ scanner.position.column = 1)
  | .indent, true =>
      place = .inLine ∧ (scanner.context.cursor.atEnd = true ∨
        scanner.context.inBrackets = true ∨ scanner.position.column ≠ 1)
  | .dispatch, false =>
      (place = .first ∨ place = .between ∨ place = .closing ∨ place = .opened) ∧
        scanner.context.openers = [] ∧ scanner.context.cursor.AtLexeme
  | .dispatch, true => place = .inLine
  | .dedent _, false =>
      scanner.context.openers = [] ∧
        ((scanner.context.cursor.atEnd = true ∧
            (place = .first ∨ place = .between ∨ place = .closing)) ∨
          (scanner.context.cursor.AtLexeme ∧ (place = .between ∨ place = .closing)))
  | .fileEnd, false =>
      scanner.context.cursor.atEnd = true ∧
        (place = .first ∨ place = .between ∨ place = .closing)
  | .eof, false => scanner.context.cursor.atEnd = true ∧ (place = .closing ∨ place = .ending)
  | .done, false => scanner.context.cursor.atEnd = true ∧ place = .finished
  | _, _ => False

structure Stands (place : Place) (scanner : Scanner) : Prop where
  fits : scanner.Fits place
  first : place = .first → scanner.context.indents = [0]
  column : 0 < scanner.position.column

theorem Stands.lineOpen {scanner : Scanner} {place : Place} (h : scanner.Stands place)
    (hmode : scanner.mode = .indent) (hend : scanner.context.cursor.atEnd = false)
    (hopeners : scanner.context.openers = []) (hcolumn : scanner.position.column = 1) :
    scanner.lineOpen = false := by
  have hfits := h.fits
  cases hopen : scanner.lineOpen with
  | false => rfl
  | true =>
      simp only [Fits, hmode, hopen] at hfits
      simp [hend, hcolumn, Context.inBrackets, hopeners] at hfits

theorem Stands.mode_ne_done {scanner : Scanner} {place : Place} (h : scanner.Stands place)
    (hend : scanner.context.cursor.atEnd = false) : scanner.mode ≠ .done := by
  intro hmode
  have hfits := h.fits
  cases hopen : scanner.lineOpen <;> simp [Fits, hmode, hopen, hend] at hfits

def Passes (place : Place) : Emission × Scanner → Prop
  | (.silent, after) => after.Stands place
  | (.token token, after) =>
      ∃ place', place.behind? token.kind = some place' ∧ after.Stands place'
  | (.failure _, _) => True

variable {scanner : Scanner} {place : Place}

theorem passes_of_content {token : Token} {mode : Mode} {context : Context}
    (hplace : place ≠ .start ∧ place ≠ .ending ∧ place ≠ .finished)
    (hkind : token.kind.isStructural = false) (hcolumn : 0 < context.cursor.position.column)
    (hmode : mode = .dispatch ∨ mode = .indent ∧ (context.cursor.atEnd = true ∨
      context.inBrackets = true ∨ context.cursor.position.column ≠ 1)) :
    Passes place (scanner.emit token mode context) := by
  have hopen := lineOpenAfter_of_content hkind scanner.lineOpen
  refine ⟨.inLine, ?_, ?_, fun h => by contradiction, hcolumn⟩
  · rw [Place.behind?_of_content hkind]
    simp [hplace]
  · rcases hmode with rfl | ⟨rfl, hmode⟩
    · simp only [Fits, hopen]
    · simp only [Fits, hopen]
      exact ⟨trivial, hmode⟩

theorem passes_endOfText {context : Context} (h : scanner.Stands place)
    (hmode : scanner.mode = .indent) (hend : context.cursor.atEnd = true)
    (hcolumn : 0 < context.cursor.position.column)
    (hopeners : context.openers = scanner.context.openers)
    (hindents : context.indents = scanner.context.indents) :
    Passes place (scanner.endOfText context) := by
  have hfits := h.fits
  unfold endOfText
  rw [hopeners]
  cases hopen : scanner.lineOpen with
  | true =>
      simp only [Fits, hmode, hopen] at hfits
      obtain ⟨rfl, -⟩ := hfits
      split
      · exact passes_of_content (by decide) rfl hcolumn (.inr ⟨rfl, .inl hend⟩)
      · rename_i hnone
        rw [if_pos rfl]
        refine ⟨.between, rfl, ?_, fun h => by contradiction, hcolumn⟩
        exact ⟨.inr rfl, hopeners.trans hnone, .inl hend⟩
  | false =>
      simp only [Fits, hmode, hopen] at hfits
      obtain ⟨hplace, hnone, -⟩ := hfits
      rw [hnone, if_neg (by decide)]
      refine ⟨?_, fun hfirst => hindents.trans (h.first hfirst), hcolumn⟩
      simp only [Fits, hopen]
      refine ⟨hopeners.trans hnone, .inl ⟨hend, ?_⟩⟩
      rcases hplace with rfl | rfl <;> simp

theorem passes_compareWidth {context : Context} {width : UInt64} (h : scanner.Stands place)
    (hplace : place = .first ∨ place = .between) (hopen : scanner.lineOpen = false)
    (hlexeme : context.cursor.AtLexeme) (hcolumn : 0 < context.cursor.position.column)
    (hopeners : context.openers = []) (hindents : context.indents = scanner.context.indents) :
    Passes place (scanner.compareWidth width context) := by
  unfold compareWidth
  simp only
  split
  · refine ⟨?_, fun hfirst => hindents.trans (h.first hfirst), hcolumn⟩
    simp only [Fits, hopen]
    refine ⟨?_, hopeners, hlexeme⟩
    rcases hplace with rfl | rfl <;> simp
  · split
    · refine ⟨.opened, ?_, ?_, fun h => by contradiction, ?_⟩
      · rcases hplace with rfl | rfl <;> rfl
      · simp only [Fits, Token.plain, lineOpenAfter, hopen]
        unfold Context.pushIndent
        split
        · exact ⟨by simp, hopeners, hlexeme⟩
        · exact ⟨by simp, hopeners, hlexeme⟩
      · unfold Context.pushIndent
        split
        · exact hcolumn
        · exact hcolumn
    · split
      · rename_i hsame hless hlevel
        have hbetween : place = .between := by
          rcases hplace with rfl | rfl
          · have hbase : context.indent = 0 := by
              rw [Context.indent, hindents, h.first rfl]
              rfl
            rw [hbase] at hsame hless
            exact absurd (UInt64.pos_iff_ne_zero.2 hsame) hless
          · rfl
        subst hbetween
        refine ⟨?_, fun h => by contradiction, hcolumn⟩
        simp only [Fits, hopen]
        exact ⟨hopeners, .inr ⟨hlexeme, .inl trivial⟩⟩
      · trivial

theorem passes_stepIndent (h : scanner.Stands place) (hmode : scanner.mode = .indent) :
    Passes place scanner.stepIndent := by
  unfold stepIndent
  split
  · rename_i hend
    exact passes_endOfText h hmode hend h.column rfl rfl
  · rename_i hend
    have hfits := h.fits
    cases hopen : scanner.lineOpen with
    | true =>
        simp only [Fits, hmode, hopen] at hfits
        have hinside : (scanner.context.inBrackets || scanner.position.column != 1) = true := by
          simpa [hend] using hfits.2
        rw [if_pos hinside]
        refine ⟨?_, h.first, h.column⟩
        simp only [Fits, hopen]
        exact hfits.1
    | false =>
        simp only [Fits, hmode, hopen] at hfits
        obtain ⟨hplace, hopeners, hcolumn⟩ := hfits
        have hinside : ¬ (scanner.context.inBrackets || scanner.position.column != 1) = true := by
          simpa [Context.inBrackets, hopeners, hend] using hcolumn
        rw [if_neg hinside]
        have hblanks := Cursor.column_pos_of_span h.column Text.isInlineBlank
        unfold startLine
        simp only
        split
        · rename_i hread
          have hend' : (scanner.context.cursor.span Text.isInlineBlank).2.atEnd = true := by
            rw [Cursor.atEnd, (Cursor.read?_eq_none_iff _).1 hread]
            rfl
          exact passes_endOfText h hmode hend' hblanks rfl rfl
        · rename_i c next hread
          split
          · rename_i hc
            subst hc
            refine ⟨?_, h.first, Cursor.column_pos_of_read? hread⟩
            simp only [Fits, hopen]
            exact ⟨hplace, hopeners, .inr (Cursor.column_of_lineFeed hread)⟩
          · rename_i hc
            refine passes_compareWidth h hplace hopen ⟨c, next, hread, ?_⟩ hblanks hopeners rfl
            simpa [Text.isInlineBlank, hc] using Cursor.span_stops hread

theorem passes_stepDispatch (h : scanner.Stands place) (hmode : scanner.mode = .dispatch) :
    Passes place scanner.stepDispatch := by
  have hfits := h.fits
  have hblanks := column_pos_of_skipBlanks h.column scanner.tabWidth scanner.context.bracketIndent
    scanner.context.inBrackets
  unfold stepDispatch
  cases hopen : scanner.lineOpen with
  | false =>
      simp only [Fits, hmode, hopen] at hfits
      obtain ⟨hplace, hopeners, hlexeme⟩ := hfits
      obtain ⟨c, next, hread, hblank⟩ := id hlexeme
      have hc : c ≠ '\n' := by
        rintro rfl
        contradiction
      simp only [skipBlanks_of_atLexeme hlexeme, Bool.false_eq_true, if_false, hread, hc]
      have hless := column_lt_of_scanToken hread hc
      have hcolumn : 0 < scanner.context.cursor.position.column := h.column
      refine passes_of_content ?_ (scanToken_lexical ..).kind (Nat.lt_trans hcolumn hless)
        (.inr ⟨rfl, .inr (.inr (Nat.ne_of_gt (Nat.lt_of_le_of_lt hcolumn hless)))⟩)
      rcases hplace with rfl | rfl | rfl | rfl <;> simp
  | true =>
      simp only [Fits, hmode, hopen] at hfits
      subst hfits
      simp only
      split
      · exact passes_of_content (by decide) rfl hblanks (.inl rfl)
      · rename_i hflag
        split
        · rename_i hread
          refine ⟨?_, h.first, hblanks⟩
          simp only [Fits, hopen]
          refine ⟨trivial, .inl ?_⟩
          rw [Cursor.atEnd, (Cursor.read?_eq_none_iff _).1 hread]
          rfl
        · rename_i c next hread
          split
          · rename_i hc
            subst hc
            refine ⟨.between, rfl, ?_, fun h => by contradiction, Cursor.column_pos_of_read? hread⟩
            simp only [Fits, Token.plain, lineOpenAfter]
            refine ⟨.inr trivial, ?_, .inr (Cursor.column_of_lineFeed hread)⟩
            cases hbrackets : scanner.context.inBrackets with
            | false => simpa [Context.inBrackets] using hbrackets
            | true =>
                rw [hbrackets] at hflag hread
                exact absurd rfl (ne_lineFeed_of_skipBlanks (by simpa using hflag) hread)
          · rename_i hc
            have hless := @column_lt_of_scanToken { scanner.context with cursor := _ } _ _ hread hc
            refine passes_of_content (by decide) (scanToken_lexical ..).kind ?_
              (.inr ⟨rfl, .inr (.inr ?_)⟩)
            · exact Nat.lt_trans hblanks hless
            · exact Nat.ne_of_gt (Nat.lt_of_le_of_lt hblanks hless)

theorem passes_stepDedent {target : UInt64} (h : scanner.Stands place)
    (hmode : scanner.mode = .dedent target) : Passes place (scanner.stepDedent target) := by
  have hfits := h.fits
  cases hopen : scanner.lineOpen with
  | true => simp [Fits, hmode, hopen] at hfits
  | false =>
      simp only [Fits, hmode, hopen] at hfits
      obtain ⟨hopeners, hplace⟩ := hfits
      unfold stepDedent
      simp only
      split
      · rename_i hless
        have hfirst : place ≠ .first := by
          intro hfirst
          rw [Context.indent, h.first hfirst] at hless
          exact absurd hless (UInt64.not_lt_zero)
        have hbehind : place.behind? .dedent = some .closing := by
          rcases hplace with ⟨-, rfl | rfl | rfl⟩ | ⟨-, rfl | rfl⟩ <;> first | contradiction | rfl
        refine ⟨.closing, hbehind, ?_, fun h => by contradiction, h.column⟩
        simp only [Fits, Token.plain, lineOpenAfter, hopen]
        refine ⟨hopeners, ?_⟩
        rcases hplace with ⟨hend, -⟩ | ⟨hlexeme, -⟩
        · exact .inl ⟨hend, by simp⟩
        · exact .inr ⟨hlexeme, by simp⟩
      · split
        · rename_i hend
          refine ⟨?_, h.first, h.column⟩
          simp only [Fits, hopen]
          rcases hplace with ⟨-, hplace⟩ | ⟨-, hplace⟩
          · exact ⟨hend, hplace⟩
          · exact ⟨hend, .inr hplace⟩
        · rename_i hend
          refine ⟨?_, h.first, h.column⟩
          simp only [Fits, hopen]
          rcases hplace with ⟨hend', -⟩ | ⟨hlexeme, rfl | rfl⟩
          · exact absurd hend' hend
          · exact ⟨by simp, hopeners, hlexeme⟩
          · exact ⟨by simp, hopeners, hlexeme⟩

theorem passes_step (h : scanner.Stands place) (hdone : scanner.mode ≠ .done) :
    Passes place scanner.step := by
  have hfits := h.fits
  unfold step
  cases hmode : scanner.mode with
  | indent => exact passes_stepIndent h hmode
  | dispatch => exact passes_stepDispatch h hmode
  | dedent target => exact passes_stepDedent h hmode
  | done => contradiction
  | fileStart =>
      cases hopen : scanner.lineOpen with
      | true => simp [Fits, hmode, hopen] at hfits
      | false =>
          simp only [Fits, hmode, hopen] at hfits
          obtain ⟨rfl, hopeners, hindents, hcolumn⟩ := hfits
          have hpush : scanner.context.pushIndent 0 = { scanner.context with indents := [0] } := by
            simp [Context.pushIndent, Context.acceptsIndent, hindents]
          simp only [hpush]
          refine ⟨.first, rfl, ?_, fun _ => rfl, h.column⟩
          simp only [Fits, Token.plain, lineOpenAfter, hopen]
          exact ⟨.inl trivial, hopeners, .inr hcolumn⟩
  | fileEnd =>
      cases hopen : scanner.lineOpen with
      | true => simp [Fits, hmode, hopen] at hfits
      | false =>
          simp only [Fits, hmode, hopen] at hfits
          obtain ⟨hend, hplace⟩ := hfits
          have hbehind : ∃ place', place.behind? .dedent = some place' ∧
              (place' = .closing ∨ place' = .ending) := by
            rcases hplace with rfl | rfl | rfl
            · exact ⟨.ending, rfl, .inr rfl⟩
            · exact ⟨.closing, rfl, .inl rfl⟩
            · exact ⟨.closing, rfl, .inl rfl⟩
          obtain ⟨place', hbehind, hplace'⟩ := hbehind
          refine ⟨place', hbehind, ?_, ?_, h.column⟩
          · simp only [Fits, Token.plain, lineOpenAfter, hopen]
            exact ⟨hend, hplace'⟩
          · rintro rfl
            simp at hplace'
  | eof =>
      cases hopen : scanner.lineOpen with
      | true => simp [Fits, hmode, hopen] at hfits
      | false =>
          simp only [Fits, hmode, hopen] at hfits
          refine ⟨.finished, ?_, ?_, fun h => by contradiction, h.column⟩
          · simp [Place.behind?, Token.plain, hfits.2]
          · simp only [Fits, Token.plain, lineOpenAfter, hopen]
            exact ⟨hfits.1, trivial⟩

theorem Stands.step (h : scanner.Stands place) (hmode : scanner.mode ≠ .done)
    (hsafe : ∀ failure, scanner.step.1 ≠ .failure failure) :
    ∃ place', scanner.step.2.Stands place' := by
  have hpasses := passes_step h hmode
  cases hstep : scanner.step with
  | mk emission after =>
      rw [hstep] at hpasses hsafe
      cases emission with
      | silent => exact ⟨place, hpasses⟩
      | token token =>
          obtain ⟨place', -, hafter⟩ := hpasses
          exact ⟨place', hafter⟩
      | failure failure => exact absurd rfl (hsafe failure)

theorem outcomes_shaped (h : scanner.Stands place) : Shaped place scanner.outcomes := by
  induction scanner using step_induction generalizing place with
  | done scanner hmode =>
      have hfits := h.fits
      rw [outcomes_of_done hmode]
      cases hopen : scanner.lineOpen with
      | true => simp [Fits, hmode, hopen] at hfits
      | false =>
          simp only [Fits, hmode, hopen] at hfits
          exact hfits.2
  | step scanner hmode ih =>
      have hpasses := passes_step h hmode
      cases hstep : scanner.step with
      | mk emission after =>
          rw [hstep] at ih hpasses
          cases emission with
          | silent =>
              rw [outcomes_of_silent hmode hstep (mode_ne_done_of_silent hstep)]
              exact ih hpasses
          | token token =>
              rw [outcomes_of_token hmode hstep]
              obtain ⟨place', hbehind, hafter⟩ := hpasses
              exact ⟨place', hbehind, ih hafter⟩
          | failure failure =>
              rw [outcomes_of_failure hmode hstep]
              trivial

theorem outcomes_ofText_shaped (text : String) (tabWidth : UInt64) :
    Shaped .start (Scanner.ofText text tabWidth).outcomes := by
  apply outcomes_shaped
  refine ⟨?_, fun h => by contradiction, Nat.one_pos⟩
  exact ⟨rfl, rfl, rfl, rfl⟩

end Scanner

end Scan

end Offside
