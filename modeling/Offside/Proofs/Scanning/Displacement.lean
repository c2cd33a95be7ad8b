import Offside.Proofs.Scanning.Outcomes

/-!
# Scanning does not depend on where a text stands

A text that stands some lines and some bytes further down has the same tokens, each of them as many
lines and bytes further down.  Only the column at which reading starts is looked at.
-/

namespace Offside

open Text (Cursor Position)

structure Displacement where
  lines : Nat
  bytes : Nat

namespace Displacement

variable (down : Displacement)

def position (position : Position) : Position :=
  ⟨position.line + down.lines, position.column, position.offset + down.bytes⟩

@[simp] theorem position_column (position : Position) :
    (down.position position).column = position.column := rfl

theorem position_newline (position : Position) (bytes : Nat) :
    (down.position position).newline bytes = down.position (position.newline bytes) := by
  simp [Displacement.position, Position.newline, Nat.add_right_comm]

theorem position_advance (position : Position) (c : Char) :
    (down.position position).advance c = down.position (position.advance c) := by
  unfold Position.advance
  split
  · exact down.position_newline position 1
  · simp [Displacement.position, Nat.add_right_comm]

def cursor (cursor : Cursor) : Cursor := ⟨cursor.rest, down.position cursor.position⟩

def token (token : Token) : Token := { token with position := down.position token.position }

def failure : LexFailure → LexFailure
  | .mismatchedIndent width levels position =>
      .mismatchedIndent width levels (down.position position)
  | .pastEndOfInput position => .pastEndOfInput (down.position position)

def item : Except LexFailure Token → Except LexFailure Token
  | .ok token => .ok (down.token token)
  | .error failure => .error (down.failure failure)

@[simp] theorem cursor_rest (cursor : Cursor) : (down.cursor cursor).rest = cursor.rest := rfl

@[simp] theorem cursor_position (cursor : Cursor) :
    (down.cursor cursor).position = down.position cursor.position := rfl

@[simp] theorem token_kind (token : Token) : (down.token token).kind = token.kind := rfl

@[simp] theorem token_error (fault : Fault) (position : Position) :
    down.token (.error fault position) = .error fault (down.position position) := rfl

@[simp] theorem token_plain (kind : TokenKind) (position : Position) :
    down.token (.plain kind position) = .plain kind (down.position position) := rfl

end Displacement

/-! ## Cursors -/

namespace Text.Cursor

variable (down : Displacement) (cursor : Cursor)

theorem read?_cursor :
    (down.cursor cursor).read? = cursor.read?.map (Prod.map id down.cursor) := by
  unfold read?
  rw [down.cursor_rest, down.cursor_position]
  split
  · rfl
  · split
    · split
      · rw [down.position_newline]
        rfl
      · rw [down.position_newline]
        rfl
    · rw [down.position_advance]
      rfl

@[simp] theorem current?_cursor : (down.cursor cursor).current? = cursor.current? := by
  rw [current?, read?_cursor, current?, Option.map_map]
  rfl

@[simp] theorem advance_cursor :
    (down.cursor cursor).advance = down.cursor cursor.advance := by
  unfold advance
  rw [read?_cursor]
  cases cursor.read? <;> rfl

@[simp] theorem peek?_cursor : (down.cursor cursor).peek? = cursor.peek? := by
  rw [peek?, advance_cursor, current?_cursor, peek?]

@[simp] theorem isAt_cursor (c : Char) : (down.cursor cursor).isAt c = cursor.isAt c := by
  rw [isAt, current?_cursor, isAt]

theorem span_cursor (p : Char → Bool) :
    (down.cursor cursor).span p = Prod.map id down.cursor (cursor.span p) := by
  fun_induction span p cursor <;> unfold span <;> grind [read?_cursor]

end Text.Cursor

/-! ## Lexemes -/

namespace Scan

variable (down : Displacement)

@[simp] theorem startsWithDigit_cursor (radix : Nat) (cursor : Cursor) :
    startsWithDigit radix (down.cursor cursor) = startsWithDigit radix cursor := by
  rw [startsWithDigit, Cursor.current?_cursor, startsWithDigit]

@[simp] theorem atWordChar_cursor (cursor : Cursor) :
    atWordChar (down.cursor cursor) = atWordChar cursor := by
  rw [atWordChar, Cursor.current?_cursor, atWordChar]

theorem digitRun_cursor (radix : Nat) (started : Bool) (cursor : Cursor) :
    digitRun radix started (down.cursor cursor) =
      { digitRun radix started cursor with
        cursor := down.cursor (digitRun radix started cursor).cursor } := by
  fun_induction digitRun radix started cursor <;> unfold digitRun <;>
    grind [Cursor.read?_cursor, startsWithDigit_cursor]

theorem invalidNumber_cursor (position : Position) (text : List Char) (cursor : Cursor) :
    invalidNumber (down.position position) text (down.cursor cursor) =
      Prod.map down.token down.cursor (invalidNumber position text cursor) := by
  simp [invalidNumber, Cursor.span_cursor]

theorem integerToken_position (position : Position) (radix : Nat) (text digits : List Char) :
    integerToken (down.position position) radix text digits =
      down.token (integerToken position radix text digits) := by
  unfold integerToken
  simp only
  split <;> rfl

@[simp] theorem fractionFollows_cursor (cursor : Cursor) :
    fractionFollows (down.cursor cursor) = fractionFollows cursor := by
  simp [fractionFollows]

theorem scanDigits_cursor (position : Position) (radix : Nat) (announced : List Char)
    (cursor : Cursor) :
    scanDigits (down.position position) radix announced (down.cursor cursor) =
      Prod.map down.token down.cursor (scanDigits position radix announced cursor) := by
  unfold scanDigits
  simp only [digitRun_cursor, fractionFollows_cursor, atWordChar_cursor, Cursor.advance_cursor]
  split
  · exact invalidNumber_cursor ..
  · split
    · split
      · exact invalidNumber_cursor ..
      · rfl
    · split
      · exact invalidNumber_cursor ..
      · rw [integerToken_position]
        rfl

theorem scanNumber_cursor (cursor : Cursor) :
    scanNumber (down.cursor cursor) = Prod.map down.token down.cursor (scanNumber cursor) := by
  have hradix : radixAt (down.cursor cursor) = radixAt cursor := by simp [radixAt]
  unfold scanNumber
  simp only [hradix, Cursor.current?_cursor, Cursor.peek?_cursor, Cursor.advance_cursor,
    Displacement.cursor_position, scanDigits_cursor]
  split <;> rfl

theorem readQuotation_cursor (cursor : Cursor) :
    readQuotation (down.cursor cursor) =
      { readQuotation cursor with
        badEscape? := (readQuotation cursor).badEscape?.map (Prod.map id down.position)
        cursor := down.cursor (readQuotation cursor).cursor } := by
  fun_induction readQuotation cursor <;> unfold readQuotation <;>
    grind [Cursor.read?_cursor, Displacement.cursor_position, Prod.map_apply]

theorem scanQuotation_cursor (cursor : Cursor) :
    scanQuotation (down.cursor cursor) =
      Prod.map down.token down.cursor (scanQuotation cursor) := by
  unfold scanQuotation
  simp only [Cursor.advance_cursor, readQuotation_cursor]
  unfold Quotation.token
  cases (readQuotation cursor.advance).ending with
  | endOfText => rfl
  | lineBreak => rfl
  | closed => cases (readQuotation cursor.advance).badEscape? <;> rfl

theorem scanWord_cursor (cursor : Cursor) :
    scanWord (down.cursor cursor) = Prod.map down.token down.cursor (scanWord cursor) := by
  unfold scanWord
  simp only [Cursor.span_cursor]
  split <;> rename_i hkeyword <;> simp only [Prod.map_fst, id_eq] at hkeyword <;> rw [hkeyword] <;>
    rfl

theorem operatorBehind?_cursor (c : Char) (cursor : Cursor) :
    operatorBehind? c (down.cursor cursor) =
      (operatorBehind? c cursor).map (Prod.map id down.cursor) := by
  have hassign : ∀ simple combined cursor,
      withAssign simple combined (down.cursor cursor) =
        Prod.map id down.cursor (withAssign simple combined cursor) := by
    intro simple combined cursor
    unfold withAssign
    rw [Cursor.isAt_cursor]
    split <;> simp
  unfold operatorBehind?
  split <;> grind [Cursor.isAt_cursor, Cursor.advance_cursor, Prod.map_apply]

theorem skipBlanks_cursor (tabWidth limit : UInt64) (joined : Bool) (cursor : Cursor) :
    skipBlanks tabWidth limit joined (down.cursor cursor) =
      Prod.map id down.cursor (skipBlanks tabWidth limit joined cursor) := by
  fun_induction skipBlanks tabWidth limit joined cursor <;>
    conv => lhs; unfold skipBlanks
  all_goals grind [Cursor.read?_cursor, Displacement.cursor_rest]

theorem skipBlanks_limit (tabWidth limit limit' : UInt64) (cursor : Cursor) :
    skipBlanks tabWidth limit false cursor = skipBlanks tabWidth limit' false cursor := by
  fun_induction skipBlanks tabWidth limit false cursor <;>
    conv => rhs; unfold skipBlanks
  all_goals grind

/-! ## Contexts -/

/-- The second context is the first one further down.  Without open brackets the indentation where
one was opened does not matter. -/
structure Displaced (down : Displacement) (context context' : Context) : Prop where
  cursor : context'.cursor = down.cursor context.cursor
  indents : context'.indents = context.indents
  openers : context'.openers = context.openers
  bracketIndent : context.openers ≠ [] → context'.bracketIndent = context.bracketIndent

namespace Displaced

variable {down : Displacement} {context context' : Context}

theorem withCursor (h : Displaced down context context') (cursor : Cursor) :
    Displaced down { context with cursor } { context' with cursor := down.cursor cursor } :=
  ⟨rfl, h.indents, h.openers, h.bracketIndent⟩

theorem inBrackets (h : Displaced down context context') :
    context'.inBrackets = context.inBrackets := by
  rw [Context.inBrackets, h.openers, Context.inBrackets]

theorem indent (h : Displaced down context context') : context'.indent = context.indent := by
  rw [Context.indent, h.indents, Context.indent]

theorem drainBrackets (h : Displaced down context context') :
    Displaced down context.drainBrackets context'.drainBrackets :=
  ⟨h.cursor, h.indents, rfl, fun hopeners => absurd rfl hopeners⟩

theorem openBracket (h : Displaced down context context') (opener : Char) :
    Displaced down (context.openBracket opener) (context'.openBracket opener) := by
  refine ⟨h.cursor, h.indents, by simp [Context.openBracket, h.openers], fun _ => ?_⟩
  simp only [Context.openBracket, h.inBrackets, h.indent]
  split
  · rename_i hopen
    exact h.bracketIndent (by simpa [Context.inBrackets] using hopen)
  · rfl

theorem pushIndent (h : Displaced down context context') (width : UInt64) :
    Displaced down (context.pushIndent width) (context'.pushIndent width) := by
  have haccepts : context'.acceptsIndent width = context.acceptsIndent width := by
    rw [Context.acceptsIndent, h.indents, h.indent, Context.acceptsIndent]
  unfold Context.pushIndent
  rw [haccepts]
  split
  · exact ⟨h.cursor, by simp [h.indents], h.openers, h.bracketIndent⟩
  · exact h

theorem popIndent (h : Displaced down context context') :
    Displaced down context.popIndent context'.popIndent :=
  ⟨h.cursor, by simp [Context.popIndent, h.indents], h.openers, h.bracketIndent⟩

theorem skipBlanks (h : Displaced down context context') (tabWidth : UInt64) :
    Scan.skipBlanks tabWidth context'.bracketIndent context'.inBrackets context'.cursor =
      Prod.map id down.cursor
        (Scan.skipBlanks tabWidth context.bracketIndent context.inBrackets context.cursor) := by
  rw [h.inBrackets, h.cursor, skipBlanks_cursor]
  cases hopen : context.inBrackets with
  | false => rw [skipBlanks_limit tabWidth context'.bracketIndent context.bracketIndent]
  | true =>
      have hopeners : context.openers ≠ [] := by
        rintro hopeners
        simp [Context.inBrackets, hopeners] at hopen
      rw [h.bracketIndent hopeners]

theorem scanSymbol (h : Displaced down context context') (c : Char) (position : Position) :
    (Scan.scanSymbol c (down.position position) context').1 =
        down.token (Scan.scanSymbol c position context).1 ∧
      Displaced down (Scan.scanSymbol c position context).2
        (Scan.scanSymbol c (down.position position) context').2 := by
  unfold Scan.scanSymbol
  split
  · exact ⟨rfl, h.openBracket c⟩
  · split
    · unfold Context.closeBracket
      rw [h.openers]
      cases hopeners : context.openers with
      | nil => exact ⟨rfl, h⟩
      | cons opener outer =>
          have hclosed : Displaced down { context with openers := outer }
              { context' with openers := outer } :=
            ⟨h.cursor, h.indents, rfl, fun _ => h.bracketIndent (by simp [hopeners])⟩
          by_cases hcloses : closingOf opener = c
          · simp only [hcloses, if_true]
            exact ⟨rfl, hclosed⟩
          · simp only [hcloses, if_false]
            exact ⟨rfl, h⟩
    · rw [h.cursor, operatorBehind?_cursor]
      cases operatorBehind? c context.cursor with
      | none => exact ⟨rfl, h⟩
      | some found => exact ⟨rfl, h.withCursor found.2⟩

theorem scanToken (h : Displaced down context context') (c : Char) (next : Cursor) :
    (Scanner.scanToken context' c (down.cursor next)).1 =
        down.token (Scanner.scanToken context c next).1 ∧
      Displaced down (Scanner.scanToken context c next).2
        (Scanner.scanToken context' c (down.cursor next)).2 := by
  unfold Scanner.scanToken
  rw [h.cursor, scanNumber_cursor, scanQuotation_cursor, scanWord_cursor]
  split
  · exact ⟨rfl, h.withCursor _⟩
  · split
    · exact ⟨rfl, h.withCursor _⟩
    · split
      · exact (h.withCursor next).scanSymbol c context.cursor.position
      · exact ⟨rfl, h.withCursor _⟩

end Displaced

/-! ## Scanners -/

def Emission.displace (down : Displacement) : Emission → Emission
  | .silent => .silent
  | .token first => .token (down.token first)
  | .failure reason => .failure (down.failure reason)

namespace Scanner

structure Below (down : Displacement) (scanner scanner' : Scanner) : Prop where
  context : Displaced down scanner.context scanner'.context
  mode : scanner'.mode = scanner.mode
  tabWidth : scanner'.tabWidth = scanner.tabWidth
  lineOpen : scanner'.lineOpen = scanner.lineOpen

def SameStep (down : Displacement) (result result' : Emission × Scanner) : Prop :=
  result'.1 = result.1.displace down ∧ result.2.Below down result'.2

namespace Below

variable {down : Displacement} {scanner scanner' : Scanner} {context context' : Context}

theorem emit (h : scanner.Below down scanner') (hcontext : Displaced down context context')
    (token : Token) (mode : Mode) :
    SameStep down (scanner.emit token mode context)
      (scanner'.emit (down.token token) mode context') :=
  ⟨rfl, hcontext, rfl, h.tabWidth, by simp [Scanner.emit, h.lineOpen]⟩

theorem goTo (h : scanner.Below down scanner') (hcontext : Displaced down context context')
    (mode : Mode) : SameStep down (scanner.goTo mode context) (scanner'.goTo mode context') :=
  ⟨rfl, hcontext, rfl, h.tabWidth, h.lineOpen⟩

theorem position (h : scanner.Below down scanner') :
    scanner'.position = down.position scanner.position := by
  rw [Scanner.position, h.context.cursor]
  rfl

theorem endOfText (h : scanner.Below down scanner') (hcontext : Displaced down context context') :
    SameStep down (scanner.endOfText context) (scanner'.endOfText context') := by
  unfold Scanner.endOfText
  rw [hcontext.openers, hcontext.cursor, h.lineOpen]
  split
  · exact h.emit hcontext.drainBrackets (.error _ context.cursor.position) .indent
  · split
    · exact h.emit hcontext (.plain .newline context.cursor.position) .indent
    · exact h.goTo hcontext _

theorem compareWidth (h : scanner.Below down scanner')
    (hcontext : Displaced down context context') (width : UInt64) :
    SameStep down (scanner.compareWidth width context) (scanner'.compareWidth width context') := by
  have hlevel : context'.hasIndent width = context.hasIndent width := by
    rw [Context.hasIndent, hcontext.indents, Context.hasIndent]
  unfold Scanner.compareWidth
  simp only [hcontext.indent, hcontext.cursor, hlevel]
  split
  · exact h.goTo hcontext _
  · split
    · exact h.emit (hcontext.pushIndent width) (.plain .indent context.cursor.position) .dispatch
    · split
      · exact h.goTo hcontext _
      · refine ⟨?_, hcontext, h.mode, h.tabWidth, h.lineOpen⟩
        simp [Context.levels, hcontext.indents, Emission.displace, Displacement.failure]

theorem stepIndent (h : scanner.Below down scanner') :
    SameStep down scanner.stepIndent scanner'.stepIndent := by
  have hatEnd : scanner'.context.cursor.atEnd = scanner.context.cursor.atEnd := by
    rw [Cursor.atEnd, h.context.cursor]
    rfl
  unfold Scanner.stepIndent
  rw [hatEnd, h.context.inBrackets, h.position, Displacement.position_column]
  split
  · exact h.endOfText h.context
  · split
    · exact h.goTo h.context _
    · unfold startLine
      simp only [h.context.cursor, h.tabWidth, Cursor.span_cursor, Prod.map_snd, Prod.map_fst,
        Cursor.read?_cursor]
      cases hread : (scanner.context.cursor.span Text.isInlineBlank).2.read? with
      | none => exact h.endOfText (h.context.withCursor _)
      | some read =>
          simp only [Option.map_some, Prod.map_fst, Prod.map_snd, id_eq]
          split
          · exact h.goTo (h.context.withCursor _) _
          · exact h.compareWidth (h.context.withCursor _) _

theorem stepDispatch (h : scanner.Below down scanner') :
    SameStep down scanner.stepDispatch scanner'.stepDispatch := by
  unfold Scanner.stepDispatch
  simp only [h.tabWidth, h.context.skipBlanks, Prod.map_fst, Prod.map_snd, id_eq]
  split
  · unfold abandonBrackets
    simp only [h.context.openers]
    exact h.emit (h.context.withCursor _).drainBrackets (.error _ _) .dispatch
  · rw [Cursor.read?_cursor]
    cases hread : (Scan.skipBlanks scanner.tabWidth scanner.context.bracketIndent
        scanner.context.inBrackets scanner.context.cursor).2.read? with
    | none => exact h.goTo (h.context.withCursor _) _
    | some read =>
        simp only [Option.map_some, Prod.map_fst, Prod.map_snd, id_eq]
        split
        · exact h.emit (h.context.withCursor _) (.plain .newline _) .indent
        · obtain ⟨htoken, hcontext⟩ := (h.context.withCursor _).scanToken read.1 read.2
          rw [htoken]
          exact h.emit hcontext _ .indent

theorem stepDedent (h : scanner.Below down scanner') (target : UInt64) :
    SameStep down (scanner.stepDedent target) (scanner'.stepDedent target) := by
  have hatEnd : scanner'.context.cursor.atEnd = scanner.context.cursor.atEnd := by
    rw [Cursor.atEnd, h.context.cursor]
    rfl
  unfold Scanner.stepDedent
  simp only [h.context.indent, h.position, hatEnd]
  split
  · exact h.emit h.context.popIndent (.plain .dedent scanner.position) _
  · split
    · exact h.goTo h.context _
    · exact h.goTo h.context _

theorem step (h : scanner.Below down scanner') : SameStep down scanner.step scanner'.step := by
  unfold Scanner.step
  rw [h.mode]
  split
  · rw [h.position]
    exact h.emit (h.context.pushIndent 0) (.plain .indent scanner.position) .indent
  · exact h.stepIndent
  · exact h.stepDispatch
  · exact h.stepDedent _
  · rw [h.position]
    exact h.emit h.context.popIndent (.plain .dedent scanner.position) .eof
  · rw [h.position]
    exact h.emit h.context (.plain .eof scanner.position) .done
  · rw [h.position]
    exact ⟨rfl, h⟩

theorem outcomes (h : scanner.Below down scanner') :
    scanner'.outcomes = scanner.outcomes.map down.item := by
  induction scanner using step_induction generalizing scanner' with
  | done scanner hmode =>
      rw [outcomes_of_done hmode, outcomes_of_done (h.mode.trans hmode)]
      rfl
  | step scanner hmode ih =>
      have hmode' : scanner'.mode ≠ .done := h.mode ▸ hmode
      obtain ⟨hemission, hbelow⟩ := h.step
      cases hstep : scanner.step with
      | mk emission after =>
          cases hstep' : scanner'.step with
          | mk emission' after' =>
              rw [hstep] at ih hemission hbelow
              rw [hstep'] at hemission hbelow
              obtain rfl : emission' = emission.displace down := hemission
              cases emission with
              | silent =>
                  rw [outcomes_of_silent hmode hstep (mode_ne_done_of_silent hstep),
                    outcomes_of_silent hmode' hstep' (mode_ne_done_of_silent hstep')]
                  exact ih hbelow
              | token token =>
                  rw [outcomes_of_token hmode hstep, outcomes_of_token hmode' hstep', ih hbelow]
                  rfl
              | failure failure =>
                  rw [outcomes_of_failure hmode hstep, outcomes_of_failure hmode' hstep',
                    ih hbelow]
                  rfl

end Below

end Scanner

end Scan

end Offside
