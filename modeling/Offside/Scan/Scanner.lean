import Offside.Scan.Number
import Offside.Scan.Quotation
import Offside.Scan.Symbol

/-!
# The scanner

A scanner is a state machine over its context.  A step reads part of the text and may emit a token;
asking for a token takes steps until one is emitted.  At the start of a line the leading blanks are
measured against the open indentation widths; inside brackets line breaks are blanks, unless the
next line plainly starts a statement.
-/

namespace Offside.Scan

open Text (Cursor Position isInlineBlank)

inductive Mode where
  | fileStart
  | indent
  | dispatch
  /-- Closing indentation widths until `target` is the innermost one. -/
  | dedent (target : UInt64)
  | fileEnd
  | eof
  | done
deriving DecidableEq

structure Scanner where
  context : Context
  mode : Mode
  tabWidth : UInt64
  /-- Whether the current logical line has a token with content. -/
  lineOpen : Bool

inductive Emission where
  | silent
  | token (token : Token)
  | failure (failure : LexFailure)

/-! ## Widths -/

/-- The width of one leading blank, in 64-bit arithmetic. -/
def blankWidth (tabWidth : UInt64) (c : Char) : UInt64 :=
  if c = ' ' then 1 else if c = '\t' then tabWidth else 0

def leadingWidth (tabWidth : UInt64) (blanks : List Char) : UInt64 :=
  blanks.foldl (fun width c => width + blankWidth tabWidth c) 0

def dropLineBreak : List Char → List Char
  | '\r' :: '\n' :: rest => rest
  | '\r' :: rest => rest
  | '\n' :: rest => rest
  | rest => rest

/-- Whether a line is indented by no more than `limit` and begins with a word that only starts
statements. -/
def startsStatement (tabWidth limit : UInt64) (line : List Char) : Bool :=
  let blanks := line.takeWhile isInlineBlank
  let word := (line.dropWhile isInlineBlank).takeWhile isWordChar
  leadingWidth tabWidth blanks ≤ limit &&
    match TokenKind.keyword? (String.ofList word) with
    | some kind => kind.startsStatement
    | none => false

/-- Skips the blanks in front of a token; `joined` line breaks are blanks too.  The flag tells that
the skipping stopped at a line break which a statement follows. -/
def skipBlanks (tabWidth limit : UInt64) (joined : Bool) (cursor : Cursor) : Bool × Cursor :=
  match _h : cursor.read? with
  | none => (false, cursor)
  | some (c, next) =>
      if c = '\n' && joined then
        if startsStatement tabWidth limit (dropLineBreak cursor.rest) then (true, cursor)
        else skipBlanks tabWidth limit joined next
      else if isInlineBlank c then skipBlanks tabWidth limit joined next
      else (false, cursor)
termination_by cursor.rest.length
decreasing_by all_goals exact Cursor.length_lt_of_read? _h

/-! ## Steps -/

namespace Scanner

def ofText (text : String) (tabWidth : UInt64) : Scanner :=
  ⟨.ofText text, .fileStart, tabWidth, false⟩

def position (scanner : Scanner) : Position := scanner.context.cursor.position

def goTo (scanner : Scanner) (mode : Mode) (context : Context) : Emission × Scanner :=
  (.silent, { scanner with mode, context })

def lineOpenAfter (lineOpen : Bool) : TokenKind → Bool
  | .newline => false
  | .indent | .dedent | .eof => lineOpen
  | _ => true

def emit (scanner : Scanner) (token : Token) (mode : Mode) (context : Context) :
    Emission × Scanner :=
  (.token token,
    { scanner with mode, context, lineOpen := lineOpenAfter scanner.lineOpen token.kind })

/-- At the end of the text: reports open brackets, ends an open line, then closes all blocks. -/
def endOfText (scanner : Scanner) (context : Context) : Emission × Scanner :=
  match context.openers with
  | opener :: _ =>
      scanner.emit (.error (.unclosedBracket opener) context.cursor.position) .indent
        context.drainBrackets
  | [] =>
      if scanner.lineOpen then
        scanner.emit (.plain .newline context.cursor.position) .indent context
      else scanner.goTo (.dedent 0) context

/-- Compares the width of a line with the open ones; `context` is at the first character of the
line that is not blank. -/
def compareWidth (scanner : Scanner) (width : UInt64) (context : Context) : Emission × Scanner :=
  let position := context.cursor.position
  if width = context.indent then scanner.goTo .dispatch context
  else if context.indent < width then
    scanner.emit (.plain .indent position) .dispatch (context.pushIndent width)
  else if width = 0 || context.hasIndent width then scanner.goTo (.dedent width) context
  else (.failure (.mismatchedIndent width context.levels position), { scanner with context })

/-- Measures the leading blanks of a line and skips the line if nothing else is on it. -/
def startLine (scanner : Scanner) : Emission × Scanner :=
  let blanks := scanner.context.cursor.span isInlineBlank
  let context := { scanner.context with cursor := blanks.2 }
  match blanks.2.read? with
  | none => scanner.endOfText context
  | some (c, next) =>
      if c = '\n' then scanner.goTo .indent { context with cursor := next }
      else scanner.compareWidth (leadingWidth scanner.tabWidth blanks.1) context

def stepIndent (scanner : Scanner) : Emission × Scanner :=
  if scanner.context.cursor.atEnd then scanner.endOfText scanner.context
  else if scanner.context.inBrackets || scanner.position.column != 1 then
    scanner.goTo .dispatch scanner.context
  else scanner.startLine

def stepDedent (scanner : Scanner) (target : UInt64) : Emission × Scanner :=
  let context := scanner.context
  if target < context.indent then
    scanner.emit (.plain .dedent scanner.position) (.dedent target) context.popIndent
  else if context.cursor.atEnd then scanner.goTo .fileEnd context
  else scanner.goTo .dispatch context

/-- Gives up all open brackets in front of a line that starts a statement. -/
def abandonBrackets (scanner : Scanner) (context : Context) : Emission × Scanner :=
  let opener := context.openers.head?.getD '('
  scanner.emit (.error (.unclosedBracket opener) context.cursor.position) .dispatch
    context.drainBrackets

/-- Reads the token that starts with `c`; `next` is the cursor behind `c`. -/
def scanToken (context : Context) (c : Char) (next : Cursor) : Token × Context :=
  if c.isDigit then
    let scanned := scanNumber context.cursor
    (scanned.1, { context with cursor := scanned.2 })
  else if c = '"' then
    let scanned := scanQuotation context.cursor
    (scanned.1, { context with cursor := scanned.2 })
  else if isReserved c then scanSymbol c context.cursor.position { context with cursor := next }
  else
    let scanned := scanWord context.cursor
    (scanned.1, { context with cursor := scanned.2 })

def stepDispatch (scanner : Scanner) : Emission × Scanner :=
  let blanks := skipBlanks scanner.tabWidth scanner.context.bracketIndent
    scanner.context.inBrackets scanner.context.cursor
  let context := { scanner.context with cursor := blanks.2 }
  if blanks.1 then scanner.abandonBrackets context
  else
    match blanks.2.read? with
    | none => scanner.goTo .indent context
    | some (c, next) =>
        if c = '\n' then
          scanner.emit (.plain .newline blanks.2.position) .indent { context with cursor := next }
        else
          let scanned := scanToken context c next
          scanner.emit scanned.1 .indent scanned.2

def step (scanner : Scanner) : Emission × Scanner :=
  match scanner.mode with
  | .fileStart =>
      scanner.emit (.plain .indent scanner.position) .indent (scanner.context.pushIndent 0)
  | .indent => scanner.stepIndent
  | .dispatch => scanner.stepDispatch
  | .dedent target => scanner.stepDedent target
  | .fileEnd => scanner.emit (.plain .dedent scanner.position) .eof scanner.context.popIndent
  | .eof => scanner.emit (.plain .eof scanner.position) .done scanner.context
  | .done => (.failure (.pastEndOfInput scanner.position), scanner)

/-! ## Progress -/

def rank (mode : Mode) (atEnd : Bool) : Nat :=
  match mode with
  | .fileStart => 9
  | .indent => 5
  | .dispatch => if atEnd then 7 else 3
  | .dedent _ => 4
  | .fileEnd => 2
  | .eof => 1
  | .done => 0

/-- A bound on the steps that are left: reading a character pays for all that it may open. -/
def measure (scanner : Scanner) : Nat :=
  12 * scanner.context.cursor.rest.length + scanner.context.indents.length +
    (if scanner.context.openers.isEmpty then 0 else 2) + (if scanner.lineOpen then 1 else 0) +
    rank scanner.mode scanner.context.cursor.atEnd

theorem skipBlanks_length_le (tabWidth limit : UInt64) (joined : Bool) (cursor : Cursor) :
    (skipBlanks tabWidth limit joined cursor).2.rest.length ≤ cursor.rest.length := by
  fun_induction skipBlanks tabWidth limit joined cursor <;> grind [→ Cursor.length_lt_of_read?]

theorem skipBlanks_stop {tabWidth limit : UInt64} {joined : Bool} {cursor : Cursor}
    (h : (skipBlanks tabWidth limit joined cursor).1 = true) :
    joined = true ∧ (skipBlanks tabWidth limit joined cursor).2.rest ≠ [] := by
  fun_induction skipBlanks tabWidth limit joined cursor <;>
    grind [Cursor.read?_eq_none_iff]

theorem leadingWidth_nil (tabWidth : UInt64) : leadingWidth tabWidth [] = 0 := rfl

theorem endOfText_measure_lt (scanner : Scanner) (context : Context)
    (hrest : context.cursor.rest = []) (hmode : scanner.mode = .indent)
    (hindents : context.indents = scanner.context.indents)
    (hopeners : context.openers = scanner.context.openers) :
    (scanner.endOfText context).2.measure < scanner.measure := by
  grind [endOfText, emit, goTo, measure, lineOpenAfter, Token.error, Token.plain,
    Context.drainBrackets, rank]

theorem compareWidth_measure_lt (scanner : Scanner) (width : UInt64) (context : Context)
    (hmode : scanner.mode = .indent)
    (hrest : context.cursor.rest ≠ [])
    (hle : context.cursor.rest.length ≤ scanner.context.cursor.rest.length)
    (hlt : width ≠ 0 → context.cursor.rest.length < scanner.context.cursor.rest.length)
    (hindents : context.indents = scanner.context.indents)
    (hopeners : context.openers = scanner.context.openers) :
    (scanner.compareWidth width context).2.measure < scanner.measure := by
  grind [compareWidth, emit, goTo, measure, lineOpenAfter, Token.plain, Context.pushIndent, rank,
    Cursor.atEnd]

theorem startLine_measure_lt (scanner : Scanner) (hmode : scanner.mode = .indent) :
    scanner.startLine.2.measure < scanner.measure := by
  have hle := Cursor.span_length_le isInlineBlank scanner.context.cursor
  unfold startLine
  simp only
  split
  · rename_i h
    exact endOfText_measure_lt _ _ ((Cursor.read?_eq_none_iff _).1 h) hmode rfl rfl
  · rename_i c next h
    have hlt := Cursor.length_lt_of_read? h
    split
    · grind [goTo, measure, rank]
    · refine compareWidth_measure_lt _ _ _ hmode ?_ hle ?_ rfl rfl
      · intro hrest
        rw [(Cursor.read?_eq_none_iff _).2 hrest] at h
        simp at h
      · intro hwidth
        refine Cursor.span_length_lt fun hblanks => hwidth ?_
        rw [hblanks, leadingWidth_nil]

theorem stepIndent_measure_lt (scanner : Scanner) (hmode : scanner.mode = .indent) :
    scanner.stepIndent.2.measure < scanner.measure := by
  unfold stepIndent
  split
  · rename_i hend
    exact endOfText_measure_lt _ _ (List.isEmpty_iff.1 hend) hmode rfl rfl
  · split
    · grind [goTo, measure, rank]
    · exact startLine_measure_lt scanner hmode

theorem stepDedent_measure_lt (scanner : Scanner) (target : UInt64)
    (hmode : scanner.mode = .dedent target) :
    (scanner.stepDedent target).2.measure < scanner.measure := by
  have hpop : target < scanner.context.indent → 0 < scanner.context.indents.length := by
    intro h
    refine List.length_pos_iff.2 fun hnil => ?_
    simp [Context.indent, hnil] at h
  grind [stepDedent, emit, goTo, measure, lineOpenAfter, Token.plain, Context.popIndent, rank]

theorem scanToken_length_lt (context : Context) (c : Char) (next : Cursor)
    (h : context.cursor.read? = some (c, next)) :
    (scanToken context c next).2.cursor.rest.length < context.cursor.rest.length := by
  have hlt := Cursor.length_lt_of_read? h
  have hcurrent : context.cursor.current? = some c := by simp [Cursor.current?, h]
  unfold scanToken
  split
  · rename_i hdigit
    refine scanNumber_length_lt ?_
    simp only [startsWithDigit, hcurrent]
    exact isDigitIn_ten_of_isDigit hdigit
  · split
    · exact scanQuotation_length_lt (Cursor.rest_ne_nil_of_current? hcurrent)
    · split
      · exact Nat.lt_of_le_of_lt (scanSymbol_length_le ..) hlt
      · rename_i hword
        refine scanWord_length_lt ?_
        unfold Cursor.span
        split
        · rename_i hnone
          rw [h] at hnone
          simp at hnone
        · rename_i first behind hread
          rw [h] at hread
          injection hread with hread
          injection hread with hfirst hbehind
          subst hfirst
          simp [isWordChar, hword]

theorem scanToken_indents (context : Context) (c : Char) (next : Cursor) :
    (scanToken context c next).2.indents = context.indents := by
  unfold scanToken
  split
  · rfl
  · split
    · rfl
    · split
      · exact scanSymbol_indents ..
      · rfl

theorem stepDispatch_measure_lt (scanner : Scanner) (hmode : scanner.mode = .dispatch) :
    scanner.stepDispatch.2.measure < scanner.measure := by
  have hle := skipBlanks_length_le scanner.tabWidth scanner.context.bracketIndent
    scanner.context.inBrackets scanner.context.cursor
  unfold stepDispatch
  simp only
  split
  · rename_i hstop
    have hstop := skipBlanks_stop hstop
    grind [abandonBrackets, emit, measure, lineOpenAfter, Token.error, Context.drainBrackets,
      Context.inBrackets, rank, Cursor.atEnd]
  · split
    · rename_i h
      have hrest := (Cursor.read?_eq_none_iff _).1 h
      grind [goTo, measure, rank, Cursor.atEnd]
    · rename_i c next h
      have hlt := Cursor.length_lt_of_read? h
      split
      · grind [emit, measure, lineOpenAfter, Token.plain, rank]
      · have hscan := scanToken_length_lt
          { scanner.context with
            cursor := (skipBlanks scanner.tabWidth scanner.context.bracketIndent
              scanner.context.inBrackets scanner.context.cursor).2 } c next h
        have hindents := scanToken_indents
          { scanner.context with
            cursor := (skipBlanks scanner.tabWidth scanner.context.bracketIndent
              scanner.context.inBrackets scanner.context.cursor).2 } c next
        grind [emit, measure, rank]

/-- Every step but those of a finished scanner comes closer to the end. -/
theorem step_measure_lt (scanner : Scanner) (h : scanner.mode ≠ .done) :
    scanner.step.2.measure < scanner.measure := by
  unfold step
  split
  · grind [emit, measure, lineOpenAfter, Token.plain, Context.pushIndent, rank]
  · rename_i hmode
    exact stepIndent_measure_lt scanner hmode
  · rename_i hmode
    exact stepDispatch_measure_lt scanner hmode
  · rename_i target hmode
    exact stepDedent_measure_lt scanner target hmode
  · grind [emit, measure, lineOpenAfter, Token.plain, Context.popIndent, rank]
  · grind [emit, measure, lineOpenAfter, Token.plain, rank]
  · rename_i hmode
    exact absurd hmode h

/-! ## Tokens -/

/-- The next token, or the failure to give one; past the last token every request fails and
changes nothing. -/
def next (scanner : Scanner) : Except LexFailure Token × Scanner :=
  if _h : scanner.mode = .done then (.error (.pastEndOfInput scanner.position), scanner)
  else
    match _hstep : scanner.step with
    | (.silent, after) => after.next
    | (.token token, after) => (.ok token, after)
    | (.failure failure, after) => (.error failure, after)
termination_by scanner.measure
decreasing_by
  have := scanner.step_measure_lt _h
  rwa [_hstep] at this

/-- The steps of one request, each with the scanner before and after it. -/
def stepsOfNext (scanner : Scanner) : List (Scanner × Emission × Scanner) :=
  if _h : scanner.mode = .done then []
  else
    match _hstep : scanner.step with
    | (.silent, after) => (scanner, .silent, after) :: after.stepsOfNext
    | (emission, after) => [(scanner, emission, after)]
termination_by scanner.measure
decreasing_by
  have := scanner.step_measure_lt _h
  rwa [_hstep] at this

theorem next_measure_le (scanner : Scanner) : scanner.next.2.measure ≤ scanner.measure := by
  fun_induction next scanner with
  | case1 => exact Nat.le_refl _
  | case2 scanner h after hstep ih =>
    have := scanner.step_measure_lt h
    rw [hstep] at this
    exact Nat.le_trans ih (Nat.le_of_lt this)
  | case3 scanner h token after hstep =>
    have := scanner.step_measure_lt h
    rw [hstep] at this
    exact Nat.le_of_lt this
  | case4 scanner h failure after hstep =>
    have := scanner.step_measure_lt h
    rw [hstep] at this
    exact Nat.le_of_lt this

theorem next_measure_lt (scanner : Scanner) (h : scanner.mode ≠ .done) :
    scanner.next.2.measure < scanner.measure := by
  have hlt := scanner.step_measure_lt h
  unfold next
  rw [dif_neg h]
  split
  · rename_i after hstep
    rw [hstep] at hlt
    exact Nat.lt_of_le_of_lt (next_measure_le after) hlt
  · rename_i token after hstep
    rwa [hstep] at hlt
  · rename_i failure after hstep
    rwa [hstep] at hlt

end Scanner

end Offside.Scan
