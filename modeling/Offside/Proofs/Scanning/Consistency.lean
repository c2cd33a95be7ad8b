import Offside.Proofs.Scanning.Lossless
import Offside.Proofs.Scanning.Requests
import Offside.Proofs.Scanning.Shape

/-!
# What holds of a scanner at any time

The stack of open widths follows the tokens that open and close blocks, and it is empty at both ends of
a text only.  Brackets are open within a line only, and remember the innermost open width.  Each of
these facts needs the others: no width is opened within brackets, so that the remembered one stays the
innermost, and blocks are closed outside of brackets, down to a width that is on the stack.
-/

namespace Offside.Scan

open Parse (Item)
open Text (Cursor Position)

/-! ## Brackets -/

namespace Context

def Anchored (context : Context) : Prop :=
  context.openers ≠ [] → context.bracketIndent = context.indent

variable {context : Context}

theorem Anchored.withCursor (h : context.Anchored) (cursor : Cursor) :
    ({ context with cursor } : Context).Anchored := h

theorem Anchored.openBracket (h : context.Anchored) (opener : Char) :
    (context.openBracket opener).Anchored := by
  intro _
  unfold Context.openBracket
  simp only
  split
  · rename_i hbrackets
    exact h (by simpa [inBrackets] using hbrackets)
  · rfl

theorem Anchored.scanSymbol (h : context.Anchored) (c : Char) (position : Position) :
    (Scan.scanSymbol c position context).2.Anchored := by
  unfold Scan.scanSymbol
  split
  · exact h.openBracket c
  · split
    · unfold closeBracket
      cases hopeners : context.openers with
      | nil => exact h
      | cons opener outer =>
          by_cases hcloses : closingOf opener = c
          · simp only [hcloses, if_true]
            exact fun _ => h (by simp [hopeners])
          · simp only [hcloses, if_false]
            exact h
    · split
      · exact h.withCursor _
      · exact h

theorem Anchored.scanToken (h : context.Anchored) (c : Char) (next : Cursor) :
    (Scanner.scanToken context c next).2.Anchored := by
  unfold Scanner.scanToken
  split
  · exact h.withCursor _
  · split
    · exact h.withCursor _
    · split
      · exact (h.withCursor next).scanSymbol c _
      · exact h.withCursor _

end Context

namespace Scanner

variable {scanner : Scanner}

structure Bracketed (scanner : Scanner) : Prop where
  anchored : scanner.context.Anchored
  mode : scanner.context.openers ≠ [] → scanner.mode = .indent ∨ scanner.mode = .dispatch

/-- A silent step leaves the brackets as they are, and a token that is given within brackets has
content. -/
def KeepsBrackets (openers : List Char) : Emission × Scanner → Prop
  | (.silent, after) => after.Bracketed ∧ after.context.openers = openers
  | (.token token, after) => after.Bracketed ∧ (openers ≠ [] → token.kind.isStructural = false)
  | (.failure _, after) => after.Bracketed

theorem bracketed_of_nil (h : scanner.context.openers = []) : scanner.Bracketed :=
  ⟨fun hopeners => absurd h hopeners, fun hopeners => absurd h hopeners⟩

theorem Bracketed.openers_eq_nil (h : scanner.Bracketed) (hindent : scanner.mode ≠ .indent)
    (hdispatch : scanner.mode ≠ .dispatch) : scanner.context.openers = [] := by
  apply Decidable.byContradiction
  intro hopeners
  rcases h.mode hopeners with hmode | hmode
  · exact hindent hmode
  · exact hdispatch hmode

private theorem emit_keepsBrackets {token : Token} {mode : Mode} {context : Context}
    (hopeners : scanner.context.openers = []) (hcontext : context.openers = []) :
    KeepsBrackets scanner.context.openers (scanner.emit token mode context) :=
  ⟨bracketed_of_nil hcontext, fun hbrackets => absurd hopeners hbrackets⟩

private theorem goTo_keepsBrackets {mode : Mode} {context : Context}
    (hopeners : scanner.context.openers = [])
    (hcontext : context.openers = scanner.context.openers) :
    KeepsBrackets scanner.context.openers (scanner.goTo mode context) :=
  ⟨bracketed_of_nil (hcontext.trans hopeners), hcontext⟩

private theorem goTo_within_keepsBrackets {mode : Mode} {cursor : Cursor} (h : scanner.Bracketed)
    (hmode : mode = .indent ∨ mode = .dispatch) :
    KeepsBrackets scanner.context.openers
      (scanner.goTo mode { scanner.context with cursor }) :=
  ⟨⟨h.anchored, fun _ => hmode⟩, rfl⟩

private theorem endOfText_keepsBrackets {context : Context}
    (hcontext : context.openers = scanner.context.openers) :
    KeepsBrackets scanner.context.openers (scanner.endOfText context) := by
  unfold endOfText
  split
  · exact ⟨bracketed_of_nil rfl, fun _ => rfl⟩
  · rename_i hnone
    split
    · exact emit_keepsBrackets (hcontext ▸ hnone) hnone
    · exact goTo_keepsBrackets (hcontext ▸ hnone) hcontext

private theorem compareWidth_keepsBrackets {width : UInt64} {context : Context}
    (hopeners : scanner.context.openers = [])
    (hcontext : context.openers = scanner.context.openers) :
    KeepsBrackets scanner.context.openers (scanner.compareWidth width context) := by
  unfold compareWidth
  simp only
  split
  · exact goTo_keepsBrackets hopeners hcontext
  · split
    · apply emit_keepsBrackets hopeners
      unfold Context.pushIndent
      split <;> exact hcontext.trans hopeners
    · split
      · exact goTo_keepsBrackets hopeners hcontext
      · exact bracketed_of_nil (hcontext.trans hopeners)

private theorem stepIndent_keepsBrackets (h : scanner.Bracketed) :
    KeepsBrackets scanner.context.openers scanner.stepIndent := by
  unfold stepIndent
  split
  · exact endOfText_keepsBrackets rfl
  · split
    · exact goTo_within_keepsBrackets h (.inr rfl)
    · rename_i hinside
      have hopeners : scanner.context.openers = [] := by
        simp only [Context.inBrackets, Bool.or_eq_true, not_or] at hinside
        simpa using hinside.1
      unfold startLine
      simp only
      split
      · exact endOfText_keepsBrackets rfl
      · split
        · exact goTo_keepsBrackets hopeners rfl
        · exact compareWidth_keepsBrackets hopeners rfl

private theorem stepDispatch_keepsBrackets (h : scanner.Bracketed) :
    KeepsBrackets scanner.context.openers scanner.stepDispatch := by
  unfold stepDispatch
  simp only
  split
  · exact ⟨bracketed_of_nil rfl, fun _ => rfl⟩
  · rename_i hflag
    split
    · exact goTo_within_keepsBrackets h (.inl rfl)
    · rename_i c next hread
      split
      · rename_i hc
        have hopeners : scanner.context.openers = [] := by
          cases hbrackets : scanner.context.inBrackets with
          | false => simpa [Context.inBrackets] using hbrackets
          | true =>
              rw [hbrackets] at hflag hread
              exact absurd hc (ne_lineFeed_of_skipBlanks (by simpa using hflag) hread)
        exact emit_keepsBrackets hopeners hopeners
      · refine ⟨⟨Context.Anchored.scanToken (h.anchored.withCursor _) c next, fun _ => .inl rfl⟩, ?_⟩
        exact fun _ => (scanToken_lexical ..).kind

theorem step_keepsBrackets (h : scanner.Bracketed) :
    KeepsBrackets scanner.context.openers scanner.step := by
  unfold step
  cases hmode : scanner.mode with
  | indent => exact stepIndent_keepsBrackets h
  | dispatch => exact stepDispatch_keepsBrackets h
  | fileStart =>
      have hopeners := h.openers_eq_nil (by simp [hmode]) (by simp [hmode])
      refine emit_keepsBrackets hopeners ?_
      unfold Context.pushIndent
      split <;> exact hopeners
  | dedent target =>
      have hopeners := h.openers_eq_nil (by simp [hmode]) (by simp [hmode])
      unfold stepDedent
      simp only
      split
      · exact emit_keepsBrackets hopeners hopeners
      · split <;> exact goTo_keepsBrackets hopeners rfl
  | fileEnd | eof =>
      have hopeners := h.openers_eq_nil (by simp [hmode]) (by simp [hmode])
      exact emit_keepsBrackets hopeners hopeners
  | done => exact h

/-! ## Open widths -/

/-- The stack of open widths is as the mode says; it is empty before the first request and behind the
last token. -/
def Leveled (scanner : Scanner) : Prop :=
  match scanner.mode with
  | .fileStart | .done => scanner.context.indents = []
  | _ => scanner.Aligned

/-- A step opens a width with the token that opens a block, and closes one with the token that closes
one. -/
def KeepsLevels (depth : Nat) : Emission × Scanner → Prop
  | (.token token, after) =>
      after.Leveled ∧ after.context.indents.length + (if token.kind = .dedent then 1 else 0) =
        depth + if token.kind = .indent then 1 else 0
  | (_, after) => after.Leveled ∧ after.context.indents.length = depth

theorem Aligned.leveled (h : scanner.Aligned) : scanner.Leveled := by
  unfold Aligned at h
  unfold Leveled
  split <;> rename_i hmode
  · simp only [hmode] at h
  · simp only [hmode] at h
  · exact h

private theorem emit_ne_failure (scanner : Scanner) (token : Token) (mode : Mode) (context : Context)
    {failure : LexFailure} {after : Scanner} :
    scanner.emit token mode context ≠ (.failure failure, after) := by
  simp [emit]

private theorem goTo_ne_failure (scanner : Scanner) (mode : Mode) (context : Context)
    {failure : LexFailure} {after : Scanner} :
    scanner.goTo mode context ≠ (.failure failure, after) := by
  simp [goTo]

private theorem endOfText_ne_failure (scanner : Scanner) (context : Context) {failure : LexFailure}
    {after : Scanner} : scanner.endOfText context ≠ (.failure failure, after) := by
  unfold endOfText
  split
  · exact emit_ne_failure _ _ _ _
  · split
    · exact emit_ne_failure _ _ _ _
    · exact goTo_ne_failure _ _ _

private theorem stepDispatch_ne_failure {after : Scanner} {failure : LexFailure} :
    scanner.stepDispatch ≠ (.failure failure, after) := by
  unfold stepDispatch
  simp only
  split
  · exact emit_ne_failure _ _ _ _
  · split
    · exact goTo_ne_failure _ _ _
    · split
      · exact emit_ne_failure _ _ _ _
      · exact emit_ne_failure _ _ _ _

private theorem stepDedent_ne_failure {target : UInt64} {after : Scanner} {failure : LexFailure} :
    scanner.stepDedent target ≠ (.failure failure, after) := by
  unfold stepDedent
  simp only
  split
  · exact emit_ne_failure _ _ _ _
  · split
    · exact goTo_ne_failure _ _ _
    · exact goTo_ne_failure _ _ _

private theorem eq_of_stepIndent_failure {after : Scanner} {failure : LexFailure}
    (h : scanner.stepIndent = (.failure failure, after)) :
    after = { scanner with context := { scanner.context with cursor := after.context.cursor } } := by
  unfold stepIndent at h
  split at h
  · exact absurd h (endOfText_ne_failure _ _)
  · split at h
    · exact absurd h (goTo_ne_failure _ _ _)
    · unfold startLine compareWidth at h
      simp only at h
      split at h
      · exact absurd h (endOfText_ne_failure _ _)
      · split at h
        · exact absurd h (goTo_ne_failure _ _ _)
        · split at h
          · exact absurd h (goTo_ne_failure _ _ _)
          · split at h
            · exact absurd h (emit_ne_failure _ _ _ _)
            · split at h
              · exact absurd h (goTo_ne_failure _ _ _)
              · cases h
                rfl

/-- Where a line is indented to no open level, or behind the last token, only the cursor moves. -/
theorem eq_of_step_failure {after : Scanner} {failure : LexFailure}
    (h : scanner.step = (.failure failure, after)) :
    after = { scanner with context := { scanner.context with cursor := after.context.cursor } } := by
  unfold step at h
  split at h
  · exact absurd h (emit_ne_failure _ _ _ _)
  · exact eq_of_stepIndent_failure h
  · exact absurd h stepDispatch_ne_failure
  · exact absurd h stepDedent_ne_failure
  · exact absurd h (emit_ne_failure _ _ _ _)
  · exact absurd h (emit_ne_failure _ _ _ _)
  · cases h
    rfl

theorem Aligned.step_keepsLevels (h : scanner.Aligned) (hne : scanner.context.indents ≠ []) :
    KeepsLevels scanner.context.indents.length scanner.step := by
  have hlength : scanner.context.indents.length ≠ 0 := fun hnil =>
    hne (List.length_eq_zero_iff.1 hnil)
  have hcontinues := step_continues h
  cases hstep : scanner.step with
  | mk emission after =>
      rw [hstep] at hcontinues
      cases emission with
      | silent => exact ⟨hcontinues.1.leveled, hcontinues.2⟩
      | failure failure =>
          refine ⟨hcontinues.2.2.leveled, ?_⟩
          rw [eq_of_step_failure hstep]
      | token token =>
          simp only [Continues] at hcontinues
          split at hcontinues
          · exact absurd hcontinues.1 hlength
          · refine ⟨hcontinues.2.1.leveled, ?_⟩
            rw [hcontinues.2.2]
            exact blocksBehind_add token.kind hlength

theorem step_keepsLevels (h : scanner.Leveled) :
    KeepsLevels scanner.context.indents.length scanner.step := by
  cases hmode : scanner.mode with
  | fileStart =>
      simp only [Leveled, hmode] at h
      have hpush : scanner.context.pushIndent 0 = { scanner.context with indents := [0] } := by
        simp [Context.pushIndent, Context.acceptsIndent, h]
      simp only [step, hmode, hpush, emit, KeepsLevels, Token.plain, h]
      exact ⟨⟨by simp, rfl⟩, rfl⟩
  | done =>
      simp only [step, hmode]
      exact ⟨h, rfl⟩
  | eof =>
      have hnil := h
      simp only [Leveled, Aligned, hmode] at hnil
      simp only [step, hmode]
      exact ⟨hnil, by simp [Token.plain]⟩
  | indent | dispatch =>
      simp only [Leveled, hmode] at h
      refine h.step_keepsLevels ?_
      simp only [Aligned, hmode] at h
      exact h.ne_nil
  | dedent target =>
      simp only [Leveled, hmode] at h
      refine h.step_keepsLevels ?_
      simp only [Aligned, hmode] at h
      exact h.1.ne_nil
  | fileEnd =>
      simp only [Leveled, hmode] at h
      refine h.step_keepsLevels ?_
      simp only [Aligned, hmode] at h
      simp [h]

/-! ## Requests -/

structure Coherent (scanner : Scanner) : Prop where
  leveled : scanner.Leveled
  bracketed : scanner.Bracketed
  exhausted : scanner.Exhausted

theorem ofText_coherent (text : String) (tabWidth : UInt64) : (ofText text tabWidth).Coherent :=
  ⟨rfl, bracketed_of_nil rfl, by simp [Exhausted, ofText]⟩

theorem KeepsLevels.leveled {depth : Nat} {result : Emission × Scanner}
    (h : KeepsLevels depth result) : result.2.Leveled := by
  obtain ⟨emission, after⟩ := result
  cases emission <;> exact h.1

theorem KeepsBrackets.bracketed {openers : List Char} {result : Emission × Scanner}
    (h : KeepsBrackets openers result) : result.2.Bracketed := by
  obtain ⟨emission, after⟩ := result
  cases emission with
  | silent | token => exact h.1
  | failure => exact h

theorem Coherent.step (h : scanner.Coherent) : scanner.step.2.Coherent :=
  ⟨(step_keepsLevels h.leveled).leveled, (step_keepsBrackets h.bracketed).bracketed,
    step_exhausted h.exhausted⟩

theorem Coherent.next (h : scanner.Coherent) : scanner.next.2.Coherent :=
  next_keeps (fun _ => Coherent.step) h

/-- Zero is open wherever a line is measured, so a scanner never goes back to a width that is not open. -/
theorem Coherent.compareWidth_eq (h : scanner.Coherent) (hmode : scanner.mode = .indent)
    {context : Context} (hindents : context.indents = scanner.context.indents) (width : UInt64) :
    scanner.compareWidth width context =
      if width = context.indent then scanner.goTo .dispatch context
      else if context.indent < width then
        scanner.emit (.plain .indent context.cursor.position) .dispatch (context.pushIndent width)
      else if context.hasIndent width then scanner.goTo (.dedent width) context
      else (.failure (.mismatchedIndent width context.levels context.cursor.position),
        { scanner with context }) := by
  have hstacked : Stacked scanner.context.indents := by
    have hleveled := h.leveled
    simpa only [Leveled, Aligned, hmode] using hleveled
  have hzero : context.hasIndent 0 = true := by
    rw [Context.hasIndent, hindents, List.contains_iff_mem]
    exact List.mem_of_getLast? hstacked.outermost
  unfold compareWidth
  by_cases hwidth : width = 0
  · simp [hwidth, hzero]
  · simp [hwidth]

/-- How many of the outcomes are tokens of a kind. -/
def countItems (kind : TokenKind) (items : List Item) : Nat :=
  countKind kind (items.filterMap Except.toOption)

theorem countItems_ok (kind : TokenKind) (token : Token) (items : List Item) :
    countItems kind (.ok token :: items) =
      countItems kind items + if token.kind = kind then 1 else 0 :=
  countKind_cons kind token _

theorem countItems_error (kind : TokenKind) (failure : LexFailure) (items : List Item) :
    countItems kind (.error failure :: items) = countItems kind items := rfl

theorem countItems_cons (kind : TokenKind) (item : Item) (items : List Item) :
    countItems kind (item :: items) = countItems kind items + countItems kind [item] := by
  cases item with
  | ok token =>
      rw [countItems_ok, countItems_ok]
      exact congrArg _ (Nat.zero_add _).symm
  | error failure => rfl

theorem Coherent.depth_next (h : scanner.Coherent) :
    scanner.next.2.context.indents.length + countItems .dedent [scanner.next.1] =
      scanner.context.indents.length + countItems .indent [scanner.next.1] := by
  have hlevels := step_keepsLevels h.leveled
  fun_induction Scanner.next scanner with
  | case1 => rfl
  | case2 scanner _ after hstep ih =>
      have hafter := h.step
      rw [hstep] at hlevels hafter
      rw [← hlevels.2]
      exact ih hafter (step_keepsLevels hafter.leveled)
  | case3 scanner _ token after hstep =>
      rw [hstep] at hlevels
      rw [countItems_ok, countItems_ok]
      simpa [countItems] using hlevels.2
  | case4 scanner _ failure after hstep =>
      rw [hstep] at hlevels
      rw [countItems_error, countItems_error]
      exact hlevels.2

theorem Coherent.depth_repeatedly (h : scanner.Coherent) (count : Nat) :
    (repeatedly Scanner.next count scanner).2.context.indents.length +
        countItems .dedent (repeatedly Scanner.next count scanner).1 =
      scanner.context.indents.length +
        countItems .indent (repeatedly Scanner.next count scanner).1 := by
  induction count generalizing scanner with
  | zero => rfl
  | succ count ih =>
      have hfirst := h.depth_next
      have hrest := ih h.next
      simp only [repeatedly]
      rw [countItems_cons, countItems_cons .indent]
      omega

theorem Bracketed.content_of_next {token : Token} (h : scanner.Bracketed)
    (hopeners : scanner.context.openers ≠ []) (hnext : scanner.next.1 = .ok token) :
    token.kind.isStructural = false := by
  have hbrackets := step_keepsBrackets h
  fun_induction Scanner.next scanner with
  | case1 => contradiction
  | case2 scanner _ after hstep ih =>
      rw [hstep] at hbrackets
      exact ih hbrackets.1 (hbrackets.2 ▸ hopeners) hnext (step_keepsBrackets hbrackets.1)
  | case3 scanner _ first after hstep =>
      rw [hstep] at hbrackets
      cases hnext
      exact hbrackets.2 hopeners
  | case4 => contradiction

/-! ## Blocks that are still to be closed -/

theorem Leveled.stacked (h : scanner.Leveled) (hne : scanner.context.indents ≠ []) :
    Stacked scanner.context.indents := by
  unfold Leveled at h
  split at h
  · contradiction
  · contradiction
  · unfold Aligned at h
    split at h
    · contradiction
    · exact h
    · exact h
    · exact h.1
    · rw [h]
      exact ⟨by simp, rfl⟩
    · contradiction
    · contradiction

theorem Leveled.exists_dedent (h : scanner.Leveled) (hne : scanner.context.indents ≠ []) :
    ∃ token : Token, .ok token ∈ scanner.outcomes ∧ token.kind = .dedent := by
  induction scanner using step_induction with
  | done scanner hmode =>
      simp only [Leveled, hmode] at h
      contradiction
  | step scanner hmode ih =>
      have hlevels := step_keepsLevels h
      have houtcomes := outcomes_eq_items_append hmode
      have hlength := List.length_pos_iff.2 hne
      have hgoes : ∀ after : Scanner, after.Leveled → 0 < after.context.indents.length →
          scanner.step.2 = after → ∃ token : Token, .ok token ∈ scanner.outcomes ∧
            token.kind = .dedent := by
        rintro after hafter hpos rfl
        obtain ⟨token, htoken, hkind⟩ := ih hafter (List.length_pos_iff.1 hpos)
        exact ⟨token, houtcomes ▸ List.mem_append_right _ htoken, hkind⟩
      cases hstep : scanner.step with
      | mk emission after =>
          rw [hstep] at hlevels hgoes houtcomes
          cases emission with
          | silent | failure => exact hgoes after hlevels.1 (hlevels.2 ▸ hlength) rfl
          | token token =>
              by_cases hkind : token.kind = .dedent
              · exact ⟨token, houtcomes ▸ List.mem_append_left _ List.mem_cons_self, hkind⟩
              · have hafter := hlevels.2
                rw [if_neg hkind] at hafter
                exact hgoes after hlevels.1 (by omega) rfl

theorem Leveled.mode_of_nil (h : scanner.Leveled) (hnil : scanner.context.indents = []) :
    scanner.mode = .fileStart ∨ scanner.mode = .eof ∨ scanner.mode = .done := by
  cases hmode : scanner.mode with
  | fileStart | eof | done => simp
  | indent | dispatch =>
      simp only [Leveled, Aligned, hmode] at h
      exact absurd hnil h.ne_nil
  | dedent target =>
      simp only [Leveled, Aligned, hmode] at h
      exact absurd hnil h.1.ne_nil
  | fileEnd =>
      simp only [Leveled, Aligned, hmode] at h
      simp [h] at hnil

theorem step_mode_ne_fileStart (scanner : Scanner) : scanner.step.2.mode ≠ .fileStart := by
  unfold step
  split
  · simp [emit]
  · rename_i hmode
    grind [stepIndent, startLine, endOfText, compareWidth, emit, goTo]
  · grind [stepDispatch, abandonBrackets, emit, goTo]
  · grind [stepDedent, emit, goTo]
  · simp [emit]
  · simp [emit]
  · rename_i hmode
    simp [hmode]

theorem next_mode_ne_fileStart (scanner : Scanner) : scanner.next.2.mode ≠ .fileStart := by
  fun_induction next scanner with
  | case1 scanner hmode => simp [hmode]
  | case2 scanner _ after hstep ih => exact ih
  | case3 scanner _ token after hstep | case4 scanner _ failure after hstep =>
      have hmode := step_mode_ne_fileStart scanner
      rwa [hstep] at hmode

/-! ## Opening a width -/

def Opens (context : Context) : Emission × Scanner → Prop
  | (.token token, after) => token.kind = .indent →
      ∃ width, context.acceptsIndent width = true ∧ after.context.indents = width :: context.indents
  | _ => True

private theorem opens_of_emit {before context : Context} {token : Token} {mode : Mode}
    (hkind : token.kind ≠ .indent) : Opens before (scanner.emit token mode context) :=
  fun h => absurd h hkind

private theorem opens_of_push {before context : Context} {token : Token} {mode : Mode}
    {width : UInt64} (haccepts : context.acceptsIndent width = true)
    (hindents : context.indents = before.indents) :
    Opens before (scanner.emit token mode (context.pushIndent width)) := by
  intro _
  refine ⟨width, ?_, ?_⟩
  · rw [← haccepts, Context.acceptsIndent, Context.acceptsIndent, Context.indent, Context.indent,
      hindents]
  · simp only [Context.pushIndent, haccepts, if_true, hindents]

private theorem endOfText_opens {before context : Context} :
    Opens before (scanner.endOfText context) := by
  unfold endOfText
  split
  · exact opens_of_emit (by simp [Token.error])
  · split
    · exact opens_of_emit (by simp [Token.plain])
    · trivial

private theorem compareWidth_opens {width : UInt64} {context : Context}
    (hindents : context.indents = scanner.context.indents) :
    Opens scanner.context (scanner.compareWidth width context) := by
  unfold compareWidth
  simp only
  split
  · trivial
  · split
    · rename_i hless
      exact opens_of_push (by simp [Context.acceptsIndent, hless]) hindents
    · split <;> trivial

private theorem stepIndent_opens : Opens scanner.context scanner.stepIndent := by
  unfold stepIndent
  split
  · exact endOfText_opens
  · split
    · trivial
    · unfold startLine
      simp only
      split
      · exact endOfText_opens
      · split
        · trivial
        · exact compareWidth_opens rfl

private theorem stepDispatch_opens : Opens scanner.context scanner.stepDispatch := by
  unfold stepDispatch
  simp only
  split
  · exact opens_of_emit (by simp [Token.error])
  · split
    · trivial
    · split
      · exact opens_of_emit (by simp [Token.plain])
      · rename_i c next _ _
        apply opens_of_emit
        intro hkind
        have hcontent := (scanToken_lexical { scanner.context with
          cursor := (skipBlanks scanner.tabWidth scanner.context.bracketIndent
            scanner.context.inBrackets scanner.context.cursor).2 } c next).kind
        rw [hkind] at hcontent
        contradiction

/-- Every width that is opened can be opened: it is the first, or greater than the innermost one. -/
theorem step_opens (h : scanner.Leveled) : Opens scanner.context scanner.step := by
  unfold step
  split
  · rename_i hmode
    simp only [Leveled, hmode] at h
    exact opens_of_push (by simp [Context.acceptsIndent, h]) rfl
  · exact stepIndent_opens
  · exact stepDispatch_opens
  · unfold stepDedent
    simp only
    split
    · exact opens_of_emit (by simp [Token.plain])
    · split <;> trivial
  · exact opens_of_emit (by simp [Token.plain])
  · exact opens_of_emit (by simp [Token.plain])
  · trivial

theorem Coherent.opens_of_steps (h : scanner.Coherent) {before after : Scanner}
    {emission : Emission} (hstep : (before, emission, after) ∈ scanner.stepsOfNext) :
    Opens before.context (emission, after) := by
  have hopens := step_opens h.leveled
  fun_induction stepsOfNext scanner with
  | case1 => simp at hstep
  | case2 scanner _ next hsilent ih =>
      have hnext := h.step
      rw [hsilent] at hnext
      rcases List.mem_cons.1 hstep with heq | hlater
      · cases heq
        trivial
      · exact ih hnext hlater (step_opens hnext.leveled)
  | case3 scanner _ emission' next _ hlast =>
      rw [hlast] at hopens
      rw [List.mem_singleton] at hstep
      cases hstep
      exact hopens

/-! ## Any number of requests -/

/-- What holds of the scanner that has given these outcomes for a text. -/
structure Consistent (items : List Item) (scanner : Scanner) : Prop where
  /-- The stack of open widths is empty before the first request and behind the last token that closes
  a block, and then only. -/
  empty_iff : scanner.context.indents = [] ↔
    items = [] ∨ ∀ token, .ok token ∈ scanner.outcomes → token.kind ≠ .dedent
  /-- Otherwise it is strictly increasing, from the width zero on. -/
  increasing : scanner.context.indents ≠ [] →
    scanner.context.levels.Pairwise (· < ·) ∧ scanner.context.levels.head? = some 0
  /-- It is as deep as blocks were opened and not closed. -/
  depth : scanner.context.indents.length + countItems .dedent items = countItems .indent items
  /-- Blocks are closed outside of brackets, down to an open width. -/
  target : ∀ target, scanner.mode = .dedent target →
    target ∈ scanner.context.indents ∧ scanner.context.openers = []
  /-- While brackets are open the innermost open width is the one where they were opened. -/
  anchored : scanner.context.openers ≠ [] → scanner.context.bracketIndent = scanner.context.indent
  /-- While brackets are open no token of the structure of the text is given. -/
  content : scanner.context.openers ≠ [] →
    ∀ token, scanner.next.1 = .ok token → token.kind.isStructural = false
  /-- The last modes are entered at the end of the text, with no bracket open. -/
  ending : scanner.mode = .eof ∨ scanner.mode = .done →
    scanner.context.cursor.atEnd = true ∧ scanner.context.openers = []
  /-- Every width that the next request opens can be opened. -/
  opens : ∀ before token after, (before, .token token, after) ∈ scanner.stepsOfNext →
    token.kind = .indent → ∃ width, before.context.acceptsIndent width = true ∧
      after.context.indents = width :: before.context.indents

theorem Leveled.increasing (h : scanner.Leveled) (hne : scanner.context.indents ≠ []) :
    scanner.context.levels.Pairwise (· < ·) ∧ scanner.context.levels.head? = some 0 := by
  have hstacked := h.stacked hne
  refine ⟨List.pairwise_reverse.2 hstacked.decreasing, ?_⟩
  rw [Context.levels, List.head?_reverse]
  exact hstacked.outermost

/-- At both ends of a text no width is open, and everywhere between a block is still to be closed. -/
theorem Coherent.indents_eq_nil_iff (h : scanner.Coherent) (hstarted : scanner.mode ≠ .fileStart) :
    scanner.context.indents = [] ↔
      ∀ token, .ok token ∈ scanner.outcomes → token.kind ≠ .dedent := by
  constructor
  · intro hnil token htoken
    rcases h.leveled.mode_of_nil hnil with hmode | hmode | hmode
    · contradiction
    · have hstep : scanner.step =
          scanner.emit (.plain .eof scanner.position) .done scanner.context := by
        unfold Scanner.step
        rw [hmode]
      rw [outcomes_of_token (by simp [hmode]) hstep, outcomes_of_done rfl,
        List.mem_singleton] at htoken
      cases htoken
      simp [Token.plain]
    · rw [outcomes_of_done hmode] at htoken
      simp at htoken
  · intro hnone
    apply Decidable.byContradiction
    intro hne
    obtain ⟨token, htoken, hkind⟩ := h.leveled.exists_dedent hne
    exact hnone token htoken hkind

theorem Coherent.consistent {items : List Item} (h : scanner.Coherent)
    (hempty : items = [] → scanner.context.indents = [])
    (hstarted : items ≠ [] → scanner.mode ≠ .fileStart)
    (hdepth : scanner.context.indents.length + countItems .dedent items =
      countItems .indent items) : Consistent items scanner where
  empty_iff := by
    by_cases hitems : items = []
    · simp [hitems, hempty hitems]
    · rw [h.indents_eq_nil_iff (hstarted hitems)]
      simp [hitems]
  increasing := h.leveled.increasing
  depth := hdepth
  target := by
    intro target hmode
    have hleveled := h.leveled
    simp only [Leveled, Aligned, hmode] at hleveled
    exact ⟨hleveled.2.1, h.bracketed.openers_eq_nil (by simp [hmode]) (by simp [hmode])⟩
  anchored := h.bracketed.anchored
  content := fun hopeners _ hnext => h.bracketed.content_of_next hopeners hnext
  ending := by
    intro hmode
    refine ⟨List.isEmpty_iff.2 (h.exhausted (.inr hmode)), ?_⟩
    apply h.bracketed.openers_eq_nil <;> rcases hmode with hmode | hmode <;> simp [hmode]
  opens := fun _ _ _ hstep => h.opens_of_steps hstep

/-- Whatever a text is and however often its scanner was asked for a token, also behind failures, the
stacks of the scanner are in order. -/
theorem requests_consistent (text : String) (tabWidth : UInt64) (count : Nat) :
    Consistent (repeatedly Scanner.next count (ofText text tabWidth)).1
      (repeatedly Scanner.next count (ofText text tabWidth)).2 := by
  have hstart := ofText_coherent text tabWidth
  have hdepth := hstart.depth_repeatedly count
  rw [show (ofText text tabWidth).context.indents = [] from rfl, List.length_nil,
    Nat.zero_add] at hdepth
  refine (repeatedly_keeps (fun _ => Coherent.next) hstart count).consistent ?_ ?_ hdepth
  · cases count with
    | zero => exact fun _ => rfl
    | succ count => simp [repeatedly]
  · cases count with
    | zero => exact fun h => absurd rfl h
    | succ count =>
        intro _
        exact repeatedly_keeps (P := fun scanner : Scanner => scanner.mode ≠ .fileStart)
          (fun scanner _ => scanner.next_mode_ne_fileStart) (next_mode_ne_fileStart _) count

end Scanner

end Offside.Scan
