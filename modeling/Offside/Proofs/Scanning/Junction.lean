import Offside.Proofs.Grammar.Source
import Offside.Proofs.Scanning.Arrival
import Offside.Proofs.Scanning.Fork
import Offside.Proofs.Scanning.Layout
import Offside.Proofs.Scanning.Places

/-!
# One text behind another

A text that ends with a line break is scanned in front of another one as it is scanned alone, up to the
end of its last line; only brackets that are never closed could tell the difference.  From there on
the blocks that are still open are closed, and what follows is the other text on its own.
-/

namespace Offside.Scan

open Grammar (Respelled)
open Parse (Item)
open Text (Cursor Position)

variable {behind : List Char} {cursor cursor' : Cursor}

/-! ## Scanners -/

namespace Scanner

variable {scanner scanner' : Scanner} {place : Place}

def Clean (scanner : Scanner) : Prop :=
  ∀ item ∈ scanner.outcomes, ∃ token, item = .ok token ∧ token.kind ≠ .error

theorem Clean.step (h : scanner.Clean) (hmode : scanner.mode ≠ .done) : scanner.step.2.Clean := by
  intro item hitem
  apply h item
  rw [outcomes_eq_items_append hmode]
  exact List.mem_append_right _ hitem

theorem not_clean_of_inBrackets (hmode : scanner.mode = .dispatch)
    (hbrackets : scanner.context.inBrackets = true)
    (hflag : (skipBlanks scanner.tabWidth scanner.context.bracketIndent true
      scanner.context.cursor).1 = false)
    (hrest : (skipBlanks scanner.tabWidth scanner.context.bracketIndent true
      scanner.context.cursor).2.rest = []) : ¬ scanner.Clean := by
  intro hclean
  have hread := (Cursor.read?_eq_none_iff _).2 hrest
  have hstep : scanner.step = scanner.goTo .indent { scanner.context with
      cursor := (skipBlanks scanner.tabWidth scanner.context.bracketIndent true
        scanner.context.cursor).2 } := by
    unfold step stepDispatch
    simp only [hmode, hbrackets, hflag, Bool.false_eq_true, if_false, hread]
  have hafter := hclean.step (by simp [hmode])
  rw [hstep] at hafter
  cases hopeners : scanner.context.openers with
  | nil => simp [Context.inBrackets, hopeners] at hbrackets
  | cons opener outer =>
      have hend := hafter
      unfold Clean at hend
      rw [outcomes_eq_items_append (by simp [goTo])] at hend
      have hatEnd : (skipBlanks scanner.tabWidth scanner.context.bracketIndent true
          scanner.context.cursor).2.atEnd = true := by
        rw [Cursor.atEnd, hrest]
        rfl
      unfold step stepIndent at hend
      simp only [goTo, hatEnd, if_true] at hend
      unfold endOfText at hend
      simp only [hopeners] at hend
      obtain ⟨token, htoken, hkind⟩ := hend _ (List.mem_append_left _ List.mem_cons_self)
      cases htoken
      exact hkind rfl

theorem stepsAlike_of_joined (h : scanner.Abreast (Joined [] behind) scanner')
    (hstands : scanner.Stands place) (hclean : scanner.Clean) :
    StepsAlike (Joined [] behind)
      (fun cursor cursor' => Joined [] behind cursor cursor' ∨ Met [] behind cursor cursor')
      scanner.step scanner'.step := by
  rcases h.step_joined fun hindent hend hopeners hcolumn =>
      hstands.lineOpen hindent hend hopeners hcolumn with
    halike | ⟨hmode, hbrackets, last, last', next, next', hmet, hcrosses, -⟩
  · exact halike
  · have hskip := hcrosses.skip
    rw [hmet.rest, startsStatement_nil, if_neg Bool.false_ne_true,
      skipBlanks_of_end ((Cursor.read?_eq_none_iff _).2 hmet.rest)] at hskip
    exact absurd hclean (not_clean_of_inBrackets hmode hbrackets (by rw [hskip])
      (by rw [hskip]; exact hmet.rest))

theorem Clean.step_ne_failure (h : scanner.Clean) (hmode : scanner.mode ≠ .done)
    (failure : LexFailure) : scanner.step.1 ≠ .failure failure := by
  intro hfailure
  have hitems := outcomes_eq_items_append hmode
  rw [hfailure] at hitems
  obtain ⟨token, htoken, -⟩ := h (.error failure) (by
    rw [hitems]
    exact List.mem_append_left _ List.mem_cons_self)
  contradiction

theorem Aligned.step (h : scanner.Aligned) :
    scanner.step.2.Aligned ∨ scanner.step.2.mode = .done := by
  have hcontinues := step_continues h
  cases hstep : scanner.step with
  | mk emission after =>
      rw [hstep] at hcontinues
      cases emission with
      | silent => exact .inl hcontinues.1
      | failure failure => exact .inl hcontinues.2.2
      | token token =>
          simp only [Continues] at hcontinues
          split at hcontinues
          · exact .inr hcontinues.2
          · exact .inl hcontinues.2.1

theorem exists_meeting (h : scanner.Abreast (Joined [] behind) scanner')
    (hstands : scanner.Stands place) (haligned : scanner.Aligned) (hclean : scanner.Clean) :
    ∃ (items items' : List Item) (last last' : Scanner),
      items'.map bareItem = items.map bareItem ∧
      scanner.outcomes = items ++ last.outcomes ∧ scanner'.outcomes = items' ++ last'.outcomes ∧
      last.BetweenLines ∧ last.Aligned ∧ last.Abreast (Met [] behind) last' ∧
      last.tabWidth = scanner.tabWidth := by
  induction scanner using step_induction generalizing scanner' place with
  | done scanner hmode => exact absurd hmode (hstands.mode_ne_done h.context.cursor.atEnd)
  | step scanner hmode ih =>
      have halike := stepsAlike_of_joined h hstands hclean
      have houtcomes := outcomes_eq_items_append hmode
      have houtcomes' := outcomes_eq_items_append (h.mode ▸ hmode)
      have hitems := Emission.items_bare halike.1
      obtain ⟨place', hstands'⟩ := hstands.step hmode (hclean.step_ne_failure hmode)
      have haligned' := haligned.step
      have hafter : scanner.step.2.Abreast (Joined [] behind) scanner'.step.2 ∨
          (scanner.step.2.BetweenLines ∧ scanner.step.2.Abreast (Met [] behind) scanner'.step.2) := by
        rcases halike.2 with hjoined | ⟨hbetween, ⟨hcursor | hcursor, h1, h2, h3⟩, h4, h5, h6⟩
        · exact .inl hjoined
        · exact .inl ⟨⟨hcursor, h1, h2, h3⟩, h4, h5, h6⟩
        · exact .inr ⟨hbetween, ⟨hcursor, h1, h2, h3⟩, h4, h5, h6⟩
      rcases hafter with hjoined | ⟨hbetween, hmet⟩
      · have haligned' : scanner.step.2.Aligned := by
          rcases haligned' with haligned' | hdone
          · exact haligned'
          · exact absurd hdone (hstands'.mode_ne_done hjoined.context.cursor.atEnd)
        obtain ⟨items, items', last, last', hbare, hlast, hlast', hbetween, haligned, hmet, htab⟩ :=
          ih hjoined hstands' haligned' (hclean.step hmode)
        refine ⟨scanner.step.1.items ++ items, scanner'.step.1.items ++ items', last, last', ?_, ?_,
          ?_, hbetween, haligned, hmet, htab.trans scanner.step_tabWidth⟩
        · rw [List.map_append, List.map_append, hbare, hitems]
        · rw [houtcomes, hlast, List.append_assoc]
        · rw [houtcomes', hlast', List.append_assoc]
      · have haligned' : scanner.step.2.Aligned := by
          rcases haligned' with haligned' | hdone
          · exact haligned'
          · rw [hbetween.mode] at hdone
            contradiction
        exact ⟨_, _, _, _, hitems, houtcomes, houtcomes', hbetween, haligned', hmet,
          scanner.step_tabWidth⟩

/-! ## The lines behind -/

def atMargin (scanner : Scanner) : Scanner :=
  { scanner with context := { scanner.context with indents := [0] } }

def StartsFlush (scanner : Scanner) : Prop :=
  ∀ token, scanner.outcomes.head? = some (.ok token) → token.kind ≠ .indent

variable {inner : List UInt64} {text : List Char}

private theorem outcomes_of_closing (hinner : ∀ level ∈ inner, 0 < level)
    (hmode : scanner.mode = .dedent 0) (hindents : scanner.context.indents = inner ++ [0]) :
    ∃ spelled, Respelled (List.replicate inner.length (.plain .dedent .start)) spelled ∧
      scanner.outcomes = spelled.map .ok ++ scanner.atMargin.outcomes := by
  refine ⟨List.replicate inner.length (.plain .dedent scanner.position), ?_, ?_⟩
  · rw [Respelled, List.map_replicate, List.map_replicate]
    rfl
  · rw [List.map_replicate]
    exact outcomes_of_dedent hinner hmode hindents

structure InFront (cursor : Cursor) (tabWidth : UInt64) (scanner : Scanner) : Prop where
  between : scanner.BetweenLines
  cursor : scanner.context.cursor = cursor
  tabWidth : scanner.tabWidth = tabWidth

/-- Between two lines the text is over, there is a blank line, or the width of a line is measured.
None of this depends on the open widths. -/
theorem line_cases (hcolumn : cursor.position.column = 1) (tabWidth : UInt64) :
    (∃ after : Cursor, ∀ scanner, InFront cursor tabWidth scanner →
      scanner.step = scanner.goTo (.dedent 0) { scanner.context with cursor := after }) ∨
    (∃ next : Cursor, next.rest.length < cursor.rest.length ∧ next.position.column = 1 ∧
      ∀ scanner, InFront cursor tabWidth scanner →
        scanner.step = scanner.goTo .indent { scanner.context with cursor := next }) ∨
    ∃ (after : Cursor) (width : UInt64), after.atEnd = false ∧
      ∀ scanner, InFront cursor tabWidth scanner →
        scanner.step = scanner.compareWidth width { scanner.context with cursor := after } := by
  have hover : ∀ (after : Cursor) scanner, InFront cursor tabWidth scanner →
      scanner.endOfText { scanner.context with cursor := after } =
        scanner.goTo (.dedent 0) { scanner.context with cursor := after } := by
    intro after scanner h
    unfold endOfText
    simp [h.between.openers, h.between.lineOpen]
  cases hend : cursor.atEnd with
  | true =>
      refine .inl ⟨cursor, fun scanner h => ?_⟩
      rw [← hover cursor scanner h]
      unfold step stepIndent
      simp only [h.between.mode, h.cursor, hend, if_true]
      rw [← h.cursor]
  | false =>
      cases hread : (cursor.span Text.isInlineBlank).2.read? with
      | none =>
          refine .inl ⟨(cursor.span Text.isInlineBlank).2, fun scanner h => ?_⟩
          rw [← hover _ scanner h]
          obtain ⟨hbetween, rfl, -⟩ := h
          rw [step_of_lineStart hbetween.mode hend hbetween.not_inBrackets hcolumn]
          unfold startLine
          simp only [hread]
      | some first =>
          obtain ⟨c, next⟩ := first
          by_cases hc : c = '\n'
          · subst hc
            have hle := Cursor.span_length_le Text.isInlineBlank cursor
            refine .inr (.inl ⟨next, Nat.lt_of_lt_of_le (Cursor.length_lt_of_read? hread) hle,
              Cursor.column_of_lineFeed hread, fun scanner h => ?_⟩)
            obtain ⟨hbetween, rfl, -⟩ := h
            exact step_of_blankLine hbetween.mode hend hbetween.not_inBrackets hcolumn hread
          · refine .inr (.inr ⟨(cursor.span Text.isInlineBlank).2,
              leadingWidth tabWidth (cursor.span Text.isInlineBlank).1,
              Cursor.atEnd_of_read? hread, fun scanner h => ?_⟩)
            obtain ⟨hbetween, rfl, rfl⟩ := h
            exact step_of_content hbetween.mode hend hbetween.not_inBrackets hcolumn hread hc

theorem eq_zero_of_startsFlush {width : UInt64} {context : Context} (h : scanner.StartsFlush)
    (hmode : scanner.mode ≠ .done) (hindents : context.indents = [0])
    (hstep : scanner.step = scanner.compareWidth width context) : width = 0 := by
  apply Decidable.byContradiction
  intro hwidth
  unfold compareWidth at hstep
  simp only [Context.indent, hindents, List.head?_cons, Option.getD_some] at hstep
  rw [if_neg hwidth, if_pos (UInt64.pos_iff_ne_zero.2 hwidth)] at hstep
  have houtcomes := outcomes_of_token hmode hstep
  exact h _ (by rw [houtcomes]; rfl) rfl

/-- The blocks that are open between two lines are closed in front of a line at the margin, which is
then read as if none had been open. -/
theorem outcomes_of_inFront {level : UInt64} {tabWidth : UInt64}
    (h : InFront cursor tabWidth scanner) (hcolumn : cursor.position.column = 1)
    (hindents : scanner.context.indents = level :: inner ++ [0])
    (hinner : ∀ other ∈ level :: inner, 0 < other) (hflush : scanner.atMargin.StartsFlush) :
    ∃ spelled, Respelled (List.replicate (inner.length + 1) (.plain .dedent .start)) spelled ∧
      scanner.outcomes = spelled.map .ok ++ scanner.atMargin.outcomes := by
  induction hlength : cursor.rest.length using Nat.strongRecOn generalizing scanner cursor with
  | ind length ih =>
      have hmode : scanner.mode ≠ .done := by simp [h.between.mode]
      have hmode' : scanner.atMargin.mode ≠ .done := hmode
      have hmargin : InFront cursor tabWidth scanner.atMargin :=
        ⟨⟨h.between.mode, h.between.openers, h.between.lineOpen⟩, h.cursor, h.tabWidth⟩
      rcases line_cases hcolumn tabWidth with ⟨after, hstep⟩ | ⟨next, hshorter, hnext, hstep⟩ |
        ⟨after, width, hend, hstep⟩
      · rw [outcomes_of_silent hmode (hstep _ h) (by simp),
          outcomes_of_silent hmode' (hstep _ hmargin) (by simp)]
        exact outcomes_of_closing hinner rfl hindents
      · have houtcomes' := outcomes_of_silent hmode' (hstep _ hmargin) (by simp)
        rw [outcomes_of_silent hmode (hstep _ h) (by simp), houtcomes']
        refine @ih _ (hlength ▸ hshorter) _ (scanner.goTo .indent _).2
          ⟨⟨rfl, h.between.openers, h.between.lineOpen⟩, rfl, h.tabWidth⟩ hnext hindents ?_ rfl
        intro token htoken
        exact hflush token (by rw [houtcomes']; exact htoken)
      · obtain rfl : width = 0 :=
          eq_zero_of_startsFlush hflush hmode' (by rfl) (hstep _ hmargin)
        have hstep' : scanner.atMargin.step = scanner.atMargin.goTo .dispatch
            { scanner.atMargin.context with cursor := after } := by
          rw [hstep _ hmargin]
          simp [compareWidth, atMargin, Context.indent]
        have hstep := hstep _ h
        have hindent : ({ scanner.context with cursor := after } : Context).indent = level := by
          rw [Context.indent, hindents]
          rfl
        have hpos : 0 < level := hinner level List.mem_cons_self
        unfold compareWidth at hstep
        simp only [hindent] at hstep
        rw [if_neg (UInt64.ne_of_lt hpos), if_neg (UInt64.lt_asymm hpos), if_pos (by simp)] at hstep
        rw [outcomes_of_silent hmode hstep (by simp), outcomes_of_silent hmode' hstep' (by simp)]
        have hclosing := @outcomes_of_closing
          (scanner.goTo (.dedent 0) { scanner.context with cursor := after }).2 _ hinner rfl hindents
        have henter : (scanner.goTo (.dedent 0)
            { scanner.context with cursor := after }).2.atMargin.outcomes =
              (scanner.atMargin.goTo .dispatch
                { scanner.atMargin.context with cursor := after }).2.outcomes := by
          apply outcomes_of_silent (by simp [atMargin, goTo]) ?_ (by simp [goTo])
          unfold step stepDedent
          simp only [atMargin, goTo, hend, Bool.false_eq_true, if_false]
          exact if_neg (UInt64.lt_irrefl 0)
        rw [henter] at hclosing
        exact hclosing

theorem exists_closing {tabWidth : UInt64} (h : InFront cursor tabWidth scanner)
    (hcolumn : cursor.position.column = 1) (hindents : scanner.context.indents = inner ++ [0])
    (hinner : ∀ other ∈ inner, 0 < other) (hflush : scanner.atMargin.StartsFlush) :
    ∃ spelled, Respelled (List.replicate inner.length (.plain .dedent .start)) spelled ∧
      scanner.outcomes = spelled.map .ok ++ scanner.atMargin.outcomes := by
  cases inner with
  | nil =>
      have hsame : scanner.atMargin = scanner := by
        rw [List.nil_append] at hindents
        rw [atMargin, ← hindents]
      exact ⟨[], rfl, by rw [hsame]; rfl⟩
  | cons level inner => exact outcomes_of_inFront h hcolumn hindents hinner hflush

theorem exists_inner_of_stacked {indents : List UInt64} (h : Stacked indents) :
    ∃ inner, indents = inner ++ [0] ∧ ∀ level ∈ inner, 0 < level := by
  obtain ⟨inner, hinner⟩ := List.getLast?_eq_some_iff.1 h.outermost
  refine ⟨inner, hinner, fun level hlevel => ?_⟩
  have hpairs := h.decreasing
  rw [hinner, List.pairwise_append] at hpairs
  exact hpairs.2.2 level hlevel 0 List.mem_cons_self

/-! ## Texts -/

theorem opened_stands (text : String) (tabWidth : UInt64) :
    (opened text tabWidth).Stands .first :=
  ⟨⟨.inl rfl, rfl, .inr rfl⟩, fun _ => rfl, Nat.one_pos⟩

/-- Behind a text that ends its last line, the other text is read like behind no line at all. -/
theorem exists_meeting_ofText {first second : String} {tabWidth : UInt64}
    (hfirst : first = "" ∨ ∃ front, first = front ++ "\n") (hclean : (opened first tabWidth).Clean) :
    ∃ (items items' : List Item) (last last' : Scanner),
      items'.map bareItem = items.map bareItem ∧
      (opened first tabWidth).outcomes = items ++ last.outcomes ∧
      (opened (first ++ second) tabWidth).outcomes = items' ++ last'.outcomes ∧
      last.BetweenLines ∧ last.Aligned ∧ last.Abreast (Met [] second.toList) last' ∧
      last.tabWidth = tabWidth := by
  rcases hfirst with rfl | ⟨front, rfl⟩
  · refine ⟨[], [], _, _, rfl, rfl, rfl, ⟨rfl, rfl, rfl⟩, opened_aligned "" tabWidth,
      ⟨⟨⟨rfl, rfl, rfl, ?_⟩, rfl, rfl, rfl⟩, rfl, rfl, rfl⟩, rfl⟩
    simp [opened, Context.ofText, Cursor.ofText]
  · refine exists_meeting ⟨⟨⟨rfl, front.toList, ?_, ?_⟩, rfl, rfl, rfl⟩, rfl, rfl, rfl⟩
      (opened_stands _ tabWidth) (opened_aligned _ tabWidth) hclean
    · simp [opened, Context.ofText, Cursor.ofText]
    · simp [opened, Context.ofText, Cursor.ofText]

def alone (text : List Char) (tabWidth : UInt64) : Scanner :=
  ⟨⟨⟨text, origin⟩, [0], [], 0⟩, .indent, tabWidth, false⟩

theorem opened_below_alone (text : String) (tabWidth : UInt64) :
    (alone text.toList tabWidth).Below ⟨1, 0⟩ (opened text tabWidth) :=
  ⟨⟨rfl, rfl, rfl, fun _ => rfl⟩, rfl, rfl, rfl⟩

theorem below_alone (h : scanner.BetweenLines) (hindents : scanner.context.indents = [0])
    (hcolumn : scanner.position.column = 1) :
    (alone scanner.context.cursor.rest scanner.tabWidth).Below
      ⟨scanner.position.line, scanner.position.offset⟩ scanner := by
  refine ⟨⟨?_, hindents, h.openers, fun hopeners => absurd rfl hopeners⟩, h.mode, rfl, h.lineOpen⟩
  obtain ⟨⟨⟨rest, line, column, offset⟩, indents, openers, bracketIndent⟩, mode, tab, lineOpen⟩ :=
    scanner
  obtain rfl : column = 1 := hcolumn
  simp [alone, origin, Displacement.cursor, Displacement.position, position]

theorem outcomes_of_over (h : AtStart [] [0] scanner) :
    ∃ spelled, Respelled [.plain .dedent .start, .plain .eof .start] spelled ∧
      scanner.outcomes = spelled.map .ok := by
  obtain ⟨spelled, later, hspelled, houtcomes, -, hlater⟩ :=
    Scans.silent (scans_settle (by decide) margined_nil (Nat.le_refl 0)) scans_over scanner h
  exact ⟨spelled, hspelled, by rw [houtcomes, hlater, List.append_nil]⟩

theorem exists_tail_of_ofText {text : String} {tabWidth : UInt64} {tokens : List Token}
    (h : (ofText text tabWidth).outcomes = tokens.map .ok) :
    ∃ tail, tokens = .plain .indent .start :: tail ∧
      (opened text tabWidth).outcomes = tail.map .ok := by
  rw [outcomes_ofText_eq] at h
  cases tokens with
  | nil => simp at h
  | cons token tail =>
      rw [List.map_cons, List.cons.injEq] at h
      exact ⟨tail, by rw [Except.ok.inj h.1], h.2⟩

theorem exists_tokens_of_alone {text : String} {tabWidth : UInt64} {tokens : List Token}
    (h : scanner.BetweenLines) (hcolumn : scanner.position.column = 1)
    (hindents : scanner.context.indents = [0]) (htab : scanner.tabWidth = tabWidth)
    (hrest : scanner.context.cursor.rest = text.toList)
    (htokens : (opened text tabWidth).outcomes = tokens.map .ok) :
    ∃ spelled, scanner.outcomes = spelled.map .ok ∧ Respelled tokens spelled := by
  rw [(opened_below_alone text tabWidth).outcomes] at htokens
  obtain ⟨base, hbase, rfl⟩ := Parse.exists_tokens_of_map_item htokens
  have hbelow := below_alone h hindents hcolumn
  rw [hrest, htab] at hbelow
  rw [hbelow.outcomes, hbase, Parse.map_item_tokens]
  exact ⟨_, rfl, Parse.respelled_map_token _ _ base⟩

/-- Between two lines, whatever blocks are open, they are closed in front of a text that starts at the
margin. -/
theorem exists_tokens_behind {text : String} {tabWidth : UInt64} {tokens : List Token}
    (h : scanner.BetweenLines) (hcolumn : scanner.position.column = 1)
    (hindents : scanner.context.indents = inner ++ [0]) (hinner : ∀ level ∈ inner, 0 < level)
    (htab : scanner.tabWidth = tabWidth) (hrest : scanner.context.cursor.rest = text.toList)
    (htokens : (opened text tabWidth).outcomes = tokens.map .ok)
    (hflush : (opened text tabWidth).StartsFlush) :
    ∃ closing behind, Respelled (List.replicate inner.length (.plain .dedent .start)) closing ∧
      Respelled tokens behind ∧ scanner.outcomes = (closing ++ behind).map .ok := by
  obtain ⟨behind, houtcomes, hbehind⟩ := @exists_tokens_of_alone scanner.atMargin _ _ _
    ⟨h.mode, h.openers, h.lineOpen⟩ hcolumn rfl htab hrest htokens
  have hflush' : scanner.atMargin.StartsFlush := by
    intro token htoken
    rw [houtcomes] at htoken
    cases tokens with
    | nil =>
        obtain rfl := Grammar.respelled_nil.1 hbehind
        simp at htoken
    | cons head tokens =>
        rw [Respelled, List.map_cons, List.map_eq_cons_iff] at hbehind
        obtain ⟨head', rest, rfl, hhead, -⟩ := hbehind
        obtain rfl : head' = token := by simpa using htoken
        have hkind : head'.bare.kind = head.bare.kind := congrArg Token.kind hhead
        change head'.kind = head.kind at hkind
        rw [hkind]
        exact hflush head (by rw [htokens]; rfl)
  obtain ⟨closing, hclosing, hclosed⟩ :=
    exists_closing ⟨h, rfl, rfl⟩ hcolumn hindents hinner hflush'
  exact ⟨closing, behind, hclosing, hbehind, by rw [hclosed, houtcomes, List.map_append]⟩

theorem exists_tokens_of_end (h : scanner.BetweenLines) (hcolumn : scanner.position.column = 1)
    (hindents : scanner.context.indents = inner ++ [0]) (hinner : ∀ level ∈ inner, 0 < level)
    (hrest : scanner.context.cursor.rest = []) :
    ∃ closing last last', Respelled (List.replicate inner.length (.plain .dedent .start)) closing ∧
      scanner.outcomes =
        (closing ++ [Token.plain .dedent last, Token.plain .eof last']).map .ok := by
  obtain ⟨ending, hending, hover⟩ :=
    @outcomes_of_over (opened "" scanner.tabWidth) ⟨rfl, rfl, rfl, rfl, rfl, rfl⟩
  have hflush : (opened "" scanner.tabWidth).StartsFlush := by
    intro token htoken
    obtain ⟨last, _, rfl, -⟩ := Grammar.respelled_plain.1 hending
    rw [hover] at htoken
    obtain rfl : Token.plain .dedent last = token := by simpa using htoken
    simp [Token.plain]
  have hrest : scanner.context.cursor.rest = "".toList := by
    rw [hrest]
    rfl
  obtain ⟨closing, behind, hclosing, hbehind, houtcomes⟩ :=
    exists_tokens_behind h hcolumn hindents hinner rfl hrest hover hflush
  obtain ⟨last, _, rfl, hlast⟩ := Grammar.respelled_plain.1 (hbehind.trans hending)
  obtain ⟨last', _, rfl, hnil⟩ := Grammar.respelled_plain.1 hlast
  obtain rfl := Grammar.respelled_nil.1 hnil
  exact ⟨closing, last, last', hclosing, houtcomes⟩

theorem exists_tokens_append {first second : String} {tabWidth : UInt64}
    {tokens tokens' : List Token} (hfirst : first = "" ∨ ∃ front, first = front ++ "\n")
    (h : (ofText first tabWidth).outcomes = tokens.map .ok)
    (h' : (ofText second tabWidth).outcomes = tokens'.map .ok)
    (hclean : ∀ token ∈ tokens, token.kind ≠ .error)
    (hflush : (opened second tabWidth).StartsFlush) :
    ∃ front closing last opening back both,
      tokens = front ++ [.plain .dedent closing, .plain .eof last] ∧
      tokens' = .plain .indent opening :: back ∧
      (ofText (first ++ second) tabWidth).outcomes = both.map .ok ∧
      Respelled (front ++ back) both := by
  obtain ⟨tail, rfl, htail⟩ := exists_tail_of_ofText h
  obtain ⟨back, rfl, hback⟩ := exists_tail_of_ofText h'
  have hopened : (opened first tabWidth).Clean := by
    intro item hitem
    rw [htail, List.mem_map] at hitem
    obtain ⟨token, htoken, rfl⟩ := hitem
    exact ⟨token, rfl, hclean token (List.mem_cons_of_mem _ htoken)⟩
  obtain ⟨items, items', last, last', hbare, hlast, hlast', hbetween, haligned, hmet, htab⟩ :=
    @exists_meeting_ofText first second tabWidth hfirst hopened
  rw [htail, List.map_eq_append_iff] at hlast
  obtain ⟨front, rest, rfl, rfl, hrest⟩ := hlast
  obtain ⟨front', rfl, hfront⟩ := exists_tokens_of_bareItem hbare
  have hstacked : Stacked last.context.indents := by
    simpa only [Aligned, hbetween.mode] using haligned
  obtain ⟨inner, hindents, hinner⟩ := exists_inner_of_stacked hstacked
  have hcolumn := hmet.context.cursor.column
  have hindents' := hmet.context.indents.trans hindents
  have hbetween' : last'.BetweenLines :=
    ⟨hmet.mode.trans hbetween.mode, hmet.context.openers.trans hbetween.openers,
      hmet.lineOpen.trans hbetween.lineOpen⟩
  have hcolumn' : last'.position.column = 1 := by
    rw [position, hmet.context.cursor.position]
    exact hcolumn
  obtain ⟨spelled, closing, closing', hspelled, hclosed⟩ :=
    exists_tokens_of_end hbetween hcolumn hindents hinner hmet.context.cursor.rest
  obtain ⟨spelled', back', hspelled', hback', hclosed'⟩ :=
    exists_tokens_behind hbetween' hcolumn' hindents' hinner (hmet.tabWidth.trans htab)
      hmet.context.cursor.rest' hback hflush
  have hrest : rest = spelled ++ [.plain .dedent closing, .plain .eof closing'] := by
    rw [hclosed] at hrest
    exact (List.map_inj_right fun _ _ => Except.ok.inj).1 hrest
  refine ⟨.plain .indent .start :: (front ++ spelled), closing, closing', .start, back,
    .plain .indent .start :: (front' ++ spelled' ++ back'), by rw [hrest]; simp, rfl, ?_, ?_⟩
  · rw [outcomes_ofText_eq, hlast', hclosed']
    simp
  · have hsame : Respelled spelled spelled' := hspelled'.trans hspelled.symm
    exact Grammar.respelled_plain.2 ⟨_, _, rfl, Grammar.respelled_append.2
      ⟨_, _, rfl, Grammar.respelled_append.2 ⟨_, _, rfl, hfront, hsame⟩, hback'⟩⟩

end Scanner

end Offside.Scan
