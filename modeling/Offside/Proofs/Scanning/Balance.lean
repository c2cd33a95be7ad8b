import Offside.Proofs.Parsing.Ahead
import Offside.Proofs.Scanning.Outcomes

/-!
# Every block that is opened is closed

The tokens of a text open and close blocks like brackets, up to its end token or up to a line that
is indented to no open level.  This rests on the stack of open widths: it is strictly decreasing
outwards and ends with the width zero, and a width is only closed down to one that is on the stack.
-/

namespace Offside

def LexFailure.IsMismatch (failure : LexFailure) : Prop :=
  ∃ width levels position, failure = .mismatchedIndent width levels position

namespace Parse

def Closes : List Item → Nat → Prop
  | [], _ => False
  | .error failure :: _, openBlocks => openBlocks ≠ 0 ∧ failure.IsMismatch
  | .ok token :: rest, openBlocks =>
      if token.kind = .eof then openBlocks = 0 ∧ rest = []
      else openBlocks ≠ 0 ∧ Closes rest (token.kind.blocksBehind openBlocks)

theorem Closes.tail {token : Token} {rest : List Item} {openBlocks : Nat}
    (h : Closes (.ok token :: rest) openBlocks) (hkind : token.kind ≠ .eof) :
    openBlocks ≠ 0 ∧ Closes rest (token.kind.blocksBehind openBlocks) := by
  rwa [Closes, if_neg hkind] at h

theorem Closes.eof {token : Token} {rest : List Item} {openBlocks : Nat}
    (h : Closes (.ok token :: rest) openBlocks) (hkind : token.kind = .eof) :
    openBlocks = 0 ∧ rest = [] := by
  rwa [Closes, if_pos hkind] at h

theorem Closes.untilEof {items : List Item} {openBlocks : Nat} (h : Closes items openBlocks) :
    Closes (untilEof items) openBlocks := by
  induction items generalizing openBlocks with
  | nil => exact h
  | cons item rest ih =>
      cases item with
      | error failure => exact h
      | ok token =>
          by_cases hkind : token.kind = .eof
          · obtain ⟨rfl, rfl⟩ := h.eof hkind
            simp [Parse.untilEof, Closes, hkind]
          · have htail := h.tail hkind
            rw [Parse.untilEof, if_neg hkind, Closes, if_neg hkind]
            exact ⟨htail.1, ih htail.2⟩

end Parse

namespace Scan

open Parse (Closes)

/-! ## Open widths -/

structure Stacked (indents : List UInt64) : Prop where
  decreasing : indents.Pairwise (· > ·)
  outermost : indents.getLast? = some 0

namespace Stacked

variable {indents : List UInt64} {width : UInt64}

theorem ne_nil (h : Stacked indents) : indents ≠ [] := by
  rintro rfl
  cases h.outermost

theorem zero_mem (h : Stacked indents) : 0 ∈ indents :=
  List.mem_of_getLast? h.outermost

theorem push (h : Stacked indents) (hwidth : ∀ inner ∈ indents.head?, inner < width) :
    Stacked (width :: indents) := by
  cases indents with
  | nil => exact absurd rfl h.ne_nil
  | cons inner rest =>
      have hinner : inner < width := hwidth inner rfl
      constructor
      · apply List.pairwise_cons.2 ⟨?_, h.decreasing⟩
        intro outer houter
        rcases List.mem_cons.1 houter with rfl | houter
        · exact hinner
        · have hless := (List.pairwise_cons.1 h.decreasing).1 outer houter
          exact UInt64.lt_trans hless hinner
      · rw [List.getLast?_cons_cons]
        exact h.outermost

theorem pop {inner : UInt64} (h : Stacked (inner :: indents)) (hmem : width ∈ inner :: indents)
    (hless : width < inner) : Stacked indents ∧ width ∈ indents := by
  have hmem : width ∈ indents := by
    rcases List.mem_cons.1 hmem with rfl | hmem
    · exact absurd hless (UInt64.lt_irrefl width)
    · exact hmem
  cases indents with
  | nil => cases hmem
  | cons next rest =>
      refine ⟨⟨(List.pairwise_cons.1 h.decreasing).2, ?_⟩, hmem⟩
      have houtermost := h.outermost
      rwa [List.getLast?_cons_cons] at houtermost

theorem eq_singleton (h : Stacked (0 :: indents)) : indents = [] := by
  cases indents with
  | nil => rfl
  | cons next rest =>
      have hless := (List.pairwise_cons.1 h.decreasing).1 next List.mem_cons_self
      exact absurd hless UInt64.not_lt_zero

/-- Once nothing is open above a width that is on the stack, this width is the innermost one. -/
theorem eq_of_not_lt {inner : UInt64} (h : Stacked (inner :: indents))
    (hmem : width ∈ inner :: indents) (hless : ¬ width < inner) : width = inner := by
  rcases List.mem_cons.1 hmem with rfl | hmem
  · rfl
  · exact absurd ((List.pairwise_cons.1 h.decreasing).1 width hmem) hless

end Stacked

namespace Scanner

def Aligned (scanner : Scanner) : Prop :=
  match scanner.mode with
  | .fileStart => False
  | .indent | .dispatch => Stacked scanner.context.indents
  | .dedent target =>
      Stacked scanner.context.indents ∧ target ∈ scanner.context.indents ∧
        (scanner.context.cursor.atEnd = true → target = 0)
  | .fileEnd => scanner.context.indents = [0]
  | .eof => scanner.context.indents = []
  | .done => False

def Continues (openBlocks : Nat) : Emission × Scanner → Prop
  | (.silent, after) => after.Aligned ∧ after.context.indents.length = openBlocks
  | (.token token, after) =>
      if token.kind = .eof then openBlocks = 0 ∧ after.mode = .done
      else openBlocks ≠ 0 ∧ after.Aligned ∧
        after.context.indents.length = token.kind.blocksBehind openBlocks
  | (.failure failure, after) => openBlocks ≠ 0 ∧ failure.IsMismatch ∧ after.Aligned

variable {scanner : Scanner}

private theorem length_ne_zero {indents : List UInt64} (h : Stacked indents) :
    indents.length ≠ 0 :=
  fun hlength => h.ne_nil (List.length_eq_zero_iff.1 hlength)

private theorem continues_of_emit {token : Token} {mode : Mode} {context : Context}
    {openBlocks : Nat} (heof : token.kind ≠ .eof) (hopen : openBlocks ≠ 0)
    (haligned : (scanner.emit token mode context).2.Aligned)
    (hlength : context.indents.length = token.kind.blocksBehind openBlocks) :
    Continues openBlocks (scanner.emit token mode context) := by
  unfold emit Continues
  simp only
  rw [if_neg heof]
  exact ⟨hopen, haligned, hlength⟩

private theorem emit_continues {token : Token} {mode : Mode} {context : Context}
    (hstacked : Stacked scanner.context.indents)
    (hindents : context.indents = scanner.context.indents) (hmode : mode = .indent ∨ mode = .dispatch)
    (heof : token.kind ≠ .eof) (hindent : token.kind ≠ .indent) (hdedent : token.kind ≠ .dedent) :
    Continues scanner.context.indents.length (scanner.emit token mode context) := by
  have hbehind : token.kind.blocksBehind scanner.context.indents.length =
      scanner.context.indents.length := by
    unfold TokenKind.blocksBehind
    split <;> first | contradiction | rfl
  apply continues_of_emit heof (length_ne_zero hstacked)
  · rw [← hindents] at hstacked
    rcases hmode with rfl | rfl <;> exact hstacked
  · rw [hbehind, hindents]

private theorem goTo_continues {mode : Mode} {context : Context}
    (hstacked : Stacked scanner.context.indents)
    (hindents : context.indents = scanner.context.indents)
    (hmode : mode = .indent ∨ mode = .dispatch) :
    Continues scanner.context.indents.length (scanner.goTo mode context) := by
  refine ⟨?_, by rw [← hindents]⟩
  rw [← hindents] at hstacked
  rcases hmode with rfl | rfl <;> exact hstacked

private theorem endOfText_continues {context : Context}
    (hstacked : Stacked scanner.context.indents)
    (hindents : context.indents = scanner.context.indents) :
    Continues scanner.context.indents.length (scanner.endOfText context) := by
  unfold endOfText
  split
  · exact emit_continues hstacked hindents (.inl rfl) (by simp [Token.error])
      (by simp [Token.error]) (by simp [Token.error])
  · split
    · exact emit_continues hstacked hindents (.inl rfl) (by simp [Token.plain])
        (by simp [Token.plain]) (by simp [Token.plain])
    · refine ⟨?_, by rw [← hindents]⟩
      rw [← hindents] at hstacked
      exact ⟨hstacked, hstacked.zero_mem, fun _ => rfl⟩

private theorem compareWidth_continues {width : UInt64} {context : Context}
    (hstacked : Stacked scanner.context.indents)
    (hindents : context.indents = scanner.context.indents)
    (hrest : context.cursor.atEnd = false) (hmode : scanner.mode = .indent) :
    Continues scanner.context.indents.length (scanner.compareWidth width context) := by
  unfold compareWidth
  simp only
  split
  · exact goTo_continues hstacked hindents (.inr rfl)
  · split
    · rename_i hless
      have hpush : Stacked (width :: context.indents) := by
        rw [hindents]
        apply hstacked.push
        intro inner hinner
        have hinner : context.indent = inner := by
          rw [Context.indent, hindents, hinner]
          rfl
        rwa [hinner] at hless
      have hindents' : (context.pushIndent width).indents = width :: context.indents := by
        simp [Context.pushIndent, Context.acceptsIndent, hless]
      apply continues_of_emit (by simp [Token.plain]) (length_ne_zero hstacked)
      · rw [← hindents'] at hpush
        exact hpush
      · rw [hindents', hindents]
        rfl
    · split
      · rename_i hopen
        refine ⟨?_, by rw [← hindents]⟩
        have hmem : width ∈ context.indents := by
          rw [Bool.or_eq_true, decide_eq_true_eq] at hopen
          rcases hopen with rfl | hopen
          · rw [hindents]
            exact hstacked.zero_mem
          · simpa [Context.hasIndent] using hopen
        rw [← hindents] at hstacked
        exact ⟨hstacked, hmem, fun hend => by rw [hrest] at hend; contradiction⟩
      · refine ⟨length_ne_zero hstacked, ⟨_, _, _, rfl⟩, ?_⟩
        unfold Aligned
        rw [← hindents] at hstacked
        simpa only [hmode] using hstacked

private theorem stepIndent_continues (hstacked : Stacked scanner.context.indents)
    (hmode : scanner.mode = .indent) :
    Continues scanner.context.indents.length scanner.stepIndent := by
  unfold stepIndent
  split
  · exact endOfText_continues hstacked rfl
  · split
    · exact goTo_continues hstacked rfl (.inr rfl)
    · unfold startLine
      simp only
      split
      · exact endOfText_continues hstacked rfl
      · rename_i c next hread
        split
        · exact goTo_continues hstacked rfl (.inl rfl)
        · refine compareWidth_continues hstacked rfl ?_ hmode
          cases hrest : (scanner.context.cursor.span Text.isInlineBlank).2.atEnd with
          | false => rfl
          | true =>
              rw [Text.Cursor.atEnd, List.isEmpty_iff] at hrest
              rw [(Text.Cursor.read?_eq_none_iff _).2 hrest] at hread
              contradiction

private theorem stepDispatch_continues (hstacked : Stacked scanner.context.indents) :
    Continues scanner.context.indents.length scanner.stepDispatch := by
  unfold stepDispatch abandonBrackets
  simp only
  split
  · exact emit_continues hstacked rfl (.inr rfl) (by simp [Token.error])
      (by simp [Token.error]) (by simp [Token.error])
  · split
    · exact goTo_continues hstacked rfl (.inl rfl)
    · split
      · exact emit_continues hstacked rfl (.inl rfl) (by simp [Token.plain])
          (by simp [Token.plain]) (by simp [Token.plain])
      · rename_i c next _ _
        have hlexical := (scanToken_lexical
          { scanner.context with
            cursor := (skipBlanks scanner.tabWidth scanner.context.bracketIndent
              scanner.context.inBrackets scanner.context.cursor).2 } c next).kind
        have hindents := scanToken_indents
          { scanner.context with
            cursor := (skipBlanks scanner.tabWidth scanner.context.bracketIndent
              scanner.context.inBrackets scanner.context.cursor).2 } c next
        apply emit_continues hstacked hindents (.inl rfl)
        all_goals
          intro hkind
          rw [hkind] at hlexical
          contradiction

private theorem stepDedent_continues {target : UInt64}
    (hstacked : Stacked scanner.context.indents) (hmem : target ∈ scanner.context.indents)
    (hend : scanner.context.cursor.atEnd = true → target = 0) :
    Continues scanner.context.indents.length (scanner.stepDedent target) := by
  cases hindents : scanner.context.indents with
  | nil => exact absurd hindents hstacked.ne_nil
  | cons inner outer =>
      have hinner : scanner.context.indent = inner := by rw [Context.indent, hindents]; rfl
      rw [hindents] at hstacked hmem
      unfold stepDedent
      simp only [hinner]
      split
      · rename_i hless
        have hpop := hstacked.pop hmem hless
        have houter : scanner.context.popIndent.indents = outer := by
          simp [Context.popIndent, hindents]
        apply continues_of_emit (by simp [Token.plain]) (by simp)
        · exact ⟨houter ▸ hpop.1, houter ▸ hpop.2, hend⟩
        · rw [houter]
          rfl
      · rename_i hless
        have htarget := hstacked.eq_of_not_lt hmem hless
        split
        · rename_i hatEnd
          rw [hend hatEnd] at htarget
          subst htarget
          have houter := hstacked.eq_singleton
          refine ⟨?_, by rw [← hindents]⟩
          show scanner.context.indents = [0]
          rw [hindents, houter]
        · rw [← hindents]
          exact goTo_continues (hindents ▸ hstacked) rfl (.inr rfl)

theorem step_continues (h : scanner.Aligned) :
    Continues scanner.context.indents.length scanner.step := by
  unfold step
  cases hmode : scanner.mode with
  | fileStart | done =>
      simp only [Aligned, hmode] at h
  | indent =>
      simp only [Aligned, hmode] at h
      exact stepIndent_continues h hmode
  | dispatch =>
      simp only [Aligned, hmode] at h
      exact stepDispatch_continues h
  | dedent target =>
      simp only [Aligned, hmode] at h
      exact stepDedent_continues h.1 h.2.1 h.2.2
  | fileEnd =>
      simp only [Aligned, hmode] at h
      have hpop : scanner.context.popIndent.indents = [] := by simp [Context.popIndent, h]
      refine continues_of_emit (by simp [Token.plain]) (by simp [h]) hpop ?_
      rw [hpop, h]
      rfl
  | eof =>
      simp only [Aligned, hmode] at h
      rw [h]
      exact ⟨rfl, rfl⟩

theorem outcomes_closes (h : scanner.Aligned) :
    Closes scanner.outcomes scanner.context.indents.length := by
  induction scanner using step_induction with
  | done scanner hmode =>
      unfold Aligned at h
      rw [hmode] at h
      contradiction
  | step scanner hmode ih =>
      have hcontinues := step_continues h
      cases hstep : scanner.step with
      | mk emission after =>
          rw [hstep] at ih hcontinues
          cases emission with
          | silent =>
              rw [outcomes_of_silent hmode hstep (mode_ne_done_of_silent hstep), ← hcontinues.2]
              exact ih hcontinues.1
          | token token =>
              rw [outcomes_of_token hmode hstep, Closes]
              simp only [Continues] at hcontinues
              split
              · rename_i hkind
                rw [if_pos hkind] at hcontinues
                exact ⟨hcontinues.1, outcomes_of_done hcontinues.2⟩
              · rename_i hkind
                rw [if_neg hkind] at hcontinues
                rw [← hcontinues.2.2]
                exact ⟨hcontinues.1, ih hcontinues.2.1⟩
          | failure failure =>
              rw [outcomes_of_failure hmode hstep]
              exact ⟨hcontinues.1, hcontinues.2.1⟩

/-- The scanner of a text behind the token that opens it. -/
def opened (text : String) (tabWidth : UInt64) : Scanner :=
  ⟨{ Context.ofText text with indents := [0] }, .indent, tabWidth, false⟩

theorem opened_aligned (text : String) (tabWidth : UInt64) : (opened text tabWidth).Aligned :=
  ⟨by simp [opened], rfl⟩

theorem outcomes_ofText_eq (text : String) (tabWidth : UInt64) :
    (Scanner.ofText text tabWidth).outcomes =
      .ok (.plain .indent .start) :: (opened text tabWidth).outcomes := by
  have hmode : (Scanner.ofText text tabWidth).mode ≠ .done := by simp [Scanner.ofText]
  have hstep : (Scanner.ofText text tabWidth).step =
      (.token (.plain .indent .start), opened text tabWidth) := by
    have hpush : (Context.ofText text).pushIndent 0 = { Context.ofText text with indents := [0] } := by
      simp [Context.pushIndent, Context.acceptsIndent, Context.ofText]
    show emit _ _ _ ((Context.ofText text).pushIndent 0) = _
    rw [hpush]
    rfl
  exact outcomes_of_token hmode hstep

theorem outcomes_ofText (text : String) (tabWidth : UInt64) :
    ∃ rest, (Scanner.ofText text tabWidth).outcomes = .ok (.plain .indent .start) :: rest ∧
      Closes rest 1 :=
  ⟨_, outcomes_ofText_eq text tabWidth, outcomes_closes (opened_aligned text tabWidth)⟩

end Scanner

end Scan

end Offside
