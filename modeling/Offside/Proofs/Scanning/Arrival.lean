import Offside.Proofs.Scanning.Balance
import Offside.Proofs.Scanning.Displacement
import Offside.Proofs.Scanning.Lexeme
import Offside.Proofs.Scanning.LineBreak

/-!
# Nothing hides a line that starts a statement

Whatever stands in front of a line that starts with a keyword of statements at its first column, a
scanner comes to the start of this line with no bracket open and all inner blocks closed: where line
breaks are blanks, the open brackets are given up in front of such a line.  From there on it gives
what it gives for the line and the text behind it alone.
-/

namespace Offside

/-- A text that starts, at its first column, with a keyword of statements. -/
def StartsStatement (text : List Char) : Prop :=
  ∃ kind, TokenKind.keyword? (String.ofList (text.takeWhile isWordChar)) = some kind ∧
    kind.startsStatement = true

namespace StartsStatement

variable {text : List Char}

theorem exists_cons (h : StartsStatement text) :
    ∃ c rest, text = c :: rest ∧ isWordChar c = true ∧ c.isDigit = false := by
  obtain ⟨kind, hkeyword, -⟩ := h
  obtain ⟨hne, hletters⟩ := Scan.chars_of_keyword hkeyword
  rw [String.toList_ofList] at hne hletters
  cases text with
  | nil => exact absurd rfl hne
  | cons c rest =>
      by_cases hc : isWordChar c = true
      · have hletter := hletters c (by rw [List.takeWhile_cons_of_pos hc]; exact List.mem_cons_self)
        exact ⟨c, rest, rfl, hc, hletter.2⟩
      · exact absurd (List.takeWhile_cons_of_neg hc) hne

theorem ne_nil (h : StartsStatement text) : text ≠ [] := by
  obtain ⟨c, rest, rfl, -⟩ := h.exists_cons
  simp

theorem startsStatement (h : StartsStatement text) (tabWidth limit : UInt64) :
    Scan.startsStatement tabWidth limit text = true := by
  obtain ⟨c, rest, rfl, hword, -⟩ := h.exists_cons
  obtain ⟨kind, hkeyword, hkind⟩ := h
  have hblank : ¬ Text.isInlineBlank c = true := by
    simp [Text.isInlineBlank, isBlank_of_isWordChar hword]
  rw [Scan.startsStatement, List.takeWhile_cons_of_neg hblank, List.dropWhile_cons_of_neg hblank]
  simp [hkeyword, hkind, Scan.leadingWidth]

end StartsStatement

namespace Scan

open Text (Cursor Position)

variable {text : List Char} {start : Nat}

/-! ## Blanks -/

theorem skipBlanks_before {cursor : Cursor} (hstarts : StartsStatement text)
    (h : cursor.Before text start) (tabWidth limit : UInt64) (joined : Bool) :
    (skipBlanks tabWidth limit joined cursor).2.Before text start := by
  fun_induction skipBlanks tabWidth limit joined cursor with
  | case1 => exact h
  | case2 => exact h
  | case3 cursor c next hread hbreak hstop ih =>
      simp only [Bool.and_eq_true, decide_eq_true_eq] at hbreak
      obtain ⟨rfl, -⟩ := hbreak
      rcases h.read? hread with hnext | ⟨-, hline⟩
      · exact ih hnext
      · rw [dropLineBreak_of_read? hread, hline.rest] at hstop
        exact absurd (hstarts.startsStatement _ _) hstop
  | case4 cursor c next hread hbreak hblank ih =>
      apply ih
      apply h.of_ne_break hread
      rintro rfl
      rw [Text.isInlineBlank_lineFeed] at hblank
      contradiction
  | case5 => exact h

theorem skipBlanks_break {tabWidth limit : UInt64} {cursor next : Cursor}
    (hread : (skipBlanks tabWidth limit true cursor).2.read? = some ('\n', next)) :
    (skipBlanks tabWidth limit true cursor).1 = true := by
  fun_induction skipBlanks tabWidth limit true cursor <;> grind

namespace Scanner

/-! ## The way to the line -/

structure Arrived (text : List Char) (start : Nat) (scanner : Scanner) : Prop where
  mode : scanner.mode = .dispatch
  cursor : scanner.context.cursor.AtLine text start
  openers : scanner.context.openers = []
  indent : scanner.context.indent = 0

def Approaches (text : List Char) (start : Nat) (scanner : Scanner) : Prop :=
  match scanner.mode with
  | .indent =>
      scanner.context.cursor.Before text start ∨
        (scanner.context.cursor.AtLine text start ∧ scanner.context.openers = [])
  | .dispatch => scanner.context.cursor.Before text start ∨ scanner.Arrived text start
  | .dedent target =>
      scanner.context.cursor.Before text start ∨
        (scanner.context.cursor.AtLine text start ∧ scanner.context.openers = [] ∧ target = 0)
  | _ => False

def Advances (text : List Char) (start : Nat) : Emission × Scanner → Prop
  | (.token token, after) => token.position.offset ≤ start ∧ after.Approaches text start
  | (_, after) => after.Approaches text start

variable {scanner : Scanner}

private theorem compareWidth_advances {width : UInt64} {context : Context}
    (h : context.cursor.Before text start) (hmode : scanner.mode = .indent) :
    Advances text start (scanner.compareWidth width context) := by
  unfold compareWidth
  simp only
  split
  · exact .inl h
  · split
    · refine ⟨h.offset_le, .inl ?_⟩
      unfold Context.pushIndent
      split <;> exact h
    · split
      · exact .inl h
      · unfold Advances Approaches
        simp only [hmode]
        exact .inl h

private theorem startLine_advances (h : scanner.context.cursor.Before text start)
    (hopeners : scanner.context.openers = []) (hmode : scanner.mode = .indent) :
    Advances text start scanner.startLine := by
  have hblanks := h.span Text.isInlineBlank_lineFeed
  unfold startLine
  simp only
  split
  · rename_i hend
    exact absurd ((Cursor.read?_eq_none_iff _).1 hend) hblanks.rest_ne_nil
  · rename_i c next hread
    split
    · rcases hblanks.read? hread with hnext | ⟨-, hline⟩
      · exact .inl hnext
      · exact .inr ⟨hline, hopeners⟩
    · exact compareWidth_advances hblanks hmode

private theorem startLine_eq (hstarts : StartsStatement text)
    (h : scanner.context.cursor.AtLine text start) :
    scanner.startLine = scanner.compareWidth 0 scanner.context := by
  obtain ⟨c, rest, rfl, hword, -⟩ := hstarts.exists_cons
  have hread : scanner.context.cursor.read? =
      some (c, ⟨rest, scanner.context.cursor.position.advance c⟩) := by
    have hreturn : ¬ c = '\r' := by
      rintro rfl
      contradiction
    rw [Cursor.read?, h.rest]
    simp [hreturn]
  have hblanks : scanner.context.cursor.span Text.isInlineBlank = ([], scanner.context.cursor) := by
    have hblank : ¬ Text.isInlineBlank c = true := by
      simp [Text.isInlineBlank, isBlank_of_isWordChar hword]
    unfold Cursor.span
    split
    · rfl
    · rename_i first next hfirst
      rw [hread] at hfirst
      cases hfirst
      rw [if_neg hblank]
  have hfeed : ¬ c = '\n' := by
    rintro rfl
    contradiction
  unfold startLine
  rw [hblanks]
  simp only [hread, hfeed, if_false, leadingWidth_nil]

private theorem startLine_arrives (hstarts : StartsStatement text)
    (h : scanner.context.cursor.AtLine text start) (hopeners : scanner.context.openers = []) :
    Advances text start scanner.startLine := by
  rw [startLine_eq hstarts h, compareWidth]
  simp only
  split
  · rename_i hindent
    exact .inr ⟨rfl, h, hopeners, hindent.symm⟩
  · rename_i hindent
    split
    · rename_i hless
      exact absurd hless UInt64.not_lt_zero
    · exact .inr ⟨h, hopeners, rfl⟩

private theorem stepIndent_advances (hstarts : StartsStatement text)
    (h : scanner.Approaches text start) (hmode : scanner.mode = .indent) :
    Advances text start scanner.stepIndent := by
  unfold Approaches at h
  simp only [hmode] at h
  have hrest : scanner.context.cursor.rest ≠ [] := by
    rcases h with h | ⟨h, -⟩
    · exact h.rest_ne_nil
    · rw [h.rest]
      exact hstarts.ne_nil
  unfold stepIndent
  split
  · rename_i hend
    exact absurd (List.isEmpty_iff.1 hend) hrest
  · split
    · rename_i hinside
      rcases h with h | ⟨h, hopeners⟩
      · exact .inl h
      · simp [Context.inBrackets, hopeners, position, h.column] at hinside
    · rename_i houtside
      simp only [Context.inBrackets, Bool.or_eq_true, not_or] at houtside
      have hopeners : scanner.context.openers = [] := by simpa using houtside.1
      rcases h with h | ⟨h, -⟩
      · exact startLine_advances h hopeners hmode
      · exact startLine_arrives hstarts h hopeners

private theorem stepDispatch_advances (hstarts : StartsStatement text)
    (h : scanner.context.cursor.Before text start) :
    Advances text start scanner.stepDispatch := by
  have hblanks := skipBlanks_before hstarts h scanner.tabWidth scanner.context.bracketIndent
    scanner.context.inBrackets
  unfold stepDispatch
  simp only
  split
  · exact ⟨hblanks.offset_le, .inl hblanks⟩
  · rename_i hstop
    split
    · rename_i hend
      exact absurd ((Cursor.read?_eq_none_iff _).1 hend) hblanks.rest_ne_nil
    · rename_i c next hread
      split
      · rename_i hfeed
        subst hfeed
        refine ⟨hblanks.offset_le, ?_⟩
        rcases hblanks.read? hread with hnext | ⟨-, hline⟩
        · exact .inl hnext
        · refine .inr ⟨hline, ?_⟩
          cases hopen : scanner.context.inBrackets with
          | false => simpa [Context.inBrackets] using hopen
          | true =>
              rw [hopen] at hread hstop
              exact absurd (skipBlanks_break hread) hstop
      · rename_i hfeed
        have hscanned := @scanToken_stays text start
          { scanner.context with
            cursor := (skipBlanks scanner.tabWidth scanner.context.bracketIndent
              scanner.context.inBrackets scanner.context.cursor).2 } c next hblanks hread hfeed
        exact ⟨hscanned.1, .inl hscanned.2⟩

private theorem stepDedent_advances {target : UInt64} (hstarts : StartsStatement text)
    (h : scanner.Approaches text start) (hmode : scanner.mode = .dedent target) :
    Advances text start (scanner.stepDedent target) := by
  unfold Approaches at h
  simp only [hmode] at h
  unfold stepDedent
  simp only
  rcases h with h | ⟨h, hopeners, rfl⟩
  · split
    · exact ⟨h.offset_le, .inl h⟩
    · split
      · rename_i hend
        exact absurd (List.isEmpty_iff.1 hend) h.rest_ne_nil
      · exact .inl h
  · split
    · exact ⟨Nat.le_of_eq h.offset, .inr ⟨h, hopeners, rfl⟩⟩
    · rename_i hindent
      split
      · rename_i hend
        rw [Cursor.atEnd, h.rest, List.isEmpty_iff] at hend
        exact absurd hend hstarts.ne_nil
      · refine .inr ⟨rfl, h, hopeners, ?_⟩
        have hzero := UInt64.not_lt.1 hindent
        exact UInt64.le_zero_iff.1 hzero

theorem step_advances (hstarts : StartsStatement text) (h : scanner.Approaches text start)
    (hnot : ¬ scanner.Arrived text start) : Advances text start scanner.step := by
  unfold step
  split
  · rename_i hmode
    simp only [Approaches, hmode] at h
  · rename_i hmode
    exact stepIndent_advances hstarts h hmode
  · rename_i hmode
    simp only [Approaches, hmode, hnot, or_false] at h
    exact stepDispatch_advances hstarts h
  · rename_i target hmode
    exact stepDedent_advances hstarts h hmode
  all_goals
    rename_i hmode
    simp only [Approaches, hmode] at h

theorem step_tabWidth (scanner : Scanner) : scanner.step.2.tabWidth = scanner.tabWidth := by
  unfold step stepIndent startLine compareWidth endOfText stepDispatch abandonBrackets stepDedent
    emit goTo
  grind

private theorem ne_eof_of_continues {token : Token} {after : Scanner}
    (h : scanner.Approaches text start) (haligned : scanner.Aligned)
    (hstep : scanner.step = (.token token, after)) : token.kind ≠ .eof ∧ after.Aligned := by
  have hcontinues := step_continues haligned
  rw [hstep] at hcontinues
  simp only [Continues] at hcontinues
  split at hcontinues
  · exfalso
    have hstacked : Stacked scanner.context.indents := by
      unfold Aligned at haligned
      unfold Approaches at h
      split at haligned
      all_goals
        rename_i hmode
        simp only [hmode] at h
      · exact haligned
      · exact haligned
      · exact haligned.1
    exact hstacked.ne_nil (List.length_eq_zero_iff.1 hcontinues.1)
  · rename_i hkind
    exact ⟨hkind, hcontinues.2.1⟩

theorem outcomes_of_approaches (hstarts : StartsStatement text) (h : scanner.Approaches text start)
    (haligned : scanner.Aligned) :
    ∃ front, ∃ last : Scanner, scanner.outcomes = front ++ last.outcomes ∧
      last.Arrived text start ∧ last.Aligned ∧ last.tabWidth = scanner.tabWidth ∧
      ∀ token, .ok token ∈ front → token.position.offset ≤ start ∧ token.kind ≠ .eof := by
  -- Every step that does not start at the line leads closer to it, also one that fails.
  induction scanner using step_induction with
  | done scanner hmode =>
      unfold Approaches at h
      rw [hmode] at h
      contradiction
  | step scanner hmode ih =>
      by_cases harrived : scanner.Arrived text start
      · exact ⟨[], scanner, rfl, harrived, haligned, rfl, by simp⟩
      · have hadvances := step_advances hstarts h harrived
        have hcontinues := step_continues haligned
        have htab := step_tabWidth scanner
        cases hstep : scanner.step with
        | mk emission after =>
            rw [hstep] at ih hadvances hcontinues htab
            cases emission with
            | silent =>
                obtain ⟨front, last, houtcomes, hlast, haligned', htab', hfront⟩ :=
                  ih hadvances hcontinues.1
                rw [outcomes_of_silent hmode hstep (mode_ne_done_of_silent hstep)]
                exact ⟨front, last, houtcomes, hlast, haligned', htab'.trans htab, hfront⟩
            | token token =>
                obtain ⟨hkind, hafter⟩ := ne_eof_of_continues h haligned hstep
                obtain ⟨front, last, houtcomes, hlast, haligned', htab', hfront⟩ :=
                  ih hadvances.2 hafter
                rw [outcomes_of_token hmode hstep, houtcomes]
                refine ⟨.ok token :: front, last, rfl, hlast, haligned', htab'.trans htab, ?_⟩
                intro other hother
                rcases List.mem_cons.1 hother with hsame | hother
                · cases hsame
                  exact ⟨hadvances.1, hkind⟩
                · exact hfront other hother
            | failure failure =>
                obtain ⟨front, last, houtcomes, hlast, haligned', htab', hfront⟩ :=
                  ih hadvances hcontinues.2.2
                rw [outcomes_of_failure hmode hstep, houtcomes]
                refine ⟨.error failure :: front, last, rfl, hlast, haligned', htab'.trans htab, ?_⟩
                intro other hother
                rcases List.mem_cons.1 hother with hsame | hother
                · cases hsame
                · exact hfront other hother

/-! ## Behind the start of the line -/

def origin : Position := ⟨0, 1, 0⟩

def behindWord (text : List Char) (tabWidth : UInt64) : Scanner :=
  ⟨⟨((⟨text, origin⟩ : Cursor).span isWordChar).2, [0], [], 0⟩, .indent, tabWidth, true⟩

private theorem stepDispatch_of_arrived {kind : TokenKind} (h : scanner.Arrived text start)
    (hstarts : StartsStatement text)
    (hkeyword : TokenKind.keyword? (String.ofList (text.takeWhile isWordChar)) = some kind) :
    scanner.stepDispatch =
      scanner.emit (.plain kind scanner.position) .indent
        { scanner.context with cursor := (scanner.context.cursor.span isWordChar).2 } := by
  obtain ⟨c, rest, rfl, hword, hdigit⟩ := hstarts.exists_cons
  have hreturn : ¬ c = '\r' := by
    rintro rfl
    contradiction
  have hfeed : ¬ c = '\n' := by
    rintro rfl
    contradiction
  have hquote : ¬ c = '"' := by
    rintro rfl
    contradiction
  have hreserved : ¬ isReserved c = true := by simpa [isWordChar] using hword
  have hread : scanner.context.cursor.read? =
      some (c, ⟨rest, scanner.context.cursor.position.advance c⟩) := by
    rw [Cursor.read?, h.cursor.rest]
    simp [hreturn]
  have hblanks : skipBlanks scanner.tabWidth scanner.context.bracketIndent
      scanner.context.inBrackets scanner.context.cursor = (false, scanner.context.cursor) := by
    have hblank : ¬ Text.isInlineBlank c = true := by
      simp [Text.isInlineBlank, isBlank_of_isWordChar hword]
    unfold skipBlanks
    split
    · rfl
    · rename_i first next hfirst
      rw [hread] at hfirst
      cases hfirst
      rw [if_neg (by simp [hfeed]), if_neg hblank]
  have hspan := (Cursor.span_eq isWordChar_lineFeed (by decide) scanner.context.cursor).1
  unfold stepDispatch
  simp only [hblanks, Bool.false_eq_true, if_false, hread, hfeed]
  unfold scanToken
  rw [hdigit]
  simp only [Bool.false_eq_true, if_false, hquote, hreserved]
  unfold scanWord
  simp only [hspan, h.cursor.rest, hkeyword]
  rfl

theorem outcomes_of_arrived {kind : TokenKind} (h : scanner.Arrived text start)
    (haligned : scanner.Aligned) (hstarts : StartsStatement text)
    (hkeyword : TokenKind.keyword? (String.ofList (text.takeWhile isWordChar)) = some kind) :
    ∃ down : Displacement, down.bytes = start ∧
      scanner.outcomes =
        (.ok (.plain kind origin) :: (behindWord text scanner.tabWidth).outcomes).map down.item := by
  refine ⟨⟨scanner.position.line, start⟩, rfl, ?_⟩
  generalize hdown : (⟨scanner.position.line, start⟩ : Displacement) = down
  have hcursor : scanner.context.cursor = down.cursor ⟨text, origin⟩ := by
    subst hdown
    cases hsource : scanner.context.cursor with
    | mk rest place =>
        have hline := h.cursor
        rw [hsource] at hline
        obtain ⟨rfl, hcolumn, rfl⟩ := hline
        have hcolumn : place.column = 1 := hcolumn
        simp [Displacement.cursor, Displacement.position, origin, position, hsource, ← hcolumn]
  have hindents : scanner.context.indents = [0] := by
    simp only [Aligned, h.mode] at haligned
    have hindent := h.indent
    cases hstack : scanner.context.indents with
    | nil => exact absurd hstack haligned.ne_nil
    | cons inner outer =>
        obtain rfl : inner = 0 := by simpa [Context.indent, hstack] using hindent
        rw [hstack] at haligned
        rw [haligned.eq_singleton]
  have hopens : lineOpenAfter scanner.lineOpen kind = true := by
    have hmem : kind ∈ TokenKind.keywords := List.mem_of_find?_eq_some hkeyword
    simp only [TokenKind.keywords, List.mem_cons, List.not_mem_nil, or_false] at hmem
    rcases hmem with rfl | rfl | rfl | rfl | rfl | rfl | rfl | rfl | rfl | rfl | rfl | rfl | rfl <;>
      rfl
  have hmode : scanner.mode ≠ .done := by
    rw [h.mode]
    simp
  have hstep : scanner.step = scanner.emit (.plain kind scanner.position) .indent
      { scanner.context with cursor := (scanner.context.cursor.span isWordChar).2 } := by
    rw [← stepDispatch_of_arrived h hstarts hkeyword, step]
    simp only [h.mode]
  have hbelow : (behindWord text scanner.tabWidth).Below down
      (scanner.emit (.plain kind scanner.position) .indent
        { scanner.context with cursor := (scanner.context.cursor.span isWordChar).2 }).2 := by
    refine ⟨⟨?_, hindents, h.openers, fun hopeners => absurd rfl hopeners⟩, rfl, rfl, hopens⟩
    show (scanner.context.cursor.span isWordChar).2 = _
    rw [hcursor, Cursor.span_cursor]
    rfl
  have houtcomes := hbelow.outcomes
  unfold emit at houtcomes
  rw [outcomes_of_token hmode hstep, houtcomes, position, hcursor]
  rfl

theorem opened_arrives {behind : String} (hstarts : StartsStatement behind.toList)
    (tabWidth : UInt64) :
    ∃ last : Scanner, (opened behind tabWidth).outcomes = last.outcomes ∧
      last.Arrived behind.toList 0 ∧ last.Aligned ∧ last.tabWidth = tabWidth := by
  have hline : (opened behind tabWidth).context.cursor.AtLine behind.toList 0 := ⟨rfl, rfl, rfl⟩
  have hrest : ¬ (opened behind tabWidth).context.cursor.atEnd = true := by
    rw [Cursor.atEnd, hline.rest, List.isEmpty_iff]
    exact hstarts.ne_nil
  have hstep : (opened behind tabWidth).step =
      (opened behind tabWidth).goTo .dispatch (opened behind tabWidth).context := by
    show stepIndent _ = _
    rw [stepIndent, if_neg hrest, if_neg (by simp [opened, Context.inBrackets, Context.ofText,
      position, Cursor.ofText, Position.start]), startLine_eq hstarts hline, compareWidth]
    rfl
  refine ⟨_, outcomes_of_silent (by simp [opened]) hstep (by simp), ?_, ?_, rfl⟩
  · exact ⟨rfl, hline, rfl, rfl⟩
  · exact opened_aligned behind tabWidth

end Scanner

/-- What stands behind a text on a line of its own, and starts there with a keyword of statements, is
scanned as if it stood alone. -/
theorem exists_items_behind {behind : String} (hstarts : StartsStatement behind.toList)
    (text : String) (tabWidth : UInt64) :
    ∃ (kind : TokenKind) (items front : List (Except LexFailure Token)) (down down' : Displacement),
      kind.startsStatement = true ∧ down'.bytes = (text ++ "\n").utf8ByteSize ∧
      (Scanner.ofText behind tabWidth).outcomes = .ok (.plain .indent .start) ::
        (.ok (.plain kind Scanner.origin) :: items).map down.item ∧
      (Scanner.ofText (text ++ "\n" ++ behind) tabWidth).outcomes = .ok (.plain .indent .start) ::
        (front ++ (.ok (.plain kind Scanner.origin) :: items).map down'.item) ∧
      ∀ token, .ok token ∈ front →
        token.position.offset ≤ (text ++ "\n").utf8ByteSize ∧ token.kind ≠ .eof := by
  obtain ⟨kind, hkeyword, hkind⟩ := id hstarts
  have halone : ∃ down : Displacement, (Scanner.opened behind tabWidth).outcomes =
      (.ok (.plain kind Scanner.origin) ::
        (Scanner.behindWord behind.toList tabWidth).outcomes).map down.item := by
    obtain ⟨last, houtcomes, harrived, haligned, rfl⟩ := Scanner.opened_arrives hstarts tabWidth
    obtain ⟨down, -, hlast⟩ := Scanner.outcomes_of_arrived harrived haligned hstarts hkeyword
    exact ⟨down, houtcomes.trans hlast⟩
  obtain ⟨down, halone⟩ := halone
  have hbefore : (Cursor.ofText (text ++ "\n" ++ behind)).Before behind.toList
      (text ++ "\n").utf8ByteSize := by
    refine ⟨⟨text.toList, ?_⟩, ?_⟩
    · simp [Cursor.ofText, String.toList_append]
    · simp [Cursor.endOffset, Cursor.remaining, Cursor.ofText, Position.start,
        String.ofList_toList, String.utf8ByteSize_append, Nat.add_assoc]
  have happroaches : (Scanner.opened (text ++ "\n" ++ behind) tabWidth).Approaches behind.toList
      (text ++ "\n").utf8ByteSize :=
    Or.inl hbefore
  obtain ⟨front, last, houtcomes, harrived, haligned, htab, hfront⟩ :=
    Scanner.outcomes_of_approaches hstarts happroaches
      (Scanner.opened_aligned (text ++ "\n" ++ behind) tabWidth)
  obtain ⟨down', hbytes, hlast⟩ :=
    Scanner.outcomes_of_arrived harrived haligned hstarts hkeyword
  refine ⟨kind, (Scanner.behindWord behind.toList tabWidth).outcomes, front, down, down', hkind,
    hbytes, ?_, ?_, hfront⟩
  · rw [Scanner.outcomes_ofText_eq, halone]
  · rw [Scanner.outcomes_ofText_eq, houtcomes, hlast, htab]
    rfl

end Scan

end Offside
