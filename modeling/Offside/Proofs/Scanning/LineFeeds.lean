import Offside.Proofs.Scanning.Arrival
import Offside.Proofs.Scanning.Layout
import Offside.Proofs.Scanning.Places

/-!
# A line feed for every line break

If every line break of a text is replaced by a line feed, the two texts are read in lockstep.  Only
the look at the line behind a joined line break is at the text as it is written, where a carriage
return is a blank: a statement may be seen behind blank lines.  Then the brackets are given up in
front of these lines instead of behind them, which makes no difference to the tokens.
-/

namespace Offside

namespace Text

/-- The text with a line feed for every line break. -/
def lineFed : List Char → List Char
  | [] => []
  | '\r' :: '\n' :: rest => '\n' :: lineFed rest
  | '\r' :: rest => '\n' :: lineFed rest
  | c :: rest => c :: lineFed rest

theorem lineFed_of_return {rest : List Char} (h : rest.head? ≠ some '\n') :
    lineFed ('\r' :: rest) = '\n' :: lineFed rest := by
  cases rest with
  | nil => rfl
  | cons c rest =>
      have hc : c ≠ '\n' := by simpa using h
      rw [lineFed]
      simpa using hc

theorem lineFed_of_ne {c : Char} (h : c ≠ '\r') (rest : List Char) :
    lineFed (c :: rest) = c :: lineFed rest := by
  rw [lineFed]
  · intro more hc
    exact absurd hc h
  · exact h

theorem takeWhile_lineFed {p : Char → Bool} (hfeed : p '\n' = false) (hreturn : p '\r' = false)
    (text : List Char) : (lineFed text).takeWhile p = text.takeWhile p := by
  fun_induction lineFed text with
  | case1 => rfl
  | case2 rest ih => simp [hfeed, hreturn]
  | case3 rest hrest ih => simp [hfeed, hreturn]
  | case4 c rest hpair hreturn' ih => rw [List.takeWhile_cons, List.takeWhile_cons, ih]

namespace Cursor

theorem rest_of_lineFeed {cursor next : Cursor} (h : cursor.read? = some ('\n', next)) :
    (∃ more, cursor.rest = '\n' :: more) ∨ (∃ more, cursor.rest = '\r' :: '\n' :: more) ∨
      (next.rest.head? ≠ some '\n' ∧ cursor.rest = '\r' :: next.rest) := by
  unfold read? at h
  grind [List.head?_eq_some_iff]

end Cursor

end Text

namespace Scan

open Text (Cursor lineFed isInlineBlank)

variable {tabWidth limit : UInt64} {cursor cursor' : Cursor}

/-! ## Cursors -/

def Narrow (tabWidth : UInt64) (text : List Char) : Prop :=
  tabWidth.toNat * text.count '\t' + text.count ' ' < 2 ^ 64

theorem Narrow.sublist {text part : List Char} (h : Narrow tabWidth text)
    (hpart : part.Sublist text) : Narrow tabWidth part := by
  have htabs := Nat.mul_le_mul_left tabWidth.toNat (hpart.count_le '\t')
  have hspaces := hpart.count_le ' '
  unfold Narrow at h ⊢
  omega

theorem Narrow.toNat_leadingWidth {blanks : List Char} (h : Narrow tabWidth blanks) :
    (leadingWidth tabWidth blanks).toNat = columns tabWidth blanks := by
  rw [Narrow, Nat.add_comm] at h
  rw [Scan.toNat_leadingWidth]
  exact Nat.mod_eq_of_lt h

structure Refed (tabWidth : UInt64) (cursor cursor' : Cursor) : Prop where
  rest : cursor'.rest = lineFed cursor.rest
  column : cursor'.position.column = cursor.position.column
  narrow : Narrow tabWidth cursor.rest

theorem lockstep_refed : Lockstep (Refed tabWidth) (Refed tabWidth) := by
  rintro ⟨rest, position⟩ ⟨_, position'⟩ ⟨rfl, hcolumn, hnarrow⟩
  have hfeed : ∀ more, (⟨'\n' :: more, position'⟩ : Cursor).read? =
      some ('\n', ⟨more, position'.advance '\n'⟩) := fun _ => rfl
  cases rest with
  | nil => exact .ended rfl rfl
  | cons c rest =>
      have hnext : Narrow tabWidth rest := hnarrow.sublist (List.sublist_cons_self c rest)
      by_cases hreturn : c = '\r'
      · subst hreturn
        cases rest with
        | nil => exact .breaks rfl rfl ⟨rfl, rfl, hnext⟩
        | cons d rest =>
            by_cases hd : d = '\n'
            · subst hd
              exact .breaks rfl (hfeed _)
                ⟨rfl, rfl, hnext.sublist (List.sublist_cons_self '\n' rest)⟩
            · have hread : (⟨'\r' :: d :: rest, position⟩ : Cursor).read? =
                  some ('\n', ⟨d :: rest, position.newline 1⟩) := by
                simp [Cursor.read?, hd]
              rw [Text.lineFed_of_return (by simpa using hd)]
              exact .breaks hread (hfeed _) ⟨rfl, rfl, hnext⟩
      · have hread : ∀ (rest : List Char) (position : Text.Position),
            (⟨c :: rest, position⟩ : Cursor).read? = some (c, ⟨rest, position.advance c⟩) := by
          simp [Cursor.read?, hreturn]
        rw [Text.lineFed_of_ne hreturn]
        by_cases hc : c = '\n'
        · subst hc
          exact .breaks (hread _ _) (hread _ _) ⟨rfl, rfl, hnext⟩
        · refine .reads hc (hread _ _) (hread _ _) ⟨rfl, ?_, hnext⟩
          simp only [Text.Position.advance, hc, if_false]
          exact congrArg (· + 1) hcolumn

/-! ## The look at the next line -/

theorem startsStatement_eq_true {line : List Char} :
    startsStatement tabWidth limit line = true ↔
      leadingWidth tabWidth (line.takeWhile isInlineBlank) ≤ limit ∧
        ∃ kind, TokenKind.keyword?
            (String.ofList ((line.dropWhile isInlineBlank).takeWhile isWordChar)) = some kind ∧
          kind.startsStatement = true := by
  unfold startsStatement
  rw [Bool.and_eq_true, decide_eq_true_iff]
  apply and_congr_right
  intro _
  split
  · rename_i kind hkind
    simp [hkind]
  · rename_i hnone
    simp [hnone]

theorem startsStatement_of_blanks {blanks rest : List Char}
    (hblanks : ∀ c ∈ blanks, isInlineBlank c = true)
    (hnarrow : Narrow tabWidth (blanks ++ rest))
    (h : startsStatement tabWidth limit (blanks ++ rest) = true) :
    startsStatement tabWidth limit rest = true := by
  rw [startsStatement_eq_true, List.takeWhile_append_of_pos hblanks,
    List.dropWhile_append_of_pos hblanks] at h
  obtain ⟨hwidth, hkind⟩ := h
  refine startsStatement_eq_true.2 ⟨UInt64.le_trans ?_ hwidth, hkind⟩
  have hall : Narrow tabWidth (blanks ++ rest.takeWhile isInlineBlank) :=
    hnarrow.sublist ((List.takeWhile_sublist _).append_left blanks)
  have hrest := hall.sublist (List.sublist_append_right _ _)
  rw [UInt64.le_iff_toNat_le, hrest.toNat_leadingWidth, hall.toNat_leadingWidth]
  exact columns_le_of_sublist tabWidth (List.sublist_append_right _ _)

theorem startsStatement_append {blanks rest : List Char}
    (hblanks : ∀ c ∈ blanks, isInlineBlank c = true)
    (hstop : ∀ c ∈ rest.head?, isInlineBlank c = false) :
    startsStatement tabWidth limit (blanks ++ rest) = true ↔
      leadingWidth tabWidth blanks ≤ limit ∧
        ∃ kind, TokenKind.keyword? (String.ofList (rest.takeWhile isWordChar)) = some kind ∧
          kind.startsStatement = true := by
  have hrest : rest.takeWhile isInlineBlank = [] ∧ rest.dropWhile isInlineBlank = rest := by
    cases rest with
    | nil => exact ⟨rfl, rfl⟩
    | cons c rest => simp [hstop c rfl]
  rw [startsStatement_eq_true, List.takeWhile_append_of_pos hblanks,
    List.dropWhile_append_of_pos hblanks, hrest.1, hrest.2, List.append_nil]

theorem startsStatement_of_lineFeed {blanks rest : List Char}
    (hblanks : ∀ c ∈ blanks, isInlineBlank c = true) :
    startsStatement tabWidth limit (blanks ++ '\n' :: rest) = false := by
  have hnone : TokenKind.keyword? (String.ofList []) = none := by decide
  rw [← Bool.not_eq_true, startsStatement_append hblanks (by simp [Text.isInlineBlank_lineFeed]),
    List.takeWhile_cons_of_neg (by simp [isWordChar_lineFeed]), hnone]
  simp

/-- The texts agree on whether a statement starts, unless the next line is blank up to a carriage
return. -/
theorem Refed.startsStatement_cases (h : Refed tabWidth cursor cursor') (limit : UInt64) :
    startsStatement tabWidth limit cursor'.rest = startsStatement tabWidth limit cursor.rest ∨
    (startsStatement tabWidth limit cursor'.rest = false ∧
      ∃ next, (cursor.span isInlineBlank).2.read? = some ('\n', next) ∧
        startsStatement tabWidth limit next.rest = true) := by
  obtain ⟨hsame, hafter⟩ := lockstep_refed.parallel.span h Text.isInlineBlank_lineFeed
  have hblanks : ∀ c ∈ (cursor.span isInlineBlank).1, isInlineBlank c = true :=
    fun _ => Cursor.of_mem_span
  have hrest := (Cursor.covers_span Text.isInlineBlank_lineFeed cursor).rest
  have hrest' := (Cursor.covers_span Text.isInlineBlank_lineFeed cursor').rest
  rw [hsame] at hrest'
  rw [hrest, hrest']
  cases lockstep_refed hafter with
  | ended hread hread' =>
      left
      rw [(Cursor.read?_eq_none_iff _).1 hread, (Cursor.read?_eq_none_iff _).1 hread']
  | @reads c next next' hc hread hread' hnext =>
      left
      have hfirst : ∀ {cursor next : Cursor}, cursor.read? = some (c, next) →
          cursor.rest.head? = some c := by
        intro cursor next hread
        unfold Cursor.read? at hread
        grind
      have hstop : isInlineBlank c = false := Cursor.span_stops hread
      rw [Bool.eq_iff_iff, startsStatement_append hblanks (by simp [hfirst hread', hstop]),
        startsStatement_append hblanks (by simp [hfirst hread, hstop]), hafter.rest,
        Text.takeWhile_lineFed isWordChar_lineFeed (by decide)]
  | @breaks next next' hread hread' hnext =>
      have hfeed : startsStatement tabWidth limit ((cursor.span isInlineBlank).1 ++
          (cursor'.span isInlineBlank).2.rest) = false := by
        obtain ⟨more, hmore⟩ : ∃ more, (cursor'.span isInlineBlank).2.rest = '\n' :: more := by
          rw [hafter.rest]
          rcases Cursor.rest_of_lineFeed hread with ⟨more, hmore⟩ | ⟨more, hmore⟩ | ⟨hhead, hmore⟩
          · exact ⟨_, by rw [hmore, Text.lineFed_of_ne (by decide)]⟩
          · exact ⟨_, by rw [hmore, Text.lineFed]⟩
          · exact ⟨_, by rw [hmore, Text.lineFed_of_return hhead]⟩
        rw [hmore]
        exact startsStatement_of_lineFeed hblanks
      cases hstarts : startsStatement tabWidth limit ((cursor.span isInlineBlank).1 ++
          (cursor.span isInlineBlank).2.rest) with
      | false => exact .inl hfeed
      | true =>
          refine .inr ⟨hfeed, next, hread, ?_⟩
          have hblanks' : ∀ c ∈ (cursor.span isInlineBlank).1 ++ ['\r'], isInlineBlank c = true := by
            rintro c hc
            rcases List.mem_append.1 hc with hc | hc
            · exact hblanks c hc
            · rw [List.mem_singleton.1 hc]
              decide
          rcases Cursor.rest_of_lineFeed hread with ⟨more, hmore⟩ | ⟨more, hmore⟩ | ⟨-, hmore⟩
          · rw [hmore, startsStatement_of_lineFeed hblanks] at hstarts
            contradiction
          · rw [hmore, List.append_cons, startsStatement_of_lineFeed hblanks'] at hstarts
            contradiction
          · have hall := h.narrow
            rw [hrest, hmore, List.append_cons] at hall
            rw [hmore, List.append_cons] at hstarts
            exact startsStatement_of_blanks hblanks' hall hstarts

/-! ## Blanks -/

/-- There are only blank lines from one cursor up to the other. -/
inductive BlankLines : Cursor → Cursor → Prop where
  | none (cursor : Cursor) : BlankLines cursor cursor
  | line {cursor next last : Cursor}
      (h : (cursor.span isInlineBlank).2.read? = some ('\n', next)) (more : BlankLines next last) :
      BlankLines cursor last

theorem skipBlanks_span (tabWidth limit : UInt64) (cursor : Cursor) :
    skipBlanks tabWidth limit true cursor =
      skipBlanks tabWidth limit true (cursor.span isInlineBlank).2 := by
  fun_induction Cursor.span isInlineBlank cursor with
  | case1 => rfl
  | case2 cursor c next hread hc tail ih =>
      have hfeed : c ≠ '\n' := by
        rintro rfl
        rw [Text.isInlineBlank_lineFeed] at hc
        contradiction
      rw [skipBlanks_of_char hread hfeed, if_pos hc]
      exact ih
  | case3 => rfl

/-- Where only the text as it is written shows a statement, the other one shows it behind blank
lines. -/
theorem Refed.skipBlanks_of_startsStatement (h : Refed tabWidth cursor cursor')
    (hstarts : startsStatement tabWidth limit cursor.rest = true)
    (hstarts' : startsStatement tabWidth limit cursor'.rest = false) :
    ∃ last next', (skipBlanks tabWidth limit true cursor').1 = true ∧
      (skipBlanks tabWidth limit true cursor').2.read? = some ('\n', next') ∧
      BlankLines cursor last ∧ Refed tabWidth last next' := by
  induction hlength : cursor.rest.length using Nat.strongRecOn generalizing cursor cursor' with
  | ind length ih =>
      rcases h.startsStatement_cases limit with hsame | ⟨-, next, hread, hnext⟩
      · rw [hstarts, hstarts'] at hsame
        contradiction
      · have hafter := (lockstep_refed.parallel.span h Text.isInlineBlank_lineFeed).2
        rw [skipBlanks_span]
        cases lockstep_refed hafter with
        | ended hend => simp [hend] at hread
        | reads hc hread' => simp [hread, Ne.symm hc] at hread'
        | @breaks _ next' hread' hbreak hrefed =>
            obtain rfl : next = _ := by simpa [hread] using hread'
            rw [skipBlanks_of_joined hbreak, dropLineBreak_of_read? hbreak]
            cases hbehind : startsStatement tabWidth limit next'.rest with
            | true => exact ⟨next, next', rfl, hbreak, .line hread (.none next), hrefed⟩
            | false =>
                have hle := Cursor.span_length_le isInlineBlank cursor
                have hlt := Cursor.length_lt_of_read? hread
                obtain ⟨last, behind', hflag, hstop, hlines, hlast⟩ :=
                  ih _ (by omega) hrefed hnext hbehind rfl
                exact ⟨last, behind', hflag, hstop, .line hread hlines, hlast⟩

/-- The same blanks are skipped within brackets, or both texts stop in front of a statement, the one
as it is written possibly in front of blank lines. -/
theorem Refed.skipBlanks (h : Refed tabWidth cursor cursor') (limit : UInt64) :
    ((Scan.skipBlanks tabWidth limit true cursor').1 =
        (Scan.skipBlanks tabWidth limit true cursor).1 ∧
      Refed tabWidth (Scan.skipBlanks tabWidth limit true cursor).2
        (Scan.skipBlanks tabWidth limit true cursor').2) ∨
    ∃ next last next', (Scan.skipBlanks tabWidth limit true cursor).1 = true ∧
      (Scan.skipBlanks tabWidth limit true cursor').1 = true ∧
      (Scan.skipBlanks tabWidth limit true cursor).2.read? = some ('\n', next) ∧
      (Scan.skipBlanks tabWidth limit true cursor').2.read? = some ('\n', next') ∧
      BlankLines next last ∧ Refed tabWidth last next' := by
  induction hlength : cursor.rest.length using Nat.strongRecOn generalizing cursor cursor' with
  | ind length ih =>
      cases lockstep_refed h with
      | ended hread hread' =>
          rw [skipBlanks_of_end hread, skipBlanks_of_end hread']
          exact .inl ⟨rfl, h⟩
      | reads hc hread hread' hnext =>
          rw [skipBlanks_of_char hread hc, skipBlanks_of_char hread' hc]
          split
          · exact ih _ (hlength ▸ Cursor.length_lt_of_read? hread) hnext rfl
          · exact .inl ⟨rfl, h⟩
      | @breaks next next' hread hread' hnext =>
          rw [skipBlanks_of_joined hread, skipBlanks_of_joined hread', dropLineBreak_of_read? hread,
            dropLineBreak_of_read? hread']
          have hcases := hnext.startsStatement_cases limit
          cases hstarts : startsStatement tabWidth limit next.rest with
          | false =>
              have hstarts' : startsStatement tabWidth limit next'.rest = false := by
                rcases hcases with hsame | ⟨hfalse, -⟩
                · rw [hsame, hstarts]
                · exact hfalse
              rw [hstarts']
              exact ih _ (hlength ▸ Cursor.length_lt_of_read? hread) hnext rfl
          | true =>
              cases hstarts' : startsStatement tabWidth limit next'.rest with
              | true => exact .inl ⟨rfl, h⟩
              | false =>
                  obtain ⟨last, behind', hflag, hstop, hlines, hlast⟩ :=
                    hnext.skipBlanks_of_startsStatement hstarts hstarts'
                  exact .inr ⟨next, last, behind', rfl, hflag, hread, hstop, hlines, hlast⟩

/-! ## Scanners -/

namespace Scanner

variable {scanner scanner' : Scanner}

def moved (scanner : Scanner) (cursor : Cursor) : Scanner :=
  { scanner with context := { scanner.context with cursor } }

theorem outcomes_of_blankLines {next last : Cursor} (h : BlankLines next last)
    (hbetween : scanner.BetweenLines) (hcolumn : next.position.column = 1) :
    (scanner.moved next).outcomes = (scanner.moved last).outcomes ∧
      last.rest.length ≤ next.rest.length := by
  induction h with
  | none => exact ⟨rfl, Nat.le_refl _⟩
  | @line cursor next last hread _ ih =>
      obtain ⟨houtcomes, hle⟩ := ih (Cursor.column_of_lineFeed hread)
      have hspan := Cursor.span_length_le isInlineBlank cursor
      have hlt := Cursor.length_lt_of_read? hread
      refine ⟨?_, by omega⟩
      rw [← houtcomes]
      have hend : cursor.atEnd = false := by
        rw [Cursor.atEnd, List.isEmpty_eq_false_iff]
        intro hnil
        rw [hnil] at hspan
        simp only [List.length_nil] at hspan
        omega
      have hstep := @step_of_blankLine (scanner.moved cursor) hbetween.mode hend
        hbetween.not_inBrackets hcolumn next hread
      have hmode : (scanner.moved next).mode = .indent := hbetween.mode
      refine outcomes_of_silent (by simp [moved, hbetween.mode]) ?_ (by simp [hmode])
      rw [hstep, goTo, ← hmode]
      rfl

def abandoned (scanner : Scanner) (cursor : Cursor) : Scanner :=
  ⟨{ scanner.context with cursor, openers := [] }, .indent, scanner.tabWidth, false⟩

theorem outcomes_of_abandon {next : Cursor} (hmode : scanner.mode = .dispatch)
    (hbrackets : scanner.context.inBrackets = true)
    (hflag : (Scan.skipBlanks scanner.tabWidth scanner.context.bracketIndent true
      scanner.context.cursor).1 = true)
    (hread : (Scan.skipBlanks scanner.tabWidth scanner.context.bracketIndent true
      scanner.context.cursor).2.read? = some ('\n', next)) :
    ∃ place, scanner.outcomes =
      .ok (.error (.unclosedBracket (scanner.context.openers.head?.getD '(')) place) ::
        .ok (.plain .newline place) :: (scanner.abandoned next).outcomes := by
  refine ⟨(Scan.skipBlanks scanner.tabWidth scanner.context.bracketIndent true
    scanner.context.cursor).2.position, ?_⟩
  have hstep : scanner.step = scanner.abandonBrackets { scanner.context with
      cursor := (Scan.skipBlanks scanner.tabWidth scanner.context.bracketIndent true
        scanner.context.cursor).2 } := by
    unfold step stepDispatch
    simp only [hmode, hbrackets, hflag, if_true]
  rw [outcomes_of_token (by simp [hmode]) hstep,
    outcomes_of_token (by simp) (step_of_lineBreak rfl (skipBlanks_of_lineFeed hread ..) hread)]
  rfl

theorem Abreast.step_refed (h : scanner.Abreast (Refed scanner.tabWidth) scanner') :
    StepsAlike (Refed scanner.tabWidth) (Refed scanner.tabWidth) scanner.step scanner'.step ∨
    ∃ next last next' place place',
      scanner.outcomes =
        .ok (.error (.unclosedBracket (scanner.context.openers.head?.getD '(')) place) ::
          .ok (.plain .newline place) :: (scanner.abandoned next).outcomes ∧
      scanner'.outcomes =
        .ok (.error (.unclosedBracket (scanner.context.openers.head?.getD '(')) place') ::
          .ok (.plain .newline place') :: (scanner'.abandoned next').outcomes ∧
      next.rest.length < scanner.context.cursor.rest.length ∧ next.position.column = 1 ∧
      BlankLines next last ∧ Refed scanner.tabWidth last next' := by
  by_cases hmode : scanner.mode = .dispatch
  · have hmode' := h.mode.trans hmode
    unfold Scanner.step
    simp only [hmode, hmode']
    cases hbrackets : scanner.context.inBrackets with
    | false =>
        have hskip := lockstep_refed.skipBlanks h.context.cursor scanner.tabWidth
          scanner.context.bracketIndent
        left
        apply h.stepDispatch lockstep_refed
        all_goals
          rw [h.tabWidth, h.context.bracketIndent, h.context.inBrackets_eq, hbrackets]
        · rw [hskip.1, hskip.2.1]
        · exact hskip.2.2
    | true =>
        rcases h.context.cursor.skipBlanks scanner.context.bracketIndent with
          ⟨hflag, hrefed⟩ | ⟨next, last, next', hflag, hflag', hread, hread', hlines, hlast⟩
        · left
          apply h.stepDispatch lockstep_refed
          all_goals
            rw [h.tabWidth, h.context.bracketIndent, h.context.inBrackets_eq, hbrackets]
          · exact hflag
          · exact hrefed
        · right
          obtain ⟨place, houtcomes⟩ := outcomes_of_abandon hmode hbrackets hflag hread
          obtain ⟨place', houtcomes'⟩ :=
            @outcomes_of_abandon scanner' next' hmode' (h.context.inBrackets_eq.trans hbrackets)
              (by rw [h.tabWidth, h.context.bracketIndent, hflag'])
              (by rw [h.tabWidth, h.context.bracketIndent, hread'])
          rw [h.context.openers] at houtcomes'
          exact ⟨next, last, next', place, place', houtcomes, houtcomes',
            Nat.lt_of_lt_of_le (Cursor.length_lt_of_read? hread) (skipBlanks_length_le ..),
            Cursor.column_of_lineFeed hread, hlines, hlast⟩
  · left
    exact h.step (fun _ => lockstep_refed.sameLine h.context.cursor fun _ => h.context.cursor.column)
      (.inl fun _ _ hnext => hnext) hmode

theorem Abreast.outcomes_of_refed (h : scanner.Abreast (Refed scanner.tabWidth) scanner') :
    scanner'.outcomes.map bareItem = scanner.outcomes.map bareItem := by
  induction hmeasure : scanner.measure using Nat.strongRecOn generalizing scanner scanner' with
  | ind measure ih =>
      by_cases hdone : scanner.mode = .done
      · rw [outcomes_of_done hdone, outcomes_of_done (h.mode.trans hdone)]
      -- Usually both scanners take one step; at brackets that are given up one of them takes several.
      · rcases h.step_refed with hsteps |
          ⟨next, last, next', place, place', houtcomes, houtcomes', hshorter, hcolumn, hlines, hlast⟩
        · have hafter : scanner.step.2.Abreast (Refed scanner.step.2.tabWidth) scanner'.step.2 := by
            rw [step_tabWidth]
            exact hsteps.2.elim id And.right
          rw [outcomes_eq_items_append hdone, outcomes_eq_items_append (h.mode ▸ hdone),
            List.map_append, List.map_append, Emission.items_bare hsteps.1,
            ih _ (hmeasure ▸ scanner.step_measure_lt hdone) hafter rfl]
        · obtain ⟨hpassed, hle⟩ := outcomes_of_blankLines hlines
            (⟨rfl, rfl, rfl⟩ : (scanner.abandoned next).BetweenLines) hcolumn
          have hbehind : (scanner.abandoned last).Abreast (Refed (scanner.abandoned last).tabWidth)
              (scanner'.abandoned next') :=
            ⟨⟨hlast, h.context.indents, rfl, h.context.bracketIndent⟩, rfl, h.tabWidth, rfl⟩
          have hless : (scanner.abandoned last).measure < measure := by
            rw [← hmeasure]
            unfold Scanner.measure abandoned
            simp only [List.isEmpty_nil, if_true, rank, Bool.false_eq_true, if_false]
            omega
          change (scanner.abandoned next).outcomes = (scanner.abandoned last).outcomes at hpassed
          rw [houtcomes, houtcomes', hpassed, List.map_cons, List.map_cons, List.map_cons,
            List.map_cons, ih _ hless hbehind rfl]
          rfl

theorem outcomes_lineFed {text : String} (h : Narrow tabWidth text.toList) :
    (ofText (String.ofList (lineFed text.toList)) tabWidth).outcomes.map bareItem =
      (ofText text tabWidth).outcomes.map bareItem := by
  apply Abreast.outcomes_of_refed
  refine ⟨⟨⟨?_, rfl, h⟩, rfl, rfl, rfl⟩, rfl, rfl, rfl⟩
  rw [ofText, Context.ofText, Cursor.ofText, String.toList_ofList]
  rfl

end Scanner

end Scan

end Offside
