import Offside.Proofs.Scanning.Balance
import Offside.Proofs.Scanning.Lockstep

/-!
# Asking for tokens again and again

A scanner can be asked for any number of tokens.  Every request is answered, the last token is given
once, and behind it every request fails and changes nothing.  The number of requests up to the last
token is linear in the length of the text: whatever is opened is paid for by the characters that are
read, two outcomes for each of them.
-/

namespace Offside.Scan

open Parse (Item)

/-! ## Requests -/

/-- What asking again and again gives, and the state behind it. -/
def repeatedly {σ α : Type} (ask : σ → α × σ) : Nat → σ → List α × σ
  | 0, state => ([], state)
  | count + 1, state =>
      let answer := ask state
      let more := repeatedly ask count answer.2
      (answer.1 :: more.1, more.2)

section Repeatedly

variable {σ α : Type} {ask : σ → α × σ} {state : σ}

theorem repeatedly_add (count more : Nat) (state : σ) :
    repeatedly ask (count + more) state =
      ((repeatedly ask count state).1 ++ (repeatedly ask more (repeatedly ask count state).2).1,
        (repeatedly ask more (repeatedly ask count state).2).2) := by
  induction count generalizing state with
  | zero => simp [repeatedly]
  | succ count ih => simp only [Nat.add_right_comm, repeatedly, ih, List.cons_append]

theorem repeatedly_of_fixed {answer : α} (h : ask state = (answer, state)) (count : Nat) :
    repeatedly ask count state = (List.replicate count answer, state) := by
  induction count with
  | zero => rfl
  | succ count ih => simp only [repeatedly, h, ih, List.replicate_succ]

theorem repeatedly_keeps {P : σ → Prop} (hkeeps : ∀ state, P state → P (ask state).2)
    (h : P state) (count : Nat) : P (repeatedly ask count state).2 := by
  induction count generalizing state with
  | zero => exact h
  | succ count ih => exact ih (hkeeps state h)

end Repeatedly

namespace Scanner

variable {scanner : Scanner}

/-- A request takes silent steps up to one that gives something. -/
inductive Answers : Scanner → Item × Scanner → Prop where
  | silent {scanner after : Scanner} {result : Item × Scanner}
      (h : scanner.step = (.silent, after)) (more : Answers after result) : Answers scanner result
  | token {scanner after : Scanner} {token : Token} (h : scanner.step = (.token token, after)) :
      Answers scanner (.ok token, after)
  | failure {scanner after : Scanner} {failure : LexFailure}
      (h : scanner.step = (.failure failure, after)) : Answers scanner (.error failure, after)

theorem answers_next (scanner : Scanner) : Answers scanner scanner.next := by
  fun_induction next scanner with
  | case1 scanner hmode =>
      apply Answers.failure
      unfold step
      rw [hmode]
  | case2 scanner _ after hstep ih => exact .silent hstep ih
  | case3 scanner _ token after hstep => exact .token hstep
  | case4 scanner _ failure after hstep => exact .failure hstep

theorem next_of_done (h : scanner.mode = .done) :
    scanner.next = (.error (.pastEndOfInput scanner.position), scanner) := by
  rw [next, dif_pos h]

theorem next_of_outcomes {item : Item} {behind : List Item}
    (h : scanner.outcomes = item :: behind) :
    scanner.next.1 = item ∧ scanner.next.2.outcomes = behind := by
  have hnext := TokenStream.next_ofScanner scanner
  simp only [TokenStream.ofScanner, TokenStream.next, h, Prod.mk.injEq, TokenStream.mk.injEq] at hnext
  exact ⟨hnext.1.symm, hnext.2.1.symm⟩

theorem repeatedly_next_outcomes (scanner : Scanner) :
    repeatedly next scanner.outcomes.length scanner = (scanner.outcomes, scanner.finish) := by
  fun_induction outcomes scanner with
  | case1 scanner hmode => rw [finish, dif_pos hmode]; rfl
  | case2 scanner hmode result ih =>
      rw [finish, dif_neg hmode]
      simp only [List.length_cons, repeatedly]
      rw [ih]

/-! ## How many outcomes there are -/

/-- What an open bracket, an open line or a character to come costs at the end of its line: the report
of the bracket and the end of the line. -/
def lineCost (context : Context) (lineOpen : Bool) : Nat :=
  if context.inBrackets then 2 else if lineOpen || !context.cursor.atEnd then 1 else 0

/-- What the mode costs besides: the token that opens the file with the block that it opens, and the
last token. -/
def modeCost : Mode → Nat
  | .fileStart => 3
  | .done => 0
  | _ => 1

def potential (scanner : Scanner) : Nat :=
  2 * scanner.context.cursor.rest.length + scanner.context.indents.length +
    lineCost scanner.context scanner.lineOpen + modeCost scanner.mode

theorem endOfText_potential {context : Context} (hmode : scanner.mode = .indent)
    (hrest : context.cursor.rest = []) (hindents : context.indents = scanner.context.indents)
    (hopeners : context.openers = scanner.context.openers) :
    (scanner.endOfText context).2.potential + (scanner.endOfText context).1.items.length ≤
      scanner.potential := by
  grind [endOfText, emit, goTo, potential, lineCost, modeCost, lineOpenAfter, Token.error,
    Token.plain, Context.drainBrackets, Context.inBrackets, Emission.items, Text.Cursor.atEnd]

theorem compareWidth_potential {context : Context} {width : UInt64} (hmode : scanner.mode = .indent)
    (hend : scanner.context.cursor.atEnd = false)
    (hle : context.cursor.rest.length ≤ scanner.context.cursor.rest.length)
    (hlt : width ≠ 0 → context.cursor.rest.length < scanner.context.cursor.rest.length)
    (hindents : context.indents = scanner.context.indents)
    (hopeners : context.openers = scanner.context.openers) :
    (scanner.compareWidth width context).2.potential +
      (scanner.compareWidth width context).1.items.length ≤ scanner.potential := by
  have hwidth : ∀ outer : UInt64, outer < width → width ≠ 0 := by
    rintro outer hless rfl
    exact UInt64.not_lt_zero hless
  grind [compareWidth, emit, goTo, potential, lineCost, modeCost, lineOpenAfter, Token.plain,
    Context.pushIndent, Context.inBrackets, Emission.items]

theorem stepIndent_potential (hmode : scanner.mode = .indent) :
    scanner.stepIndent.2.potential + scanner.stepIndent.1.items.length ≤ scanner.potential := by
  unfold stepIndent
  split
  · rename_i hend
    exact endOfText_potential hmode (List.isEmpty_iff.1 hend) rfl rfl
  · rename_i hend
    split
    · grind [goTo, potential, modeCost, Emission.items]
    · have hle := Text.Cursor.span_length_le Text.isInlineBlank scanner.context.cursor
      unfold startLine
      simp only
      split
      · rename_i hread
        exact endOfText_potential hmode ((Text.Cursor.read?_eq_none_iff _).1 hread) rfl rfl
      · rename_i c next hread
        have hlt := Text.Cursor.length_lt_of_read? hread
        split
        · grind [goTo, potential, lineCost, modeCost, Emission.items, Context.inBrackets]
        · refine compareWidth_potential hmode (by simpa using hend) hle ?_ rfl rfl
          intro hwidth
          refine Text.Cursor.span_length_lt fun hblanks => hwidth ?_
          rw [hblanks, leadingWidth_nil]

theorem stepDispatch_potential (hmode : scanner.mode = .dispatch) :
    scanner.stepDispatch.2.potential + scanner.stepDispatch.1.items.length ≤
      scanner.potential := by
  have hle := skipBlanks_length_le scanner.tabWidth scanner.context.bracketIndent
    scanner.context.inBrackets scanner.context.cursor
  unfold stepDispatch
  simp only
  split
  · rename_i hstop
    have hstop := (skipBlanks_stop hstop).1
    grind [abandonBrackets, emit, potential, lineCost, modeCost, lineOpenAfter, Token.error,
      Context.drainBrackets, Context.inBrackets, Emission.items]
  · split
    · rename_i hread
      have hrest := (Text.Cursor.read?_eq_none_iff _).1 hread
      grind [goTo, potential, lineCost, modeCost, Context.inBrackets, Emission.items,
        Text.Cursor.atEnd]
    · rename_i c next hread
      have hlt := Text.Cursor.length_lt_of_read? hread
      have hend : scanner.context.cursor.atEnd = false := by
        rw [Text.Cursor.atEnd, List.isEmpty_eq_false_iff, ← List.length_pos_iff]
        omega
      split
      · grind [emit, potential, lineCost, modeCost, lineOpenAfter, Token.plain,
          Context.inBrackets, Emission.items]
      · have hscan := scanToken_length_lt
          { scanner.context with
            cursor := (skipBlanks scanner.tabWidth scanner.context.bracketIndent
              scanner.context.inBrackets scanner.context.cursor).2 } c next hread
        have hindents := scanToken_indents
          { scanner.context with
            cursor := (skipBlanks scanner.tabWidth scanner.context.bracketIndent
              scanner.context.inBrackets scanner.context.cursor).2 } c next
        grind [emit, potential, lineCost, modeCost, Emission.items]

theorem stepDedent_potential {target : UInt64} (hmode : scanner.mode = .dedent target) :
    (scanner.stepDedent target).2.potential + (scanner.stepDedent target).1.items.length ≤
      scanner.potential := by
  have hpop : target < scanner.context.indent → 0 < scanner.context.indents.length := by
    intro h
    refine List.length_pos_iff.2 fun hnil => ?_
    simp [Context.indent, hnil] at h
  grind [stepDedent, emit, goTo, potential, lineCost, modeCost, lineOpenAfter, Token.plain,
    Context.popIndent, Context.inBrackets, Emission.items]

theorem step_potential (hmode : scanner.mode ≠ .done)
    (hfileEnd : scanner.mode = .fileEnd → scanner.context.indents ≠ []) :
    scanner.step.2.potential + scanner.step.1.items.length ≤ scanner.potential := by
  unfold step
  split
  · grind [emit, potential, lineCost, modeCost, lineOpenAfter, Token.plain, Context.pushIndent,
      Context.inBrackets, Emission.items]
  · rename_i hindent
    exact stepIndent_potential hindent
  · rename_i hdispatch
    exact stepDispatch_potential hdispatch
  · rename_i target hdedent
    exact stepDedent_potential hdedent
  · rename_i hlast
    have hpos := List.length_pos_iff.2 (hfileEnd hlast)
    grind [emit, potential, lineCost, modeCost, lineOpenAfter, Token.plain, Context.popIndent,
      Context.inBrackets, Emission.items]
  · grind [emit, potential, lineCost, modeCost, lineOpenAfter, Token.plain, Context.inBrackets,
      Emission.items]
  · contradiction

/-! ## The last token -/

/-- An outcome in front of the last token: another token, or a line that is indented to no open
level. -/
def Interim : Item → Prop
  | .ok token => token.kind ≠ .eof
  | .error failure => failure.IsMismatch

theorem outcomes_conclude (h : scanner.Aligned) :
    scanner.outcomes.length ≤ scanner.potential ∧
      ∃ (items : List Item) (last : Token), scanner.outcomes = items ++ [.ok last] ∧
        last.kind = .eof ∧ ∀ item ∈ items, Interim item := by
  induction scanner using step_induction with
  | done scanner hmode => simp only [Aligned, hmode] at h
  | step scanner hmode ih =>
      have hfileEnd : scanner.mode = .fileEnd → scanner.context.indents ≠ [] := by
        intro hlast
        simp only [Aligned, hlast] at h
        simp [h]
      have hpaid := step_potential hmode hfileEnd
      have hcontinues := step_continues h
      have houtcomes := outcomes_eq_items_append hmode
      cases hstep : scanner.step with
      | mk emission after =>
          rw [hstep] at ih hpaid hcontinues houtcomes
          rw [houtcomes, List.length_append]
          cases emission with
          | silent =>
              obtain ⟨hlength, hends⟩ := ih hcontinues.1
              simp only at hpaid hlength ⊢
              exact ⟨by omega, hends⟩
          | failure failure =>
              obtain ⟨hlength, items, last, hitems, hlast, hinterim⟩ := ih hcontinues.2.2
              simp only at hpaid hlength ⊢
              refine ⟨by omega, .error failure :: items, last, ?_, hlast, ?_⟩
              · rw [hitems]
                rfl
              · exact List.forall_mem_cons.2 ⟨hcontinues.2.1, hinterim⟩
          | token token =>
              simp only [Continues] at hcontinues
              split at hcontinues
              · rename_i hkind
                rw [outcomes_of_done hcontinues.2]
                simp only [List.length_nil] at hpaid ⊢
                exact ⟨by omega, [], token, rfl, hkind, by simp⟩
              · rename_i hkind
                obtain ⟨hlength, items, last, hitems, hlast, hinterim⟩ := ih hcontinues.2.1
                simp only at hpaid hlength ⊢
                refine ⟨by omega, .ok token :: items, last, ?_, hlast, ?_⟩
                · rw [hitems]
                  rfl
                · exact List.forall_mem_cons.2 ⟨hkind, hinterim⟩

/-- The outcomes of a text end with the last token, and there are at most four more than two for each
character. -/
theorem outcomes_ofText_conclude (text : String) (tabWidth : UInt64) :
    (ofText text tabWidth).outcomes.length ≤ 2 * text.length + 4 ∧
      ∃ (items : List Item) (last : Token), (ofText text tabWidth).outcomes = items ++ [.ok last] ∧
        last.kind = .eof ∧ ∀ item ∈ items, Interim item := by
  obtain ⟨hlength, items, last, hitems, hlast, hinterim⟩ :=
    outcomes_conclude (opened_aligned text tabWidth)
  have hbound : (opened text tabWidth).potential ≤ 2 * text.length + 3 := by
    unfold potential lineCost modeCost opened
    simp only [Context.ofText, Text.Cursor.ofText, String.length_toList, List.length_singleton,
      Context.inBrackets]
    grind
  rw [outcomes_ofText_eq]
  refine ⟨by rw [List.length_cons]; omega, _ :: items, last, by rw [hitems]; rfl, hlast, ?_⟩
  exact List.forall_mem_cons.2 ⟨by simp [Interim, Token.plain], hinterim⟩

end Scanner

/-! ## Lexers as iterators -/

namespace Lexer

/-- What an iterator gives, if anything; one that is finished stays as it is. -/
def pull (lexer : Lexer) : Option Item × Lexer :=
  match lexer.nextItem? with
  | none => (none, lexer)
  | some (item, after) => (some item, after)

variable {lexer : Lexer}

theorem pull_of_finished (h : lexer.finished = true) : lexer.pull = (none, lexer) := by
  unfold pull nextItem?
  rw [if_pos h]

theorem pull_of_next {item : Item} (h : lexer.finished = false)
    (hnext : lexer.scanner.next.1 = item) :
    lexer.pull.1 = some item ∧ lexer.pull.2.scanner = lexer.scanner.next.2 ∧
      (lexer.pull.2.finished = false ↔ ∃ token, item = .ok token ∧ token.kind ≠ .eof) := by
  unfold pull nextItem? next
  rw [h, if_neg (by decide)]
  generalize lexer.scanner.next = result at *
  obtain ⟨answer, after⟩ := result
  subst hnext
  cases answer with
  | ok token => simp
  | error failure => simp

/-- An iterator gives the tokens up to the first end or failure, this last item and nothing more. -/
theorem repeatedly_pull {tokens : List Token} {last : Item} {behind : List Item}
    (h : lexer.finished = false)
    (houtcomes : lexer.scanner.outcomes = tokens.map .ok ++ last :: behind)
    (htokens : ∀ token ∈ tokens, token.kind ≠ .eof)
    (hlast : ∀ token, last = .ok token → token.kind = .eof) (more : Nat) :
    (repeatedly pull (tokens.length + 1 + more) lexer).1 =
      tokens.map (some <| .ok ·) ++ some last :: List.replicate more none := by
  induction tokens generalizing lexer with
  | nil =>
      obtain ⟨hitem, hscanner, hfinished⟩ := pull_of_next h (Scanner.next_of_outcomes houtcomes).1
      have hdone : lexer.pull.2.finished = true := by
        rw [← Bool.not_eq_false, hfinished]
        rintro ⟨token, htoken, hkind⟩
        exact hkind (hlast token htoken)
      rw [repeatedly_add]
      simp only [List.length_nil, repeatedly, hitem, repeatedly_of_fixed (pull_of_finished hdone)]
      rfl
  | cons token tokens ih =>
      rw [List.map_cons, List.cons_append] at houtcomes
      obtain ⟨hfirst, hrest⟩ := Scanner.next_of_outcomes houtcomes
      obtain ⟨hitem, hscanner, hfinished⟩ := pull_of_next h hfirst
      have hgoes := hfinished.2 ⟨token, rfl, htokens token List.mem_cons_self⟩
      have hrest' := ih hgoes (hscanner ▸ hrest) fun token htoken =>
        htokens token (List.mem_cons_of_mem _ htoken)
      have hcount : (token :: tokens).length + 1 + more = tokens.length + 1 + more + 1 := by
        rw [List.length_cons]
        omega
      rw [hcount, repeatedly]
      simp only [hitem, hrest', List.map_cons, List.cons_append]

end Lexer

theorem exists_first_stop {items : List Item} {last : Token} (hlast : last.kind = .eof)
    (h : ∀ item ∈ items, Scanner.Interim item) :
    ∃ (tokens : List Token) (stop : Item) (behind : List Item),
      items ++ [.ok last] = tokens.map .ok ++ stop :: behind ∧
      (∀ token ∈ tokens, token.kind ≠ .eof) ∧
      ((∃ token, stop = .ok token ∧ token.kind = .eof) ∨
        ∃ failure, stop = .error failure ∧ failure.IsMismatch) := by
  induction items with
  | nil => exact ⟨[], .ok last, [], rfl, by simp, .inl ⟨last, rfl, hlast⟩⟩
  | cons item items ih =>
      obtain ⟨hitem, hitems⟩ := List.forall_mem_cons.1 h
      cases item with
      | error failure =>
          exact ⟨[], .error failure, items ++ [.ok last], rfl, by simp, .inr ⟨failure, rfl, hitem⟩⟩
      | ok token =>
          obtain ⟨tokens, stop, behind, hsplit, htokens, hstop⟩ := ih hitems
          refine ⟨token :: tokens, stop, behind, ?_, List.forall_mem_cons.2 ⟨hitem, htokens⟩, hstop⟩
          rw [List.cons_append, hsplit]
          rfl

open Scanner (Answers Interim) in
/-- Every request is answered.  A text of so many characters gives its last token once, within so many
requests, with other tokens and lines that are indented to no open level in front of it; from then on
every request fails and leaves the scanner as it is.  An iterator stops for good behind the last token
or the first failure. -/
theorem requests_conclude (text : String) (tabWidth : UInt64) :
    (∀ scanner : Scanner, Answers scanner scanner.next) ∧
    (∃ (items : List Item) (last : Token) (final : Scanner),
      items.length + 1 ≤ 2 * text.length + 4 ∧
      repeatedly Scanner.next (items.length + 1) (.ofText text tabWidth) =
        (items ++ [.ok last], final) ∧
      last.kind = .eof ∧ (∀ item ∈ items, Interim item) ∧
      ∀ more, repeatedly Scanner.next more final =
        (List.replicate more (.error (.pastEndOfInput final.position)), final)) ∧
    ∃ (tokens : List Token) (stop : Item),
      tokens.length + 1 ≤ 2 * text.length + 4 ∧ (∀ token ∈ tokens, token.kind ≠ .eof) ∧
      ((∃ token, stop = .ok token ∧ token.kind = .eof) ∨
        ∃ failure, stop = .error failure ∧ failure.IsMismatch) ∧
      ∀ more, (repeatedly Lexer.pull (tokens.length + 1 + more) (.ofText text tabWidth)).1 =
        tokens.map (some <| .ok ·) ++ some stop :: List.replicate more none := by
  obtain ⟨hlength, items, last, hitems, hlast, hinterim⟩ :=
    Scanner.outcomes_ofText_conclude text tabWidth
  refine ⟨Scanner.answers_next, ?_, ?_⟩
  · have hrequests := Scanner.repeatedly_next_outcomes (.ofText text tabWidth)
    rw [hitems, List.length_append, List.length_singleton] at hlength hrequests
    exact ⟨items, last, _, hlength, hrequests, hlast, hinterim, repeatedly_of_fixed
      (Scanner.next_of_done (Scanner.finish_mode _))⟩
  · obtain ⟨tokens, stop, behind, hsplit, htokens, hstop⟩ := exists_first_stop hlast hinterim
    rw [← hitems] at hsplit
    refine ⟨tokens, stop, ?_, htokens, hstop, ?_⟩
    · rw [hsplit, List.length_append, List.length_map, List.length_cons] at hlength
      omega
    · refine Lexer.repeatedly_pull rfl hsplit htokens ?_
      rintro token rfl
      rcases hstop with ⟨_, heq, hkind⟩ | ⟨failure, hfailure, -⟩
      · cases heq
        exact hkind
      · contradiction

end Offside.Scan
