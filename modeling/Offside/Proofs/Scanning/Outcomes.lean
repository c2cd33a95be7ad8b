import Offside.Proofs.Grammar.Phrase
import Offside.Scan.Lexer

/-!
# What a scanner gives, step by step

The outcomes of a scanner are those of its steps.  The tokens that are read from the characters of a
line have the payload of their kind, and none of them belongs to the structure of the text.
-/

namespace Offside

namespace TokenKind

/-- The kinds of token that are not read from characters, but from the structure of the text. -/
def isStructural : TokenKind → Bool
  | .indent | .dedent | .newline | .eof => true
  | _ => false

end TokenKind

namespace Scan

open Text (Cursor Position)

/-! ## Tokens of a line -/

structure Lexical (token : Token) : Prop where
  faithful : token.Faithful
  kind : token.kind.isStructural = false

theorem lexical_error (fault : Fault) (position : Position) : Lexical (.error fault position) :=
  ⟨rfl, rfl⟩

theorem lexical_plain {kind : TokenKind} (position : Position)
    (hplain : kind.carriesPayload = false) (hkind : kind.isStructural = false) :
    Lexical (.plain kind position) :=
  ⟨hplain, hkind⟩

theorem scanWord_lexical (cursor : Cursor) : Lexical (scanWord cursor).1 := by
  unfold scanWord
  simp only
  split
  · rename_i kind hkind
    have hkeyword : kind ∈ TokenKind.keywords := List.mem_of_find?_eq_some hkind
    simp only [TokenKind.keywords, List.mem_cons, List.not_mem_nil, or_false] at hkeyword
    apply lexical_plain
    · rcases hkeyword with rfl | rfl | rfl | rfl | rfl | rfl | rfl | rfl | rfl | rfl | rfl | rfl |
        rfl <;> rfl
    · rcases hkeyword with rfl | rfl | rfl | rfl | rfl | rfl | rfl | rfl | rfl | rfl | rfl | rfl |
        rfl <;> rfl
  · exact ⟨rfl, rfl⟩

theorem scanDigits_lexical (position : Position) (radix : Nat) (announced : List Char)
    (cursor : Cursor) : Lexical (scanDigits position radix announced cursor).1 := by
  unfold scanDigits
  simp only
  split
  · exact lexical_error _ _
  · split
    · split
      · exact lexical_error _ _
      · exact ⟨rfl, rfl⟩
    · split
      · exact lexical_error _ _
      · unfold integerToken
        simp only
        split
        · exact ⟨rfl, rfl⟩
        · exact lexical_error _ _

theorem scanNumber_lexical (cursor : Cursor) : Lexical (scanNumber cursor).1 := by
  unfold scanNumber
  simp only
  split
  · exact scanDigits_lexical _ _ _ _
  · exact scanDigits_lexical _ _ _ _

theorem scanQuotation_lexical (cursor : Cursor) : Lexical (scanQuotation cursor).1 := by
  unfold scanQuotation Quotation.token
  simp only
  split
  · exact lexical_error _ _
  · exact lexical_error _ _
  · split
    · exact lexical_error _ _
    · exact ⟨rfl, rfl⟩

theorem operatorBehind?_kind {c : Char} {cursor behind : Cursor} {kind : TokenKind}
    (h : operatorBehind? c cursor = some (kind, behind)) :
    kind.carriesPayload = false ∧ kind.isStructural = false := by
  unfold operatorBehind? at h
  split at h <;> grind [withAssign, TokenKind.carriesPayload, TokenKind.isStructural]

theorem scanSymbol_lexical (c : Char) (position : Position) (context : Context) :
    Lexical (scanSymbol c position context).1 := by
  unfold scanSymbol
  split
  · unfold openerKind
    split
    · exact ⟨rfl, rfl⟩
    · split <;> exact ⟨rfl, rfl⟩
  · split
    · split
      · unfold closerKind
        split
        · exact ⟨rfl, rfl⟩
        · split <;> exact ⟨rfl, rfl⟩
      · exact lexical_error _ _
      · exact lexical_error _ _
    · split
      · rename_i hoperator
        have hkind := operatorBehind?_kind hoperator
        exact lexical_plain _ hkind.1 hkind.2
      · exact lexical_error _ _

namespace Scanner

theorem lineOpenAfter_of_content {kind : TokenKind} (h : kind.isStructural = false) (lineOpen : Bool) :
    lineOpenAfter lineOpen kind = true := by
  unfold lineOpenAfter
  split <;> first | contradiction | rfl

theorem scanToken_lexical (context : Context) (c : Char) (next : Cursor) :
    Lexical (scanToken context c next).1 := by
  unfold scanToken
  split
  · exact scanNumber_lexical _
  · split
    · exact scanQuotation_lexical _
    · split
      · exact scanSymbol_lexical _ _ _
      · exact scanWord_lexical _

/-! ## Outcomes -/

/-- What holds of finished scanners and is handed back by every step holds of all scanners. -/
theorem step_induction {motive : Scanner → Prop}
    (done : ∀ scanner : Scanner, scanner.mode = .done → motive scanner)
    (step : ∀ scanner : Scanner, scanner.mode ≠ .done → motive scanner.step.2 → motive scanner)
    (scanner : Scanner) : motive scanner := by
  induction hmeasure : scanner.measure using Nat.strongRecOn generalizing scanner with
  | ind measure ih =>
      by_cases hmode : scanner.mode = .done
      · exact done scanner hmode
      · apply step scanner hmode
        exact ih _ (hmeasure ▸ scanner.step_measure_lt hmode) _ rfl

theorem next_keeps {P : Scanner → Prop} (hstep : ∀ scanner, P scanner → P scanner.step.2)
    {scanner : Scanner} (h : P scanner) : P scanner.next.2 := by
  have hafter := hstep scanner h
  fun_induction next scanner with
  | case1 => exact h
  | case2 scanner _ after heq ih =>
      rw [heq] at hafter
      exact ih hafter (hstep after hafter)
  | case3 scanner _ token after heq | case4 scanner _ failure after heq => rwa [heq] at hafter

theorem outcomes_of_done {scanner : Scanner} (h : scanner.mode = .done) :
    scanner.outcomes = [] := by
  rw [outcomes, dif_pos h]

theorem next_of_silent {scanner after : Scanner} (h : scanner.mode ≠ .done)
    (hstep : scanner.step = (.silent, after)) : scanner.next = after.next := by
  rw [next, dif_neg h]
  split <;> rename_i heq <;> rw [hstep] at heq <;> cases heq
  rfl

theorem next_of_token {scanner after : Scanner} {token : Token} (h : scanner.mode ≠ .done)
    (hstep : scanner.step = (.token token, after)) : scanner.next = (.ok token, after) := by
  rw [next, dif_neg h]
  split <;> rename_i heq <;> rw [hstep] at heq <;> cases heq
  rfl

theorem next_of_failure {scanner after : Scanner} {failure : LexFailure} (h : scanner.mode ≠ .done)
    (hstep : scanner.step = (.failure failure, after)) :
    scanner.next = (.error failure, after) := by
  rw [next, dif_neg h]
  split <;> rename_i heq <;> rw [hstep] at heq <;> cases heq
  rfl

theorem outcomes_of_silent {scanner after : Scanner} (h : scanner.mode ≠ .done)
    (hstep : scanner.step = (.silent, after)) (hafter : after.mode ≠ .done) :
    scanner.outcomes = after.outcomes := by
  rw [outcomes, dif_neg h, outcomes, dif_neg hafter, next_of_silent h hstep]

theorem outcomes_of_token {scanner after : Scanner} {token : Token} (h : scanner.mode ≠ .done)
    (hstep : scanner.step = (.token token, after)) :
    scanner.outcomes = .ok token :: after.outcomes := by
  rw [outcomes, dif_neg h, next_of_token h hstep]

theorem outcomes_of_failure {scanner after : Scanner} {failure : LexFailure}
    (h : scanner.mode ≠ .done) (hstep : scanner.step = (.failure failure, after)) :
    scanner.outcomes = .error failure :: after.outcomes := by
  rw [outcomes, dif_neg h, next_of_failure h hstep]

/-! ## The start of a line -/

theorem step_of_inside {scanner : Scanner} (hmode : scanner.mode = .indent)
    (hend : scanner.context.cursor.atEnd = false)
    (hinside : scanner.context.inBrackets = true ∨ scanner.position.column ≠ 1) :
    scanner.step = (.silent, { scanner with mode := .dispatch }) := by
  unfold step stepIndent
  simp only [hmode, hend, Bool.false_eq_true, if_false]
  rw [if_pos (by simpa using hinside)]
  rfl

section LineStart

variable {scanner : Scanner} (hmode : scanner.mode = .indent)
  (hend : scanner.context.cursor.atEnd = false) (hbrackets : scanner.context.inBrackets = false)
  (hcolumn : scanner.position.column = 1)
include hmode hend hbrackets hcolumn

theorem step_of_lineStart : scanner.step = scanner.startLine := by
  unfold step stepIndent
  simp [hmode, hend, hbrackets, hcolumn]

theorem step_of_blankLine {next : Cursor}
    (hread : (scanner.context.cursor.span Text.isInlineBlank).2.read? = some ('\n', next)) :
    scanner.step = scanner.goTo .indent { scanner.context with cursor := next } := by
  rw [step_of_lineStart hmode hend hbrackets hcolumn, startLine]
  simp only [hread, if_true]

theorem step_of_content {c : Char} {next : Cursor}
    (hread : (scanner.context.cursor.span Text.isInlineBlank).2.read? = some (c, next))
    (hc : c ≠ '\n') :
    scanner.step = scanner.compareWidth
      (leadingWidth scanner.tabWidth (scanner.context.cursor.span Text.isInlineBlank).1)
      { scanner.context with cursor := (scanner.context.cursor.span Text.isInlineBlank).2 } := by
  rw [step_of_lineStart hmode hend hbrackets hcolumn, startLine]
  simp only [hread, hc, if_false]

end LineStart

/-! ## Where tokens come from -/

inductive Given : Token → Prop where
  | mark {kind : TokenKind} (position : Position) (h : kind.isStructural = true) :
      Given (.plain kind position)
  | fault (fault : Fault) (position : Position) : Given (.error fault position)
  | read {context : Context} {c : Char} {next : Cursor}
      (h : context.cursor.read? = some (c, next)) : Given (scanToken context c next).1

theorem Given.faithful {token : Token} (h : Given token) : token.Faithful := by
  cases h with
  | mark position h =>
      unfold TokenKind.isStructural at h
      split at h <;> first | rfl | contradiction
  | fault => rfl
  | read => exact (scanToken_lexical ..).faithful

private theorem goTo_ne_token (scanner : Scanner) (mode : Mode) (context : Context)
    {token : Token} {after : Scanner} : scanner.goTo mode context ≠ (.token token, after) := by
  simp [goTo]

private theorem endOfText_given {scanner after : Scanner} {context : Context} {token : Token}
    (h : scanner.endOfText context = (.token token, after)) : Given token := by
  unfold endOfText emit at h
  split at h
  · cases h
    exact .fault _ _
  · split at h
    · cases h
      exact .mark _ rfl
    · exact absurd h (goTo_ne_token _ _ _)

private theorem stepIndent_given {scanner after : Scanner} {token : Token}
    (h : scanner.stepIndent = (.token token, after)) : Given token := by
  unfold stepIndent at h
  split at h
  · exact endOfText_given h
  · split at h
    · exact absurd h (goTo_ne_token _ _ _)
    · unfold startLine at h
      simp only at h
      split at h
      · exact endOfText_given h
      · split at h
        · exact absurd h (goTo_ne_token _ _ _)
        · unfold compareWidth emit at h
          simp only at h
          split at h
          · exact absurd h (goTo_ne_token _ _ _)
          · split at h
            · cases h
              exact .mark _ rfl
            · split at h
              · exact absurd h (goTo_ne_token _ _ _)
              · cases h

private theorem stepDispatch_given {scanner after : Scanner} {token : Token}
    (h : scanner.stepDispatch = (.token token, after)) : Given token := by
  unfold stepDispatch abandonBrackets emit at h
  simp only at h
  split at h
  · cases h
    exact .fault _ _
  · split at h
    · exact absurd h (goTo_ne_token _ _ _)
    · rename_i hread
      split at h
      · cases h
        exact .mark _ rfl
      · cases h
        exact .read hread

theorem step_given {scanner after : Scanner} {token : Token}
    (h : scanner.step = (.token token, after)) : Given token := by
  unfold step at h
  split at h
  · cases h
    exact .mark _ rfl
  · exact stepIndent_given h
  · exact stepDispatch_given h
  · unfold stepDedent emit at h
    simp only at h
    split at h
    · cases h
      exact .mark _ rfl
    · split at h
      · exact absurd h (goTo_ne_token _ _ _)
      · exact absurd h (goTo_ne_token _ _ _)
  · cases h
    exact .mark _ rfl
  · cases h
    exact .mark _ rfl
  · cases h

theorem mode_ne_done_of_silent {scanner after : Scanner} (h : scanner.step = (.silent, after)) :
    after.mode ≠ .done := by
  intro hdone
  unfold step stepIndent startLine compareWidth endOfText stepDispatch abandonBrackets stepDedent
    emit goTo at h
  grind

theorem forall_mem_outcomes {P : Scanner → Prop} {Q : Token → Prop}
    (hkeeps : ∀ scanner : Scanner, P scanner → P scanner.step.2)
    (hgives : ∀ (scanner : Scanner) (token : Token) (after : Scanner), P scanner →
      scanner.step = (.token token, after) → Q token) {scanner : Scanner} (h : P scanner) :
    ∀ token, .ok token ∈ scanner.outcomes → Q token := by
  induction scanner using step_induction with
  | done scanner hmode =>
      rw [outcomes_of_done hmode]
      intro token htoken
      cases htoken
  | step scanner hmode ih =>
      intro token htoken
      have hafter := hkeeps scanner h
      cases hstep : scanner.step with
      | mk emission after =>
          rw [hstep] at ih hafter
          cases emission with
          | silent =>
              rw [outcomes_of_silent hmode hstep (mode_ne_done_of_silent hstep)] at htoken
              exact ih hafter token htoken
          | token first =>
              rw [outcomes_of_token hmode hstep, List.mem_cons] at htoken
              cases htoken with
              | inl heq =>
                  cases heq
                  exact hgives scanner _ _ h hstep
              | inr hmem => exact ih hafter token hmem
          | failure failure =>
              rw [outcomes_of_failure hmode hstep, List.mem_cons] at htoken
              cases htoken with
              | inl heq => cases heq
              | inr hmem => exact ih hafter token hmem

theorem given_of_mem_outcomes (scanner : Scanner) :
    ∀ token, .ok token ∈ scanner.outcomes → Given token :=
  @forall_mem_outcomes (fun _ => True) Given (fun _ _ => trivial)
    (fun _ _ _ _ hstep => step_given hstep) scanner trivial

theorem faithful_of_mem_outcomes (scanner : Scanner) (token : Token)
    (h : .ok token ∈ scanner.outcomes) : token.Faithful :=
  (given_of_mem_outcomes scanner token h).faithful

end Scanner

end Scan

end Offside
