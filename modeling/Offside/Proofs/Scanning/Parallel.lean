import Offside.Proofs.Grammar.Bare
import Offside.Proofs.Scanning.LineBreak

/-!
# Cursors in parallel

Two cursors are side by side if they read the same character or if both lines are over, where one line
may end with a line break and the other one with the text.  A relation between cursors is parallel if
this goes on up to the ends of the lines.  No lexeme reaches over the end of its line, so parallel
cursors give the same lexemes; only a string literal that is not closed tells how its line ends.

Numbers, symbols and words do not even reach over a blank.  So for them it is enough that the cursors
read the same characters up to a blank.
-/

namespace Offside

open Text (Cursor Position)

namespace Text.Cursor

variable {cursor next : Cursor} {c : Char}

inductive AtLineEnd (cursor : Cursor) : Prop where
  | ended (h : cursor.read? = none)
  | breaks {next : Cursor} (h : cursor.read? = some ('\n', next))

theorem AtLineEnd.eq_lineFeed (h : cursor.AtLineEnd) (hcurrent : cursor.current? = some c) :
    c = '\n' := by
  cases h with
  | ended h => simp [current?, h] at hcurrent
  | breaks h => simpa [current?, h] using hcurrent.symm

theorem span_of_end (h : cursor.read? = none) (p : Char → Bool) : cursor.span p = ([], cursor) := by
  unfold span
  grind

theorem span_of_read? (h : cursor.read? = some (c, next)) (p : Char → Bool) :
    cursor.span p =
      if p c then (c :: (next.span p).1, (next.span p).2) else ([], cursor) := by
  conv => lhs; unfold span
  grind

theorem AtLineEnd.span (h : cursor.AtLineEnd) {p : Char → Bool} (hp : p '\n' = false) :
    cursor.span p = ([], cursor) := by
  cases h with
  | ended h => exact span_of_end h p
  | breaks h => rw [span_of_read? h, hp]; rfl

def AtGap (cursor : Cursor) : Prop := ∀ c ∈ cursor.current?, isBlank c = true

theorem AtLineEnd.atGap (h : cursor.AtLineEnd) : cursor.AtGap := by
  intro c hc
  rw [h.eq_lineFeed hc]
  decide

theorem AtGap.reserved (h : cursor.AtGap) : ∀ c ∈ cursor.current?, isReserved c = true :=
  fun c hc => isReserved_of_isBlank (h c hc)

theorem AtGap.isAt (h : cursor.AtGap) (hc : isBlank c = false) : cursor.isAt c = false := by
  rw [Cursor.isAt, beq_eq_false_iff_ne]
  intro hcurrent
  rw [h c hcurrent] at hc
  contradiction

theorem AtGap.span (h : cursor.AtGap) {p : Char → Bool} (hp : ∀ c, isBlank c = true → p c = false) :
    cursor.span p = ([], cursor) := by
  cases hread : cursor.read? with
  | none => exact span_of_end hread p
  | some first =>
      obtain ⟨c, next⟩ := first
      rw [span_of_read? hread, hp c (h c (by simp [current?, hread]))]
      rfl

theorem of_mem_span {p : Char → Bool} (h : c ∈ (cursor.span p).1) : p c = true := by
  fun_induction span p cursor <;> grind

end Text.Cursor

namespace Scan

/-! ## Reading one character -/

variable {cursor next : Cursor} {c : Char}

theorem startsWithDigit_of_reserved (h : ∀ c ∈ cursor.current?, isReserved c = true) (radix : Nat) :
    startsWithDigit radix cursor = false := by
  unfold startsWithDigit
  split
  · rename_i c hcurrent
    exact not_isDigitIn_of_isReserved (h c hcurrent) radix
  · rfl

theorem atWordChar_of_reserved (h : ∀ c ∈ cursor.current?, isReserved c = true) :
    atWordChar cursor = false := by
  unfold atWordChar
  split
  · rename_i c hcurrent
    simp [isWordChar, h c hcurrent]
  · rfl

theorem digitRun_of_end (h : cursor.read? = none) (radix : Nat) (started : Bool) :
    digitRun radix started cursor = ⟨[], [], started, cursor⟩ := by
  unfold digitRun
  grind

theorem digitRun_of_read? (h : cursor.read? = some (c, next)) (radix : Nat) (started : Bool) :
    digitRun radix started cursor =
      if isDigitIn radix c then
        { digitRun radix true next with
          digits := c :: (digitRun radix true next).digits
          text := c :: (digitRun radix true next).text }
      else if c = '_' then
        if started && startsWithDigit radix next then
          { digitRun radix true next with text := c :: (digitRun radix true next).text }
        else ⟨[], [], false, cursor⟩
      else ⟨[], [], started, cursor⟩ := by
  conv => lhs; unfold digitRun
  grind

theorem digitRun_of_reserved (h : ∀ c ∈ cursor.current?, isReserved c = true) (radix : Nat)
    (started : Bool) : digitRun radix started cursor = ⟨[], [], started, cursor⟩ := by
  cases hread : cursor.read? with
  | none => exact digitRun_of_end hread radix started
  | some first =>
      obtain ⟨c, next⟩ := first
      have hreserved := h c (by simp [Cursor.current?, hread])
      have hseparator : ¬ c = '_' := by
        rintro rfl
        have hword := isWordChar_separator
        simp [isWordChar, hreserved] at hword
      rw [digitRun_of_read? hread, not_isDigitIn_of_isReserved hreserved, if_neg Bool.false_ne_true,
        if_neg hseparator]

theorem readQuotation_of_end (h : cursor.read? = none) :
    readQuotation cursor = ⟨[], none, .endOfText, cursor⟩ := by
  unfold readQuotation
  grind

theorem readQuotation_of_lineFeed (h : cursor.read? = some ('\n', next)) :
    readQuotation cursor = ⟨[], none, .lineBreak, cursor⟩ := by
  unfold readQuotation
  grind

theorem readQuotation_of_mark (h : cursor.read? = some ('"', next)) :
    readQuotation cursor = ⟨[], none, .closed, next⟩ := by
  unfold readQuotation
  grind

theorem readQuotation_of_char (h : cursor.read? = some (c, next)) (hbreak : c ≠ '\n')
    (hmark : c ≠ '"') (hbackslash : c ≠ '\\') :
    readQuotation cursor =
      { readQuotation next with content := c :: (readQuotation next).content } := by
  conv => lhs; unfold readQuotation
  grind

theorem readQuotation_of_backslash (h : cursor.read? = some ('\\', next)) :
    readQuotation cursor =
      match next.read? with
      | none => ⟨[], none, .endOfText, next⟩
      | some (letter, behind) =>
          if letter = '\n' then ⟨[], none, .lineBreak, next⟩
          else
            match escapedChar? letter with
            | some escaped =>
                { readQuotation behind with content := escaped :: (readQuotation behind).content }
            | none =>
                { readQuotation behind with badEscape? := some (letter, cursor.position) } := by
  conv => lhs; unfold readQuotation
  grind

theorem readQuotation_of_backslash_end (h : cursor.read? = some ('\\', next))
    (hend : next.AtLineEnd) : readQuotation cursor = readQuotation next := by
  rw [readQuotation_of_backslash h]
  cases hend with
  | ended hend => rw [readQuotation_of_end hend, hend]
  | breaks hend => rw [readQuotation_of_lineFeed hend, hend]; rfl

theorem not_isBlank_of_mark {mark : Char} (h : mark ∈ ['x', 'X', 'b', 'B', 'o', 'O']) :
    Text.isBlank mark = false := by
  have hnone : (['x', 'X', 'b', 'B', 'o', 'O'].any Text.isBlank) = false := by decide
  exact Bool.eq_false_iff.2 (List.any_eq_false.1 hnone mark h)

theorem radixAt_of_gap (h : cursor.AtGap) : radixAt cursor = 10 := by
  refine Decidable.byContradiction fun hradix => ?_
  have hblank := h '0' (marks_of_radixAt hradix).1
  contradiction

theorem radixAt_of_gap_behind (hread : cursor.read? = some (c, next)) (h : next.AtGap) :
    radixAt cursor = 10 := by
  refine Decidable.byContradiction fun hradix => ?_
  obtain ⟨-, mark, hletter, hmark⟩ := marks_of_radixAt hradix
  have hblank := not_isBlank_of_mark hletter
  have hadvance : cursor.advance = next := by rw [Cursor.advance, hread]
  rw [Cursor.peek?, hadvance] at hmark
  rw [h mark hmark] at hblank
  contradiction

theorem readQuotation_of_lineEnd (hend : cursor.AtLineEnd) :
    (readQuotation cursor = ⟨[], none, .endOfText, cursor⟩ ∧ cursor.current? = none) ∨
      (readQuotation cursor = ⟨[], none, .lineBreak, cursor⟩ ∧ cursor.current? = some '\n') := by
  cases hend with
  | ended hend => exact .inl ⟨readQuotation_of_end hend, by rw [Cursor.current?, hend]; rfl⟩
  | breaks hend => exact .inr ⟨readQuotation_of_lineFeed hend, by rw [Cursor.current?, hend]; rfl⟩

/-! ## Cursors -/

inductive Beside (within : Cursor → Cursor → Prop) (cursor cursor' : Cursor) : Prop where
  | ended (h : cursor.AtLineEnd) (h' : cursor'.AtLineEnd)
  | reads {c : Char} {next next' : Cursor} (hc : c ≠ '\n') (h : cursor.read? = some (c, next))
      (h' : cursor'.read? = some (c, next')) (hnext : within next next')

def Parallel (within : Cursor → Cursor → Prop) : Prop :=
  ∀ ⦃cursor cursor' : Cursor⦄, within cursor cursor' → Beside within cursor cursor'

variable {within : Cursor → Cursor → Prop} {cursor' : Cursor}

inductive Near (within : Cursor → Cursor → Prop) (cursor cursor' : Cursor) : Prop where
  | gap (h : cursor.AtGap) (h' : cursor'.AtGap)
  | reads {c : Char} {next next' : Cursor} (h : cursor.read? = some (c, next))
      (h' : cursor'.read? = some (c, next')) (hnext : within next next')

def Nearby (within : Cursor → Cursor → Prop) : Prop :=
  ∀ ⦃cursor cursor' : Cursor⦄, within cursor cursor' → Near within cursor cursor'

theorem Parallel.nearby (hpar : Parallel within) : Nearby within := by
  intro cursor cursor' h
  cases hpar h with
  | ended hend hend' => exact .gap hend.atGap hend'.atGap
  | reads _ hread hread' hnext => exact .reads hread hread' hnext

theorem span_alike {p : Char → Bool}
    (hstep : ∀ ⦃cursor cursor' : Cursor⦄, within cursor cursor' →
      (cursor.span p = ([], cursor) ∧ cursor'.span p = ([], cursor')) ∨
      ∃ c next next', cursor.read? = some (c, next) ∧ cursor'.read? = some (c, next') ∧
        within next next') (h : within cursor cursor') :
    (cursor'.span p).1 = (cursor.span p).1 ∧ within (cursor.span p).2 (cursor'.span p).2 := by
  induction hlength : cursor.rest.length using Nat.strongRecOn generalizing cursor cursor' with
  | ind length ih =>
      rcases hstep h with ⟨hends, hends'⟩ | ⟨c, next, next', hread, hread', hnext⟩
      · rw [hends, hends']
        exact ⟨rfl, h⟩
      · rw [Cursor.span_of_read? hread, Cursor.span_of_read? hread']
        have hshorter := Cursor.length_lt_of_read? hread
        have htail := ih _ (hlength ▸ hshorter) hnext rfl
        split
        · exact ⟨by rw [htail.1], htail.2⟩
        · exact ⟨rfl, h⟩

theorem Parallel.span (hpar : Parallel within) (h : within cursor cursor') {p : Char → Bool}
    (hp : p '\n' = false) :
    (cursor'.span p).1 = (cursor.span p).1 ∧ within (cursor.span p).2 (cursor'.span p).2 := by
  refine span_alike (fun cursor cursor' h => ?_) h
  cases hpar h with
  | ended hend hend' => exact .inl ⟨hend.span hp, hend'.span hp⟩
  | reads _ hread hread' hnext => exact .inr ⟨_, _, _, hread, hread', hnext⟩

namespace Nearby

variable (hnear : Nearby within) (h : within cursor cursor')
include hnear h

theorem isAt_eq {c : Char} (hc : Text.isBlank c = false) : cursor'.isAt c = cursor.isAt c := by
  cases hnear h with
  | gap hgap hgap' => rw [hgap.isAt hc, hgap'.isAt hc]
  | reads hread hread' =>
      simp only [Cursor.isAt, Cursor.current?, hread, hread', Option.map_some]

theorem advance {c : Char} (hcurrent : cursor.current? = some c) (hc : Text.isBlank c = false) :
    within cursor.advance cursor'.advance := by
  cases hnear h with
  | gap hgap =>
      rw [hgap c hcurrent] at hc
      contradiction
  | reads hread hread' hnext =>
      unfold Cursor.advance
      rw [hread, hread']
      exact hnext

theorem advance_of_isAt {c : Char} (hat : cursor.isAt c = true) (hc : Text.isBlank c = false) :
    within cursor.advance cursor'.advance :=
  hnear.advance h (by simpa [Cursor.isAt] using hat) hc

theorem current?_eq {c : Char} (hcurrent : cursor.current? = some c) (hc : Text.isBlank c = false) :
    cursor'.current? = some c := by
  have hat := hnear.isAt_eq h hc
  rw [Cursor.isAt, Cursor.isAt, hcurrent, beq_self_eq_true, beq_iff_eq] at hat
  exact hat

theorem span_word :
    (cursor'.span isWordChar).1 = (cursor.span isWordChar).1 ∧
      within (cursor.span isWordChar).2 (cursor'.span isWordChar).2 := by
  have hword : ∀ c, Text.isBlank c = true → isWordChar c = false := by
    intro c hc
    simp [isWordChar, isReserved_of_isBlank hc]
  refine span_alike (fun cursor cursor' h => ?_) h
  cases hnear h with
  | gap hgap hgap' => exact .inl ⟨hgap.span hword, hgap'.span hword⟩
  | reads hread hread' hnext => exact .inr ⟨_, _, _, hread, hread', hnext⟩

end Nearby

/-! ## Lexemes -/

def SameToken (scanned scanned' : Token × Cursor) : Prop :=
  scanned'.1.bare = scanned.1.bare ∨
    (scanned.1.kind = .error ∧ scanned'.1.kind = .error ∧
      scanned'.2.current? ≠ scanned.2.current?)

structure SameLexeme (within : Cursor → Cursor → Prop) (scanned scanned' : Token × Cursor) :
    Prop where
  token : scanned'.1.bare = scanned.1.bare
  cursor : within scanned.2 scanned'.2

structure SameScan (within : Cursor → Cursor → Prop) (scanned scanned' : Token × Cursor) : Prop where
  token : SameToken scanned scanned'
  cursor : within scanned.2 scanned'.2

namespace Nearby

theorem startsWithDigit_eq (hnear : Nearby within) (h : within cursor cursor') (radix : Nat) :
    startsWithDigit radix cursor' = startsWithDigit radix cursor := by
  cases hnear h with
  | gap hgap hgap' =>
      rw [startsWithDigit_of_reserved hgap.reserved, startsWithDigit_of_reserved hgap'.reserved]
  | reads hread hread' => simp only [startsWithDigit, Cursor.current?, hread, hread', Option.map_some]

theorem atWordChar_eq (hnear : Nearby within) (h : within cursor cursor') :
    atWordChar cursor' = atWordChar cursor := by
  cases hnear h with
  | gap hgap hgap' =>
      rw [atWordChar_of_reserved hgap.reserved, atWordChar_of_reserved hgap'.reserved]
  | reads hread hread' => simp only [atWordChar, Cursor.current?, hread, hread', Option.map_some]

theorem digitRun (hnear : Nearby within) (h : within cursor cursor') (radix : Nat)
    (started : Bool) :
    ∃ after', Scan.digitRun radix started cursor' =
        { Scan.digitRun radix started cursor with cursor := after' } ∧
      within (Scan.digitRun radix started cursor).cursor after' := by
  induction hlength : cursor.rest.length using Nat.strongRecOn
    generalizing cursor cursor' started with
  | ind length ih =>
      cases hnear h with
      | gap hgap hgap' =>
          rw [digitRun_of_reserved hgap.reserved, digitRun_of_reserved hgap'.reserved]
          exact ⟨_, rfl, h⟩
      | @reads c next next' hread hread' hnext =>
          rw [digitRun_of_read? hread, digitRun_of_read? hread', hnear.startsWithDigit_eq hnext]
          have hshorter := Cursor.length_lt_of_read? hread
          obtain ⟨after', htail, hafter⟩ := ih _ (hlength ▸ hshorter) hnext true rfl
          split
          · exact ⟨after', by rw [htail], hafter⟩
          · split
            · split
              · exact ⟨after', by rw [htail], hafter⟩
              · exact ⟨_, rfl, h⟩
            · exact ⟨_, rfl, h⟩

variable (hnear : Nearby within) (h : within cursor cursor')
include hnear h

theorem invalidNumber (position position' : Position) (text : List Char) :
    SameLexeme within (Scan.invalidNumber position text cursor)
      (Scan.invalidNumber position' text cursor') := by
  obtain ⟨hglued, hbehind⟩ := hnear.span_word h
  refine ⟨?_, hbehind⟩
  unfold Scan.invalidNumber
  simp only [hglued]
  rfl

theorem fractionFollows_eq : fractionFollows cursor' = fractionFollows cursor := by
  rw [fractionFollows, hnear.isAt_eq h (by decide), fractionFollows]
  cases hat : cursor.isAt '.' with
  | false => rfl
  | true => rw [hnear.startsWithDigit_eq (hnear.advance_of_isAt h hat (by decide))]

theorem scanDigits (position position' : Position) (radix : Nat) (announced : List Char) :
    SameLexeme within (Scan.scanDigits position radix announced cursor)
      (Scan.scanDigits position' radix announced cursor') := by
  obtain ⟨after', hrun, hafter⟩ := hnear.digitRun h radix false
  unfold Scan.scanDigits
  simp only [hrun, hnear.fractionFollows_eq hafter, hnear.atWordChar_eq hafter]
  split
  · exact hnear.invalidNumber hafter ..
  · split
    · rename_i hfollows
      simp only [fractionFollows, Bool.and_eq_true] at hfollows
      have hpoint := hnear.advance_of_isAt hafter hfollows.2.1 (by decide)
      obtain ⟨last', hfraction, hlast⟩ := hnear.digitRun hpoint 10 false
      simp only [hfraction, hnear.atWordChar_eq hlast]
      split
      · exact hnear.invalidNumber hlast ..
      · exact ⟨rfl, hlast⟩
    · split
      · exact hnear.invalidNumber hafter ..
      · refine ⟨?_, hafter⟩
        unfold integerToken
        simp only
        split <;> rfl

theorem radixAt_eq : radixAt cursor' = radixAt cursor := by
  cases hnear h with
  | gap hgap hgap' => rw [radixAt_of_gap hgap, radixAt_of_gap hgap']
  | reads hread hread' hnext =>
      cases hnear hnext with
      | gap hgap hgap' =>
          rw [radixAt_of_gap_behind hread hgap, radixAt_of_gap_behind hread' hgap']
      | reads hmark hmark' =>
          simp only [radixAt, Cursor.peek?, Cursor.advance, Cursor.current?, hread, hread', hmark,
            hmark', Option.map_some]

theorem scanNumber : SameLexeme within (Scan.scanNumber cursor) (Scan.scanNumber cursor') := by
  unfold Scan.scanNumber
  simp only [hnear.radixAt_eq h]
  split
  · exact hnear.scanDigits h ..
  · rename_i hradix
    obtain ⟨hzero, mark, hletter, hpeek⟩ := marks_of_radixAt hradix
    have hblank := not_isBlank_of_mark hletter
    have hmark := hnear.advance h hzero (by decide)
    have hpeek' : cursor'.peek? = some mark := hnear.current?_eq hmark hpeek hblank
    rw [hzero, hpeek, hnear.current?_eq h hzero (by decide), hpeek']
    exact hnear.scanDigits (hnear.advance hmark hpeek hblank) ..

theorem scanWord : SameLexeme within (Scan.scanWord cursor) (Scan.scanWord cursor') := by
  obtain ⟨hword, hbehind⟩ := hnear.span_word h
  unfold Scan.scanWord
  simp only [hword]
  split
  · exact ⟨rfl, hbehind⟩
  · exact ⟨rfl, hbehind⟩

theorem withAssign (simple combined : TokenKind) :
    (Scan.withAssign simple combined cursor').1 = (Scan.withAssign simple combined cursor).1 ∧
      within (Scan.withAssign simple combined cursor).2
        (Scan.withAssign simple combined cursor').2 := by
  unfold Scan.withAssign
  rw [hnear.isAt_eq h (by decide)]
  split
  · rename_i hat
    exact ⟨rfl, hnear.advance_of_isAt h hat (by decide)⟩
  · exact ⟨rfl, h⟩

theorem operatorBehind? (c : Char) :
    (Scan.operatorBehind? c cursor = none ∧ Scan.operatorBehind? c cursor' = none) ∨
      ∃ kind after after', Scan.operatorBehind? c cursor = some (kind, after) ∧
        Scan.operatorBehind? c cursor' = some (kind, after') ∧ within after after' := by
  have hassign : ∀ {cursor cursor' : Cursor} (simple combined : TokenKind), within cursor cursor' →
      ∃ kind after after', some (Scan.withAssign simple combined cursor) = some (kind, after) ∧
        some (Scan.withAssign simple combined cursor') = some (kind, after') ∧
          within after after' := by
    intro cursor cursor' simple combined h
    obtain ⟨hkind, hafter⟩ := hnear.withAssign h simple combined
    exact ⟨(Scan.withAssign simple combined cursor).1, _, _, rfl, by rw [← hkind], hafter⟩
  unfold Scan.operatorBehind?
  rw [@isAt_eq _ _ _ hnear h '*' (by decide), @isAt_eq _ _ _ hnear h '=' (by decide)]
  split
  case h_8 =>
    split
    · rename_i hat
      exact .inr (hassign _ _ (hnear.advance_of_isAt h hat (by decide)))
    · exact .inr (hassign _ _ h)
  case h_9 =>
    split
    · rename_i hat
      exact .inr ⟨_, _, _, rfl, rfl, hnear.advance_of_isAt h hat (by decide)⟩
    · exact .inl ⟨rfl, rfl⟩
  case h_13 => exact .inl ⟨rfl, rfl⟩
  case h_10 | h_11 | h_12 => exact .inr ⟨_, _, _, rfl, rfl, h⟩
  all_goals exact .inr (hassign _ _ h)

end Nearby

namespace Parallel

variable (hpar : Parallel within) (h : within cursor cursor')
include hpar h

theorem readQuotation :
    ∃ badEscape?' ending' after',
      Scan.readQuotation cursor' =
          { Scan.readQuotation cursor with
            badEscape? := badEscape?', ending := ending', cursor := after' } ∧
        badEscape?'.map Prod.fst = (Scan.readQuotation cursor).badEscape?.map Prod.fst ∧
        (ending' = (Scan.readQuotation cursor).ending ∨
          ending' ≠ .closed ∧ (Scan.readQuotation cursor).ending ≠ .closed ∧
            after'.current? ≠ (Scan.readQuotation cursor).cursor.current?) ∧
        within (Scan.readQuotation cursor).cursor after' := by
  induction hlength : cursor.rest.length using Nat.strongRecOn generalizing cursor cursor' with
  | ind length ih =>
      cases hpar h with
      | ended hend hend' =>
          rcases readQuotation_of_lineEnd hend with ⟨hquotation, hcurrent⟩ | ⟨hquotation, hcurrent⟩ <;>
            rcases readQuotation_of_lineEnd hend' with
              ⟨hquotation', hcurrent'⟩ | ⟨hquotation', hcurrent'⟩ <;>
            rw [hquotation, hquotation'] <;>
            exact ⟨_, _, _, rfl, rfl, by simp [hcurrent, hcurrent'], h⟩
      | @reads c next next' hc hread hread' hnext =>
          have hshorter := Cursor.length_lt_of_read? hread
          by_cases hmark : c = '"'
          · subst hmark
            rw [readQuotation_of_mark hread, readQuotation_of_mark hread']
            exact ⟨_, _, _, rfl, rfl, .inl rfl, hnext⟩
          have htail := ih _ (hlength ▸ hshorter) hnext rfl
          by_cases hbackslash : c = '\\'
          · subst hbackslash
            cases hpar hnext with
            | ended hend hend' =>
                rw [readQuotation_of_backslash_end hread hend,
                  readQuotation_of_backslash_end hread' hend']
                exact htail
            | @reads letter later later' hfeed hletter hletter' hlater =>
                have hshorter' := Cursor.length_lt_of_read? hletter
                obtain ⟨bad', ending', after', htail, hbad, hending, hafter⟩ :=
                  ih _ (hlength ▸ Nat.lt_trans hshorter' hshorter) hlater rfl
                rw [readQuotation_of_backslash hread, readQuotation_of_backslash hread']
                simp only [hletter, hletter', hfeed, if_false]
                split
                · exact ⟨bad', ending', after', by rw [htail], hbad, hending, hafter⟩
                · exact ⟨some (letter, cursor'.position), ending', after', by rw [htail], rfl,
                    hending, hafter⟩
          · obtain ⟨bad', ending', after', htail, hbad, hending, hafter⟩ := htail
            rw [readQuotation_of_char hread hc hmark hbackslash,
              readQuotation_of_char hread' hc hmark hbackslash]
            exact ⟨bad', ending', after', by rw [htail], hbad, hending, hafter⟩

theorem scanQuotation (hmark : cursor.current? = some '"') :
    SameScan within (Scan.scanQuotation cursor) (Scan.scanQuotation cursor') := by
  obtain ⟨bad', ending', after', hquotation, hbad, hending, hafter⟩ :=
    hpar.readQuotation (hpar.nearby.advance h hmark (by decide))
  unfold Scan.scanQuotation
  simp only [hquotation]
  refine ⟨?_, hafter⟩
  rcases hending with rfl | ⟨hopen', hopen, hdiffer⟩
  · left
    unfold Quotation.token
    cases (Scan.readQuotation cursor.advance).ending with
    | endOfText => rfl
    | lineBreak => rfl
    | closed =>
        cases hescape : (Scan.readQuotation cursor.advance).badEscape? with
        | none =>
            obtain rfl : bad' = none := by simpa [hescape] using hbad
            rfl
        | some bad =>
            obtain ⟨letter, position⟩ := bad
            rw [hescape] at hbad
            obtain ⟨⟨letter', position'⟩, rfl, hletter⟩ := Option.map_eq_some_iff.1 hbad
            obtain rfl : letter' = letter := hletter
            rfl
  · have herror : ∀ (quotation : Quotation) (position : Position), quotation.ending ≠ .closed →
        (quotation.token position).kind = .error := by
      intro quotation position hopen
      unfold Quotation.token
      cases hending : quotation.ending with
      | closed => contradiction
      | lineBreak => rfl
      | endOfText => rfl
    exact .inr ⟨herror _ _ hopen, herror _ _ hopen', hdiffer⟩

end Parallel

/-! ## Contexts -/

structure Context.Abreast (within : Cursor → Cursor → Prop) (context context' : Context) : Prop where
  cursor : within context.cursor context'.cursor
  indents : context'.indents = context.indents
  openers : context'.openers = context.openers
  bracketIndent : context'.bracketIndent = context.bracketIndent

namespace Context.Abreast

variable {context context' : Context}

theorem withCursor {within' : Cursor → Cursor → Prop} (h : Context.Abreast within context context')
    (hcursor : within' cursor cursor') :
    Context.Abreast within' { context with cursor } { context' with cursor := cursor' } :=
  ⟨hcursor, h.indents, h.openers, h.bracketIndent⟩

theorem inBrackets_eq (h : Context.Abreast within context context') :
    context'.inBrackets = context.inBrackets := by
  rw [Context.inBrackets, h.openers, Context.inBrackets]

theorem indent_eq (h : Context.Abreast within context context') :
    context'.indent = context.indent := by
  rw [Context.indent, h.indents, Context.indent]

theorem drainBrackets (h : Context.Abreast within context context') :
    Context.Abreast within context.drainBrackets context'.drainBrackets :=
  ⟨h.cursor, h.indents, rfl, h.bracketIndent⟩

theorem openBracket (h : Context.Abreast within context context') (opener : Char) :
    Context.Abreast within (context.openBracket opener) (context'.openBracket opener) := by
  refine ⟨h.cursor, h.indents, ?_, ?_⟩
  · simp only [Context.openBracket, h.openers]
  · simp only [Context.openBracket, h.inBrackets_eq, h.indent_eq, h.bracketIndent]

theorem pushIndent (h : Context.Abreast within context context') (width : UInt64) :
    Context.Abreast within (context.pushIndent width) (context'.pushIndent width) := by
  have haccepts : context'.acceptsIndent width = context.acceptsIndent width := by
    rw [Context.acceptsIndent, h.indents, h.indent_eq, Context.acceptsIndent]
  unfold Context.pushIndent
  rw [haccepts]
  split
  · exact ⟨h.cursor, by simp [h.indents], h.openers, h.bracketIndent⟩
  · exact h

theorem popIndent (h : Context.Abreast within context context') :
    Context.Abreast within context.popIndent context'.popIndent :=
  ⟨h.cursor, by simp [Context.popIndent, h.indents], h.openers, h.bracketIndent⟩

theorem scanSymbol (hnear : Nearby within) (h : Context.Abreast within context context') (c : Char)
    (position position' : Position) :
    (Scan.scanSymbol c position' context').1.bare = (Scan.scanSymbol c position context).1.bare ∧
      Context.Abreast within (Scan.scanSymbol c position context).2
        (Scan.scanSymbol c position' context').2 := by
  unfold Scan.scanSymbol
  split
  · exact ⟨rfl, h.openBracket c⟩
  · split
    · unfold Context.closeBracket
      rw [h.openers]
      cases hopeners : context.openers with
      | nil => exact ⟨rfl, h⟩
      | cons opener outer =>
          by_cases hcloses : closingOf opener = c
          · simp only [hcloses, if_true]
            exact ⟨rfl, h.cursor, h.indents, rfl, h.bracketIndent⟩
          · simp only [hcloses, if_false]
            exact ⟨rfl, h⟩
    · rcases hnear.operatorBehind? h.cursor c with
        ⟨hnone, hnone'⟩ | ⟨kind, after, after', hsome, hsome', hafter⟩
      · rw [hnone, hnone']
        exact ⟨rfl, h⟩
      · rw [hsome, hsome']
        exact ⟨rfl, h.withCursor hafter⟩

theorem scanToken_nearby (hnear : Nearby within) (h : Context.Abreast within context context')
    (c : Char) {next next' : Cursor} (hnext : within next next') :
    ((Scanner.scanToken context' c next').1.bare = (Scanner.scanToken context c next).1.bare ∧
        Context.Abreast within (Scanner.scanToken context c next).2
          (Scanner.scanToken context' c next').2) ∨
      (c = '"' ∧
        Scanner.scanToken context c next = ((Scan.scanQuotation context.cursor).1,
          { context with cursor := (Scan.scanQuotation context.cursor).2 }) ∧
        Scanner.scanToken context' c next' = ((Scan.scanQuotation context'.cursor).1,
          { context' with cursor := (Scan.scanQuotation context'.cursor).2 })) := by
  unfold Scanner.scanToken
  split
  · have hscan := hnear.scanNumber h.cursor
    exact .inl ⟨hscan.token, h.withCursor hscan.cursor⟩
  · split
    · rename_i hmark
      exact .inr ⟨hmark, rfl, rfl⟩
    · split
      · exact .inl ((h.withCursor hnext).scanSymbol hnear c context.cursor.position
          context'.cursor.position)
      · have hscan := hnear.scanWord h.cursor
        exact .inl ⟨hscan.token, h.withCursor hscan.cursor⟩

theorem scanToken (hpar : Parallel within) (h : Context.Abreast within context context')
    {c : Char} {next next' : Cursor} (hread : context.cursor.read? = some (c, next))
    (hnext : within next next') :
    SameToken (Prod.map id Context.cursor (Scanner.scanToken context c next))
        (Prod.map id Context.cursor (Scanner.scanToken context' c next')) ∧
      Context.Abreast within (Scanner.scanToken context c next).2
        (Scanner.scanToken context' c next').2 := by
  rcases h.scanToken_nearby hpar.nearby c hnext with ⟨htoken, hafter⟩ | ⟨rfl, hscan, hscan'⟩
  · exact ⟨.inl htoken, hafter⟩
  · have hquotation := hpar.scanQuotation h.cursor (by simp [Cursor.current?, hread])
    rw [hscan, hscan']
    exact ⟨hquotation.token, h.withCursor hquotation.cursor⟩

end Context.Abreast

end Scan

end Offside
