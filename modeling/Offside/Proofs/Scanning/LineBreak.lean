import Offside.Scan.Scanner

/-!
# No lexeme reaches over a line break

A cursor in front of a line break is read up to the break at most by every lexeme, whatever stands
there.  The positions of the tokens are in front of the line behind the break.
-/

namespace Offside

theorem isBlank_of_isWordChar {c : Char} (h : isWordChar c = true) : Text.isBlank c = false := by
  simp only [isWordChar, isReserved, Bool.not_eq_true', Bool.or_eq_false_iff] at h
  exact h.2

theorem toNat_lt_of_digitValue? {c : Char} {value : Nat} (h : digitValue? c = some value) :
    c.toNat < 128 := by
  have hle : ∀ last : Char, c ≤ last → c.toNat ≤ last.toNat :=
    fun _ h => UInt32.le_iff_toNat_le.1 h
  have hnine := hle '9'
  have hlower := hle 'z'
  have hupper := hle 'Z'
  unfold digitValue? at h
  grind

theorem isWordChar_of_digitValue? {c : Char} {value : Nat} (h : digitValue? c = some value) :
    isWordChar c = true := by
  have hread : ∀ code < 128, (digitValue? (Char.ofNat code)).isSome = true →
      isWordChar (Char.ofNat code) = true := by
    decide +kernel
  have hchar := hread c.toNat (toNat_lt_of_digitValue? h)
  rw [Char.ofNat_toNat, h] at hchar
  exact hchar rfl

theorem isWordChar_of_isDigitIn {radix : Nat} {c : Char} (h : isDigitIn radix c = true) :
    isWordChar c = true := by
  unfold isDigitIn at h
  split at h
  · exact isWordChar_of_digitValue? ‹_›
  · contradiction

theorem isWordChar_separator : isWordChar '_' = true := by decide +kernel

theorem not_isDigitIn_of_isReserved {c : Char} (h : isReserved c = true) (radix : Nat) :
    isDigitIn radix c = false := by
  rw [Bool.eq_false_iff]
  intro hdigit
  have hword := isWordChar_of_isDigitIn hdigit
  simp [isWordChar, h] at hword

namespace Text

/-! ## Cursors in front of a line -/

theorem utf8ByteSize_cons (c : Char) (text : List Char) :
    (String.ofList (c :: text)).utf8ByteSize =
      c.utf8Size + (String.ofList text).utf8ByteSize := by
  rw [String.ofList_cons, String.utf8ByteSize_append, String.utf8ByteSize_singleton]

namespace Cursor

def endOffset (cursor : Cursor) : Nat := cursor.position.offset + cursor.remaining.utf8ByteSize

theorem endOffset_of_read? {cursor next : Cursor} {c : Char} (h : cursor.read? = some (c, next)) :
    next.endOffset = cursor.endOffset := by
  unfold read? at h
  unfold endOffset remaining
  split at h
  · cases h
  · rename_i first tail hrest
    rw [hrest, utf8ByteSize_cons]
    split at h
    · rename_i hreturn
      have hsize : first.utf8Size = 1 := by rw [hreturn]; rfl
      have hfeed : '\n'.utf8Size = 1 := rfl
      split at h
      · cases h
        simp only [Position.newline, utf8ByteSize_cons]
        omega
      · cases h
        simp only [Position.newline]
        omega
    · cases h
      simp only [Position.advance_offset]
      omega

structure Before (text : List Char) (start : Nat) (cursor : Cursor) : Prop where
  rest : ∃ front, cursor.rest = front ++ '\n' :: text
  offset : cursor.endOffset = start + (String.ofList text).utf8ByteSize

structure AtLine (text : List Char) (start : Nat) (cursor : Cursor) : Prop where
  rest : cursor.rest = text
  column : cursor.position.column = 1
  offset : cursor.position.offset = start

variable {text : List Char} {start : Nat} {cursor next : Cursor} {c : Char}

theorem Before.offset_le (h : cursor.Before text start) : cursor.position.offset ≤ start := by
  obtain ⟨front, hrest⟩ := h.rest
  have hoffset := h.offset
  rw [endOffset, remaining, hrest, String.ofList_append, String.utf8ByteSize_append,
    utf8ByteSize_cons] at hoffset
  omega

theorem Before.rest_ne_nil (h : cursor.Before text start) : cursor.rest ≠ [] := by
  obtain ⟨front, hrest⟩ := h.rest
  simp [hrest]

theorem Before.read? (h : cursor.Before text start) (hread : cursor.read? = some (c, next)) :
    next.Before text start ∨ (c = '\n' ∧ next.AtLine text start) := by
  have hend := (endOffset_of_read? hread).trans h.offset
  obtain ⟨front, hrest⟩ := h.rest
  have hline : ∀ bytes, next = ⟨text, cursor.position.newline bytes⟩ →
      next.AtLine text start := by
    rintro bytes rfl
    refine ⟨rfl, rfl, ?_⟩
    rw [endOffset, remaining] at hend
    exact Nat.add_right_cancel hend
  unfold Cursor.read? at hread
  cases front with
  | nil =>
      rw [hrest] at hread
      have hfeed : ¬ '\n' = '\r' := by decide
      simp only [List.nil_append, hfeed, if_false, Option.some.injEq, Prod.mk.injEq] at hread
      exact .inr ⟨hread.1.symm, hline 1 hread.2.symm⟩
  | cons first front =>
      rw [hrest] at hread
      simp only [List.cons_append] at hread
      split at hread
      · cases front with
        | nil =>
            simp only [List.nil_append, Option.some.injEq, Prod.mk.injEq] at hread
            exact .inr ⟨hread.1.symm, hline 2 hread.2.symm⟩
        | cons second front =>
            left
            simp only [List.cons_append] at hread
            split at hread
            · rename_i heq
              cases heq
              cases hread
              exact ⟨⟨front, rfl⟩, hend⟩
            · cases hread
              exact ⟨⟨second :: front, rfl⟩, hend⟩
      · cases hread
        exact .inl ⟨⟨front, rfl⟩, hend⟩

theorem Before.of_ne_break (h : cursor.Before text start)
    (hread : cursor.read? = some (c, next)) (hc : c ≠ '\n') : next.Before text start := by
  rcases h.read? hread with hnext | hnext
  · exact hnext
  · exact absurd hnext.1 hc

theorem Before.advance (h : cursor.Before text start) (hcurrent : cursor.current? = some c)
    (hc : c ≠ '\n') : cursor.advance.Before text start := by
  unfold current? at hcurrent
  unfold Cursor.advance
  cases hread : cursor.read? with
  | none => simp [hread] at hcurrent
  | some read =>
      obtain ⟨first, next⟩ := read
      rw [hread, Option.map_some, Option.some.injEq] at hcurrent
      obtain rfl : first = c := hcurrent
      exact h.of_ne_break hread hc

theorem Before.span (h : cursor.Before text start) {p : Char → Bool} (hp : p '\n' = false) :
    (cursor.span p).2.Before text start := by
  fun_induction Cursor.span p cursor with
  | case1 => exact h
  | case2 cursor c next hread hc tail ih =>
      apply ih
      apply h.of_ne_break hread
      rintro rfl
      rw [hp] at hc
      contradiction
  | case3 => exact h

theorem span_eq {p : Char → Bool} (hfeed : p '\n' = false) (hreturn : p '\r' = false)
    (cursor : Cursor) :
    (cursor.span p).1 = cursor.rest.takeWhile p ∧
      (cursor.span p).2.rest = cursor.rest.dropWhile p := by
  fun_induction Cursor.span p cursor with
  | case1 cursor hread =>
      rw [(read?_eq_none_iff cursor).1 hread]
      exact ⟨rfl, rfl⟩
  | case2 cursor c next hread hc tail ih =>
      have hrest : cursor.rest = c :: next.rest := by
        unfold Cursor.read? at hread
        grind
      rw [hrest, List.takeWhile_cons_of_pos hc, List.dropWhile_cons_of_pos hc]
      exact ⟨by rw [ih.1], ih.2⟩
  | case3 cursor c next hread hc =>
      have hrest : ∃ first rest, cursor.rest = first :: rest ∧ ¬ p first = true := by
        unfold Cursor.read? at hread
        grind
      obtain ⟨first, rest, hrest, hfirst⟩ := hrest
      rw [hrest, List.takeWhile_cons_of_neg hfirst, List.dropWhile_cons_of_neg hfirst]
      exact ⟨rfl, rfl⟩

end Cursor

end Text

/-! ## Lexemes -/

namespace Scan

open Text (Cursor Position)

variable {text : List Char} {start : Nat} {cursor : Cursor}

def Stays (text : List Char) (start : Nat) (scanned : Token × Cursor) : Prop :=
  scanned.1.position.offset ≤ start ∧ scanned.2.Before text start

theorem dropLineBreak_of_read? {cursor next : Cursor} (h : cursor.read? = some ('\n', next)) :
    dropLineBreak cursor.rest = next.rest := by
  unfold Cursor.read? at h
  split at h
  · cases h
  · rename_i c tail hrest
    rw [hrest]
    split at h
    · rename_i hreturn
      subst hreturn
      split at h
      · cases h
        rfl
      · rename_i hfeed
        cases h
        unfold dropLineBreak
        grind
    · cases h
      rfl

theorem isDigitIn_lineFeed (radix : Nat) : isDigitIn radix '\n' = false := rfl

theorem isWordChar_lineFeed : isWordChar '\n' = false := by decide

theorem digitRun_before (h : cursor.Before text start) (radix : Nat) (started : Bool) :
    (digitRun radix started cursor).cursor.Before text start := by
  fun_induction digitRun radix started cursor with
  | case1 => exact h
  | case2 started cursor c next hread hc tail ih =>
      apply ih
      apply h.of_ne_break hread
      rintro rfl
      rw [isDigitIn_lineFeed] at hc
      contradiction
  | case3 started cursor next hmore tail hread hdigit ih =>
      apply ih
      exact h.of_ne_break hread (by decide)
  | case4 => exact h
  | case5 => exact h

theorem invalidNumber_stays (h : cursor.Before text start) {position : Position}
    (hposition : position.offset ≤ start) (digits : List Char) :
    Stays text start (invalidNumber position digits cursor) :=
  ⟨hposition, h.span isWordChar_lineFeed⟩

theorem fractionFollows_before (h : cursor.Before text start)
    (hfollows : fractionFollows cursor = true) : cursor.advance.Before text start := by
  simp only [fractionFollows, Cursor.isAt, Bool.and_eq_true, beq_iff_eq] at hfollows
  exact h.advance hfollows.1 (by decide)

theorem scanDigits_stays (h : cursor.Before text start) {position : Position}
    (hposition : position.offset ≤ start) (radix : Nat) (announced : List Char) :
    Stays text start (scanDigits position radix announced cursor) := by
  have hwhole := digitRun_before h radix false
  unfold scanDigits
  simp only
  split
  · exact invalidNumber_stays hwhole hposition _
  · split
    · rename_i hfollows
      simp only [Bool.and_eq_true] at hfollows
      have hfraction := digitRun_before (fractionFollows_before hwhole hfollows.2) 10 false
      split
      · exact invalidNumber_stays hfraction hposition _
      · exact ⟨hposition, hfraction⟩
    · split
      · exact invalidNumber_stays hwhole hposition _
      · unfold integerToken
        simp only
        split
        · exact ⟨hposition, hwhole⟩
        · exact ⟨hposition, hwhole⟩

theorem marks_of_radixAt (h : radixAt cursor ≠ 10) :
    cursor.current? = some '0' ∧
      ∃ mark ∈ ['x', 'X', 'b', 'B', 'o', 'O'], cursor.peek? = some mark := by
  unfold radixAt at h
  split at h
  · rename_i hzero
    split at h
    · rename_i mark hmark
      refine ⟨hzero, mark, ?_, hmark⟩
      simp only [List.mem_cons, List.not_mem_nil, or_false]
      grind
    · contradiction
  · contradiction

theorem scanNumber_stays (h : cursor.Before text start) :
    Stays text start (scanNumber cursor) := by
  unfold scanNumber
  simp only
  split
  · exact scanDigits_stays h h.offset_le _ _
  · rename_i hradix
    obtain ⟨hzero, mark, hletter, hmark⟩ := marks_of_radixAt hradix
    have hfeed : mark ≠ '\n' := by
      rintro rfl
      contradiction
    exact scanDigits_stays ((h.advance hzero (by decide)).advance hmark hfeed) h.offset_le _ _

/-- The content of a string stays on its line, and so does the backslash of a bad escape. -/
theorem readQuotation_before (h : cursor.Before text start) :
    (readQuotation cursor).cursor.Before text start ∧
      ∀ bad ∈ (readQuotation cursor).badEscape?, bad.2.offset ≤ start := by
  fun_induction readQuotation cursor with
  | case1 => exact ⟨h, by simp⟩
  | case2 => exact ⟨h, by simp⟩
  | case3 cursor next hread => exact ⟨h.of_ne_break hread (by decide), by simp⟩
  | case4 cursor next hend hread => exact ⟨h.of_ne_break hread (by decide), by simp⟩
  | case5 cursor next behind hread => exact ⟨h.of_ne_break hread (by decide), by simp⟩
  | case6 cursor next letter behind hletter hne tail escaped hescaped hread _ _ ih =>
      exact ih ((h.of_ne_break hread (by decide)).of_ne_break hletter hne)
  | case7 cursor next letter behind hletter hne tail hescaped hread _ _ ih =>
      have htail := ih ((h.of_ne_break hread (by decide)).of_ne_break hletter hne)
      refine ⟨htail.1, ?_⟩
      rintro bad hbad
      cases hbad
      exact h.offset_le
  | case8 cursor c next hread hne _ _ tail ih => exact ih (h.of_ne_break hread hne)

theorem scanQuotation_stays (h : cursor.Before text start) (hquote : cursor.current? = some '"') :
    Stays text start (scanQuotation cursor) := by
  obtain ⟨hbehind, hbad⟩ := readQuotation_before (h.advance hquote (by decide))
  refine ⟨?_, hbehind⟩
  unfold scanQuotation Quotation.token
  simp only
  split
  · exact h.offset_le
  · exact hbehind.offset_le
  · split
    · rename_i hescape
      exact hbad _ hescape
    · exact h.offset_le

theorem scanWord_stays (h : cursor.Before text start) : Stays text start (scanWord cursor) := by
  have hbehind : (cursor.span isWordChar).2.Before text start := h.span isWordChar_lineFeed
  unfold scanWord
  simp only
  split
  · exact ⟨h.offset_le, hbehind⟩
  · exact ⟨h.offset_le, hbehind⟩

theorem operatorBehind?_before {c : Char} {behind : Cursor} {kind : TokenKind}
    (h : cursor.Before text start) (hoperator : operatorBehind? c cursor = some (kind, behind)) :
    behind.Before text start := by
  have hskip : ∀ {cursor : Cursor} {c : Char}, cursor.Before text start → c ≠ '\n' →
      cursor.isAt c = true → cursor.advance.Before text start := by
    intro cursor c h hc hat
    exact h.advance (by simpa [Cursor.isAt] using hat) hc
  have hassign : ∀ {cursor : Cursor} (simple combined : TokenKind), cursor.Before text start →
      (withAssign simple combined cursor).2.Before text start := by
    intro cursor simple combined h
    unfold withAssign
    split
    · rename_i hat
      exact hskip h (by decide) hat
    · exact h
  unfold operatorBehind? at hoperator
  split at hoperator <;> grind

theorem scanSymbol_stays {context : Context} (h : context.cursor.Before text start) (c : Char)
    {position : Position} (hposition : position.offset ≤ start) :
    Stays text start ((scanSymbol c position context).1, (scanSymbol c position context).2.cursor) := by
  unfold scanSymbol
  split
  · exact ⟨hposition, h⟩
  · split
    · unfold Context.closeBracket
      split
      · rename_i hclose
        split at hclose
        · cases hclose
        · split at hclose
          · cases hclose
            exact ⟨hposition, h⟩
          · cases hclose
      · exact ⟨hposition, h⟩
      · exact ⟨hposition, h⟩
    · split
      · rename_i hoperator
        exact ⟨hposition, operatorBehind?_before h hoperator⟩
      · exact ⟨hposition, h⟩

theorem scanToken_stays {context : Context} {c : Char} {next : Cursor}
    (h : context.cursor.Before text start) (hread : context.cursor.read? = some (c, next))
    (hc : c ≠ '\n') :
    Stays text start
      ((Scanner.scanToken context c next).1, (Scanner.scanToken context c next).2.cursor) := by
  unfold Scanner.scanToken
  split
  · exact scanNumber_stays h
  · split
    · rename_i hquote
      exact scanQuotation_stays h (by simp [Cursor.current?, hread, hquote])
    · split
      · have hnext : next.Before text start := h.of_ne_break hread hc
        exact @scanSymbol_stays _ _ { context with cursor := next } hnext c _ h.offset_le
      · exact scanWord_stays h

end Scan

end Offside
