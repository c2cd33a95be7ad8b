import Offside.Proofs.Number.PlainNotation
import Offside.Proofs.Scanning.Reading

/-!
# Written literals at the scanner

Digits around a point are read as one float.  A number that is written with an exponent runs into the
letter behind its digits, and a string with a code point has a letter behind its backslash that makes
no escape: both are read as errors.
-/

namespace Offside.Scan

open Number (Pointed)
open Text (Cursor Position)

variable {cursor : Cursor} {c : Char} {text whole fraction rest : List Char}

/-! ## Numbers -/

theorem atWordChar_cons (hrest : cursor.rest = c :: rest) (hc : isWordChar c = true) :
    atWordChar cursor = true := by
  have hreturn : c ≠ '\r' := by
    rintro rfl
    contradiction
  rw [atWordChar, Cursor.current?_cons hrest, if_neg hreturn]
  exact hc

theorem scanNumber_pointed (htext : Pointed text whole fraction) (h : cursor.rest = text ++ rest)
    (hrest : EndsDigits rest) :
    ∃ after, cursor.Passes after text rest ∧
      scanNumber cursor =
        if atWordChar after then invalidNumber cursor.position text after
        else (floatToken cursor.position whole fraction, after) := by
  obtain ⟨rfl, hwhole, hfraction, hdigit⟩ := htext
  obtain ⟨hdigit, hdigit'⟩ := List.forall_mem_append.1 hdigit
  have hpoint : EndsDigits ('.' :: (fraction ++ rest)) := by
    rintro c hc
    cases hc
    decide
  rw [List.append_assoc, List.cons_append] at h
  obtain ⟨middle, hrun, hpasses⟩ := digitRun_digits false h hdigit hpoint
  obtain ⟨hread, hmark⟩ := Cursor.read?_cons hpasses.rest (by decide)
  obtain ⟨after, hrun', hpasses'⟩ := digitRun_digits false hmark.rest hdigit' hrest
  have hfollows : fractionFollows middle = true := by
    obtain ⟨d, more, rfl⟩ := List.exists_cons_of_ne_nil hfraction
    have hd := hdigit' d (by simp)
    have hreturn : d ≠ '\r' := by
      rintro rfl
      contradiction
    have hat : middle.isAt '.' = true := by
      rw [Cursor.isAt, Cursor.current?, hread]
      rfl
    rw [fractionFollows, hat, Bool.true_and, startsWithDigit, Cursor.current?_cons hmark.rest,
      if_neg hreturn]
    exact (isDigitIn_of_isDigit hd).1
  refine ⟨after, ?_, ?_⟩
  · have hthrough := hpasses.trans (hmark.trans hpasses')
    simpa using hthrough
  · unfold scanNumber
    simp only [radixAt_digits h hdigit hpoint, if_true]
    unfold scanDigits
    simp [hrun, hrun', hwhole, hfraction, hfollows]

theorem scans_float {openers : List Char} {indents : List UInt64} {position : Position}
    {value : Number.Binary64} (htext : Pointed text whole fraction)
    (hvalue : Number.Binary64.ofDecimal false (digitsValue 10 (whole ++ fraction))
      (-fraction.length) = value) (hrest : Stops rest) :
    Scans (InLine (text ++ rest) openers indents) [(Literal.float value).token position]
      (InLine rest openers indents) := by
  obtain ⟨c, more, rfl⟩ := List.exists_cons_of_ne_nil htext.whole_ne
  have hdigit : c.isDigit = true := htext.digit c (by simp)
  have hcons : text = c :: (more ++ '.' :: fraction) := htext.text
  apply scans_lexeme ⟨c, _, hcons, isBlank_of_isWordChar (isWordChar_of_isDigit hdigit)⟩
  intro context hcontext hopeners first hmem
  obtain rfl : c = first := by simpa [hcons] using hmem
  obtain ⟨after, hpasses, hnumber⟩ := scanNumber_pointed htext hcontext hrest.endsDigits
  rw [hrest.atWordChar hpasses.rest, if_neg Bool.false_ne_true] at hnumber
  unfold Scanner.scanToken
  simp only [hdigit, if_true, hnumber]
  refine ⟨?_, hpasses, hopeners⟩
  rw [floatToken, hvalue]
  exact Grammar.respelled_literal.2 ⟨_, [], rfl, rfl⟩

theorem scanNumber_exponent {mantissa behind : List Char}
    (hmantissa : (∃ digit, mantissa = [digit] ∧ digit.isDigit = true) ∨
      ∃ whole fraction, Pointed mantissa whole fraction)
    (h : cursor.rest = mantissa ++ 'e' :: behind) :
    ∃ fault, (scanNumber cursor).1 = .error fault cursor.position := by
  have hends : EndsDigits ('e' :: behind) := by
    rintro c hc
    cases hc
    decide
  have hletter : isWordChar 'e' = true := by decide +kernel
  rcases hmantissa with ⟨digit, rfl, hdigit⟩ | ⟨whole, fraction, hpointed⟩
  · have hdigits : ∀ c ∈ [digit], c.isDigit = true := by simpa using hdigit
    obtain ⟨after, hrun, hpasses⟩ := digitRun_digits false h hdigits hends
    have hfollows : fractionFollows after = false := by
      have hat : after.isAt '.' = false := by
        rw [Cursor.isAt, Cursor.current?_cons hpasses.rest]
        decide
      rw [fractionFollows, hat, Bool.false_and]
    unfold scanNumber
    simp only [radixAt_digits h hdigits hends, if_true]
    unfold scanDigits
    simp only [hrun, hfollows, atWordChar_cons hpasses.rest hletter, invalidNumber,
      List.isEmpty_cons, Bool.not_false, Bool.or_true, Bool.not_true, Bool.false_eq_true, if_false,
      Bool.and_false, if_true]
    exact ⟨_, rfl⟩
  · obtain ⟨after, hpasses, hnumber⟩ := scanNumber_pointed hpointed h hends
    rw [atWordChar_cons hpasses.rest hletter, if_pos rfl] at hnumber
    rw [hnumber]
    exact ⟨_, rfl⟩

/-! ## Strings -/

theorem exists_badEscape {behind : List Char} (hbad : ∃ c ∈ text, ¬ Quotable c)
    (h : cursor.rest = text.flatMap (Text.quoteChar '"') ++ behind) :
    (readQuotation cursor).badEscape? ≠ none := by
  induction text generalizing cursor with
  | nil =>
      obtain ⟨c, hc, -⟩ := hbad
      cases hc
  | cons c text ih =>
      rw [List.flatMap_cons, List.append_assoc] at h
      by_cases hc : Quotable c
      · obtain ⟨middle, hpasses, hread⟩ := readQuotation_char hc h
        rw [hread]
        apply ih _ hpasses.rest
        obtain ⟨d, hd, hother⟩ := hbad
        rcases List.mem_cons.1 hd with rfl | hmem
        · exact absurd hc hother
        · exact ⟨d, hmem, hother⟩
      · rw [Quotable, ne_eq, not_not] at hc
        rw [hc] at h
        obtain ⟨hread, hpasses⟩ := Cursor.read?_cons h (by decide)
        obtain ⟨hread', -⟩ := Cursor.read?_cons hpasses.rest (by decide)
        have hescape : escapedChar? 'u' = none := by decide
        unfold readQuotation
        grind

theorem scanQuotation_codePoint {content : String} (hbad : ∃ c ∈ content.toList, ¬ Quotable c)
    (h : cursor.rest = (Text.quoted content).toList ++ rest) :
    ∃ fault position, (scanQuotation cursor).1 = .error fault position := by
  have hquoted : cursor.rest =
      '"' :: (content.toList.flatMap (Text.quoteChar '"') ++ ('"' :: rest)) := by
    rw [h]
    simp [Text.quoted, Text.quotedWith]
  have hescape := exists_badEscape hbad (Cursor.read?_cons hquoted (by decide)).2.rest
  unfold scanQuotation Quotation.token
  simp only
  split
  · exact ⟨_, _, rfl⟩
  · exact ⟨_, _, rfl⟩
  · split
    · exact ⟨_, _, rfl⟩
    · rename_i hnone
      exact absurd hnone hescape

end Offside.Scan
