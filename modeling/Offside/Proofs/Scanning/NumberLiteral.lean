import Mathlib.Data.List.Forall2
import Mathlib.Data.Nat.Digits.Defs
import Offside.Proofs.Scanning.NextToken

/-!
# Number literals

Which texts are numbers, and what they stand for: digits of an announced base or of base ten, or
decimal digits around a point, with single separators between digits.  The scanner reads just these,
up to a character that belongs to no word.  Any other text that starts with a digit is one error up
to such a character.
-/

namespace Offside.Scan

open Text (Cursor Position)

/-! ## Written numbers -/

def DigitOf (radix : Nat) (c : Char) (value : Nat) : Prop :=
  value < radix ∧ (c = Nat.digitChar value ∨ c = (Nat.digitChar value).toUpper)

/-- A text of digits of these values, most significant first, with single separators between some of
them. -/
inductive Separated (radix : Nat) : (text : List Char) → (values : List Nat) → Prop where
  | single {c : Char} {value : Nat} (hdigit : DigitOf radix c value) : Separated radix [c] [value]
  | adjoin {c : Char} {value : Nat} {text : List Char} {values : List Nat}
      (hdigit : DigitOf radix c value) (hmore : Separated radix text values) :
      Separated radix (c :: text) (value :: values)
  | separate {c : Char} {value : Nat} {text : List Char} {values : List Nat}
      (hdigit : DigitOf radix c value) (hmore : Separated radix text values) :
      Separated radix (c :: '_' :: text) (value :: values)

/-- The texts that announce a base; base ten is not announced. -/
def announcements : List (Nat × List Char) :=
  [(2, ['0', 'b']), (2, ['0', 'B']), (8, ['0', 'o']), (8, ['0', 'O']), (10, []),
    (16, ['0', 'x']), (16, ['0', 'X'])]

/-- The text goes on with a point and a decimal digit. -/
def PointAhead (rest : List Char) : Prop :=
  ∃ c more, rest = '.' :: c :: more ∧ c.isDigit = true

/-- The text is a number in front of `rest`, and stands for the token. -/
inductive NumberText (position : Position) (rest : List Char) : (text : List Char) → Token → Prop where
  | integer {radix : Nat} {announced digits : List Char} {values : List Nat}
      (hradix : (radix, announced) ∈ announcements) (hdigits : Separated radix digits values)
      (hpoint : radix = 10 → ¬ PointAhead rest) (hends : Ends rest)
      (hfits : Nat.ofDigits radix values.reverse < 2 ^ 63) :
      NumberText position rest (announced ++ digits)
        (.integer (Nat.ofDigits radix values.reverse : Nat) position)
  | overflow {radix : Nat} {announced digits : List Char} {values : List Nat}
      (hradix : (radix, announced) ∈ announcements) (hdigits : Separated radix digits values)
      (hpoint : radix = 10 → ¬ PointAhead rest) (hends : Ends rest)
      (hexceeds : 2 ^ 63 ≤ Nat.ofDigits radix values.reverse) :
      NumberText position rest (announced ++ digits)
        (.error (.integerOverflow (String.ofList (announced ++ digits))) position)
  | float {whole fraction : List Char} {wholeValues fractionValues : List Nat}
      (hwhole : Separated 10 whole wholeValues) (hfraction : Separated 10 fraction fractionValues)
      (hends : Ends rest) :
      NumberText position rest (whole ++ '.' :: fraction)
        (.float (.ofDecimal false (Nat.ofDigits 10 (wholeValues ++ fractionValues).reverse)
          (-fractionValues.length)) position)

variable {cursor start next : Cursor} {position : Position} {radix value : Nat} {c : Char}
  {text rest announced digits more : List Char} {values : List Nat} {token : Token}

/-! ## Digits -/

theorem digitOf_iff (hradix : radix ≤ 16) :
    DigitOf radix c value ↔ digitValue? c = some value ∧ value < radix := by
  have hwritten : ∀ value < 16, digitValue? (Nat.digitChar value) = some value ∧
      digitValue? (Nat.digitChar value).toUpper = some value := by decide
  have hread : ∀ code < 128, ∀ value ∈ digitValue? (Char.ofNat code), value < 16 →
      Char.ofNat code = Nat.digitChar value ∨ Char.ofNat code = (Nat.digitChar value).toUpper := by
    decide +kernel
  constructor
  · rintro ⟨hvalue, rfl | rfl⟩
    · exact ⟨(hwritten value (by omega)).1, hvalue⟩
    · exact ⟨(hwritten value (by omega)).2, hvalue⟩
  · rintro ⟨hdigit, hvalue⟩
    have hchar := hread c.toNat (toNat_lt_of_digitValue? hdigit) value
    rw [Char.ofNat_toNat] at hchar
    exact ⟨hvalue, hchar hdigit (by omega)⟩

theorem isDigitIn_iff (hradix : radix ≤ 16) :
    isDigitIn radix c = true ↔ ∃ value, DigitOf radix c value := by
  simp only [digitOf_iff hradix]
  unfold isDigitIn
  cases digitValue? c <;> simp

theorem DigitOf.isWordChar (hradix : radix ≤ 16) (h : DigitOf radix c value) :
    Offside.isWordChar c = true :=
  isWordChar_of_isDigitIn ((isDigitIn_iff hradix).2 ⟨value, h⟩)

theorem Separated.isWordChar (hradix : radix ≤ 16) (h : Separated radix text values) :
    ∀ c ∈ text, Offside.isWordChar c = true := by
  induction h with
  | single hdigit => simpa using hdigit.isWordChar hradix
  | adjoin hdigit _ ih => simpa using ⟨hdigit.isWordChar hradix, ih⟩
  | separate hdigit _ ih => simpa using ⟨hdigit.isWordChar hradix, isWordChar_separator, ih⟩

theorem Separated.first (h : Separated radix text values) :
    ∃ c more value, text = c :: more ∧ DigitOf radix c value := by
  cases h with
  | single hdigit | adjoin hdigit | separate hdigit => exact ⟨_, _, _, rfl, hdigit⟩

theorem radix_le_of_announced (h : (radix, announced) ∈ announcements) : radix ≤ 16 := by
  have hall : ∀ announcement ∈ announcements, announcement.1 ≤ 16 := by decide
  exact hall _ h

/-! ## What ends a number -/

theorem isReserved_of_ends (h : Ends cursor.rest) :
    ∀ c ∈ cursor.current?, isReserved c = true := by
  intro c hc
  cases hrest : cursor.rest with
  | nil => simp [(Cursor.current?_eq_none_iff cursor).2 hrest] at hc
  | cons d more =>
      have hreserved := h d (by simp [hrest])
      rw [Cursor.current?_cons hrest] at hc
      obtain rfl := Option.some.inj hc
      split
      · decide
      · exact hreserved

theorem fractionFollows_iff (cursor : Cursor) :
    fractionFollows cursor = true ↔ PointAhead cursor.rest := by
  unfold fractionFollows PointAhead startsWithDigit Cursor.isAt
  constructor
  · intro h
    obtain ⟨hat, hdigit⟩ := Bool.and_eq_true_iff.1 h
    obtain ⟨point, behind, hrest⟩ :=
      List.exists_cons_of_ne_nil (Cursor.rest_ne_nil_of_current? (beq_iff_eq.1 hat))
    have hpoint : point = '.' := by
      rw [Cursor.current?_cons hrest] at hat
      grind
    subst hpoint
    have hadvance := (Cursor.read?_cons hrest (by decide)).2.rest
    cases behind with
    | nil => simp [(Cursor.current?_eq_none_iff _).2 hadvance] at hdigit
    | cons c more =>
        rw [Cursor.current?_cons hadvance] at hdigit
        refine ⟨c, more, hrest, isDigit_of_isDigitIn ?_⟩
        by_cases hreturn : c = '\r'
        · simp [hreturn, isDigitIn_lineFeed] at hdigit
        · simpa [hreturn] using hdigit
  · rintro ⟨c, more, hrest, hdigit⟩
    have hreturn : c ≠ '\r' := by
      rintro rfl
      contradiction
    have hadvance := (Cursor.read?_cons hrest (by decide)).2.rest
    rw [Cursor.current?_cons hrest, Cursor.current?_cons hadvance]
    simpa [hreturn] using (isDigitIn_of_isDigit hdigit).1

/-! ## Runs of digits -/

theorem digitRun_separated (hradix : radix ≤ 16) (htext : Separated radix text values)
    (hrest : cursor.rest = text ++ rest) (hends : Ends rest) (started : Bool) :
    ∃ digits after, digitRun radix started cursor = ⟨digits, text, true, after⟩ ∧
      List.Forall₂ (DigitOf radix) digits values ∧ cursor.Passes after text rest := by
  induction htext generalizing cursor started with
  | @single c value hdigit =>
      obtain ⟨hread, hpasses⟩ :=
        Cursor.read?_cons hrest (Cursor.isSolid_of_isWordChar (hdigit.isWordChar hradix))
      have hin := (isDigitIn_iff hradix).2 ⟨value, hdigit⟩
      have hends' : Ends cursor.advance.rest := by rwa [hpasses.rest]
      refine ⟨[c], cursor.advance, ?_, .cons hdigit .nil, hpasses⟩
      rw [digitRun_of_read? hread, if_pos hin, digitRun_of_reserved (isReserved_of_ends hends')]
  | @adjoin c value text values hdigit hmore ih =>
      obtain ⟨hread, hpasses⟩ :=
        Cursor.read?_cons hrest (Cursor.isSolid_of_isWordChar (hdigit.isWordChar hradix))
      have hin := (isDigitIn_iff hradix).2 ⟨value, hdigit⟩
      obtain ⟨digits, after, hrun, hdigits, hafter⟩ := ih hpasses.rest true
      refine ⟨c :: digits, after, ?_, .cons hdigit hdigits, hpasses.trans hafter⟩
      rw [digitRun_of_read? hread, if_pos hin, hrun]
  | @separate c value text values hdigit hmore ih =>
      obtain ⟨hread, hpasses⟩ :=
        Cursor.read?_cons hrest (Cursor.isSolid_of_isWordChar (hdigit.isWordChar hradix))
      have hin := (isDigitIn_iff hradix).2 ⟨value, hdigit⟩
      obtain ⟨hread', hpasses'⟩ :=
        Cursor.read?_cons hpasses.rest (Cursor.isSolid_of_isWordChar isWordChar_separator)
      obtain ⟨digits, after, hrun, hdigits, hafter⟩ := ih hpasses'.rest true
      have hfirst : startsWithDigit radix cursor.advance.advance = true := by
        obtain ⟨d, behind, value, rfl, hd⟩ := hmore.first
        have hsolid := Cursor.isSolid_of_isWordChar (hd.isWordChar hradix)
        rw [startsWithDigit, Cursor.current?, (Cursor.read?_cons hpasses'.rest hsolid).1]
        exact (isDigitIn_iff hradix).2 ⟨value, hd⟩
      have hseparator : isDigitIn radix '_' = false := rfl
      refine ⟨c :: digits, after, ?_, .cons hdigit hdigits, hpasses.trans (hpasses'.trans hafter)⟩
      rw [digitRun_of_read? hread, if_pos hin, digitRun_of_read? hread', hseparator]
      simp [hfirst, hrun]

/-- A run without a fault has digits and single separators between them: behind a digit it may be
empty or start with a separator. -/
theorem separated_of_digitRun (hradix : radix ≤ 16) {started : Bool}
    (h : (digitRun radix started cursor).wellFormed = true) :
    ∃ values, List.Forall₂ (DigitOf radix) (digitRun radix started cursor).digits values ∧
      (started = false ∨ startsWithDigit radix cursor = true →
        Separated radix (digitRun radix started cursor).text values) ∧
      (started = true → ∀ c value, DigitOf radix c value →
        Separated radix (c :: (digitRun radix started cursor).text) (value :: values)) := by
  fun_induction digitRun radix started cursor with
  | case1 started cursor hread =>
      obtain rfl : started = true := h
      refine ⟨[], .nil, ?_, fun _ c value hc => .single hc⟩
      simp [startsWithDigit, Cursor.current?, hread]
  | case2 started cursor c next hread hdigit tail ih =>
      obtain ⟨values, hdigits, -, hbehind⟩ := ih h
      obtain ⟨value, hvalue⟩ := (isDigitIn_iff hradix).1 hdigit
      have htext := hbehind rfl c value hvalue
      exact ⟨value :: values, .cons hvalue hdigits, fun _ => htext, fun _ _ _ hd => .adjoin hd htext⟩
  | case3 started cursor next hnext tail hread hdigit ih =>
      obtain ⟨hstarted, hfirst⟩ := Bool.and_eq_true_iff.1 hnext
      obtain ⟨values, hdigits, htext, -⟩ := ih h
      have htext := htext (.inr hfirst)
      refine ⟨values, hdigits, ?_, fun _ _ _ hd => .separate hd htext⟩
      simp [hstarted, startsWithDigit, Cursor.current?, hread, hdigit]
  | case4 started cursor next => contradiction
  | case5 started cursor c next hread hdigit hseparator =>
      obtain rfl : started = true := h
      refine ⟨[], .nil, ?_, fun _ c value hc => .single hc⟩
      simp [startsWithDigit, Cursor.current?, hread, hdigit]

theorem digitsValue_eq (hradix : radix ≤ 16) (h : List.Forall₂ (DigitOf radix) digits values) :
    digitsValue radix digits = Nat.ofDigits radix values.reverse := by
  have hfold : ∀ start : Nat, digits.foldl (fun value c => value * radix + (digitValue? c).getD 0) start =
      values.foldl (fun value digit => value * radix + digit) start := by
    induction h with
    | nil => exact fun _ => rfl
    | cons hdigit _ ih =>
        intro start
        rw [List.foldl_cons, List.foldl_cons, ((digitOf_iff hradix).1 hdigit).1, ih]
        rfl
  rw [digitsValue, hfold, Nat.ofDigits_eq_foldr, List.foldr_reverse]
  simp only [Nat.cast_id, Nat.add_comm, Nat.mul_comm]

theorem isWordChar_of_mem_digitRun {started : Bool} :
    ∀ c ∈ (digitRun radix started cursor).text, isWordChar c = true := by
  fun_induction digitRun radix started cursor with
  | case1 | case4 | case5 => simp
  | case2 started cursor c next hread hdigit tail ih =>
      simpa using ⟨isWordChar_of_isDigitIn hdigit, ih⟩
  | case3 started cursor next hnext tail hread hdigit ih =>
      simpa using ⟨isWordChar_separator, ih⟩

/-! ## The announced base -/

theorem exists_announced (cursor : Cursor) :
    ∃ announced behind, (radixAt cursor, announced) ∈ announcements ∧
      cursor.Covers behind announced ∧
      scanNumber cursor = scanDigits cursor.position (radixAt cursor) announced behind := by
  unfold scanNumber
  by_cases hten : radixAt cursor = 10
  · simp only [hten, if_true]
    exact ⟨[], cursor, by decide, .refl cursor, rfl⟩
  · simp only [hten, if_false]
    refine ⟨_, _, ?_, covers_announced hten, rfl⟩
    obtain ⟨hzero, mark, hletter, hmark⟩ := marks_of_radixAt hten
    unfold radixAt
    rw [if_pos hzero, hzero, hmark]
    simp only [List.mem_cons, List.not_mem_nil, or_false] at hletter
    rcases hletter with rfl | rfl | rfl | rfl | rfl | rfl <;> decide

/-- Behind its first digit a decimal number goes on with a digit, a separator or its end. -/
theorem peek?_of_separated (hdigits : Separated 10 digits values)
    (hrest : cursor.rest = digits ++ rest) (hends : Ends rest) :
    ∀ mark ∈ cursor.peek?, isDigitIn 10 mark = true ∨ mark = '_' ∨ isReserved mark = true := by
  intro mark hmark
  have hsolid : ∀ c value, DigitOf 10 c value → Cursor.isSolid c = true :=
    fun _ _ hdigit => Cursor.isSolid_of_isWordChar (hdigit.isWordChar (by decide))
  cases hdigits with
  | @single c value hdigit =>
      have hadvance : cursor.advance.rest = rest :=
        (Cursor.read?_cons hrest (hsolid c value hdigit)).2.rest
      rw [← hadvance] at hends
      exact .inr (.inr (isReserved_of_ends hends mark hmark))
  | @adjoin c value text values hdigit hmore =>
      have hadvance := (Cursor.read?_cons hrest (hsolid c value hdigit)).2.rest
      obtain ⟨d, behind, value, rfl, hd⟩ := hmore.first
      have hread := (Cursor.read?_cons hadvance (hsolid d value hd)).1
      obtain rfl : d = mark := by simpa [Cursor.peek?, Cursor.current?, hread] using hmark
      exact .inl ((isDigitIn_iff (by decide)).2 ⟨value, hd⟩)
  | @separate c value text values hdigit hmore =>
      have hadvance := (Cursor.read?_cons hrest (hsolid c value hdigit)).2.rest
      have hread := (Cursor.read?_cons hadvance (by decide)).1
      obtain rfl : '_' = mark := by simpa [Cursor.peek?, Cursor.current?, hread] using hmark
      exact .inr (.inl rfl)

theorem radixAt_announced (hradix : (radix, announced) ∈ announcements)
    (hdigits : Separated radix digits values) (hends : Ends rest)
    (hrest : cursor.rest = announced ++ (digits ++ rest)) : radixAt cursor = radix := by
  by_cases hten : radix = 10
  · subst hten
    obtain rfl : announced = [] := by simpa [announcements] using hradix
    have hnone : ['x', 'X', 'b', 'B', 'o', 'O'].all fun mark =>
        !(isDigitIn 10 mark || mark == '_' || isReserved mark) := by decide +kernel
    refine Decidable.byContradiction fun hradix => ?_
    obtain ⟨-, mark, hletter, hpeek⟩ := marks_of_radixAt hradix
    have hother := List.all_eq_true.1 hnone mark hletter
    have hnext := peek?_of_separated hdigits hrest hends mark hpeek
    grind
  · obtain ⟨source, position⟩ := cursor
    obtain rfl : source = announced ++ (digits ++ rest) := hrest
    simp only [announcements, List.mem_cons, List.not_mem_nil, or_false, Prod.mk.injEq] at hradix
    rcases hradix with ⟨rfl, rfl⟩ | ⟨rfl, rfl⟩ | ⟨rfl, rfl⟩ | ⟨rfl, rfl⟩ | ⟨rfl, rfl⟩ | ⟨rfl, rfl⟩ |
      ⟨rfl, rfl⟩
    case inr.inr.inr.inr.inl => exact absurd rfl hten
    all_goals rfl

theorem scanNumber_announced (hradix : (radix, announced) ∈ announcements)
    (hdigits : Separated radix digits values) (hends : Ends rest)
    (hrest : cursor.rest = announced ++ (digits ++ rest)) :
    ∃ behind, cursor.Covers behind announced ∧ behind.rest = digits ++ rest ∧
      scanNumber cursor = scanDigits cursor.position radix announced behind := by
  obtain ⟨announced', behind, hradix', hcovers, hscan⟩ := exists_announced cursor
  rw [radixAt_announced hradix hdigits hends hrest] at hradix' hscan
  have hlength : ∀ announcement ∈ announcements,
      announcement.2.length = if announcement.1 = 10 then 0 else 2 := by decide
  obtain ⟨rfl, hbehind⟩ := List.append_inj (hrest.symm.trans hcovers.rest)
    ((hlength _ hradix).trans (hlength _ hradix').symm)
  exact ⟨behind, hcovers, hbehind.symm, hscan⟩

/-! ## Numbers are read -/

theorem integerToken_eq (hradix : radix ≤ 16) (hdigits : List.Forall₂ (DigitOf radix) digits values) :
    integerToken position radix text digits =
      if Nat.ofDigits radix values.reverse < 2 ^ 63 then
        .integer (Nat.ofDigits radix values.reverse : Nat) position
      else .error (.integerOverflow (String.ofList text)) position := by
  rw [integerToken, digitsValue_eq hradix hdigits]
  rfl

theorem scanDigits_separated (hradix : radix ≤ 16) (hdigits : Separated radix digits values)
    (hpoint : radix = 10 → ¬ PointAhead rest) (hends : Ends rest)
    (hrest : cursor.rest = digits ++ rest) :
    ∃ after, scanDigits position radix announced cursor =
        (if Nat.ofDigits radix values.reverse < 2 ^ 63 then
          .integer (Nat.ofDigits radix values.reverse : Nat) position
        else .error (.integerOverflow (String.ofList (announced ++ digits))) position, after) ∧
      cursor.Passes after digits rest := by
  obtain ⟨run, after, hrun, hvalues, hpasses⟩ :=
    digitRun_separated hradix hdigits hrest hends false
  have hfollows : (decide (radix = 10) && fractionFollows after) = false := by
    rw [Bool.eq_false_iff, ne_eq, Bool.and_eq_true, decide_eq_true_eq, fractionFollows_iff,
      hpasses.rest]
    exact fun h => hpoint h.1 h.2
  have hword : atWordChar after = false := by
    apply atWordChar_of_reserved
    apply isReserved_of_ends
    rwa [hpasses.rest]
  refine ⟨after, ?_, hpasses⟩
  unfold scanDigits
  simp only [hrun, Bool.not_true, Bool.false_eq_true, if_false, hfollows, hword,
    integerToken_eq hradix hvalues]

theorem scanDigits_float {whole fraction : List Char} {wholeValues fractionValues : List Nat}
    (hwhole : Separated 10 whole wholeValues) (hfraction : Separated 10 fraction fractionValues)
    (hends : Ends rest) (hrest : cursor.rest = whole ++ '.' :: (fraction ++ rest)) :
    ∃ after, scanDigits position 10 [] cursor =
        (.float (.ofDecimal false (Nat.ofDigits 10 (wholeValues ++ fractionValues).reverse)
          (-fractionValues.length)) position, after) ∧
      cursor.Passes after (whole ++ '.' :: fraction) rest := by
  have hpoint : Ends ('.' :: (fraction ++ rest)) := by
    rintro c hc
    cases hc
    decide
  obtain ⟨run, middle, hrun, hvalues, hpasses⟩ :=
    digitRun_separated (by decide) hwhole hrest hpoint false
  have hmark := (Cursor.read?_cons hpasses.rest (by decide)).2
  obtain ⟨run', after, hrun', hvalues', hpasses'⟩ :=
    digitRun_separated (by decide) hfraction hmark.rest hends false
  have hfollows : fractionFollows middle = true := by
    obtain ⟨c, more, value, rfl, hdigit⟩ := hfraction.first
    rw [fractionFollows_iff, hpasses.rest]
    exact ⟨c, more ++ rest, rfl, isDigit_of_isDigitIn ((isDigitIn_iff (by decide)).2 ⟨value, hdigit⟩)⟩
  have hword : atWordChar after = false := by
    apply atWordChar_of_reserved
    apply isReserved_of_ends
    rwa [hpasses'.rest]
  have hten : 10 ≤ 16 := by decide
  have hvalue := digitsValue_eq hten (List.rel_append hvalues hvalues')
  refine ⟨after, ?_, hpasses.trans (hmark.trans hpasses')⟩
  unfold scanDigits
  simp only [hrun, hrun', Bool.not_true, Bool.false_eq_true, if_false, hfollows, hword,
    decide_true, Bool.and_self, if_true, Bool.or_self, floatToken, hvalue, hvalues'.length_eq]

theorem isSolid_of_announced (h : (radix, announced) ∈ announcements) :
    ∀ c ∈ announced, Cursor.isSolid c = true := by
  have hall : ∀ announcement ∈ announcements, announcement.2.all Cursor.isSolid = true := by decide
  exact List.all_eq_true.1 (hall _ h)

theorem Separated.isSolid (hradix : radix ≤ 16) (h : Separated radix text values) :
    ∀ c ∈ text, Cursor.isSolid c = true :=
  fun c hc => Cursor.isSolid_of_isWordChar (h.isWordChar hradix c hc)

theorem NumberText.isSolid (h : NumberText position rest text token) :
    ∀ c ∈ text, Cursor.isSolid c = true := by
  cases h with
  | integer hradix hdigits | overflow hradix hdigits =>
      exact List.forall_mem_append.2
        ⟨isSolid_of_announced hradix, hdigits.isSolid (radix_le_of_announced hradix)⟩
  | float hwhole hfraction =>
      refine List.forall_mem_append.2 ⟨hwhole.isSolid (by decide), List.forall_mem_cons.2 ?_⟩
      exact ⟨by decide, hfraction.isSolid (by decide)⟩

theorem NumberText.scanNumber (h : NumberText cursor.position rest text token)
    (hrest : cursor.rest = text ++ rest) :
    ∃ after, Scan.scanNumber cursor = (token, after) ∧ cursor.Covers after text ∧
      after.rest = rest := by
  cases h with
  | integer hradix hdigits hpoint hends hfits =>
      rw [List.append_assoc] at hrest
      obtain ⟨behind, hcovers, hbehind, hscan⟩ := scanNumber_announced hradix hdigits hends hrest
      obtain ⟨after, hdigits, hpasses⟩ :=
        scanDigits_separated (radix_le_of_announced hradix) hdigits hpoint hends hbehind
      rw [if_pos hfits] at hdigits
      exact ⟨after, hscan.trans hdigits, hcovers.trans hpasses.covers, hpasses.rest⟩
  | overflow hradix hdigits hpoint hends hexceeds =>
      rw [List.append_assoc] at hrest
      obtain ⟨behind, hcovers, hbehind, hscan⟩ := scanNumber_announced hradix hdigits hends hrest
      obtain ⟨after, hdigits, hpasses⟩ :=
        scanDigits_separated (radix_le_of_announced hradix) hdigits hpoint hends hbehind
      rw [if_neg (Nat.not_lt.2 hexceeds)] at hdigits
      exact ⟨after, hscan.trans hdigits, hcovers.trans hpasses.covers, hpasses.rest⟩
  | @float whole fraction _ _ hwhole hfraction hends =>
      rw [List.append_assoc, List.cons_append] at hrest
      have hpoint : Ends ('.' :: (fraction ++ rest)) := by
        rintro c hc
        cases hc
        decide
      have hten : (10, []) ∈ announcements := by decide
      obtain ⟨behind, hcovers, hbehind, hscan⟩ := scanNumber_announced hten hwhole hpoint hrest
      obtain ⟨after, hdigits, hpasses⟩ := scanDigits_float hwhole hfraction hends hbehind
      exact ⟨after, hscan.trans hdigits, hcovers.trans hpasses.covers, hpasses.rest⟩

/-! ## What is read is a number -/

structure ReadsNumber (start : Cursor) (read : Token × Cursor) (text : List Char) : Prop where
  covers : start.Covers read.2 text
  solid : ∀ c ∈ text, Cursor.isSolid c = true
  ends : Ends read.2.rest
  token : NumberText start.position read.2.rest text read.1 ∨
    read.1 = .error (.invalidNumber (String.ofList text)) start.position

theorem exists_readsNumber_invalid (hcovers : start.Covers cursor text)
    (hsolid : ∀ c ∈ text, Cursor.isSolid c = true) :
    ∃ text', ReadsNumber start (invalidNumber start.position text cursor) text' :=
  ⟨_, hcovers.trans (Cursor.covers_span isWordChar_lineFeed cursor),
    List.forall_mem_append.2
      ⟨hsolid, fun _ hc => Cursor.isSolid_of_isWordChar (Cursor.of_mem_span hc)⟩,
    ends_of_span cursor, .inr rfl⟩

theorem exists_readsNumber_scanDigits (hradix : (radix, announced) ∈ announcements)
    (hcovers : start.Covers cursor announced) :
    ∃ text, ReadsNumber start (scanDigits start.position radix announced cursor) text := by
  have hle := radix_le_of_announced hradix
  have hwhole := hcovers.trans (digitRun_covers radix false cursor)
  have hsolid : ∀ c ∈ announced ++ (digitRun radix false cursor).text, Cursor.isSolid c = true :=
    List.forall_mem_append.2 ⟨isSolid_of_announced hradix,
      fun c hc => Cursor.isSolid_of_isWordChar (isWordChar_of_mem_digitRun c hc)⟩
  unfold scanDigits
  simp only
  split
  · exact exists_readsNumber_invalid hwhole hsolid
  · rename_i hwellFormed
    obtain ⟨values, hvalues, hdigits, -⟩ := separated_of_digitRun hle (by simpa using hwellFormed)
    have hdigits := hdigits (.inl rfl)
    split
    · rename_i hpoint
      obtain ⟨hten, hfollows⟩ := Bool.and_eq_true_iff.1 hpoint
      obtain rfl : radix = 10 := by simpa using hten
      obtain rfl : announced = [] := by simpa [announcements] using hradix
      have hat : (digitRun 10 false cursor).cursor.isAt '.' = true :=
        (Bool.and_eq_true_iff.1 hfollows).1
      have hfraction := (hwhole.trans (Cursor.covers_of_isAt hat (by decide))).trans
        (digitRun_covers 10 false _)
      rw [List.append_assoc, List.singleton_append] at hfraction
      have hsolid' : ∀ c ∈ ([] ++ (digitRun 10 false cursor).text) ++
          '.' :: (digitRun 10 false (digitRun 10 false cursor).cursor.advance).text,
          Cursor.isSolid c = true :=
        List.forall_mem_append.2 ⟨hsolid, List.forall_mem_cons.2 ⟨by decide,
          fun c hc => Cursor.isSolid_of_isWordChar (isWordChar_of_mem_digitRun c hc)⟩⟩
      split
      · exact exists_readsNumber_invalid hfraction hsolid'
      · rename_i hfits
        rw [Bool.or_eq_true, not_or, Bool.not_eq_true', Bool.not_eq_false, Bool.not_eq_true] at hfits
        obtain ⟨values', hvalues', hdigits', -⟩ := separated_of_digitRun hle hfits.1
        have hends := ends_of_not_atWordChar hfits.2
        have hvalue := digitsValue_eq hle (List.rel_append hvalues hvalues')
        refine ⟨_, hfraction, hsolid', hends, .inl ?_⟩
        rw [floatToken, hvalue, hvalues'.length_eq]
        exact .float hdigits (hdigits' (.inl rfl)) hends
    · rename_i hpoint
      split
      · exact exists_readsNumber_invalid hwhole hsolid
      · rename_i hword
        have hends := ends_of_not_atWordChar (by simpa using hword)
        have hpoint : radix = 10 → ¬ PointAhead (digitRun radix false cursor).cursor.rest := by
          rw [← fractionFollows_iff]
          simpa using hpoint
        refine ⟨_, hwhole, hsolid, hends, .inl ?_⟩
        rw [integerToken_eq hle hvalues]
        split
        · rename_i hfits
          exact .integer hradix hdigits hpoint hends hfits
        · rename_i hexceeds
          exact .overflow hradix hdigits hpoint hends (Nat.le_of_not_lt hexceeds)

theorem exists_readsNumber (cursor : Cursor) : ∃ text, ReadsNumber cursor (scanNumber cursor) text := by
  obtain ⟨announced, behind, hradix, hcovers, hscan⟩ := exists_announced cursor
  rw [hscan]
  exact exists_readsNumber_scanDigits hradix hcovers

/-! ## Number tokens -/

variable {scanner : Scanner} {source : List Char}

theorem scanToken_number (context : Context) (hdigit : c.isDigit = true) (next : Cursor) :
    Scanner.scanToken context c next =
      ((scanNumber context.cursor).1, { context with cursor := (scanNumber context.cursor).2 }) := by
  unfold Scanner.scanToken
  rw [if_pos hdigit]

theorem NumberText.first (h : NumberText position rest text token) :
    ∃ c more, text = c :: more ∧ c.isDigit = true := by
  have hdigit : ∀ {text values}, Separated 10 text values →
      ∃ c more, text = c :: more ∧ c.isDigit = true := by
    intro text values h
    obtain ⟨c, more, value, htext, hdigit⟩ := h.first
    exact ⟨c, more, htext, isDigit_of_isDigitIn ((isDigitIn_iff (by decide)).2 ⟨value, hdigit⟩)⟩
  have hannounced : ∀ {radix announced digits values}, (radix, announced) ∈ announcements →
      Separated radix digits values → ∃ c more, announced ++ digits = c :: more ∧ c.isDigit = true := by
    intro radix announced digits values hradix hdigits
    have hzero : ∀ announcement ∈ announcements,
        announcement = (10, []) ∨ announcement.2.head? = some '0' := by decide
    rcases hzero _ hradix with heq | hhead
    · cases heq
      exact hdigit hdigits
    · obtain ⟨more, rfl⟩ := List.head?_eq_some_iff.1 hhead
      exact ⟨'0', more ++ digits, rfl, rfl⟩
  cases h with
  | integer hradix hdigits | overflow hradix hdigits => exact hannounced hradix hdigits
  | float hwhole =>
      obtain ⟨c, more, rfl, hc⟩ := hdigit hwhole
      exact ⟨c, _, rfl, hc⟩

/-- A scanner in front of a number gives the token it stands for and comes to its end, in all bases,
with digits in either case, with leading zeros and with single separators, as an integer below two to
the sixty-third, as an overflow from there on, or as a float.  In front of any other text that starts
with a digit it gives one error, which names all characters up to one that belongs to no word. -/
theorem numbers_read (h : Facing source scanner) :
    (∀ text rest token, source = text ++ rest →
      NumberText scanner.position rest text token →
        scanner.next = (.ok token, scanner.past text rest)) ∧
    ∀ c more, source = c :: more → c.isDigit = true →
      (∀ text rest token, source = text ++ rest → ¬ NumberText scanner.position rest text token) →
        ∃ text rest, source = text ++ rest ∧ Ends rest ∧
          scanner.next = (.ok (.error (.invalidNumber (String.ofList text)) scanner.position),
            scanner.past text rest) := by
  constructor
  · rintro text rest token rfl htext
    obtain ⟨c, more, hfirst, hdigit⟩ := htext.first
    obtain ⟨after, hscan, hcovers, rfl⟩ := htext.scanNumber h.rest
    have hblank := isBlank_of_isWordChar (isWordChar_of_isDigit hdigit)
    have htoken := scanToken_number scanner.context hdigit scanner.context.cursor.advance
    rw [hscan] at htoken
    exact h.next_past (by rw [hfirst]; rfl) hblank htoken hcovers htext.isSolid
  · intro c more hfirst hdigit hnone
    obtain ⟨text, hcovers, hsolid, hends, hread⟩ := exists_readsNumber scanner.context.cursor
    have hsource := h.rest.symm.trans hcovers.rest
    have hblank := isBlank_of_isWordChar (isWordChar_of_isDigit hdigit)
    have hinvalid := hread.resolve_left (hnone text _ _ hsource)
    have htoken := scanToken_number scanner.context hdigit scanner.context.cursor.advance
    rw [hinvalid] at htoken
    exact ⟨text, _, hsource, hends, h.next_past hfirst hblank htoken hcovers hsolid⟩

theorem numbers_read_separators :
    (Scanner.opened "0xF_f" 4).next =
        (.ok (.integer 255 .start), (Scanner.opened "0xF_f" 4).past "0xF_f".toList []) ∧
      ∃ text rest, "1__0 x".toList = text ++ rest ∧ Ends rest ∧
        (Scanner.opened "1__0 x" 4).next =
          (.ok (.error (.invalidNumber (String.ofList text)) .start),
            (Scanner.opened "1__0 x" 4).past text rest) := by
  have hupper : DigitOf 16 'F' 15 := ⟨by decide, .inr (by decide)⟩
  have hlower : DigitOf 16 'f' 15 := ⟨by decide, .inl (by decide)⟩
  have hnumber : NumberText .start [] "0xF_f".toList (.integer 255 .start) :=
    @NumberText.integer .start [] 16 ['0', 'x'] _ [15, 15] (by decide)
      (.separate hupper (.single hlower)) (by simp) (by simp [Ends]) (by decide)
  have hinvalid : (scanNumber (.ofText "1__0 x")).1 = .error (.invalidNumber "1__0") .start := by
    decide +kernel
  refine ⟨(numbers_read (facing_opened "0xF_f" 4)).1 _ _ _ (by simp) hnumber,
    (numbers_read (facing_opened "1__0 x" 4)).2 '1' ['_', '_', '0', ' ', 'x'] (by decide) (by decide) ?_⟩
  intro text rest token hsource htext
  obtain ⟨after, hscan, -⟩ := @NumberText.scanNumber (.ofText "1__0 x") _ _ _ htext hsource
  rw [hscan] at hinvalid
  cases htext <;> cases hinvalid

end Offside.Scan
