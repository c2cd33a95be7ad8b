import Offside.Proofs.Scanning.LineBreak

/-!
# Lexemes are read back

What words, integers, strings and operators are read from when they stand in front of a character
that ends them.
-/

namespace Offside

namespace Text.Cursor

variable {cursor after : Cursor} {c : Char} {text rest more : List Char} {p : Char → Bool}

theorem current?_cons (h : cursor.rest = c :: more) :
    cursor.current? = some (if c = '\r' then '\n' else c) := by
  unfold current? read?
  rw [h]
  grind

theorem advance_of_read? {next : Cursor} (h : cursor.read? = some (c, next)) :
    cursor.advance = next := by
  unfold advance
  rw [h]

theorem advance_of_none (h : cursor.read? = none) : cursor.advance = cursor := by
  unfold advance
  rw [h]

inductive Reaches : Cursor → Cursor → Prop where
  | refl (cursor : Cursor) : Reaches cursor cursor
  | read {cursor next after : Cursor} {c : Char} (h : cursor.read? = some (c, next))
      (more : Reaches next after) : Reaches cursor after

theorem Reaches.trans {middle : Cursor} (h : cursor.Reaches middle) (h' : middle.Reaches after) :
    cursor.Reaches after := by
  induction h with
  | refl => exact h'
  | read hread _ ih => exact .read hread (ih h')

structure Covers (cursor after : Cursor) (text : List Char) : Prop where
  rest : cursor.rest = text ++ after.rest
  reaches : cursor.Reaches after

theorem Covers.refl (cursor : Cursor) : cursor.Covers cursor [] := ⟨rfl, .refl cursor⟩

theorem Covers.trans {middle : Cursor} {text' : List Char} (h : cursor.Covers middle text)
    (h' : middle.Covers after text') : cursor.Covers after (text ++ text') :=
  ⟨by rw [h.rest, h'.rest, List.append_assoc], h.reaches.trans h'.reaches⟩

theorem covers_of_read? {next : Cursor} (h : cursor.read? = some (c, next)) (hc : c ≠ '\n') :
    cursor.Covers next [c] := by
  refine ⟨?_, .read h (.refl next)⟩
  unfold read? at h
  grind

theorem covers_advance (h : cursor.current? = some c) (hc : c ≠ '\n') :
    cursor.Covers cursor.advance [c] := by
  obtain ⟨⟨_, next⟩, hread, rfl⟩ := Option.map_eq_some_iff.1 h
  rw [advance_of_read? hread]
  exact covers_of_read? hread hc

theorem covers_of_isAt (h : cursor.isAt c = true) (hc : c ≠ '\n') :
    cursor.Covers cursor.advance [c] :=
  covers_advance (beq_iff_eq.1 h) hc

theorem covers_span (hfeed : p '\n' = false) (cursor : Cursor) :
    cursor.Covers (cursor.span p).2 (cursor.span p).1 := by
  fun_induction span p cursor with
  | case1 cursor => exact .refl cursor
  | case2 cursor c next hread hc tail ih =>
      have hbreak : c ≠ '\n' := by
        rintro rfl
        rw [hfeed] at hc
        contradiction
      exact (covers_of_read? hread hbreak).trans ih
  | case3 cursor => exact .refl cursor

structure Passes (cursor after : Cursor) (text rest : List Char) : Prop where
  before : cursor.rest = text ++ rest
  rest : after.rest = rest
  column : after.position.column = cursor.position.column + text.length
  reaches : cursor.Reaches after

theorem Passes.refl (cursor : Cursor) : cursor.Passes cursor [] cursor.rest :=
  ⟨rfl, rfl, rfl, .refl cursor⟩

theorem Passes.trans {middle : Cursor} {text' : List Char}
    (h : cursor.Passes middle text (text' ++ rest)) (h' : middle.Passes after text' rest) :
    cursor.Passes after (text ++ text') rest := by
  refine ⟨by rw [h.before, List.append_assoc], h'.rest, ?_, h.reaches.trans h'.reaches⟩
  rw [h'.column, h.column, List.length_append, Nat.add_assoc]

def isSolid (c : Char) : Bool := c != '\r' && c != '\n'

theorem isSolid_of_not_isBlank (h : isBlank c = false) : isSolid c = true := by
  simp only [isSolid, Bool.and_eq_true, bne_iff_ne]
  constructor
  · rintro rfl
    contradiction
  · rintro rfl
    contradiction

theorem isSolid_of_isWordChar (h : isWordChar c = true) : isSolid c = true :=
  isSolid_of_not_isBlank (isBlank_of_isWordChar h)

theorem read?_cons (h : cursor.rest = c :: more) (hc : isSolid c = true) :
    cursor.read? = some (c, cursor.advance) ∧ cursor.Passes cursor.advance [c] more := by
  simp only [isSolid, Bool.and_eq_true, bne_iff_ne] at hc
  have hread : cursor.read? = some (c, ⟨more, cursor.position.advance c⟩) := by
    unfold read?
    simp [h, hc.1]
  have hadvance : cursor.advance = ⟨more, cursor.position.advance c⟩ := by
    unfold advance
    rw [hread]
  rw [hread, hadvance]
  exact ⟨rfl, h, rfl, by simp [Position.advance, hc.2], .read hread (.refl _)⟩

theorem span_passes (h : cursor.rest = text ++ rest)
    (htext : ∀ c ∈ text, p c = true ∧ isSolid c = true)
    (hrest : ∀ c ∈ rest.head?, p (if c = '\r' then '\n' else c) = false) :
    (cursor.span p).1 = text ∧ cursor.Passes (cursor.span p).2 text rest := by
  induction text generalizing cursor with
  | nil =>
      have hstop : cursor.span p = ([], cursor) := by
        unfold span
        split
        · rfl
        · rename_i first next hread
          cases hcase : rest with
          | nil =>
              rw [List.nil_append, hcase] at h
              rw [(read?_eq_none_iff cursor).2 h] at hread
              contradiction
          | cons d tail =>
              rw [List.nil_append, hcase] at h
              have hfirst : some first = some (if d = '\r' then '\n' else d) := by
                rw [← current?_cons h, current?, hread]
                rfl
              have hfalse := hrest d (by simp [hcase])
              rw [← Option.some.inj hfirst] at hfalse
              simp [hfalse]
      rw [hstop]
      exact ⟨rfl, h, h, rfl, .refl cursor⟩
  | cons c text ih =>
      obtain ⟨hread, hpasses⟩ := read?_cons h (htext c (by simp)).2
      have htail := ih hpasses.rest fun d hd => htext d (List.mem_cons_of_mem c hd)
      have hspan : cursor.span p = (c :: (cursor.advance.span p).1, (cursor.advance.span p).2) := by
        conv => lhs; unfold span
        grind
      rw [hspan]
      exact ⟨by rw [htail.1], hpasses.trans htail.2⟩

end Text.Cursor

namespace Scan

open Text (Cursor Position)

variable {cursor : Cursor} {c : Char} {text rest more : List Char}

/-! ## What ends a lexeme -/

/-- A text that ends a word or an integer in front of it: it starts with a reserved character, and
with a point only in front of a character that is no digit. -/
structure Stops (rest : List Char) : Prop where
  reserved : ∃ c more, rest = c :: more ∧ isReserved c = true ∧ c ≠ '\r'
  point : ∀ more, rest = '.' :: more → ∀ d ∈ more.head?, isDigitIn 10 d = false

theorem stops_of_ne_point (hreserved : isReserved c = true) (hreturn : c ≠ '\r')
    (hpoint : c ≠ '.') : Stops (c :: more) :=
  ⟨⟨c, more, rfl, hreserved, hreturn⟩, fun _ hmore => absurd (List.cons.inj hmore).1 hpoint⟩

theorem Stops.current? (h : Stops rest) (hrest : cursor.rest = rest) :
    ∃ c, cursor.current? = some c ∧ isReserved c = true := by
  obtain ⟨c, more, hcons, hreserved, hreturn⟩ := h.reserved
  refine ⟨c, ?_, hreserved⟩
  rw [Cursor.current?_cons (hrest.trans hcons), if_neg hreturn]

theorem Stops.atWordChar (h : Stops rest) (hrest : cursor.rest = rest) :
    Scan.atWordChar cursor = false := by
  obtain ⟨c, hcurrent, hreserved⟩ := h.current? hrest
  simp [Scan.atWordChar, hcurrent, isWordChar, hreserved]

theorem Stops.fractionFollows (h : Stops rest) (hrest : cursor.rest = rest) :
    Scan.fractionFollows cursor = false := by
  obtain ⟨c, more, hcons, hreserved, hreturn⟩ := h.reserved
  have hcurrent := Cursor.current?_cons (hrest.trans hcons)
  rw [if_neg hreturn] at hcurrent
  by_cases hpoint : c = '.'
  · subst hpoint
    have hadvance := (Cursor.read?_cons (hrest.trans hcons) (by decide)).2.rest
    have hdigit : startsWithDigit 10 cursor.advance = false := by
      unfold startsWithDigit
      cases more with
      | nil => rw [(Cursor.current?_eq_none_iff _).2 hadvance]
      | cons d more =>
          have hd := h.point _ hcons d (by simp)
          rw [Cursor.current?_cons hadvance]
          by_cases hfeed : d = '\r'
          · simp [hfeed, isDigitIn, digitValue?]
          · simpa [hfeed] using hd
    simp [Scan.fractionFollows, hdigit]
  · simp [Scan.fractionFollows, Cursor.isAt, hcurrent, hpoint]

/-! ## Words -/

structure Word (name : String) : Prop where
  chars : ∀ c ∈ name.toList, isWordChar c = true
  first : ∃ c more, name.toList = c :: more ∧ c.isDigit = false
  keyword : TokenKind.keyword? name = none

theorem word_iff {name : String} :
    Word name ↔ name.toList.all isWordChar = true ∧
      (name.toList.head?.any fun c => !c.isDigit) = true ∧ TokenKind.keyword? name = none := by
  constructor
  · rintro ⟨hchars, ⟨c, more, hname, hdigit⟩, hkeyword⟩
    exact ⟨List.all_eq_true.2 hchars, by simp [hname, hdigit], hkeyword⟩
  · rintro ⟨hchars, hfirst, hkeyword⟩
    refine ⟨List.all_eq_true.1 hchars, ?_, hkeyword⟩
    cases hname : name.toList with
    | nil => simp [hname] at hfirst
    | cons c more => exact ⟨c, more, rfl, by simpa [hname] using hfirst⟩

instance (name : String) : Decidable (Word name) := decidable_of_iff _ word_iff.symm

theorem span_word (h : cursor.rest = text ++ rest) (htext : ∀ c ∈ text, isWordChar c = true)
    (hrest : Stops rest) :
    (cursor.span isWordChar).1 = text ∧
      cursor.Passes (cursor.span isWordChar).2 text rest := by
  apply Cursor.span_passes h
  · exact fun c hc => ⟨htext c hc, Cursor.isSolid_of_isWordChar (htext c hc)⟩
  · intro c hc
    obtain ⟨d, more, rfl, hreserved, hreturn⟩ := hrest.reserved
    cases hc
    simp [hreturn, isWordChar, hreserved]

theorem scanWord_name {name : String} (hname : Word name) (h : cursor.rest = name.toList ++ rest)
    (hrest : Stops rest) :
    (scanWord cursor).1 = .identifier name cursor.position ∧
      cursor.Passes (scanWord cursor).2 name.toList rest := by
  obtain ⟨hword, hpasses⟩ := span_word h hname.chars hrest
  unfold scanWord
  simp only [hword, String.ofList_toList, hname.keyword, true_and]
  exact hpasses

theorem chars_of_keyword {kind : TokenKind} {word : String}
    (h : TokenKind.keyword? word = some kind) :
    word.toList ≠ [] ∧ ∀ c ∈ word.toList, isWordChar c = true ∧ c.isDigit = false := by
  obtain ⟨hkeyword, hlexeme⟩ := TokenKind.keyword?_lexeme h
  have hspelled : ∀ kind ∈ TokenKind.keywords, ∀ word ∈ kind.lexeme?,
      word.toList ≠ [] ∧ (word.toList.all fun c => isWordChar c && !c.isDigit) = true := by
    decide +kernel
  obtain ⟨hne, hall⟩ := hspelled kind (List.contains_iff_mem.1 hkeyword) word hlexeme
  refine ⟨hne, fun c hc => ?_⟩
  simpa using List.all_eq_true.1 hall c hc

theorem scanWord_keyword {kind : TokenKind} {word : String}
    (hkeyword : TokenKind.keyword? word = some kind) (h : cursor.rest = word.toList ++ rest)
    (hrest : Stops rest) :
    (scanWord cursor).1 = .plain kind cursor.position ∧
      cursor.Passes (scanWord cursor).2 word.toList rest := by
  obtain ⟨hspan, hpasses⟩ :=
    span_word h (fun c hc => ((chars_of_keyword hkeyword).2 c hc).1) hrest
  unfold scanWord
  simp only [hspan, String.ofList_toList, hkeyword, true_and]
  exact hpasses

/-! ## Integers -/

theorem isDigitIn_of_isDigit (h : c.isDigit = true) :
    isDigitIn 10 c = true ∧ digitValue? c = some (c.toNat - '0'.toNat) := by
  refine ⟨isDigitIn_ten_of_isDigit h, ?_⟩
  simp only [Char.isDigit, Bool.and_eq_true, decide_eq_true_eq] at h
  have hlow : '0' ≤ c := h.1
  have hhigh : c ≤ '9' := h.2
  simp [digitValue?, hlow, hhigh]

theorem isWordChar_of_isDigit (h : c.isDigit = true) : isWordChar c = true :=
  isWordChar_of_isDigitIn (isDigitIn_ten_of_isDigit h)

theorem isDigit_of_isDigitIn (h : isDigitIn 10 c = true) : c.isDigit = true := by
  by_cases hrange : '0' ≤ c ∧ c ≤ '9'
  · simp only [Char.isDigit, Bool.and_eq_true, decide_eq_true_eq]
    exact hrange
  · exfalso
    unfold isDigitIn digitValue? at h
    grind

/-- A text that goes on with no digit, with no separator of digits and with no mark of another base. -/
def EndsDigits (rest : List Char) : Prop :=
  ∀ c ∈ rest.head?, isDigitIn 10 c = false ∧ c ∉ ['_', 'x', 'X', 'b', 'B', 'o', 'O']

theorem Stops.endsDigits (h : Stops rest) : EndsDigits rest := by
  obtain ⟨d, more, rfl, hreserved, -⟩ := h.reserved
  intro c hc
  obtain rfl : d = c := by simpa using hc
  have hnone : (['_', 'x', 'X', 'b', 'B', 'o', 'O'].any isReserved) = false := by decide +kernel
  refine ⟨not_isDigitIn_of_isReserved hreserved 10, fun hmem => ?_⟩
  exact List.any_eq_false.1 hnone d hmem hreserved

theorem EndsDigits.current? (h : EndsDigits rest) (hrest : cursor.rest = rest) :
    ∀ c ∈ cursor.current?, isDigitIn 10 c = false ∧ c ∉ ['_', 'x', 'X', 'b', 'B', 'o', 'O'] := by
  intro c hc
  cases rest with
  | nil =>
      rw [(Cursor.current?_eq_none_iff cursor).2 hrest] at hc
      cases hc
  | cons d more =>
      rw [Cursor.current?_cons hrest] at hc
      cases hc
      split
      · decide
      · exact h d rfl

theorem digitRun_digits (started : Bool) (h : cursor.rest = text ++ rest)
    (htext : ∀ c ∈ text, c.isDigit = true) (hrest : EndsDigits rest) :
    ∃ after, digitRun 10 started cursor = ⟨text, text, started || !text.isEmpty, after⟩ ∧
      cursor.Passes after text rest := by
  induction text generalizing cursor started with
  | nil =>
      refine ⟨cursor, ?_, ⟨h, h, rfl, .refl cursor⟩⟩
      have hends := hrest.current? h
      unfold Cursor.current? at hends
      unfold digitRun
      split
      · simp
      · rename_i c next hread
        obtain ⟨hdigit, hmark⟩ := hends c (by rw [hread]; rfl)
        have hseparator : c ≠ '_' := by
          rintro rfl
          exact hmark (by decide)
        simp [hdigit, hseparator]
  | cons c text ih =>
      obtain ⟨hread, hpasses⟩ :=
        Cursor.read?_cons h (Cursor.isSolid_of_isWordChar (isWordChar_of_isDigit (htext c (by simp))))
      obtain ⟨after, hrun, hafter⟩ :=
        ih true hpasses.rest fun d hd => htext d (List.mem_cons_of_mem c hd)
      refine ⟨after, ?_, hpasses.trans hafter⟩
      have hdigit := (isDigitIn_of_isDigit (htext c (by simp))).1
      unfold digitRun
      split
      · grind
      · grind

theorem digitsValue_toDigits (value : Nat) : digitsValue 10 (Nat.toDigits 10 value) = value := by
  have hdigits : ∀ (digits : List Char) (start : Nat), (∀ c ∈ digits, c.isDigit = true) →
      digits.foldl (fun value c => value * 10 + (digitValue? c).getD 0) start =
        Nat.ofDigitChars 10 digits start := by
    intro digits
    induction digits with
    | nil => exact fun _ _ => rfl
    | cons c digits ih =>
        intro start h
        rw [List.foldl_cons, Nat.ofDigitChars_cons, ih _ fun d hd => h d (List.mem_cons_of_mem c hd),
          (isDigitIn_of_isDigit (h c (by simp))).2, Nat.mul_comm]
        rfl
  have hall : ∀ c ∈ Nat.toDigits 10 value, c.isDigit = true :=
    fun c hc => Nat.isDigit_of_mem_toDigits (by omega) (by omega) hc
  rw [digitsValue, hdigits _ 0 hall, Nat.ofDigitChars_ten_toDigits]

theorem radixAt_digits (h : cursor.rest = text ++ rest) (htext : ∀ c ∈ text, c.isDigit = true)
    (hrest : EndsDigits rest) : radixAt cursor = 10 := by
  refine Decidable.byContradiction fun hradix => ?_
  obtain ⟨hzero, mark, hletter, hpeek⟩ := marks_of_radixAt hradix
  cases text with
  | nil => exact absurd (hrest.current? h '0' hzero).1 (by decide)
  | cons c text =>
      have hadvance := (Cursor.read?_cons h
        (Cursor.isSolid_of_isWordChar (isWordChar_of_isDigit (htext c (by simp))))).2.rest
      unfold Cursor.peek? at hpeek
      cases text with
      | nil => exact (hrest.current? hadvance mark hpeek).2 (List.mem_cons_of_mem '_' hletter)
      | cons d text =>
          have hd := htext d (by simp)
          have hreturn : d ≠ '\r' := by
            rintro rfl
            contradiction
          rw [Cursor.current?_cons hadvance, if_neg hreturn] at hpeek
          obtain rfl : d = mark := Option.some.inj hpeek
          have hletters : (['x', 'X', 'b', 'B', 'o', 'O'].any Char.isDigit) = false := by
            decide +kernel
          exact List.any_eq_false.1 hletters d hletter hd

theorem scanNumber_integer {value : Nat} (hvalue : value < integerLimit)
    (h : cursor.rest = Nat.toDigits 10 value ++ rest) (hrest : Stops rest) :
    (scanNumber cursor).1 = .integer value cursor.position ∧
      cursor.Passes (scanNumber cursor).2 (Nat.toDigits 10 value) rest := by
  have hdigits : ∀ c ∈ Nat.toDigits 10 value, c.isDigit = true :=
    fun c hc => Nat.isDigit_of_mem_toDigits (by omega) (by omega) hc
  obtain ⟨after, hrun, hpasses⟩ := digitRun_digits false h hdigits hrest.endsDigits
  have hwellFormed : (!(Nat.toDigits 10 value).isEmpty) = true := by
    simp [Nat.toDigits_ne_nil]
  unfold scanNumber
  simp only [radixAt_digits h hdigits hrest.endsDigits, if_true]
  unfold scanDigits
  simp only [hrun, Bool.false_or, hwellFormed, Bool.not_true, Bool.false_eq_true, if_false,
    hrest.fractionFollows hpasses.rest, Bool.and_false, hrest.atWordChar hpasses.rest]
  unfold integerToken
  simp only [digitsValue_toDigits, hvalue, if_true, true_and]
  exact hpasses

/-! ## Strings -/

/-- A character that is written between quotation marks without its code point. -/
def Quotable (c : Char) : Prop := Text.quoteChar '"' c ≠ Text.codePointEscape c

instance : DecidablePred Quotable :=
  fun c => inferInstanceAs (Decidable (Text.quoteChar '"' c ≠ Text.codePointEscape c))

theorem quoteChar_of_plain (hquotable : Quotable c)
    (hplain : ¬ ∃ letter, Text.quoteChar '"' c = ['\\', letter] ∧ escapedChar? letter = some c) :
    Text.quoteChar '"' c = [c] ∧ c ≠ '"' ∧ c ≠ '\\' ∧ Cursor.isSolid c = true := by
  have hne : ∀ escaped letter, Text.quoteChar '"' escaped = ['\\', letter] →
      escapedChar? letter = some escaped → c ≠ escaped := by
    rintro escaped letter hquote hescaped rfl
    exact hplain ⟨letter, hquote, hescaped⟩
  have hnull := hne '\x00' '0' rfl rfl
  have htab := hne '\t' 't' rfl rfl
  have hreturn := hne '\r' 'r' rfl rfl
  have hfeed := hne '\n' 'n' rfl rfl
  have hmark := hne '"' '"' rfl rfl
  have hbackslash := hne '\\' '\\' rfl rfl
  refine ⟨?_, hmark, hbackslash, by simp [Cursor.isSolid, hreturn, hfeed]⟩
  unfold Quotable at hquotable
  unfold Text.quoteChar Text.controlLetter? at hquotable ⊢
  simp only [hnull, htab, hreturn, hfeed, hmark, hbackslash, if_false, decide_false,
    Bool.or_false, Bool.false_eq_true] at hquotable ⊢
  split
  · rfl
  · rename_i hprintable
    rw [if_neg hprintable] at hquotable
    exact absurd rfl hquotable

theorem readQuotation_char (hquotable : Quotable c)
    (h : cursor.rest = Text.quoteChar '"' c ++ more) :
    ∃ after, cursor.Passes after (Text.quoteChar '"' c) more ∧
      readQuotation cursor =
        { readQuotation after with content := c :: (readQuotation after).content } := by
  by_cases hescape : ∃ letter, Text.quoteChar '"' c = ['\\', letter] ∧ escapedChar? letter = some c
  · obtain ⟨letter, hquote, hescaped⟩ := hescape
    have hfeed : letter ≠ '\n' := by
      rintro rfl
      contradiction
    have hreturn : letter ≠ '\r' := by
      rintro rfl
      contradiction
    have hsolid : Cursor.isSolid letter = true := by simp [Cursor.isSolid, hfeed, hreturn]
    rw [hquote] at h ⊢
    obtain ⟨hread, hbackslash⟩ := Cursor.read?_cons h (by decide)
    obtain ⟨hread', hletter⟩ := Cursor.read?_cons hbackslash.rest hsolid
    refine ⟨cursor.advance.advance, hbackslash.trans hletter, ?_⟩
    conv => lhs; unfold readQuotation
    grind
  · obtain ⟨hquote, hmark, hbackslash, hsolid⟩ := quoteChar_of_plain hquotable hescape
    rw [hquote] at h ⊢
    obtain ⟨hread, hpasses⟩ := Cursor.read?_cons h hsolid
    refine ⟨cursor.advance, hpasses, ?_⟩
    simp only [Cursor.isSolid, Bool.and_eq_true, bne_iff_ne] at hsolid
    conv => lhs; unfold readQuotation
    grind

theorem readQuotation_quoted (htext : ∀ c ∈ text, Quotable c)
    (h : cursor.rest = text.flatMap (Text.quoteChar '"') ++ '"' :: rest) :
    ∃ after, readQuotation cursor = ⟨text, none, .closed, after⟩ ∧
      cursor.Passes after (text.flatMap (Text.quoteChar '"') ++ ['"']) rest := by
  induction text generalizing cursor with
  | nil =>
      obtain ⟨hread, hpasses⟩ := Cursor.read?_cons h (by decide)
      refine ⟨cursor.advance, ?_, hpasses⟩
      unfold readQuotation
      grind
  | cons c text ih =>
      rw [List.flatMap_cons, List.append_assoc] at h
      obtain ⟨middle, hchar, hread⟩ := readQuotation_char (htext c (by simp)) h
      obtain ⟨after, hquotation, hpasses⟩ :=
        ih (fun d hd => htext d (List.mem_cons_of_mem c hd)) hchar.rest
      refine ⟨after, by rw [hread, hquotation], ?_⟩
      have hrest : text.flatMap (Text.quoteChar '"') ++ '"' :: rest =
          (text.flatMap (Text.quoteChar '"') ++ ['"']) ++ rest := by simp
      rw [hrest] at hchar
      rw [List.flatMap_cons, List.append_assoc]
      exact hchar.trans hpasses

theorem scanQuotation_quoted {content : String} (hcontent : ∀ c ∈ content.toList, Quotable c)
    (h : cursor.rest = (Text.quoted content).toList ++ rest) :
    (scanQuotation cursor).1 = .string content cursor.position ∧
      cursor.Passes (scanQuotation cursor).2 (Text.quoted content).toList rest := by
  have hquoted : (Text.quoted content).toList =
      ['"'] ++ (content.toList.flatMap (Text.quoteChar '"') ++ ['"']) := by
    simp [Text.quoted, Text.quotedWith]
  have hrest : cursor.rest =
      '"' :: ((content.toList.flatMap (Text.quoteChar '"') ++ ['"']) ++ rest) := by
    rw [h, hquoted]
    simp
  have hmark := (Cursor.read?_cons hrest (by decide)).2
  have hcontent' : cursor.advance.rest =
      content.toList.flatMap (Text.quoteChar '"') ++ '"' :: rest := by
    rw [hmark.rest]
    simp
  obtain ⟨after, hquotation, hpasses⟩ := readQuotation_quoted hcontent hcontent'
  unfold scanQuotation
  simp only [hquotation, Quotation.token, String.ofList_toList, true_and]
  rw [hquoted]
  exact hmark.trans hpasses

end Scan

end Offside
