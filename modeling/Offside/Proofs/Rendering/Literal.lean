import Offside.Proofs.Rendering.Lines
import Offside.Proofs.Rendering.RoundTrip
import Offside.Proofs.Scanning.Numeral

/-!
# Rendered literals alone on a line

A literal of a parsed text is read back from its rendering if this is plain: integers and booleans
always are, a string if no character of it is written by its code point, and a float if it is written
without an exponent.  The rendering of any other literal is read as something else.
-/

namespace Offside

open Grammar (Respelled)
open Number (Binary64 PlainMagnitude)
open Scan
open Text (Cursor Position)

/-! ## Plain literals -/

/-- A literal that is rendered in the notation of literals. -/
def Literal.Plain : Literal → Prop
  | .integer _ | .boolean _ => True
  | .float (.finite _ significand exponent) => PlainMagnitude significand exponent
  | .float _ => False
  | .string content => ∀ c ∈ content.toList, Quotable c

variable {value : Literal} {text : String} {config : RunConfig}

/-! ## How a rendering begins -/

theorem Literal.given_float {number : Binary64} (h : (Literal.float number).Given) :
    number = .infinite false ∨
      ∃ significand exponent, Binary64.Canonical significand exponent ∧
        number = .finite false significand exponent := by
  obtain ⟨numerator, denominator, hpos, rfl⟩ := h
  exact Binary64.ofQuotient_cases false numerator hpos

theorem Literal.render_finite (significand : Nat) (exponent : Int) :
    (Literal.float (.finite false significand exponent)).render.toList =
      Number.Style.listing.magnitude significand exponent := by
  simp [Literal.render, Number.Style.write]

theorem Number.Pointed.begins {text whole fraction : List Char}
    (h : Number.Pointed text whole fraction) :
    ∃ c more, text = c :: more ∧ c.isDigit = true := by
  obtain ⟨c, more, rfl⟩ := List.exists_cons_of_ne_nil h.whole_ne
  exact ⟨c, more ++ '.' :: fraction, h.text, h.digit c (by simp)⟩

theorem begins_magnitude {significand : Nat} {exponent : Int}
    (hcanonical : Binary64.Canonical significand exponent) :
    ∃ c more, Number.Style.listing.magnitude significand exponent = c :: more ∧
      c.isDigit = true := by
  by_cases hplain : PlainMagnitude significand exponent
  · obtain ⟨whole, fraction, hpointed, -⟩ := Number.exists_pointed hcanonical hplain
    exact hpointed.begins
  · obtain ⟨mantissa, behind, htext, ⟨digit, rfl, hdigit⟩ | ⟨whole, fraction, hpointed⟩⟩ :=
      Number.exists_exponentText hcanonical hplain
    · exact ⟨digit, _, htext, hdigit⟩
    · obtain ⟨c, more, rfl, hc⟩ := hpointed.begins
      exact ⟨c, _, htext, hc⟩

theorem Literal.Given.begins (h : value.Given) : Begins value.render.toList := by
  cases value with
  | integer value => exact (show (Literal.integer value).Legible from ⟨trivial, h⟩).begins
  | boolean value => exact (show (Literal.boolean value).Legible from ⟨trivial, h⟩).begins
  | string content => exact begins_quoted content
  | float number =>
      rcases Literal.given_float h with rfl | ⟨significand, exponent, hcanonical, rfl⟩
      · exact ⟨'i', ['n', 'f'], rfl, by decide, by decide⟩
      · obtain ⟨c, more, htext, hdigit⟩ := begins_magnitude hcanonical
        rw [Literal.render_finite, htext]
        exact begins_of_isWordChar (isWordChar_of_isDigit hdigit)

/-! ## Plain renderings -/

theorem Literal.Plain.reads {position : Position} (h : value.Plain) (hgiven : value.Given) :
    Reads value.render.toList [value.token position] := by
  cases value with
  | integer value => exact Reads.literal ⟨trivial, hgiven⟩
  | boolean value => exact Reads.literal ⟨trivial, hgiven⟩
  | string content => exact Reads.literal ⟨h, hgiven⟩
  | float number =>
      rcases Literal.given_float hgiven with rfl | ⟨significand, exponent, hcanonical, rfl⟩
      · exact h.elim
      · obtain ⟨whole, fraction, hpointed, hnumber⟩ := Number.exists_pointed hcanonical h
        intro rest openers indents hrest
        rw [Literal.render_finite]
        exact scans_float hpointed hnumber hrest

/-- The tokens of a file with one line of one literal. -/
def Literal.lineTokens (value : Literal) : List Token :=
  [.plain .indent .start, value.token .start, .plain .newline .start, .plain .dedent .start,
    .plain .eof .start]

theorem Begins.first {lead : List Char} (h : Begins lead) :
    ∃ c more, lead = c :: more ∧ Text.isBlank c = false := by
  obtain ⟨c, more, hlead, hblank, -⟩ := h
  exact ⟨c, more, hlead, hblank⟩

theorem Literal.Plain.tokenize_render (h : value.Plain) (hgiven : value.Given) :
    ∃ tokens, tokenize (value.render ++ "\n") config = .ok tokens ∧
      Respelled value.lineTokens tokens :=
  tokenize_line hgiven.begins.first (String.toList_append ..) ((h.reads hgiven).line [] [0]) config

/-! ## Other renderings -/

theorem exists_firstToken {lead : List Char} (h : Begins lead) (htext : text.toList = lead ++ ['\n'])
    (tabWidth : UInt64) :
    ∃ (context : Context) (more : List Parse.Item), context.cursor.rest = lead ++ ['\n'] ∧
      ∀ c ∈ lead.head?, (Scanner.ofText text tabWidth).outcomes =
        .ok (.plain .indent .start) ::
          .ok (Scanner.scanToken context c context.cursor.advance).1 :: more := by
  obtain ⟨c, behind, rfl, hblank, -⟩ := id h
  have hmargined := margined_line h.first
  have hstart : AtStart (c :: behind ++ ['\n']) (widths 0) (Scanner.opened text tabWidth) :=
    ⟨rfl, htext, rfl, rfl, rfl, rfl⟩
  obtain ⟨spelled, later, hspelled, houtcomes, -, hlater⟩ :=
    (scans_settle (by decide) hmargined (Nat.le_refl 0)).silent
      (scans_enter hmargined (by simp)) _ hstart
  obtain rfl := Grammar.respelled_nil.1 hspelled
  obtain ⟨more, hmore⟩ : ∃ more, later.outcomes =
      .ok (Scanner.scanToken later.context c later.context.cursor.advance).1 :: more :=
    ⟨_, Scanner.outcomes_of_lexeme hlater hblank⟩
  refine ⟨later.context, more, hlater.rest, ?_⟩
  rintro d hd
  cases hd
  rw [Scanner.outcomes_ofText_eq, houtcomes, hmore]
  rfl

theorem Literal.Given.misread {context : Context} (hgiven : value.Given) (h : ¬ value.Plain)
    (hrest : context.cursor.rest = value.render.toList ++ ['\n']) :
    ∀ c ∈ value.render.toList.head?,
      (Scanner.scanToken context c context.cursor.advance).1.kind ≠ (value.token .start).kind := by
  intro c hc
  unfold Scanner.scanToken
  cases value with
  | integer value => exact absurd trivial h
  | boolean value => exact absurd trivial h
  | string content =>
      have hmark : c = '"' := by
        simpa [Literal.render, Text.quoted, Text.quotedWith, eq_comm] using hc
      subst hmark
      have hbad : ∃ c ∈ content.toList, ¬ Quotable c := by
        simpa only [Literal.Plain, not_forall, exists_prop] using h
      obtain ⟨fault, position, herror⟩ := scanQuotation_codePoint hbad hrest
      simp only [show '"'.isDigit = false from rfl, Bool.false_eq_true, if_false, if_true, herror]
      simp [Token.error, Literal.token, Token.string]
  | float number =>
      rcases Literal.given_float hgiven with rfl | ⟨significand, exponent, hcanonical, rfl⟩
      · have hword : Word "inf" := by decide +kernel
        have hi : c = 'i' := by
          cases hc
          rfl
        subst hi
        have hstops : Stops ['\n'] := stops_of_ne_point (by decide) (by decide) (by decide)
        obtain ⟨htoken, -⟩ := scanWord_name hword hrest hstops
        have hreserved : isReserved 'i' = false := by decide +kernel
        simp only [show 'i'.isDigit = false from rfl, show ('i' = '"') = False by decide, hreserved,
          Bool.false_eq_true, if_false, htoken]
        simp [Token.identifier, Literal.token, Token.float]
      · obtain ⟨mantissa, behind, htext, hmantissa⟩ := Number.exists_exponentText hcanonical h
        obtain ⟨d, more, hcons, hdigit⟩ := begins_magnitude hcanonical
        rw [Literal.render_finite] at hrest hc
        obtain rfl : d = c := by simpa [hcons] using hc
        rw [htext, List.append_assoc, List.cons_append] at hrest
        obtain ⟨fault, herror⟩ := scanNumber_exponent hmantissa hrest
        simp only [hdigit, if_true, herror]
        simp [Token.error, Literal.token, Token.float]

theorem Literal.Given.tokenize_render_iff (hgiven : value.Given) :
    (∃ tokens, tokenize (value.render ++ "\n") config = .ok tokens ∧
      Respelled value.lineTokens tokens) ↔ value.Plain := by
  constructor
  · rintro ⟨tokens, htokens, hspelled⟩
    by_contra hplain
    have htext : (value.render ++ "\n").toList = value.render.toList ++ ['\n'] :=
      String.toList_append ..
    obtain ⟨context, more, hrest, hfirst⟩ :=
      exists_firstToken hgiven.begins htext config.tabWidth
    obtain ⟨c, behind, hcons, -⟩ := hgiven.begins
    have houtcomes := hfirst c (by simp [hcons])
    obtain ⟨opening, inner, rfl, hinner⟩ := Grammar.respelled_plain.1 hspelled
    obtain ⟨position, ending, rfl, -⟩ := Grammar.respelled_literal.1 hinner
    rw [tokenize_eq_ok.1 htokens, List.map_cons, List.map_cons, List.cons.injEq,
      List.cons.injEq] at houtcomes
    have htoken := Except.ok.inj houtcomes.2.1
    have hother := hgiven.misread hplain hrest c (by simp [hcons])
    rw [← htoken] at hother
    apply hother
    cases value with
    | boolean value => cases value <;> rfl
    | integer | float | string => rfl
  · exact fun hplain => hplain.tokenize_render hgiven

/-- A literal of a parsed text is read back from its rendering, as the one token of its line, exactly
if it is plain: it is no string with a character that is written by its code point, and no float that
is below a ten thousandth and not zero, from ten to the sixteenth on, or infinite. -/
theorem literal_readBack_iff {parsed : Parse.Parsed} (h : parse text config = .ok parsed)
    (hvalue : value ∈ Block.literals parsed.block) (config' : RunConfig) :
    (∃ tokens, tokenize (value.render ++ "\n") config' = .ok tokens ∧
      Respelled value.lineTokens tokens) ↔ value.Plain :=
  (Literal.given_of_parse h hvalue).tokenize_render_iff

/-- The number nearest to a tenth is written as a tenth. -/
theorem literal_readBack_tenth :
    ∃ parsed, parse "y = 0.1\n" .default = .ok parsed ∧
      .float (.ofDecimal false 1 (-1)) ∈ Block.literals parsed.block ∧
      ∃ tokens, tokenize "0.1\n" .default = .ok tokens ∧
        Respelled (Literal.float (.ofDecimal false 1 (-1))).lineTokens tokens := by
  have hnumber : Binary64.ofDecimal false 1 (-1) = .finite false 7205759403792794 (-56) := by
    decide +kernel
  have hrender : (Literal.float (.ofDecimal false 1 (-1))).render = "0.1" := by decide +kernel
  have hplain : (Literal.float (.ofDecimal false 1 (-1))).Plain := by
    rw [hnumber]
    refine .inr ⟨?_, ?_⟩ <;> norm_num
  have hliterals : ((parse "y = 0.1\n" .default).toOption.any fun parsed =>
      (Block.literals parsed.block).contains (.float (.ofDecimal false 1 (-1)))) = true := by
    decide +kernel
  cases hparse : parse "y = 0.1\n" .default with
  | error failure => simp [hparse, Except.toOption] at hliterals
  | ok parsed =>
      have hvalue : .float (.ofDecimal false 1 (-1)) ∈ Block.literals parsed.block := by
        simpa [hparse, Except.toOption] using hliterals
      obtain ⟨tokens, htokens, hspelled⟩ := (literal_readBack_iff hparse hvalue .default).2 hplain
      rw [hrender] at htokens
      exact ⟨parsed, rfl, hvalue, tokens, htokens, hspelled⟩

/-- The escape of the alert character is read, but the character is written by its code point, which
is no escape. -/
theorem not_readBack_alert :
    ∃ parsed, parse "\"\\a\"\n" .default = .ok parsed ∧
      .string "\x07" ∈ Block.literals parsed.block ∧
      ¬ ∃ tokens, tokenize ((Literal.string "\x07").render ++ "\n") .default = .ok tokens ∧
        Respelled (Literal.string "\x07").lineTokens tokens := by
  have hliterals : ((parse "\"\\a\"\n" .default).toOption.any fun parsed =>
      (Block.literals parsed.block).contains (.string "\x07")) = true := by
    decide +kernel
  cases hparse : parse "\"\\a\"\n" .default with
  | error failure => simp [hparse, Except.toOption] at hliterals
  | ok parsed =>
      refine ⟨parsed, rfl, by simpa [hparse, Except.toOption] using hliterals, ?_⟩
      have hgiven : (Literal.string "\x07").Given := trivial
      rw [hgiven.tokenize_render_iff]
      intro hplain
      have hquotable : Quotable '\x07' := hplain '\x07' (by simp)
      exact absurd hquotable (by decide +kernel)

end Offside
