import Offside.Proofs.Rendering.RoundTrip
import Offside.Proofs.Scanning.StringLiteral

/-!
# Printed tokens are read back

A lexeme is a token with a spelling of its own: a keyword, an operator or a punctuation mark, an
integer, a string or a name.  Lexemes on one line, with single blanks between them, are read back in
any order, as long as their brackets are well nested.
-/

namespace Offside.Scan

open Grammar (Respelled)
open Text (Cursor Position)

/-! ## Lexemes -/

inductive Lexeme where
  /-- A keyword, an operator or a punctuation mark. -/
  | symbol (kind : TokenKind) (spelling : String) (h : kind.lexeme? = some spelling)
  | integer (value : Nat) (h : value < 2 ^ 63)
  | string (content : String)
  | name (word : String) (h : Word word)

namespace Lexeme

def print : Lexeme → String
  | symbol _ spelling _ => spelling
  | integer value _ => toString value
  | string content => escaped content
  | name word _ => word

def token : Lexeme → Token
  | symbol kind _ _ => .plain kind .start
  | integer value _ => .integer value .start
  | string content => .string content .start
  | name word _ => .identifier word .start

/-- The bracket that the lexeme is, if it is one. -/
def brackets : Lexeme → List Char
  | symbol _ spelling _ => spelling.toList.filter isBracket
  | _ => []

end Lexeme

def printLine (lexemes : List Lexeme) : String := " ".intercalate (lexemes.map Lexeme.print) ++ "\n"

variable {rest openers : List Char} {indents : List UInt64} {lexeme : Lexeme} {lexemes : List Lexeme}
  {blank : Char} {position : Position}

theorem toList_printLine (lexemes : List Lexeme) :
    (printLine lexemes).toList =
      [' '].intercalate (lexemes.map fun lexeme => lexeme.print.toList) ++ ['\n'] := by
  simp [printLine, String.toList_intercalate, Function.comp_def]

theorem toList_print_integer (value : Nat) : (toString value).toList = Nat.toDigits 10 value := by
  simp

/-! ## One lexeme -/

theorem symbol_cases (kind : TokenKind) {spelling : String} (h : kind.lexeme? = some spelling) :
    (TokenKind.keyword? spelling = some kind ∧ spelling.toList.filter isBracket = []) ∨
      (∃ c, spelling.toList = [c] ∧ isBracket c = true ∧
        kind = if isOpener c then openerKind c else closerKind c) ∨
      (spelling.toList.head?.any startsOperator = true ∧ spelling.toList.filter isBracket = []) := by
  cases kind <;> cases h
  case leftParen | leftSquare | leftBrace | rightParen | rightSquare | rightBrace =>
    exact .inr (.inl ⟨_, rfl, rfl, rfl⟩)
  all_goals first | exact .inl (by decide) | exact .inr (.inr (by decide))

theorem scans_bracket {c : Char} (hbracket : isBracket c = true)
    (hfault : bracketFault? openers c = none) :
    Scans (InLine (c :: rest) openers indents)
      [.plain (if isOpener c then openerKind c else closerKind c) position]
      (InLine rest (openersBehind openers c) indents) := by
  have hblank := (facts_of_isBracket hbracket).2.1
  refine @scans_lexeme [c] rest _ _ _ _ ⟨c, [], rfl, hblank⟩ ?_
  intro context hcontext hopeners first hmem
  obtain rfl : c = first := by simpa using hmem
  have hpasses := (Cursor.read?_cons hcontext (Cursor.isSolid_of_not_isBlank hblank)).2
  obtain ⟨context', hscan, hopeners', hcursor⟩ :=
    scanToken_bracket hbracket context context.cursor.advance
  rw [hopeners] at hscan hopeners'
  rw [hscan]
  refine ⟨?_, by rw [hcursor]; exact hpasses, hopeners'⟩
  rw [bracketToken, hfault]
  exact Grammar.respelled_plain.2 ⟨_, [], rfl, rfl⟩

theorem scans_escaped (content : String) :
    Scans (InLine ((escaped content).toList ++ rest) openers indents) [.string content position]
      (InLine rest openers indents) := by
  obtain ⟨glyphs, hwritten, -⟩ := exists_glyphs content.toList
  refine scans_lexeme ⟨'"', _, toList_escaped hwritten, by decide⟩ ?_
  intro context hcontext hopeners first hmem
  obtain rfl : '"' = first := by simpa [toList_escaped hwritten] using hmem
  obtain ⟨after, hpasses, hscan⟩ := scanQuotation_escaped hcontext
  rw [scanToken_quotation, hscan]
  exact ⟨rfl, hpasses, hopeners⟩

theorem Lexeme.scans (hblank : blank = ' ' ∨ blank = '\n')
    (hfaultless : Faultless openers lexeme.brackets) :
    Scans (InLine (lexeme.print.toList ++ blank :: rest) openers indents) [lexeme.token]
      (InLine (blank :: rest) (lexeme.brackets.foldl openersBehind openers) indents) := by
  have hstops : Stops (blank :: rest) := by
    rcases hblank with rfl | rfl <;>
      exact stops_of_ne_point (by decide) (by decide) (by decide)
  cases lexeme with
  | symbol kind spelling h =>
      simp only [brackets, print, token] at hfaultless ⊢
      rcases symbol_cases kind h with ⟨hkeyword, hnone⟩ | ⟨c, hc, hbracket, rfl⟩ |
        ⟨hstarts, hnone⟩
      · rw [hnone]
        exact scans_keyword hkeyword hstops
      · have hself : [c].filter isBracket = [c] := by simp [hbracket]
        rw [hc, hself] at hfaultless ⊢
        exact scans_bracket hbracket hfaultless.1
      · rw [hnone]
        exact scans_spaced h hstarts hblank
  | integer value h =>
      rw [print, toList_print_integer]
      exact scans_integer h hstops
  | string content => exact scans_escaped content
  | name word h => exact @scans_name _ _ _ ⟨word, .start⟩ h hstops

theorem Lexeme.first (lexeme : Lexeme) :
    ∃ c more, lexeme.print.toList = c :: more ∧ Text.isBlank c = false := by
  have hsymbol : ∀ kind ∈ TokenKind.all, ∀ spelling ∈ kind.lexeme?,
      spelling.toList.head?.any (fun c => !Text.isBlank c) = true := by decide +kernel
  cases lexeme with
  | symbol kind spelling h =>
      have hhead := hsymbol kind kind.mem_all spelling h
      rw [print]
      cases hspelling : spelling.toList with
      | nil => simp [hspelling] at hhead
      | cons c more => exact ⟨c, more, rfl, by simpa [hspelling] using hhead⟩
  | integer value h =>
      obtain ⟨c, more, hcons⟩ :=
        List.exists_cons_of_ne_nil (Nat.toDigits_ne_nil (n := value) (b := 10))
      have hdigit := @Nat.isDigit_of_mem_toDigits 10 value c (by omega) (by omega) (by simp [hcons])
      exact ⟨c, more, by rw [print, toList_print_integer, hcons],
        isBlank_of_isWordChar (isWordChar_of_isDigit hdigit)⟩
  | string content =>
      obtain ⟨glyphs, hwritten, -⟩ := exists_glyphs content.toList
      exact ⟨'"', _, toList_escaped hwritten, by decide⟩
  | name word h =>
      obtain ⟨c, more, hcons, -⟩ := h.first
      exact ⟨c, more, hcons, isBlank_of_isWordChar (h.chars c (by simp [hcons]))⟩

/-! ## Lines of lexemes -/

def bracketsOf (lexemes : List Lexeme) : List Char := lexemes.flatMap Lexeme.brackets

/-- The lexemes of a line are read one after the other, and none of them reaches over a blank. -/
theorem scans_lexemes (hne : lexemes ≠ []) (hfaultless : Faultless openers (bracketsOf lexemes)) :
    Scans (InLine ([' '].intercalate (lexemes.map fun lexeme => lexeme.print.toList) ++ '\n' :: rest)
        openers indents)
      (lexemes.map Lexeme.token)
      (InLine ('\n' :: rest) ((bracketsOf lexemes).foldl openersBehind openers) indents) := by
  induction lexemes generalizing openers with
  | nil => contradiction
  | cons lexeme lexemes ih =>
      rw [bracketsOf, List.flatMap_cons, faultless_append] at hfaultless
      rw [bracketsOf, List.flatMap_cons, List.foldl_append]
      cases lexemes with
      | nil =>
          rw [List.map_singleton, List.intercalate_singleton]
          exact Lexeme.scans (.inr rfl) hfaultless.1
      | cons next lexemes =>
          have hfirst := @Lexeme.scans
            ([' '].intercalate ((next :: lexemes).map fun lexeme => lexeme.print.toList) ++
              '\n' :: rest) openers indents lexeme ' ' (.inl rfl) hfaultless.1
          have hline := hfirst.trans (scans_blank.silent (ih (by simp) hfaultless.2))
          rw [List.map_cons, List.map_cons, List.intercalate_cons_cons, List.append_assoc,
            List.append_assoc]
          exact hline

/-- Every line of lexemes with well nested brackets is read back, whatever the width of a tab. -/
theorem tokenize_printLine (hne : lexemes ≠ []) (hnested : WellNested (bracketsOf lexemes))
    (config : RunConfig) :
    ∃ tokens, tokenize (printLine lexemes) config = .ok tokens ∧
      Respelled (fileTokens (lexemes.map Lexeme.token)) tokens := by
  obtain ⟨hfaultless, hopeners⟩ := hnested.faultless []
  have hline := @scans_lexemes [] [] [0] lexemes hne hfaultless
  rw [hopeners] at hline
  refine tokenize_line ?_ (toList_printLine lexemes) hline config
  obtain ⟨lexeme, more, rfl⟩ := List.exists_cons_of_ne_nil hne
  obtain ⟨c, behind, hc, hblank⟩ := lexeme.first
  exact ⟨c, _, by rw [List.map_cons, intercalate_cons, hc]; rfl, hblank⟩

theorem tokenize_printLine_call :
    ∃ tokens, tokenize (printLine [.name "f" (by decide +kernel), .symbol .leftParen "(" rfl,
        .string "\n", .symbol .powerAssign "**=" rfl, .integer 7 (by decide),
        .symbol .rightParen ")" rfl, .symbol .ifKeyword "if" rfl]) .default = .ok tokens ∧
      Respelled [.plain .indent .start, .identifier "f" .start, .plain .leftParen .start,
        .string "\n" .start, .plain .powerAssign .start, .integer 7 .start,
        .plain .rightParen .start, .plain .ifKeyword .start, .plain .newline .start,
        .plain .dedent .start, .plain .eof .start] tokens := by
  have hnested : WellNested ['(', ')'] := .enclose rfl .nil
  exact tokenize_printLine (by simp) (by simpa [bracketsOf, Lexeme.brackets, isBracket, isOpener,
    isCloser] using hnested) .default

end Offside.Scan
