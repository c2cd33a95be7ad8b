import Offside.Proofs.Parsing.SameOutcomes
import Offside.Proofs.Scanning.BlankLine
import Offside.Proofs.Scanning.LastLine

/-!
# Blank lines do not change a program

A blank line more in front of a line, or at the start or the end of a text, changes neither the tokens
nor the program nor the errors of the text, up to positions.  A line break more at its end changes no
kind of token: only an unclosed string literal on the last line is then reported as running into the
line break.
-/

namespace Offside

open Grammar (Respelled)
open Parse (Item)
open Scan (kindsOf)

namespace Scan

theorem kindsOf_failure (tokens : List Token) (failure : LexFailure) (behind : List Item) :
    kindsOf (tokens.map .ok ++ .error failure :: behind) =
      tokens.map (fun token => .ok token.kind) ++ [.error failure.bare] := by
  induction tokens with
  | nil => rfl
  | cons token tokens ih =>
      rw [List.map_cons, List.cons_append, kindsOf, ih, List.map_cons, List.cons_append]

end Scan

variable {text text' : String} {config : RunConfig}

theorem kindsOf_of_tokenize_ok {tokens : List Token} (h : tokenize text config = .ok tokens) :
    kindsOf (Scan.Scanner.ofText text config.tabWidth).outcomes =
      tokens.map fun token => .ok token.kind := by
  rw [tokenize_eq_ok.1 h, Scan.kindsOf_tokens]

theorem exists_kindsOf_of_tokenize_error {failure : LexFailure}
    (h : tokenize text config = .error (.lexer failure)) :
    ∃ tokens : List Token, kindsOf (Scan.Scanner.ofText text config.tabWidth).outcomes =
      tokens.map (fun token => .ok token.kind) ++ [.error failure.bare] := by
  obtain ⟨tokens, behind, houtcomes⟩ := tokenize_eq_error.1 h
  exact ⟨tokens, by rw [houtcomes, Scan.kindsOf_failure]⟩

/-- Texts with tokens of the same kinds have the same number of tokens, or both fail at a line of the
same width. -/
theorem tokenize_kinds
    (h : kindsOf (Scan.Scanner.ofText text' config.tabWidth).outcomes =
      kindsOf (Scan.Scanner.ofText text config.tabWidth).outcomes) :
    (∃ tokens tokens', tokenize text config = .ok tokens ∧ tokenize text' config = .ok tokens' ∧
      tokens'.map Token.kind = tokens.map Token.kind) ∨
    ∃ width levels position position',
      tokenize text config = .error (.lexer (.mismatchedIndent width levels position)) ∧
      tokenize text' config = .error (.lexer (.mismatchedIndent width levels position')) := by
  have hmixed : ∀ (tokens tokens' : List Token) (failure : LexFailure),
      (tokens.map fun token => Except.ok token.kind) ≠
        tokens'.map (fun token => .ok token.kind) ++ [.error failure] := by
    intro tokens tokens' failure hkinds
    have hmem : Except.error failure ∈ tokens.map fun token => Except.ok token.kind := by
      rw [hkinds]
      simp
    simp at hmem
  rcases tokenize_cases text config with ⟨tokens, htokens⟩ | ⟨width, levels, position, hfailure⟩
  · rw [kindsOf_of_tokenize_ok htokens] at h
    rcases tokenize_cases text' config with ⟨tokens', htokens'⟩ | ⟨_, _, _, hfailure'⟩
    · rw [kindsOf_of_tokenize_ok htokens'] at h
      have hkinds := congrArg (List.map Except.toOption) h
      simp only [List.map_map, Function.comp_def, Except.toOption] at hkinds
      refine .inl ⟨tokens, tokens', htokens, htokens', ?_⟩
      apply (List.map_inj_right fun _ _ => Option.some.inj).1
      simpa only [List.map_map, Function.comp_def] using hkinds
    · obtain ⟨front', hfront'⟩ := exists_kindsOf_of_tokenize_error hfailure'
      rw [hfront'] at h
      exact absurd h.symm (hmixed _ _ _)
  · obtain ⟨front, hfront⟩ := exists_kindsOf_of_tokenize_error hfailure
    rw [hfront] at h
    rcases tokenize_cases text' config with ⟨tokens', htokens'⟩ | ⟨_, _, _, hfailure'⟩
    · rw [kindsOf_of_tokenize_ok htokens'] at h
      exact absurd h (hmixed _ _ _)
    · obtain ⟨front', hfront'⟩ := exists_kindsOf_of_tokenize_error hfailure'
      rw [hfront'] at h
      have hlast := congrArg List.getLast? h
      simp only [List.getLast?_append, List.getLast?_singleton, Option.some_or, Option.some.injEq,
        Except.error.injEq] at hlast
      obtain ⟨position', hmismatch⟩ := LexFailure.eq_mismatchedIndent_of_bare hlast
      rw [hmismatch] at hfailure'
      exact .inr ⟨width, levels, position, position', hfailure, hfailure'⟩

/-- A blank line in front of any line of a text, or of its end, changes nothing but positions, and a
line break at the end of the text changes no kind of token. -/
theorem parse_blankLines (config : RunConfig) :
    (∀ first blanks second : String, (first = "" ∨ ∃ front, first = front ++ "\n") →
      (∀ c ∈ blanks.toList, Text.isBlank c = true ∧ c ≠ '\n' ∧ c ≠ '\r') →
      ((∃ tokens tokens', tokenize (first ++ second) config = .ok tokens ∧
          tokenize (first ++ blanks ++ "\n" ++ second) config = .ok tokens' ∧
          Respelled tokens tokens') ∨
        ∃ width levels position position',
          tokenize (first ++ second) config =
            .error (.lexer (.mismatchedIndent width levels position)) ∧
          tokenize (first ++ blanks ++ "\n" ++ second) config =
            .error (.lexer (.mismatchedIndent width levels position'))) ∧
      ((∃ parsed parsed', parse (first ++ second) config = .ok parsed ∧
          parse (first ++ blanks ++ "\n" ++ second) config = .ok parsed' ∧
          Block.bare parsed'.block = Block.bare parsed.block ∧
          parsed'.errors.map Parse.Error.bare = parsed.errors.map Parse.Error.bare) ∨
        ∃ failure failure', parse (first ++ second) config = .error failure ∧
          parse (first ++ blanks ++ "\n" ++ second) config = .error failure' ∧
          failure'.bare = failure.bare)) ∧
    ∀ text : String,
      (∃ tokens tokens', tokenize text config = .ok tokens ∧
        tokenize (text ++ "\n") config = .ok tokens' ∧
        tokens'.map Token.kind = tokens.map Token.kind) ∨
      ∃ width levels position position',
        tokenize text config = .error (.lexer (.mismatchedIndent width levels position)) ∧
        tokenize (text ++ "\n") config =
          .error (.lexer (.mismatchedIndent width levels position')) := by
  refine ⟨fun first blanks second hfirst hblanks => ?_, fun text => ?_⟩
  · have hsame := @Scan.Scanner.outcomes_blankLine first blanks second config.tabWidth hfirst hblanks
    exact ⟨tokenize_alike hsame, parse_alike hsame⟩
  · exact tokenize_kinds (Scan.Scanner.kindsOf_outcomes_append text config.tabWidth)

/-- A blank line in front of a line that gives up brackets, and an unclosed string literal on the last
line. -/
theorem parse_blankLines_brackets :
    ((∃ parsed parsed', parse "f(\nreturn 1\n" .default = .ok parsed ∧
        parse "f(\n \t\nreturn 1\n" .default = .ok parsed' ∧
        Block.bare parsed'.block = Block.bare parsed.block ∧
        parsed'.errors.map Parse.Error.bare = parsed.errors.map Parse.Error.bare)) ∧
      ∃ tokens tokens', tokenize "x = \"a" .default = .ok tokens ∧
        tokenize "x = \"a\n" .default = .ok tokens' ∧
        tokens'.map Token.kind = tokens.map Token.kind := by
  obtain ⟨hblank, hbreak⟩ := parse_blankLines .default
  have hok : (parse "f(\nreturn 1\n" .default).isOk = true := by decide +kernel
  have hok' : (tokenize "x = \"a" .default).isOk = true := by decide +kernel
  constructor
  · have hblanks : ∀ c ∈ " \t".toList, Text.isBlank c = true ∧ c ≠ '\n' ∧ c ≠ '\r' := by
      simp [Text.isBlank, Text.blankRanges]
    rcases (hblank "f(\n" " \t" "return 1\n" (.inr ⟨"f(", rfl⟩) hblanks).2 with
      hparsed | ⟨failure, failure', hfailure, -⟩
    · exact hparsed
    · rw [show "f(\n" ++ "return 1\n" = "f(\nreturn 1\n" from rfl] at hfailure
      rw [hfailure] at hok
      exact absurd hok Bool.false_ne_true
  · rcases hbreak "x = \"a" with htokens | ⟨_, _, _, _, hfailure, -⟩
    · exact htokens
    · rw [hfailure] at hok'
      exact absurd hok' Bool.false_ne_true

end Offside
