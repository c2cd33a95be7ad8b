import Offside.Proofs.Parsing.SameOutcomes
import Offside.Proofs.Scanning.LineFeeds

/-!
# Line endings do not change a program

A text and the same text with a line feed for every line break have the same tokens or fail at a line
of the same width, and so they have the same program and the same errors, all up to positions.
-/

namespace Offside

open Grammar (Respelled)

/-- The text with a line feed for every line break. -/
def withLineFeeds (text : String) : String := String.ofList (Text.lineFed text.toList)

/-- The line endings of a text change neither its tokens nor its program nor its errors: not even a
lone carriage return within brackets, which the look at the next line takes for a blank. -/
theorem parse_withLineFeeds (text : String) (config : RunConfig)
    (h : config.tabWidth.toNat * text.toList.count '\t' + text.toList.count ' ' < 2 ^ 64) :
    ((∃ tokens tokens', tokenize text config = .ok tokens ∧
        tokenize (withLineFeeds text) config = .ok tokens' ∧ Respelled tokens tokens') ∨
      ∃ width levels position position',
        tokenize text config = .error (.lexer (.mismatchedIndent width levels position)) ∧
        tokenize (withLineFeeds text) config =
          .error (.lexer (.mismatchedIndent width levels position'))) ∧
    ((∃ parsed parsed', parse text config = .ok parsed ∧
        parse (withLineFeeds text) config = .ok parsed' ∧
        Block.bare parsed'.block = Block.bare parsed.block ∧
        parsed'.errors.map Parse.Error.bare = parsed.errors.map Parse.Error.bare) ∨
      ∃ failure failure', parse text config = .error failure ∧
        parse (withLineFeeds text) config = .error failure' ∧ failure'.bare = failure.bare) := by
  have hsame := Scan.Scanner.outcomes_lineFed h
  exact ⟨tokenize_alike hsame, parse_alike hsame⟩

/-- A bracket that is given up in front of a blank line or behind it. -/
theorem parse_withLineFeeds_brackets :
    withLineFeeds "f(\r\rreturn 1\r\n" = "f(\n\nreturn 1\n" ∧
      ∃ parsed parsed', parse "f(\r\rreturn 1\r\n" .default = .ok parsed ∧
        parse "f(\n\nreturn 1\n" .default = .ok parsed' ∧
        Block.bare parsed'.block = Block.bare parsed.block ∧
        parsed'.errors.map Parse.Error.bare = parsed.errors.map Parse.Error.bare := by
  have hfeeds : withLineFeeds "f(\r\rreturn 1\r\n" = "f(\n\nreturn 1\n" := by decide +kernel
  have hok : (parse "f(\r\rreturn 1\r\n" .default).isOk = true := by decide +kernel
  obtain ⟨-, hparsed⟩ := parse_withLineFeeds "f(\r\rreturn 1\r\n" .default (by decide +kernel)
  rw [hfeeds] at hparsed
  rcases hparsed with hparsed | ⟨failure, failure', hfailure, -⟩
  · exact ⟨hfeeds, hparsed⟩
  · rw [hfailure] at hok
    contradiction

end Offside
