import Offside.Proofs.Parsing.SameOutcomes
import Offside.Proofs.Scanning.LineJoining

/-!
# Line breaks within brackets are blanks

A line break that is joined within brackets may be written as a space: the tokens of the text stay the
same up to positions.
-/

namespace Offside

open Grammar (Respelled)

/-- A space instead of a line break that the scanner skips within brackets changes no token. -/
theorem tokenize_joinedLine (front back : String) (config : RunConfig)
    (hreturn : '\r' ∉ (front ++ "\n" ++ back).toList)
    (hwidth : config.tabWidth.toNat * (front ++ "\n" ++ back).toList.count '\t' +
      (front ++ "\n" ++ back).toList.count ' ' + (front ++ "\n" ++ back).toList.count '\n' < 2 ^ 64)
    (hjoins : (Scan.Scanner.ofText (front ++ "\n" ++ back) config.tabWidth).Joins back.toList) :
    (∃ tokens tokens', tokenize (front ++ "\n" ++ back) config = .ok tokens ∧
      tokenize (front ++ " " ++ back) config = .ok tokens' ∧ Respelled tokens tokens') ∨
    ∃ width levels position position',
      tokenize (front ++ "\n" ++ back) config =
        .error (.lexer (.mismatchedIndent width levels position)) ∧
      tokenize (front ++ " " ++ back) config =
        .error (.lexer (.mismatchedIndent width levels position')) := by
  have hfront : '\r' ∉ front.toList := fun hmem => hreturn (by simp [hmem])
  have hnarrow : Scan.Narrow config.tabWidth (front ++ " " ++ back).toList := by
    have htab : " ".toList.count '\t' = 0 ∧ "\n".toList.count '\t' = 0 := by decide
    have hspace : " ".toList.count ' ' = 1 ∧ "\n".toList.count ' ' = 0 := by decide
    have hfeed : "\n".toList.count '\n' = 1 := by decide
    simp only [String.toList_append, List.count_append, htab, hspace, hfeed, Nat.add_zero]
      at hwidth
    unfold Scan.Narrow
    simp only [String.toList_append, List.count_append, htab, hspace, Nat.add_zero]
    omega
  exact tokenize_alike (Scan.Scanner.outcomes_joinedLine hfront hnarrow hjoins)

/-- A call over two lines. -/
theorem tokenize_joinedLine_call :
    ∃ tokens tokens', tokenize "f(\nx)" .default = .ok tokens ∧
      tokenize "f( x)" .default = .ok tokens' ∧ Respelled tokens tokens' := by
  have hjoins : (Scan.Scanner.ofText ("f(" ++ "\n" ++ "x)") RunConfig.default.tabWidth).Joins
      "x)".toList := by
    iterate 6 refine .later (by decide +kernel) ?_
    exact .here (by decide +kernel) (by decide +kernel) (by decide +kernel) (by decide +kernel)
  have hok : (tokenize ("f(" ++ "\n" ++ "x)") .default).isOk = true := by decide +kernel
  rcases tokenize_joinedLine "f(" "x)" .default (by decide +kernel) (by decide +kernel) hjoins with
    htokens | ⟨_, _, _, _, hfailure, -⟩
  · exact htokens
  · rw [hfailure] at hok
    contradiction

end Offside
