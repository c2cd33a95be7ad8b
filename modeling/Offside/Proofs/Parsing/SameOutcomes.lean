import Offside.Proofs.Grammar.Source
import Offside.Proofs.Parsing.Positions

/-!
# Texts with the same outcomes up to places

Two texts whose scanners give the same up to places have the same tokens or fail at a line of the same
width, and so they have the same program and the same errors, all up to positions.
-/

namespace Offside

open Grammar (Respelled)
open Parse (bareResult Item Parsed)
open Scan (bareItem)

def Failure.bare : Failure → Failure
  | .lexer failure => .lexer failure.bare
  | .parser error => .parser error.bare
  | failure => failure

theorem Failure.bare_ofParser {error error' : Parse.Error} (h : error'.bare = error.bare) :
    (ofParser error').bare = (ofParser error).bare := by
  have hbare : ∀ error : Parse.Error, (ofParser error).bare = ofParser error.bare := by
    rintro ⟨cause, position⟩
    cases cause <;> rfl
  rw [hbare, hbare, h]

/-! ## Tokens -/

/-- Outcomes that are the same up to positions are tokens on both sides, or end with the same
failure. -/
theorem Scan.exists_failure_of_bareItem {items : List Item} {tokens : List Token}
    {failure : LexFailure} {behind : List Item}
    (h : items.map bareItem =
      ((tokens.map .ok ++ .error failure :: behind : List Item)).map bareItem) :
    ∃ (tokens' : List Token) (failure' : LexFailure) (behind' : List Item),
      items = tokens'.map .ok ++ .error failure' :: behind' ∧ failure'.bare = failure.bare := by
  rw [List.map_append, List.map_cons, List.map_eq_append_iff] at h
  obtain ⟨front, rest, rfl, hfront, hrest⟩ := h
  obtain ⟨item, behind', rfl, hitem, -⟩ := List.map_eq_cons_iff.1 hrest
  obtain ⟨tokens', rfl, -⟩ := exists_tokens_of_bareItem hfront
  rcases Parse.bareItem_cases hitem with ⟨_, _, htoken, -⟩ | ⟨_, failure', hfailure, rfl, hbare⟩
  · contradiction
  · cases hfailure
    exact ⟨tokens', failure', behind', rfl, hbare⟩

theorem LexFailure.eq_mismatchedIndent_of_bare {failure : LexFailure} {width : UInt64}
    {levels : List UInt64} {position : Text.Position}
    (h : failure.bare = (mismatchedIndent width levels position).bare) :
    ∃ position', failure = .mismatchedIndent width levels position' := by
  cases failure with
  | pastEndOfInput position' => contradiction
  | mismatchedIndent width' levels' position' =>
      simp only [bare, mismatchedIndent.injEq] at h
      obtain ⟨rfl, rfl, -⟩ := h
      exact ⟨position', rfl⟩

variable {text text' : String} {config : RunConfig}
  (h : (Scan.Scanner.ofText text' config.tabWidth).outcomes.map bareItem =
    (Scan.Scanner.ofText text config.tabWidth).outcomes.map bareItem)
include h

theorem tokenize_alike :
    (∃ tokens tokens', tokenize text config = .ok tokens ∧ tokenize text' config = .ok tokens' ∧
      Respelled tokens tokens') ∨
    ∃ width levels position position',
      tokenize text config = .error (.lexer (.mismatchedIndent width levels position)) ∧
      tokenize text' config = .error (.lexer (.mismatchedIndent width levels position')) := by
  rcases tokenize_cases text config with ⟨tokens, htokens⟩ | ⟨width, levels, position, hfailure⟩
  · rw [tokenize_eq_ok.1 htokens] at h
    obtain ⟨tokens', htokens', hrespelled⟩ := Scan.exists_tokens_of_bareItem h
    exact .inl ⟨tokens, tokens', htokens, tokenize_eq_ok.2 htokens', hrespelled⟩
  · obtain ⟨tokens, behind, houtcomes⟩ := tokenize_eq_error.1 hfailure
    rw [houtcomes] at h
    obtain ⟨tokens', failure', behind', houtcomes', hbare⟩ := Scan.exists_failure_of_bareItem h
    obtain ⟨position', rfl⟩ := LexFailure.eq_mismatchedIndent_of_bare hbare
    exact .inr ⟨_, _, _, _, hfailure, tokenize_eq_error.2 ⟨tokens', behind', houtcomes'⟩⟩

/-! ## Programs -/

theorem parse_alike :
    (∃ parsed parsed', parse text config = .ok parsed ∧ parse text' config = .ok parsed' ∧
      Block.bare parsed'.block = Block.bare parsed.block ∧
      parsed'.errors.map Parse.Error.bare = parsed.errors.map Parse.Error.bare) ∨
    ∃ failure failure', parse text config = .error failure ∧ parse text' config = .error failure' ∧
      failure'.bare = failure.bare := by
  have hsame := @Parse.parsed_alike (.ofText text config.tabWidth) (.ofText text' config.tabWidth) h
    config.parser
  unfold parse parseText
  generalize (Parse.parseStream (.ofText text config.tabWidth) config.parser).parsed = result at *
  generalize (Parse.parseStream (.ofText text' config.tabWidth) config.parser).parsed = result' at *
  cases result <;> cases result' <;>
    simp only [bareResult, Except.ok.injEq, Except.error.injEq,
      reduceCtorEq, Parsed.bare, Parsed.mk.injEq] at hsame
  · exact .inr ⟨_, _, rfl, rfl, Failure.bare_ofParser hsame⟩
  · exact .inl ⟨_, _, rfl, rfl, hsame.1, hsame.2⟩

end Offside
