import Offside.FrontEnd
import Offside.Proofs.Grammar.Acceptance
import Offside.Proofs.Grammar.Bare
import Offside.Proofs.Scanning.Balance
import Offside.Proofs.Scanning.Displacement

/-!
# Texts and their programs

A text has tokens if none of its outcomes is a failure, and it is parsed without an error exactly if
its tokens are those of a program that is not nested too deeply.
-/

namespace Offside

open Grammar (Program)
open Parse

/-! ## Tokens of a text -/

namespace Scan.Scanner

variable {scanner : Scanner}

private theorem mapM_cons_ok (token : Token) (items : List Item) :
    (Except.ok token :: items).mapM id = (items.mapM id).map (token :: ·) := by
  rw [List.mapM_cons]
  cases items.mapM id <;> rfl

theorem tokens_eq_ok {tokens : List Token} :
    scanner.tokens = .ok tokens ↔ scanner.outcomes = tokens.map .ok := by
  unfold Scanner.tokens
  generalize scanner.outcomes = items
  induction items generalizing tokens with
  | nil => cases tokens <;> simp [pure, Except.pure]
  | cons item items ih =>
      cases item with
      | error failure => cases tokens <;> simp [List.mapM_cons, bind, Except.bind]
      | ok token =>
          rw [mapM_cons_ok]
          cases tokens with
          | nil => cases items.mapM id <;> simp [Except.map]
          | cons first tokens =>
              rw [List.map_cons, List.cons.injEq, ← ih, Except.ok.injEq]
              cases items.mapM id <;> simp [Except.map]

theorem tokens_eq_error {failure : LexFailure} :
    scanner.tokens = .error failure ↔
      ∃ (tokens : List Token) (behind : List Item),
        scanner.outcomes = tokens.map .ok ++ .error failure :: behind := by
  unfold Scanner.tokens
  generalize scanner.outcomes = items
  induction items with
  | nil => simp [pure, Except.pure]
  | cons item items ih =>
      cases item with
      | error first =>
          constructor
          · intro h
            cases h
            exact ⟨[], items, rfl⟩
          · rintro ⟨tokens, behind, h⟩
            cases tokens with
            | nil =>
                cases h
                rfl
            | cons token tokens => simp at h
      | ok token =>
          rw [mapM_cons_ok]
          constructor
          · intro h
            have htail : items.mapM id = .error failure := by
              cases hitems : items.mapM id with
              | error reason =>
                  rw [hitems] at h
                  exact congrArg _ (Except.error.inj h)
              | ok tokens =>
                  rw [hitems] at h
                  cases h
            obtain ⟨tokens, behind, rfl⟩ := ih.1 htail
            exact ⟨token :: tokens, behind, rfl⟩
          · rintro ⟨tokens, behind, h⟩
            cases tokens with
            | nil => simp at h
            | cons first tokens =>
                rw [List.map_cons, List.cons_append, List.cons.injEq] at h
                rw [ih.2 ⟨tokens, behind, h.2⟩]
                rfl

end Scan.Scanner

theorem mapError_eq_ok {α ε ε' : Type} {change : ε → ε'} {result : Except ε α} {value : α} :
    result.mapError change = .ok value ↔ result = .ok value := by
  cases result with
  | ok first => exact ⟨fun h => congrArg Except.ok (Except.ok.inj h),
      fun h => congrArg Except.ok (Except.ok.inj h)⟩
  | error reason => exact ⟨fun h => (nomatch h), fun h => (nomatch h)⟩

theorem mapError_eq_error {α ε ε' : Type} {change : ε → ε'} {result : Except ε α} {reason' : ε'} :
    result.mapError change = .error reason' ↔
      ∃ reason, result = .error reason ∧ change reason = reason' := by
  cases result with
  | ok first => exact ⟨fun h => (nomatch h), fun ⟨_, h, _⟩ => (nomatch h)⟩
  | error reason =>
      constructor
      · intro h
        exact ⟨reason, rfl, Except.error.inj h⟩
      · rintro ⟨_, ⟨⟩, rfl⟩
        rfl

variable {text : String} {config : RunConfig}

theorem tokenize_eq_ok {tokens : List Token} :
    tokenize text config = .ok tokens ↔
      (Scan.Scanner.ofText text config.tabWidth).outcomes = tokens.map .ok := by
  rw [← Scan.Scanner.tokens_eq_ok, tokenize, mapError_eq_ok]

theorem tokenize_eq_error {failure : LexFailure} :
    tokenize text config = .error (.lexer failure) ↔
      ∃ (tokens : List Token) (behind : List Item),
        (Scan.Scanner.ofText text config.tabWidth).outcomes =
          tokens.map .ok ++ .error failure :: behind := by
  rw [← Scan.Scanner.tokens_eq_error, tokenize, mapError_eq_error]
  simp

theorem Parse.Closes.isMismatch {items : List Item} {openBlocks : Nat} (h : Closes items openBlocks)
    {tokens : List Token} {failure : LexFailure} {behind : List Item}
    (hitems : items = tokens.map .ok ++ .error failure :: behind) : failure.IsMismatch := by
  induction tokens generalizing items openBlocks with
  | nil =>
      subst hitems
      exact h.2
  | cons token tokens ih =>
      subst hitems
      by_cases hkind : token.kind = .eof
      · have hrest := (h.eof hkind).2
        simp at hrest
      · exact ih (h.tail hkind).2 rfl

theorem tokenize_cases (text : String) (config : RunConfig) :
    (∃ tokens, tokenize text config = .ok tokens) ∨
      ∃ width levels position,
        tokenize text config = .error (.lexer (.mismatchedIndent width levels position)) := by
  cases htokens : (Scan.Scanner.ofText text config.tabWidth).tokens with
  | ok tokens => exact .inl ⟨tokens, by rw [tokenize, htokens]; rfl⟩
  | error failure =>
      obtain ⟨tokens, behind, houtcomes⟩ := Scan.Scanner.tokens_eq_error.1 htokens
      obtain ⟨items, hitems, hcloses⟩ := Scan.Scanner.outcomes_ofText text config.tabWidth
      rw [houtcomes] at hitems
      cases tokens with
      | nil => simp at hitems
      | cons token tokens =>
          rw [List.map_cons, List.cons_append, List.cons.injEq] at hitems
          obtain ⟨width, levels, position, rfl⟩ := hcloses.isMismatch hitems.2.symm
          exact .inr ⟨width, levels, position, by rw [tokenize, htokens]; rfl⟩

/-! ## Tokens further down -/

namespace Parse

theorem exists_tokens_of_map_item {down : Displacement} {items : List Item} {tokens : List Token}
    (h : items.map down.item = tokens.map .ok) :
    ∃ tokens' : List Token, items = tokens'.map .ok ∧ tokens = tokens'.map down.token := by
  induction items generalizing tokens with
  | nil => exact ⟨[], rfl, by simpa using h.symm⟩
  | cons item items ih =>
      cases tokens with
      | nil => simp at h
      | cons token tokens =>
          simp only [List.map_cons, List.cons.injEq] at h
          obtain ⟨tokens', rfl, rfl⟩ := ih h.2
          cases item with
          | error failure => simp [Displacement.item] at h
          | ok first =>
              obtain rfl : down.token first = token := by simpa [Displacement.item] using h.1
              exact ⟨first :: tokens', rfl, rfl⟩

theorem map_item_tokens (down : Displacement) (tokens : List Token) :
    (tokens.map .ok).map down.item = (tokens.map down.token).map .ok := by
  simp [Displacement.item, Function.comp_def]

theorem respelled_map_token (down down' : Displacement) (tokens : List Token) :
    Grammar.Respelled (tokens.map down.token) (tokens.map down'.token) := by
  simp [Grammar.Respelled, Function.comp_def, Token.bare, Displacement.token]

end Parse

/-! ## Programs of a text -/

theorem Parse.Closes.eq_of_untilEof {items : List Item} {tokens : List Token} {openBlocks : Nat}
    (h : Closes items openBlocks) (htokens : Parse.untilEof items = tokens.map .ok) :
    items = tokens.map .ok := by
  induction items generalizing tokens openBlocks with
  | nil => exact htokens
  | cons item items ih =>
      cases item with
      | error failure => cases tokens <;> simp [Parse.untilEof] at htokens
      | ok token =>
          by_cases hkind : token.kind = .eof
          · obtain ⟨-, rfl⟩ := h.eof hkind
            rwa [Parse.untilEof, if_pos hkind] at htokens
          · rw [Parse.untilEof, if_neg hkind] at htokens
            cases tokens with
            | nil => simp at htokens
            | cons first tokens =>
                rw [List.map_cons, List.cons.injEq] at htokens
                rw [List.map_cons, htokens.1, ih (h.tail hkind).2 htokens.2]

theorem Parse.Closes.untilEof_tokens {tokens : List Token} {openBlocks : Nat}
    (h : Closes (tokens.map .ok) openBlocks) :
    Parse.untilEof (tokens.map .ok) = tokens.map .ok := by
  induction tokens generalizing openBlocks with
  | nil => rfl
  | cons token tokens ih =>
      by_cases hkind : token.kind = .eof
      · obtain ⟨-, hnil⟩ := h.eof hkind
        rw [List.map_cons, Parse.untilEof, if_pos hkind, hnil]
      · rw [List.map_cons, Parse.untilEof, if_neg hkind, ih (h.tail hkind).2]

theorem parsed_of_parse {parsed : Parsed} (h : parse text config = .ok parsed) :
    (parseStream (.ofText text config.tabWidth) config.parser).parsed = .ok parsed := by
  rwa [parse, parseText, mapError_eq_ok] at h

theorem exists_block_of_isClean
    (h : ((parse text config).toOption.any Parsed.isClean) = true) :
    ∃ block, parse text config = .ok ⟨block, []⟩ := by
  cases hparse : parse text config with
  | error failure => simp [hparse, Except.toOption] at h
  | ok parsed =>
      obtain ⟨block, errors⟩ := parsed
      obtain rfl : errors = [] := by
        simpa [hparse, Except.toOption, Parsed.isClean] using h
      exact ⟨block, rfl⟩

theorem exists_program_of_parse {block : Block} (h : parse text config = .ok ⟨block, []⟩) :
    ∃ program : Program, program.tree = block ∧
      untilEof (Scan.TokenStream.ofText text config.tabWidth).items = program.tokens.map .ok ∧
      program.depth ≤ config.parser.maxDepth := by
  apply exists_program_of_parsed
  · intro token htoken
    exact Scan.Scanner.faithful_of_mem_outcomes _ token (mem_of_mem_untilEof htoken)
  · exact parsed_of_parse h

theorem parse_eq_ok {block : Block} :
    parse text config = .ok ⟨block, []⟩ ↔
      ∃ program : Program, program.tree = block ∧
        (Scan.Scanner.ofText text config.tabWidth).outcomes = program.tokens.map .ok ∧
        program.depth ≤ config.parser.maxDepth := by
  obtain ⟨items, hitems, hcloses⟩ := Scan.Scanner.outcomes_ofText text config.tabWidth
  constructor
  · intro h
    obtain ⟨program, htree, htokens, hdepth⟩ := exists_program_of_parse h
    refine ⟨program, htree, ?_, hdepth⟩
    have hstream : (Scan.TokenStream.ofText text config.tabWidth).items = _ := hitems
    rw [hstream, untilEof_of_indent, Program.tokens, List.map_cons, List.cons.injEq] at htokens
    rw [hitems, Program.tokens, List.map_cons, ← htokens.1, hcloses.eq_of_untilEof htokens.2]
  · rintro ⟨program, rfl, htokens, hdepth⟩
    have hbehind : untilEof (Scan.TokenStream.ofText text config.tabWidth).items =
        program.tokens.map .ok := by
      have hstream : (Scan.TokenStream.ofText text config.tabWidth).items =
          program.tokens.map .ok := htokens
      rw [hitems, Program.tokens, List.map_cons, List.cons.injEq] at htokens
      rw [htokens.2] at hcloses
      rw [hstream, Program.tokens, List.map_cons, untilEof_of_indent, hcloses.untilEof_tokens]
    unfold parse parseText
    rw [parsed_of_program program hbehind hdepth]
    rfl

end Offside
