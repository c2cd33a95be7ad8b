import Offside.Proofs.Scanning.Junction

/-!
# Programs behind each other

The statements of two programs are the statements of one, which its text shows: if a text that ends
its last line and another one are parsed without an error, so is the text of both, and its program has
the statements of the first one in front of those of the second.
-/

namespace Offside

namespace Grammar

/-! ## Statements -/

namespace Clause

def append : Clause .statements → Clause .statements → Clause .statements
  | .noStatement, back => back
  | .nextStatement first more, back => .nextStatement first (more.append back)

theorem tokens_append : (front back : Clause .statements) →
    (front.append back).tokens = front.tokens ++ back.tokens
  | .noStatement, back => by simp only [append, tokens, List.nil_append]
  | .nextStatement first more, back => by
      simp only [append, tokens, tokens_append more back, List.append_assoc]

theorem tree_append : (front back : Clause .statements) →
    (front.append back).tree = (front.tree : Block) ++ back.tree
  | .noStatement, back => by simp only [append, tree, List.nil_append]
  | .nextStatement first more, back => by
      simp only [append, tree, tree_append more back, List.cons_append]

theorem depth_append : (front back : Clause .statements) →
    (front.append back).depth = max front.depth back.depth
  | .noStatement, back => by simp only [append, depth, Nat.zero_max]
  | .nextStatement first more, back => by
      simp only [append, depth, depth_append more back, Nat.max_assoc]

end Clause

/-! ## Errors -/

theorem Phrase.kind_ne_error {symbol : Symbol} (phrase : Phrase symbol) :
    ∀ token ∈ phrase.tokens, token.kind ≠ .error := by
  apply forall_kinds (P := fun kind => kind ≠ .error) phrase
  · intro op
    cases op <;> decide
  · decide

theorem Heading.kind_ne_error (heading : Heading) :
    ∀ token ∈ heading.tokens, token.kind ≠ .error := by
  obtain ⟨keyword, name, opener, parameters?, closer, returnType?⟩ := heading
  simp only [tokens, List.forall_mem_append, List.forall_mem_cons]
  refine ⟨by simp [Token.plain], by simp [Identifier.token, Token.identifier], by simp [Token.plain],
    ?_, by simp [Token.plain], ?_⟩
  · cases parameters? with
    | none => simp [parameterTokens]
    | some names =>
        simp only [parameterTokens, NameList.tokens, List.forall_mem_cons, List.forall_mem_flatMap]
        simp [Identifier.token, Token.identifier, Token.plain]
  · cases returnType? <;> simp [typeTokens, Identifier.token, Token.identifier, Token.plain]

theorem Clause.kind_ne_error {construct : Construct} (clause : Clause construct) :
    ∀ token ∈ clause.tokens, token.kind ≠ .error := by
  induction clause with
  | noStatement | noAlternative => simp [tokens]
  | nextStatement first more ihFirst ihMore =>
      simp only [tokens, List.forall_mem_append]
      exact ⟨ihFirst, ihMore⟩
  | expression value line =>
      simp only [tokens, List.forall_mem_append]
      exact ⟨value.kind_ne_error, by simp [Token.plain]⟩
  | ret keyword value? line =>
      simp only [tokens, List.forall_mem_append, List.forall_mem_cons]
      refine ⟨by simp [Token.plain], ?_, by simp [Token.plain]⟩
      cases value? with
      | none => simp [valueTokens]
      | some value => exact value.kind_ne_error
  | record keyword name colon line opening fields closing =>
      simp only [tokens, colonLine, fieldTokens, List.forall_mem_append, List.forall_mem_cons,
        List.forall_mem_flatMap]
      simp [Token.plain, Identifier.token, Token.identifier]
  | function heading marker h position line body ih =>
      simp only [tokens, List.forall_mem_append, List.forall_mem_cons]
      refine ⟨heading.kind_ne_error, ?_, by simp [Token.plain], ih⟩
      rintro rfl
      simp [bodyMarkers] at h
  | loop keyword condition colon line body ih =>
      simp only [tokens, colonLine, List.forall_mem_append, List.forall_mem_cons]
      exact ⟨by simp [Token.plain], condition.kind_ne_error, by simp [Token.plain], ih⟩
  | conditional keyword chosen ih | elif keyword chosen ih =>
      simp only [tokens, List.forall_mem_cons]
      exact ⟨by simp [Token.plain], ih⟩
  | block opening body closing ih =>
      simp only [tokens, List.forall_mem_append, List.forall_mem_cons]
      exact ⟨by simp [Token.plain], ih, by simp [Token.plain]⟩
  | branch condition colon line body alternative ihBody ihAlternative =>
      simp only [tokens, colonLine, List.forall_mem_append, List.forall_mem_cons]
      exact ⟨condition.kind_ne_error, by simp [Token.plain], ihBody, ihAlternative⟩
  | otherwise keyword colon line body ih =>
      simp only [tokens, colonLine, List.forall_mem_append, List.forall_mem_cons]
      exact ⟨by simp [Token.plain], by simp [Token.plain], ih⟩

theorem Program.kind_ne_error (program : Program) :
    ∀ token ∈ program.tokens, token.kind ≠ .error := by
  simp only [tokens, List.forall_mem_append, List.forall_mem_cons]
  exact ⟨by simp [Token.plain], program.body.kind_ne_error, by simp [Token.plain]⟩

/-! ## Programs -/

def Program.join (front back : Program) : Program :=
  ⟨front.opening, front.body.append back.body, back.closing, back.last⟩

theorem Program.startsFlush {program : Program} {text : String} {tabWidth : UInt64}
    (h : (Scan.Scanner.ofText text tabWidth).outcomes = program.tokens.map .ok) :
    (Scan.Scanner.opened text tabWidth).StartsFlush := by
  obtain ⟨tail, htokens, hopened⟩ := Scan.Scanner.exists_tail_of_ofText h
  rw [tokens, List.cons.injEq] at htokens
  have hheads : Heads (fun kind => kind != .indent)
      (program.body.tokens ++ [.plain .dedent program.closing, .plain .eof program.last]) := by
    apply Heads.append
    · apply program.body.heads.weaken
      intro kind hkind
      cases kind <;> first | rfl | contradiction
    · simp [Token.plain]
  intro token htoken
  rw [hopened, List.head?_map, ← htokens.2] at htoken
  have hhead := hheads token (by simpa using htoken)
  simpa using hhead

end Grammar

open Grammar (Program Respelled)

variable {first second : String} {config : RunConfig}

/-- Two texts without errors, of which the first one ends its last line, make a text without errors.
Its tokens are those of the first one up to the end of the file, and those of the second one behind
its start; its block has the statements of both. -/
theorem parse_append {block block' : Block} (hfirst : first = "" ∨ ∃ front, first = front ++ "\n")
    (h : parse first config = .ok ⟨block, []⟩) (h' : parse second config = .ok ⟨block', []⟩) :
    (∃ both, parse (first ++ second) config = .ok ⟨both, []⟩ ∧
        Block.bare both = Block.bare (block ++ block')) ∧
      ∃ front closing last opening back tokens,
        tokenize first config = .ok (front ++ [.plain .dedent closing, .plain .eof last]) ∧
        tokenize second config = .ok (.plain .indent opening :: back) ∧
        tokenize (first ++ second) config = .ok tokens ∧ Respelled (front ++ back) tokens := by
  obtain ⟨program, rfl, htokens, hdepth⟩ := parse_eq_ok.1 h
  obtain ⟨program', rfl, htokens', hdepth'⟩ := parse_eq_ok.1 h'
  obtain ⟨front, closing, last, opening, back, tokens, hfront, hback, hboth, hspelled⟩ :=
    Scan.Scanner.exists_tokens_append hfirst htokens htokens' program.kind_ne_error
      (Program.startsFlush htokens')
  refine ⟨?_, front, closing, last, opening, back, tokens, ?_, ?_, tokenize_eq_ok.2 hboth,
    hspelled⟩
  · have hjoin : (program.join program').tokens = front ++ back := by
      rw [Program.tokens, List.cons.injEq] at hback
      rw [Program.tokens, Program.join, Grammar.Clause.tokens_append, ← hback.2]
      have hinside : front = .plain .indent program.opening :: program.body.tokens := by
        rw [Program.tokens, ← List.cons_append] at hfront
        exact (List.append_inj_left' hfront rfl).symm
      rw [hinside]
      simp
    obtain ⟨both, hbothTokens, htree, hbothDepth⟩ :=
      (program.join program').exists_respelled (hjoin ▸ hspelled)
    refine ⟨both.tree, parse_eq_ok.2 ⟨both, rfl, by rw [hbothTokens, hboth], ?_⟩, ?_⟩
    · rw [Program.depth, hbothDepth, Program.join, Grammar.Clause.depth_append]
      exact Nat.max_le.2 ⟨hdepth, hdepth'⟩
    · rw [htree, Program.tree, Program.join, Grammar.Clause.tree_append]
      rfl
  · rw [tokenize_eq_ok, htokens, hfront]
  · rw [tokenize_eq_ok, htokens', hback]

/-- A block that is still open where the second text begins. -/
theorem parse_append_loop :
    ∃ block block' both, parse "while x:\n  y\n" .default = .ok ⟨block, []⟩ ∧
      parse "\nreturn" .default = .ok ⟨block', []⟩ ∧
      parse ("while x:\n  y\n" ++ "\nreturn") .default = .ok ⟨both, []⟩ ∧
      Block.bare both = Block.bare (block ++ block') := by
  obtain ⟨block, hblock⟩ := @exists_block_of_isClean "while x:\n  y\n" .default (by decide +kernel)
  obtain ⟨block', hblock'⟩ := @exists_block_of_isClean "\nreturn" .default (by decide +kernel)
  obtain ⟨⟨both, hboth, htree⟩, -⟩ := parse_append (.inr ⟨"while x:\n  y", rfl⟩) hblock hblock'
  exact ⟨block, block', both, hblock, hblock', hboth, htree⟩

end Offside
