import Offside.Proofs.Grammar.ClauseCompleteness
import Offside.Proofs.Grammar.Unambiguity
import Offside.Proofs.Parsing.Run

/-!
# The parser accepts the programs of the grammar

A stream is parsed without an error exactly if its tokens are those of a program that is not nested
deeper than the limit, and the result is the tree of this program.  No program is nested deeper than
it has tokens.
-/

namespace Offside

open Grammar (Clause Phrase Program)
open Scan (TokenStream)

/-! ## Depths -/

namespace Grammar

def Symbol.margin : Symbol → Nat
  | .level _ => 1
  | _ => 0

theorem Phrase.depth_le {symbol : Symbol} (phrase : Phrase symbol) :
    phrase.depth + symbol.margin ≤ phrase.tokens.length := by
  induction phrase with
  | whole | operand | negation | sign | literal | identifier | parenthesized | noSuffix | field
  | noArgument | lastArgument =>
      simp only [depth, tokens, Symbol.margin, List.length_cons, List.length_append,
        List.length_nil] at *
      omega
  | binary | chain | call | subscript | firstArgument | nextArgument =>
      simp only [depth, tokens, Symbol.margin, List.length_cons, List.length_append] at *
      omega

theorem Clause.depth_le {construct : Construct} (clause : Clause construct) :
    clause.depth ≤ clause.tokens.length := by
  induction clause with
  | noStatement | noAlternative | record => exact Nat.zero_le _
  | nextStatement | block | elif | conditional | otherwise | function =>
      simp only [depth, tokens, List.length_cons, List.length_append] at *
      omega
  | expression value =>
      have hvalue := value.depth_le
      simp only [depth, tokens, List.length_append, Symbol.margin] at *
      omega
  | ret keyword value? line =>
      cases value? with
      | none => exact Nat.zero_le _
      | some value =>
          have hvalue := value.depth_le
          simp only [depth, tokens, valueDepth, valueTokens, List.length_cons, List.length_append,
            Symbol.margin] at *
          omega
  | loop _ condition | branch condition =>
      have hcondition := condition.depth_le
      simp only [depth, tokens, List.length_cons, List.length_append, Symbol.margin] at *
      omega

def Program.depth (program : Program) : Nat := program.body.depth

theorem Program.depth_le (program : Program) : program.depth ≤ program.tokens.length := by
  have hbody := program.body.depth_le
  simp only [depth, tokens, List.length_cons, List.length_append]
  omega

end Grammar

namespace Parse

variable {state : State}

/-! ## Whole programs -/

private theorem expect_eof (hsettled : state.Settled) :
    Ensures (Parser.expect .eof) state (fun _ after => after = state ∧ state.current.kind = .eof)
      fun error after => error.isFatal = true ∨ state.Moves after := by
  apply Ensures.currentToken_bind
  split
  · rename_i hmem
    have hkind : state.current.kind = .eof := by simpa using hmem
    exact .of_advance (State.advance_of_eof hsettled hkind) ⟨rfl, hkind⟩
  · exact .of_throw (.inr (.refl state))

private theorem expect_eof_derives (hsettled : state.Settled) :
    Derives (Parser.expect .eof) state fun _ tokens depth => tokens = [] ∧ depth = 0 := by
  apply (expect_eof hsettled).weaken
  · rintro _ _ ⟨rfl, -⟩
    exact ⟨.refl _, fun _ => ⟨[], 0, ⟨rfl, rfl⟩, .refl _⟩⟩
  · exact fun _ _ h => h

private theorem program_derives_block (fuel : Nat) (hsettled : state.Settled) :
    Derives (Parser.program fuel) state fun block tokens depth =>
      ∃ (opening : Text.Position) (body : Clause .statements) (closing : Text.Position),
        body.tree = block ∧ depth = body.depth ∧
          tokens = .plain .indent opening :: (body.tokens ++ [.plain .dedent closing]) := by
  apply Derives.currentToken_bind
  split
  · rename_i hkind
    apply Derives.bind hsettled (Derives.advance_plain hkind (by simp) rfl)
    intro _ opened hopened
    apply Derives.bind hopened ((Grammar.readsClauses fuel).statements opened hopened)
    intro block read hread
    apply Derives.bind hread (Derives.expect (by simp) rfl)
    intro _ closed hclosed
    apply Derives.bind hclosed (expect_eof_derives hclosed)
    intro _ ended hended
    apply Derives.note_bind hended
    intro noted _
    apply Derives.of_pure
    rintro _ _ ⟨rfl, rfl⟩ _ _ ⟨closing, rfl, rfl⟩ _ _ ⟨body, rfl, rfl, rfl⟩ _ _ ⟨opening, rfl, rfl⟩
    exact ⟨opening, body, closing, rfl, by simp, by simp⟩
  · apply Derives.note_bind hsettled
    exact fun _ _ => Derives.of_throw

theorem program_ends (fuel : Nat) (hsettled : state.Settled) :
    Ensures (Parser.program fuel) state (fun _ after => after.current.kind = .eof)
      fun _ _ => True := by
  apply Ensures.currentToken_bind
  split
  · apply Ensures.bind ((Parser.Moving.of_advance state hsettled).weaken (fun _ _ h => h)
      fun _ _ _ => trivial)
    intro _ opened hopened
    have hopened := hopened.settled hsettled
    apply Ensures.bind (((Parser.statementsMoving fuel).statements opened hopened).weaken
      (fun _ _ h => h) fun _ _ _ => trivial)
    intro block read hread
    have hread := hread.settled hopened
    apply Ensures.bind ((Parser.expect_moving .dedent read hread).weaken (fun _ _ h => h)
      fun _ _ _ => trivial)
    intro _ closed hclosed
    have hclosed := hclosed.settled hread
    apply Ensures.bind ((expect_eof hclosed).weaken (fun _ _ h => h) fun _ _ _ => trivial)
    rintro _ _ ⟨rfl, hkind⟩
    exact Ensures.modify_bind (.of_pure hkind)
  · exact Ensures.modify_bind (.of_throw trivial)

theorem program_derives (fuel : Nat) (hsettled : state.Settled) :
    Ensures (Parser.program fuel) state
      (fun block after => state.Clean after → ∃ program : Program, program.tree = block ∧
        state.ahead = program.tokens.map .ok ∧ program.depth ≤ state.room)
      fun _ _ => True := by
  apply ((program_derives_block fuel hsettled).and (program_ends fuel hsettled)).weaken
  · rintro block after ⟨⟨_, hderived⟩, heof⟩ hclean
    obtain ⟨_, _, ⟨opening, body, closing, htree, rfl, rfl⟩, hreads⟩ := hderived hclean
    have hahead := hreads.ahead
    rw [State.ahead_of_eof heof] at hahead
    have hfaithful : after.current.Faithful := by
      apply hclean.faithful
      rw [hahead]
      simp
    have hlast := hfaithful.eq_plain (by rw [heof]; rfl)
    rw [heof] at hlast
    refine ⟨⟨opening, body, closing, after.current.position⟩, htree, ?_, hreads.depth⟩
    rw [hahead, hlast]
    simp [Program.tokens, Token.plain]
  · exact fun _ _ _ => trivial

theorem closing_accepts {closing last : Text.Position} {block : Block}
    (hsees : state.Sees [.plain .dedent closing, .plain .eof last]) :
    Accepts
      (do
        let _ ← Parser.expect .dedent
        let _ ← Parser.expect .eof
        modify fun state => state.note (.finished block.length state.errors.length)
        return block)
      state block [.plain .eof last] := by
  apply Accepts.bind (Accepts.expect hsees (by simp))
  intro closed hclosed
  have hkind : closed.current.kind = .eof := by rw [hclosed.sees.current]; rfl
  have heof : Accepts (Parser.expect .eof) closed closed.current [.plain .eof last] := by
    apply Accepts.currentToken_bind
    rw [if_pos (by simp [hkind])]
    exact Ensures.of_advance (State.advance_of_eof hclosed.sees.settled hkind)
      ⟨rfl, hclosed.sees.leaves⟩
  apply Accepts.bind heof
  intro ended hended
  apply Accepts.note_bind hended.sees
  intro noted hnoted
  exact .of_pure hnoted.sees

theorem program_accepts (fuel : Nat) (program : Program)
    (hsees : state.Sees program.tokens) (hroom : program.depth ≤ state.room) :
    Ensures (Parser.program fuel) state
      (fun block after => block = program.tree ∧ after.errors = state.errors)
      fun _ _ => False := by
  obtain ⟨opening, body, closing, last⟩ := program
  have hopening : state.current.kind = .indent := by rw [hsees.current]; rfl
  have haccepts : Accepts (Parser.program fuel) state body.tree [.plain .eof last] := by
    apply Accepts.currentToken_bind
    rw [if_pos hopening]
    apply Accepts.bind (Accepts.advance hsees (by simp [Token.plain]))
    intro opened hopened
    apply Accepts.bind ((Grammar.acceptsClauses fuel).statements body opened _
      ⟨hopened.sees, Grammar.heads_cons.2 rfl, by rw [hopened.room_eq]; exact hroom⟩)
    intro read hread
    exact closing_accepts hread.sees
  apply haccepts.weaken
  · rintro _ after ⟨rfl, hafter⟩
    exact ⟨rfl, hafter.errors⟩
  · exact fun _ _ h => h

/-! ## Streams -/

theorem exists_program_of_parsed {stream : TokenStream} {config : Config} {block : Block}
    (hfaithful : ∀ token, .ok token ∈ untilEof stream.items → token.Faithful)
    (h : (parseStream stream config).parsed = .ok ⟨block, []⟩) :
    ∃ program : Program, program.tree = block ∧
      untilEof stream.items = program.tokens.map .ok ∧ program.depth ≤ config.maxDepth := by
  obtain ⟨state, hfresh, hblock, herrors⟩ := parsed_eq_ok h
  have hmeets := State.run_program_meets hfresh.settled.wellFormed
    (program_derives state.fuel hfresh.settled)
  rw [hblock] at hmeets
  have hclean : state.Clean (state.run Parser.program).2 := by
    refine ⟨?_, by rw [herrors, hfresh.errors]⟩
    intro token htoken
    rw [hfresh.ahead] at htoken
    exact hfaithful token htoken
  obtain ⟨program, htree, hahead, hdepth⟩ := hmeets hclean
  refine ⟨program, htree, by rw [← hfresh.ahead, hahead], ?_⟩
  rw [State.room, hfresh.config, hfresh.nesting] at hdepth
  exact hdepth

theorem ended_tokens (program : Program) : Ended program.tokens := by
  have htokens : program.tokens = (.plain .indent program.opening :: (program.body.tokens ++
      [.plain .dedent program.closing])) ++ [.plain .eof program.last] := by
    simp [Program.tokens]
  refine ⟨.plain .eof program.last, ?_, rfl⟩
  rw [htokens, List.getLast?_concat]
  rfl

theorem parsed_of_program {stream : TokenStream} {config : Config} (program : Program)
    (hitems : untilEof stream.items = program.tokens.map .ok)
    (hdepth : program.depth ≤ config.maxDepth) :
    (parseStream stream config).parsed = .ok ⟨program.tree, []⟩ := by
  obtain ⟨state, hstate⟩ := State.exists_fresh config hitems (ended_tokens program)
  have hfresh := State.fresh_of_ofStream hstate
  have hsees : state.Sees program.tokens :=
    ⟨hfresh.settled, by rw [hfresh.ahead, hitems], ended_tokens program⟩
  have hroom : program.depth ≤ state.room := by
    rw [State.room, hfresh.config, hfresh.nesting]
    exact hdepth
  obtain ⟨block, after, hparsed, rfl, herrors⟩ :=
    exists_parsed_of_ensures hstate (program_accepts state.fuel program hsees hroom)
  rw [hparsed, herrors, hfresh.errors]

/-- The parser accepts exactly the programs of the grammar.  Every other list of tokens that ends
in its only end token is refused or leaves an error behind. -/
theorem parsed_iff_program {tokens : List Token} {config : Config}
    (hended : ∃ body last, tokens = body ++ [last] ∧ last.kind = .eof ∧
      ∀ token ∈ body, token.kind ≠ .eof)
    (hfaithful : ∀ token ∈ tokens, token.Faithful) (hdepth : tokens.length ≤ config.maxDepth) :
    (∀ block, (parseStream (.ofTokens tokens) config).parsed = .ok ⟨block, []⟩ ↔
      ∃ program : Program, program.tokens = tokens ∧ program.tree = block) ∧
      ∀ program program' : Program, program.tokens = tokens → program'.tokens = tokens →
        program = program' := by
  have hitems : untilEof (TokenStream.ofTokens tokens).items = tokens.map .ok := by
    obtain ⟨body, last, rfl, hlast, hbody⟩ := hended
    exact untilEof_of_forall_ne hlast hbody
  constructor
  · intro block
    constructor
    · intro hparsed
      have hfaithful' : ∀ token,
          .ok token ∈ untilEof (TokenStream.ofTokens tokens).items → token.Faithful := by
        intro token htoken
        rw [hitems] at htoken
        simp only [List.mem_map, Except.ok.injEq, exists_eq_right] at htoken
        exact hfaithful token htoken
      obtain ⟨program, htree, htokens, -⟩ := exists_program_of_parsed hfaithful' hparsed
      rw [hitems] at htokens
      exact ⟨program, ((List.map_inj_right fun _ _ => Except.ok.inj).1 htokens).symm, htree⟩
    · rintro ⟨program, rfl, rfl⟩
      exact parsed_of_program program hitems (Nat.le_trans program.depth_le hdepth)
  · intro program program' htokens htokens'
    exact Program.eq_of_tokens_eq (htokens.trans htokens'.symm)

/-- A loop with one line in its block: `while x:` and `x - 1`. -/
theorem parsed_iff_program_loop :
    (parseStream
        (.ofTokens [.plain .indent .start, .plain .whileKeyword .start, .identifier "x" ⟨1, 7, 6⟩,
          .plain .colon ⟨1, 8, 7⟩, .plain .newline ⟨1, 9, 8⟩, .plain .indent ⟨2, 3, 11⟩,
          .identifier "x" ⟨2, 3, 11⟩, .plain .minus ⟨2, 5, 13⟩, .integer 1 ⟨2, 7, 15⟩,
          .plain .newline ⟨2, 8, 16⟩, .plain .dedent ⟨3, 1, 17⟩, .plain .dedent ⟨3, 1, 17⟩,
          .plain .eof ⟨3, 1, 17⟩]) .default).parsed =
      .ok ⟨[.loop (.identifier ⟨"x", ⟨1, 7, 6⟩⟩)
        [.expression (.binary (.identifier ⟨"x", ⟨2, 3, 11⟩⟩) .sub (.literal (.integer 1)))]], []⟩ := by
  let decrease : Phrase .expression :=
    .whole (.operand rfl (.operand rfl (.operand rfl (.operand rfl (.operand rfl (.binary
      (.operand rfl (.operand rfl (.operand rfl
        (.chain (.identifier ⟨"x", ⟨2, 3, 11⟩⟩) .noSuffix))))
      .sub rfl ⟨2, 5, 13⟩
      (.operand rfl (.operand rfl (.operand rfl (.operand rfl
        (.chain (.literal (.integer 1) ⟨2, 7, 15⟩) .noSuffix)))))))))))
  let body : Clause .block :=
    .block ⟨2, 3, 11⟩ (.nextStatement (.expression decrease ⟨2, 8, 16⟩) .noStatement) ⟨3, 1, 17⟩
  let loop : Clause .statement :=
    .loop .start (.ofAtom (.identifier ⟨"x", ⟨1, 7, 6⟩⟩)) ⟨1, 8, 7⟩ ⟨1, 9, 8⟩ body
  let program : Program := ⟨.start, .nextStatement loop .noStatement, ⟨3, 1, 17⟩, ⟨3, 1, 17⟩⟩
  have hended : ∃ body last, program.tokens = body ++ [last] ∧ last.kind = .eof ∧
      ∀ token ∈ body, Token.kind token ≠ .eof :=
    ⟨program.tokens.dropLast, .plain .eof ⟨3, 1, 17⟩, rfl, rfl, by decide⟩
  have hfaithful : ∀ token ∈ program.tokens, token.Faithful := by
    simp [program, loop, body, decrease, Program.tokens, Clause.tokens, Clause.colonLine,
      Phrase.tokens, Literal.token, Identifier.token, Token.Faithful, Token.plain, Token.identifier,
      Token.integer, Payload.kind, TokenKind.carriesPayload, BinaryOp.token]
  have hiff := @parsed_iff_program program.tokens .default hended hfaithful (by decide)
  exact (hiff.1 _).2 ⟨program, rfl, rfl⟩

end Parse

end Offside
