import Offside.Proofs.Grammar.Clause
import Offside.Proofs.Grammar.PhraseSoundness

/-!
# Clean runs read clauses

Every value that a grammar function of statements gives without recording an error is the tree of a
clause, whose tokens are the consumed ones.  A statement that fails is recorded, so a block that is
read without an error has all its statements.
-/

namespace Offside.Grammar

open Parse (Derives Ensures State)
open Parse.Parser

def Worded (construct : Construct) (tree : construct.Tree) (tokens : List Token) (depth : Nat) :
    Prop :=
  ∃ clause : Clause construct, clause.tree = tree ∧ clause.tokens = tokens ∧ clause.depth = depth

variable {state : State}

/-! ## Headers -/

private theorem moreParameters_derives (fuel : Nat) :
    ∀ state : State, state.Settled →
      Derives (moreParameters fuel) state fun names tokens depth =>
        ∃ more : List (Text.Position × Identifier), names = more.map Prod.snd ∧
          tokens = more.flatMap (fun further => [.plain .comma further.1, further.2.token]) ∧
          depth = 0 := by
  induction fuel with
  | zero => exact fun _ _ => Derives.of_exhausted
  | succ fuel ih =>
      intro state hsettled
      apply Derives.currentKind_bind
      split
      · rename_i hkind
        apply Derives.bind hsettled (Derives.advance_plain hkind (by simp) rfl)
        intro _ behind hbehind
        apply Derives.bind hbehind (Derives.identifier hbehind)
        intro parameter middle hmiddle
        apply Derives.bind hmiddle (ih middle hmiddle)
        intro names last _
        apply Derives.of_pure
        rintro _ _ ⟨more, rfl, rfl, rfl⟩ _ _ ⟨rfl, rfl⟩ _ _ ⟨comma, rfl, rfl⟩
        exact ⟨(comma, parameter) :: more, rfl, by simp, rfl⟩
      · exact Derives.of_pure ⟨[], rfl, rfl, rfl⟩

private theorem optionalParameters_derives (fuel : Nat) (hsettled : state.Settled) :
    Derives (optionalParameters fuel) state fun names tokens depth =>
      ∃ parameters? : Option NameList, names = (parameters?.map NameList.tree).getD [] ∧
        tokens = Heading.parameterTokens parameters? ∧ depth = 0 := by
  apply Derives.currentKind_bind
  split
  · apply Derives.bind hsettled (Derives.identifier hsettled)
    intro first middle hmiddle
    apply Derives.bind hmiddle (moreParameters_derives fuel middle hmiddle)
    intro names last _
    apply Derives.of_pure
    rintro _ _ ⟨more, rfl, rfl, rfl⟩ _ _ ⟨rfl, rfl⟩
    exact ⟨some ⟨first, more⟩, rfl, by simp [Heading.parameterTokens, NameList.tokens], rfl⟩
  · exact Derives.of_pure ⟨none, rfl, rfl, rfl⟩

theorem header_derives (fuel : Nat) (hsettled : state.Settled) :
    Derives (header fuel) state fun header tokens depth =>
      ∃ heading : Heading, heading.tree = header ∧ heading.tokens = tokens ∧ depth = 0 := by
  apply Derives.bind hsettled (Derives.expect (by simp) rfl)
  intro _ begun hbegun
  apply Derives.bind hbegun (Derives.identifier hbegun)
  intro name named hnamed
  apply Derives.bind hnamed (Derives.expect (by simp) rfl)
  intro _ opened hopened
  apply Derives.bind hopened (optionalParameters_derives fuel hopened)
  intro parameters listed hlisted
  apply Derives.bind hlisted (Derives.expect (by simp) rfl)
  intro _ closed hclosed
  apply Derives.currentKind_bind
  apply Derives.nextKind_bind
  split
  · rename_i hcolon
    have hkind : closed.current.kind = .colon := by
      simp only [Bool.and_eq_true, decide_eq_true_eq] at hcolon
      exact hcolon.1
    apply Derives.bind hclosed (Derives.advance_plain hkind (by simp) rfl)
    intro _ behind hbehind
    apply Derives.bind hbehind (Derives.identifier hbehind)
    intro type last _
    apply Derives.of_pure
    rintro _ _ ⟨rfl, rfl⟩ _ _ ⟨colon, rfl, rfl⟩ _ _ ⟨closer, rfl, rfl⟩
      _ _ ⟨parameters?, rfl, rfl, rfl⟩ _ _ ⟨opener, rfl, rfl⟩ _ _ ⟨rfl, rfl⟩ _ _ ⟨keyword, rfl, rfl⟩
    exact ⟨⟨keyword, name, opener, parameters?, closer, some (colon, type)⟩, rfl,
      by simp [Heading.tokens, Heading.typeTokens], by simp⟩
  · apply Derives.of_pure
    rintro _ _ ⟨closer, rfl, rfl⟩
      _ _ ⟨parameters?, rfl, rfl, rfl⟩ _ _ ⟨opener, rfl, rfl⟩ _ _ ⟨rfl, rfl⟩ _ _ ⟨keyword, rfl, rfl⟩
    exact ⟨⟨keyword, name, opener, parameters?, closer, none⟩, rfl,
      by simp [Heading.tokens, Heading.typeTokens], by simp⟩

private theorem fields_derives (fuel : Nat) :
    ∀ state : State, state.Settled →
      Derives (fields fuel) state fun names tokens depth =>
        ∃ fields : List (Identifier × Text.Position), names = fields.map Prod.fst ∧
          tokens = fieldTokens fields ∧ depth = 0 := by
  induction fuel with
  | zero => exact fun _ _ => Derives.of_exhausted
  | succ fuel ih =>
      intro state hsettled
      apply Derives.currentKind_bind
      split
      · apply Derives.bind hsettled (Derives.identifier hsettled)
        intro field named hnamed
        apply Derives.bind hnamed (Derives.expect (by simp) rfl)
        intro _ middle hmiddle
        apply Derives.bind hmiddle (ih middle hmiddle)
        intro names last _
        apply Derives.of_pure
        rintro _ _ ⟨more, rfl, rfl, rfl⟩ _ _ ⟨line, rfl, rfl⟩ _ _ ⟨rfl, rfl⟩
        exact ⟨(field, line) :: more, rfl, by simp [fieldTokens], rfl⟩
      · exact Derives.of_pure ⟨[], rfl, rfl, rfl⟩

/-! ## Simple statements -/

private theorem expressionStatement_derives (fuel : Nat) (hsettled : state.Settled) :
    Derives (expressionStatement fuel) state (Worded .statement) := by
  apply Derives.bind hsettled ((readsPhrases fuel).expression state hsettled)
  intro value middle hmiddle
  apply Derives.bind hmiddle (Derives.expect (by simp) rfl)
  intro _ last _
  apply Derives.of_pure
  rintro _ _ ⟨line, rfl, rfl⟩ _ _ ⟨value, rfl, rfl, rfl⟩
  exact ⟨.expression value line, rfl, by simp [Clause.tokens], by simp [Clause.depth]⟩

private theorem returnValue?_derives (fuel : Nat) (hsettled : state.Settled) :
    Derives (returnValue? fuel) state fun tree? tokens depth =>
      ∃ value? : Option (Phrase .expression), tree? = value?.map Phrase.tree ∧
        tokens = Clause.valueTokens value? ∧ depth = Clause.valueDepth value? := by
  apply Derives.currentKind_bind
  split
  · exact Derives.of_pure ⟨none, rfl, rfl, rfl⟩
  · apply Derives.bind hsettled ((readsPhrases fuel).expression state hsettled)
    intro value last _
    apply Derives.of_pure
    rintro _ _ ⟨value, rfl, rfl, rfl⟩
    exact ⟨some value, rfl, by simp [Clause.valueTokens], by simp [Clause.valueDepth]⟩

private theorem returnStatement_derives (fuel : Nat) (hsettled : state.Settled) :
    Derives (returnStatement fuel) state (Worded .statement) := by
  apply Derives.bind hsettled (Derives.expect (by simp) rfl)
  intro _ begun hbegun
  apply Derives.bind hbegun (returnValue?_derives fuel hbegun)
  intro value? middle hmiddle
  apply Derives.bind hmiddle (Derives.expect (by simp) rfl)
  intro _ last _
  apply Derives.of_pure
  rintro _ _ ⟨line, rfl, rfl⟩ _ _ ⟨value?, rfl, rfl, rfl⟩ _ _ ⟨keyword, rfl, rfl⟩
  exact ⟨.ret keyword value? line, rfl, by simp [Clause.tokens], by simp [Clause.depth]⟩

private theorem recordStatement_derives (fuel : Nat) (hsettled : state.Settled) :
    Derives (recordStatement fuel) state (Worded .statement) := by
  apply Derives.bind hsettled (Derives.expect (by simp) rfl)
  intro _ begun hbegun
  apply Derives.bind hbegun (Derives.identifier hbegun)
  intro name named hnamed
  apply Derives.bind hnamed (Derives.expect (by simp) rfl)
  intro _ behind hbehind
  apply Derives.bind hbehind (Derives.expect (by simp) rfl)
  intro _ line hline
  apply Derives.bind hline (Derives.expect (by simp) rfl)
  intro _ opened hopened
  apply Derives.bind hopened (fields_derives fuel opened hopened)
  intro fields listed hlisted
  apply Derives.bind hlisted (Derives.expect (by simp) rfl)
  intro _ last _
  apply Derives.of_pure
  rintro _ _ ⟨closing, rfl, rfl⟩ _ _ ⟨fields, rfl, rfl, rfl⟩ _ _ ⟨opening, rfl, rfl⟩
    _ _ ⟨line, rfl, rfl⟩ _ _ ⟨colon, rfl, rfl⟩ _ _ ⟨rfl, rfl⟩ _ _ ⟨keyword, rfl, rfl⟩
  exact ⟨.record keyword name colon line opening fields closing, rfl,
    by simp [Clause.tokens, Clause.colonLine], by simp [Clause.depth]⟩

/-! ## Blocks -/

structure ReadsClauses (fuel : Nat) : Prop where
  statements : ∀ state : State, state.Settled →
    Derives (statements fuel) state (Worded .statements)
  statement : ∀ state : State, state.Settled →
    Derives (statement fuel) state (Worded .statement)
  block : ∀ state : State, state.Settled → Derives (block fuel) state (Worded .block)
  function : ∀ state : State, state.Settled →
    Derives (function fuel) state (Worded .statement)
  conditional : ∀ state : State, state.Settled →
    Derives (conditional fuel) state (Worded .statement)
  branch : ∀ state : State, state.Settled → Derives (branch fuel) state (Worded .branch)
  loop : ∀ state : State, state.Settled → Derives (loop fuel) state (Worded .statement)

section

variable {fuel : Nat} (ih : ReadsClauses fuel)

include ih

private theorem statements_derives (hsettled : state.Settled) :
    Derives (statements (fuel + 1)) state (Worded .statements) := by
  unfold statements
  apply Derives.get_bind
  split
  · exact Derives.of_pure ⟨.noStatement, rfl, rfl, rfl⟩
  · apply Ensures.bind (Ensures.attempt (ih.statement state hsettled))
    intro result after hafter
    cases result with
    | ok stmt =>
        obtain ⟨hmoves, hstmt⟩ := hafter
        have hafter := hmoves.settled hsettled
        apply Derives.behind hmoves hstmt
        apply Derives.bind hafter (ih.statements after hafter)
        intro rest last _
        apply Derives.of_pure
        rintro _ _ ⟨more, rfl, rfl, rfl⟩ _ _ ⟨first, rfl, rfl, rfl⟩
        exact ⟨.nextStatement first more, rfl, by simp [Clause.tokens], by simp [Clause.depth]⟩
    | error error =>
        apply Ensures.bind (recover_later hsettled hafter)
        rintro _ middle ⟨hmiddle, herrors⟩
        exact Derives.of_recorded hsettled hmiddle herrors (statementsMoving fuel).statements

private theorem statement_derives (hsettled : state.Settled) :
    Derives (statement (fuel + 1)) state (Worded .statement) := by
  apply Derives.currentToken_bind
  apply Derives.note_bind hsettled
  intro noted hnoted
  split
  · exact ih.function noted hnoted
  · exact ih.conditional noted hnoted
  · exact ih.loop noted hnoted
  · exact returnStatement_derives fuel hnoted
  · exact recordStatement_derives fuel hnoted
  · exact expressionStatement_derives fuel hnoted

private theorem block_derives (hsettled : state.Settled) :
    Derives (block (fuel + 1)) state (Worded .block) := by
  apply Derives.bind hsettled (Derives.expect (by simp) rfl)
  intro _ opened hopened
  apply Derives.bind hopened (Derives.nested hopened fun deeper hdeeper =>
    ih.statements deeper hdeeper)
  intro body middle hmiddle
  apply Derives.bind hmiddle (Derives.expect (by simp) rfl)
  intro _ last _
  apply Derives.of_pure
  rintro _ _ ⟨closing, rfl, rfl⟩ _ _ ⟨_, ⟨body, rfl, rfl, rfl⟩, rfl⟩ _ _ ⟨opening, rfl, rfl⟩
  exact ⟨.block opening body closing, rfl, by simp [Clause.tokens], by simp [Clause.depth]⟩

private theorem function_derives (hsettled : state.Settled) :
    Derives (function (fuel + 1)) state (Worded .statement) := by
  apply Derives.bind hsettled (header_derives fuel hsettled)
  intro header headed hheaded
  apply Derives.bind hheaded (Derives.expectOneOf (by simp))
  intro marker marked hmarked
  apply Derives.bind hmarked (Derives.expect (by simp) rfl)
  intro _ line hline
  apply Derives.bind hline (ih.block line hline)
  intro body last _
  apply Derives.of_pure
  rintro _ _ ⟨body, rfl, rfl, rfl⟩ _ _ ⟨line, rfl, rfl⟩ _ _ ⟨hmarker, hfaithful, rfl, rfl⟩
    _ _ ⟨heading, rfl, rfl, rfl⟩
  exact ⟨.function heading marker.kind hmarker marker.position line body, rfl,
    by simp [Clause.tokens, ← hfaithful.eq_plain (carriesPayload_of_bodyMarker hmarker)],
    by simp [Clause.depth]⟩

private theorem conditional_derives (hsettled : state.Settled) :
    Derives (conditional (fuel + 1)) state (Worded .statement) := by
  apply Derives.bind hsettled (Derives.expect (by simp) rfl)
  intro _ begun hbegun
  apply Derives.bind hbegun (ih.branch begun hbegun)
  rintro ⟨condition, body, alternative⟩ last _
  apply Derives.of_pure
  rintro _ _ ⟨chosen, hchosen, rfl, rfl⟩ _ _ ⟨keyword, rfl, rfl⟩
  exact ⟨.conditional keyword chosen, by rw [Clause.tree, hchosen],
    by simp [Clause.tokens], by simp [Clause.depth]⟩

private theorem branch_derives (hsettled : state.Settled) :
    Derives (branch (fuel + 1)) state (Worded .branch) := by
  apply Derives.bind hsettled ((readsPhrases fuel).expression state hsettled)
  intro condition tested htested
  apply Derives.bind htested (Derives.expect (by simp) rfl)
  intro _ behind hbehind
  apply Derives.bind hbehind (Derives.expect (by simp) rfl)
  intro _ line hline
  apply Derives.bind hline (ih.block line hline)
  intro body closed hclosed
  apply Derives.currentKind_bind
  split
  · rename_i hkind
    apply Derives.bind hclosed (Derives.advance_plain hkind (by simp) rfl)
    intro _ begun hbegun
    apply Derives.bind hbegun (ih.branch begun hbegun)
    rintro ⟨inner, innerBody, alternative⟩ last _
    apply Derives.of_pure
    rintro _ _ ⟨chosen, hchosen, rfl, rfl⟩ _ _ ⟨keyword, rfl, rfl⟩ _ _ ⟨body, rfl, rfl, rfl⟩
      _ _ ⟨line, rfl, rfl⟩ _ _ ⟨colon, rfl, rfl⟩ _ _ ⟨condition, rfl, rfl, rfl⟩
    exact ⟨.branch condition colon line body (.elif keyword chosen),
      by rw [Clause.tree, Clause.tree, hchosen], by simp [Clause.tokens, Clause.colonLine],
      by simp [Clause.depth]⟩
  · rename_i hkind
    apply Derives.bind hclosed (Derives.advance_plain hkind (by simp) rfl)
    intro _ begun hbegun
    apply Derives.bind hbegun (Derives.expect (by simp) rfl)
    intro _ behind' hbehind'
    apply Derives.bind hbehind' (Derives.expect (by simp) rfl)
    intro _ line' hline'
    apply Derives.bind hline' (ih.block line' hline')
    intro otherBody last _
    apply Derives.of_pure
    rintro _ _ ⟨otherBody, rfl, rfl, rfl⟩ _ _ ⟨line', rfl, rfl⟩ _ _ ⟨colon', rfl, rfl⟩
      _ _ ⟨keyword, rfl, rfl⟩ _ _ ⟨body, rfl, rfl, rfl⟩
      _ _ ⟨line, rfl, rfl⟩ _ _ ⟨colon, rfl, rfl⟩ _ _ ⟨condition, rfl, rfl, rfl⟩
    exact ⟨.branch condition colon line body (.otherwise keyword colon' line' otherBody),
      rfl, by simp [Clause.tokens, Clause.colonLine], by simp [Clause.depth]⟩
  · apply Derives.of_pure
    rintro _ _ ⟨body, rfl, rfl, rfl⟩
      _ _ ⟨line, rfl, rfl⟩ _ _ ⟨colon, rfl, rfl⟩ _ _ ⟨condition, rfl, rfl, rfl⟩
    exact ⟨.branch condition colon line body .noAlternative,
      rfl, by simp [Clause.tokens, Clause.colonLine], by simp [Clause.depth]⟩

private theorem loop_derives (hsettled : state.Settled) :
    Derives (loop (fuel + 1)) state (Worded .statement) := by
  apply Derives.bind hsettled (Derives.expect (by simp) rfl)
  intro _ begun hbegun
  apply Derives.bind hbegun ((readsPhrases fuel).expression begun hbegun)
  intro condition tested htested
  apply Derives.bind htested (Derives.expect (by simp) rfl)
  intro _ behind hbehind
  apply Derives.bind hbehind (Derives.expect (by simp) rfl)
  intro _ line hline
  apply Derives.bind hline (ih.block line hline)
  intro body last _
  apply Derives.of_pure
  rintro _ _ ⟨body, rfl, rfl, rfl⟩ _ _ ⟨line, rfl, rfl⟩ _ _ ⟨colon, rfl, rfl⟩
    _ _ ⟨condition, rfl, rfl, rfl⟩ _ _ ⟨keyword, rfl, rfl⟩
  exact ⟨.loop keyword condition colon line body, rfl,
    by simp [Clause.tokens, Clause.colonLine], by simp [Clause.depth]⟩

end

theorem readsClauses (fuel : Nat) : ReadsClauses fuel := by
  induction fuel with
  | zero => constructor <;> intros <;> exact Derives.of_exhausted
  | succ fuel ih =>
      constructor
      case statements => exact fun _ hsettled => statements_derives ih hsettled
      case statement => exact fun _ hsettled => statement_derives ih hsettled
      case block => exact fun _ hsettled => block_derives ih hsettled
      case function => exact fun _ hsettled => function_derives ih hsettled
      case conditional => exact fun _ hsettled => conditional_derives ih hsettled
      case branch => exact fun _ hsettled => branch_derives ih hsettled
      case loop => exact fun _ hsettled => loop_derives ih hsettled

end Offside.Grammar
