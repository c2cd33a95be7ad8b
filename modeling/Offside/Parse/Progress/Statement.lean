import Offside.Parse.Progress.Expression
import Offside.Parse.Run

/-!
# Statements do not run out of fuel

A statement that is read consumes a token, and so does going on behind a broken one: a block needs
as much fuel for what follows a statement as it has left then.  So a whole parse gives a program or
an error with the fuel that `State.fuel` allows.
-/

namespace Offside.Parse

namespace Parser

variable {state : State} {fuel : Nat}

/-! ## Headers -/

theorem moreParameters_completes (fuel : Nat) :
    ∀ state : State, state.WellFormed → state.need + 1 ≤ fuel →
      Completes (moreParameters fuel) state fun _ _ => True := by
  induction fuel with
  | zero => intro state _ hfuel; omega
  | succ fuel ih =>
    intro state h hfuel
    unfold moreParameters
    refine (currentKind_completes h).bind ?_
    rintro _ _ - - ⟨rfl, rfl⟩
    split
    · rename_i hkind
      refine (advance_completes h).bind ?_
      rintro _ after hwell hadvances ⟨-, hconsumed⟩
      have := hconsumed (by simp [hkind])
      have := hadvances.need
      refine (identifier_completes hwell).bind ?_
      intro parameter behind hbehind hadvances' _
      have := hadvances'.need_le
      refine (ih behind hbehind (by omega)).bind ?_
      intro _ _ hlast _ _
      exact .of_pure hlast trivial
    · exact .of_pure h trivial

theorem parameters_completes (h : state.WellFormed) (hfuel : state.need + 1 ≤ fuel) :
    Completes (parameters fuel) state fun _ _ => True := by
  refine (identifier_completes h).bind ?_
  intro first after hwell hadvances _
  have := hadvances.need_le
  refine (moreParameters_completes fuel after hwell (by omega)).bind ?_
  intro _ _ hlast _ _
  exact .of_pure hlast trivial

theorem optionalParameters_completes (h : state.WellFormed) (hfuel : state.need + 1 ≤ fuel) :
    Completes (optionalParameters fuel) state fun _ _ => True := by
  refine (currentKind_completes h).bind ?_
  rintro _ _ - - ⟨rfl, rfl⟩
  split
  · exact parameters_completes h hfuel
  · exact .of_pure h trivial

theorem header_completes (h : state.WellFormed) (hfuel : state.need ≤ fuel) :
    Completes (header fuel) state fun _ after => state.consumed < after.consumed := by
  refine (expect_completes h (by decide)).bind ?_
  rintro _ keyword hkeyword hadvances ⟨-, hconsumed⟩
  have := hadvances.need
  refine (identifier_completes hkeyword).bind ?_
  intro name named hnamed hadvances _
  have := hadvances.need_le
  have := hadvances.consumed
  refine (expect_completes hnamed (by decide)).bind ?_
  rintro _ opened hopened hadvances -
  have := hadvances.need_le
  have := hadvances.consumed
  refine (optionalParameters_completes hopened (by omega)).bind ?_
  intro parameters listed hlisted hadvances _
  have := hadvances.consumed
  refine (expect_completes hlisted (by decide)).bind ?_
  rintro _ closed hclosed hadvances -
  have := hadvances.consumed
  refine (currentKind_completes hclosed).bind ?_
  rintro _ _ - - ⟨rfl, rfl⟩
  refine (nextKind_completes hclosed).bind ?_
  rintro _ _ - - ⟨rfl, rfl⟩
  split
  · refine (advance_completes hclosed).bind ?_
    rintro _ colon hcolon hadvances -
    have := hadvances.consumed
    refine (identifier_completes hcolon).bind ?_
    intro type last hlast hadvances _
    have := hadvances.consumed
    exact .of_pure hlast (by omega)
  · exact .of_pure hclosed (by omega)

theorem fields_completes (fuel : Nat) :
    ∀ state : State, state.WellFormed → state.need + 1 ≤ fuel →
      Completes (fields fuel) state fun _ _ => True := by
  induction fuel with
  | zero => intro state _ hfuel; omega
  | succ fuel ih =>
    intro state h hfuel
    unfold fields
    refine (currentKind_completes h).bind ?_
    rintro _ _ - - ⟨rfl, rfl⟩
    split
    · refine (identifier_completes h).bind ?_
      intro field named hnamed hadvances hconsumed
      have := hadvances.need
      refine (expect_completes hnamed (by decide)).bind ?_
      rintro _ behind hbehind hadvances -
      have := hadvances.need_le
      refine (ih behind hbehind (by omega)).bind ?_
      intro _ _ hlast _ _
      exact .of_pure hlast trivial
    · exact .of_pure h trivial

/-! ## Simple statements -/

theorem expressionStatement_completes (h : state.WellFormed) (hfuel : state.need + 14 ≤ fuel) :
    Completes (expressionStatement fuel) state fun _ after => state.consumed < after.consumed := by
  refine ((expressionsComplete fuel).expression state h hfuel).bind ?_
  intro value after hwell _ hconsumed
  refine (expect_completes hwell (by decide)).bind ?_
  rintro _ last hlast hadvances -
  have := hadvances.consumed
  exact .of_pure hlast (by omega)

theorem returnValue?_completes (h : state.WellFormed) (hfuel : state.need + 14 ≤ fuel) :
    Completes (returnValue? fuel) state fun _ _ => True := by
  refine (currentKind_completes h).bind ?_
  rintro _ _ - - ⟨rfl, rfl⟩
  split
  · exact .of_pure h trivial
  · refine ((expressionsComplete fuel).expression state h hfuel).bind ?_
    intro _ _ hlast _ _
    exact .of_pure hlast trivial

theorem returnStatement_completes (h : state.WellFormed) (hfuel : state.need ≤ fuel) :
    Completes (returnStatement fuel) state fun _ after => state.consumed < after.consumed := by
  refine (expect_completes h (by decide)).bind ?_
  rintro _ keyword hkeyword hadvances ⟨-, hconsumed⟩
  have := hadvances.need
  refine (returnValue?_completes hkeyword (by omega)).bind ?_
  intro value? after hwell hadvances _
  have := hadvances.consumed
  refine (expect_completes hwell (by decide)).bind ?_
  rintro _ last hlast hadvances -
  have := hadvances.consumed
  exact .of_pure hlast (by omega)

private theorem colonLine_completes {β : Type} {next : Parser β} {good : β → State → Prop}
    (h : state.WellFormed)
    (hnext : ∀ line : State, line.WellFormed → state.Advances line → Completes next line good) :
    Completes
      (do
        let _ ← expect .colon
        let _ ← expect .newline
        next)
      state good := by
  refine (expect_completes h (by decide)).bind ?_
  rintro _ colon hcolon hadvances -
  refine (expect_completes hcolon (by decide)).bind ?_
  rintro _ line hline hadvances' -
  exact hnext line hline (hadvances.trans hadvances')

theorem recordStatement_completes (h : state.WellFormed) (hfuel : state.need ≤ fuel) :
    Completes (recordStatement fuel) state fun _ after => state.consumed < after.consumed := by
  refine (expect_completes h (by decide)).bind ?_
  rintro _ keyword hkeyword hadvances ⟨-, hconsumed⟩
  have := hadvances.need
  refine (identifier_completes hkeyword).bind ?_
  intro name named hnamed hadvances _
  have := hadvances.need_le
  have := hadvances.consumed
  refine colonLine_completes hnamed ?_
  intro line hline hadvances
  have := hadvances.need_le
  have := hadvances.consumed
  refine (expect_completes hline (by decide)).bind ?_
  rintro _ opened hopened hadvances -
  have := hadvances.need_le
  have := hadvances.consumed
  refine (fields_completes fuel opened hopened (by omega)).bind ?_
  intro fields listed hlisted hadvances _
  have := hadvances.consumed
  refine (expect_completes hlisted (by decide)).bind ?_
  rintro _ last hlast hadvances -
  have := hadvances.consumed
  exact .of_pure hlast (by omega)

/-! ## Blocks -/

structure StatementsComplete (fuel : Nat) : Prop where
  statements : ∀ state : State, state.WellFormed → state.need + 16 ≤ fuel →
    Completes (statements fuel) state fun _ _ => True
  statement : ∀ state : State, state.WellFormed → state.need + 15 ≤ fuel →
    Completes (statement fuel) state fun _ after => state.consumed < after.consumed
  block : ∀ state : State, state.WellFormed → state.need + 1 ≤ fuel →
    Completes (block fuel) state fun _ _ => True
  function : ∀ state : State, state.WellFormed → state.need + 1 ≤ fuel →
    Completes (function fuel) state fun _ after => state.consumed < after.consumed
  conditional : ∀ state : State, state.WellFormed → state.need + 1 ≤ fuel →
    Completes (conditional fuel) state fun _ after => state.consumed < after.consumed
  branch : ∀ state : State, state.WellFormed → state.need + 15 ≤ fuel →
    Completes (branch fuel) state fun _ _ => True
  loop : ∀ state : State, state.WellFormed → state.need + 1 ≤ fuel →
    Completes (loop fuel) state fun _ after => state.consumed < after.consumed

section

variable {fuel : Nat} (ih : StatementsComplete fuel)

include ih

private theorem statements_completes (h : state.WellFormed) (hfuel : state.need + 16 ≤ fuel + 1) :
    Completes (statements (fuel + 1)) state fun _ _ => True := by
  unfold statements
  refine (Completes.of_get h).bind ?_
  rintro _ _ - - ⟨rfl, rfl⟩
  split
  · exact .of_pure h trivial
  · rename_i hkind
    have hkind : state.current.kind ≠ .dedent ∧ state.current.kind ≠ .eof := by
      simpa using hkind
    refine (attempt_completes (ih.statement state h (by omega))).bind ?_
    intro result after hwell hadvances hresult
    have := hadvances.need
    split
    · rename_i stmt
      have := hresult stmt rfl
      refine (ih.statements after hwell (by omega)).bind ?_
      intro _ _ hlast _ _
      exact .of_pure hlast trivial
    · have := hadvances.need_le
      refine (recover_completes hwell (by omega) hadvances.consumed ?_).bind ?_
      · intro hsame
        rw [hadvances.current hsame.symm hkind.2]
        exact ⟨hkind.2, hkind.1⟩
      · intro _ last hlast hadvances' hconsumed
        have := hadvances'.need
        exact ih.statements last hlast (by omega)

private theorem statement_completes (h : state.WellFormed) (hfuel : state.need + 15 ≤ fuel + 1) :
    Completes (statement (fuel + 1)) state fun _ after => state.consumed < after.consumed := by
  unfold statement
  refine (currentToken_completes h).bind ?_
  rintro _ _ - - ⟨rfl, rfl⟩
  refine (Completes.of_modify _ h (.of_eq rfl rfl rfl rfl rfl rfl)).bind ?_
  rintro _ begun hwell hadvances hbegun
  have := hadvances.need_le
  have hconsumed : begun.consumed = state.consumed := by rw [← hbegun]; rfl
  rw [← hconsumed]
  split
  · exact ih.function begun hwell (by omega)
  · exact ih.conditional begun hwell (by omega)
  · exact ih.loop begun hwell (by omega)
  · exact returnStatement_completes hwell (by omega)
  · exact recordStatement_completes hwell (by omega)
  · exact expressionStatement_completes hwell (by omega)

private theorem block_completes (h : state.WellFormed) (hfuel : state.need + 1 ≤ fuel + 1) :
    Completes (block (fuel + 1)) state fun _ _ => True := by
  unfold block
  refine (expect_completes h (by decide)).bind ?_
  rintro _ opened hopened hadvances ⟨-, hconsumed⟩
  have := hadvances.need
  refine Completes.bind (nested_completes hopened (fun _ _ => True) ?_) ?_
  · intro before hbefore hadvances'
    have := hadvances'.need_le
    exact (ih.statements before hbefore (by omega)).weaken fun _ _ _ _ _ _ => trivial
  · intro body after hwell _ _
    refine (expect_completes hwell (by decide)).bind ?_
    rintro _ last hlast - -
    exact .of_pure hlast trivial

private theorem function_completes (h : state.WellFormed) (hfuel : state.need + 1 ≤ fuel + 1) :
    Completes (function (fuel + 1)) state fun _ after => state.consumed < after.consumed := by
  unfold function
  refine (header_completes h (by omega)).bind ?_
  intro header headed hheaded hadvances hconsumed
  have := hadvances.need
  refine (expectOneOf_completes hheaded (by decide)).bind ?_
  rintro _ opener hopener hadvances -
  have := hadvances.need_le
  have := hadvances.consumed
  refine (expect_completes hopener (by decide)).bind ?_
  rintro _ line hline hadvances -
  have := hadvances.need_le
  have := hadvances.consumed
  refine (ih.block line hline (by omega)).bind ?_
  intro _ last hlast hadvances _
  have := hadvances.consumed
  exact .of_pure hlast (by omega)

private theorem conditional_completes (h : state.WellFormed) (hfuel : state.need + 1 ≤ fuel + 1) :
    Completes (conditional (fuel + 1)) state fun _ after => state.consumed < after.consumed := by
  unfold conditional
  refine (expect_completes h (by decide)).bind ?_
  rintro _ keyword hkeyword hadvances ⟨-, hconsumed⟩
  have := hadvances.need
  refine (ih.branch keyword hkeyword (by omega)).bind ?_
  rintro ⟨condition, body, alternative⟩ last hlast hadvances -
  have := hadvances.consumed
  exact .of_pure hlast (by omega)

private theorem branch_completes (h : state.WellFormed) (hfuel : state.need + 15 ≤ fuel + 1) :
    Completes (branch (fuel + 1)) state fun _ _ => True := by
  unfold branch
  refine ((expressionsComplete fuel).expression state h (by omega)).bind ?_
  intro condition tested htested hadvances hconsumed
  have := hadvances.need
  refine colonLine_completes htested ?_
  intro line hline hadvances
  have := hadvances.need_le
  refine (ih.block line hline (by omega)).bind ?_
  intro body after hwell hadvances _
  have := hadvances.need_le
  refine (currentKind_completes hwell).bind ?_
  rintro _ _ - - ⟨rfl, rfl⟩
  split
  · refine (advance_completes hwell).bind ?_
    rintro _ keyword hkeyword hadvances -
    have := hadvances.need_le
    refine (ih.branch keyword hkeyword (by omega)).bind ?_
    rintro ⟨inner, innerBody, alternative⟩ last hlast - -
    exact .of_pure hlast trivial
  · refine (advance_completes hwell).bind ?_
    rintro _ keyword hkeyword hadvances -
    have := hadvances.need_le
    refine colonLine_completes hkeyword ?_
    intro line hline hadvances
    have := hadvances.need_le
    refine (ih.block line hline (by omega)).bind ?_
    intro _ last hlast _ _
    exact .of_pure hlast trivial
  · exact .of_pure hwell trivial

private theorem loop_completes (h : state.WellFormed) (hfuel : state.need + 1 ≤ fuel + 1) :
    Completes (loop (fuel + 1)) state fun _ after => state.consumed < after.consumed := by
  unfold loop
  refine (expect_completes h (by decide)).bind ?_
  rintro _ keyword hkeyword hadvances ⟨-, hconsumed⟩
  have := hadvances.need
  refine ((expressionsComplete fuel).expression keyword hkeyword (by omega)).bind ?_
  intro condition tested htested hadvances _
  have := hadvances.need_le
  have := hadvances.consumed
  refine colonLine_completes htested ?_
  intro line hline hadvances
  have := hadvances.need_le
  have := hadvances.consumed
  refine (ih.block line hline (by omega)).bind ?_
  intro _ last hlast hadvances _
  have := hadvances.consumed
  exact .of_pure hlast (by omega)

end

theorem statementsComplete (fuel : Nat) : StatementsComplete fuel := by
  induction fuel with
  | zero => constructor <;> intros <;> omega
  | succ fuel ih =>
    constructor
    case statements => exact fun _ h hfuel => statements_completes ih h hfuel
    case statement => exact fun _ h hfuel => statement_completes ih h hfuel
    case block => exact fun _ h hfuel => block_completes ih h hfuel
    case function => exact fun _ h hfuel => function_completes ih h hfuel
    case conditional => exact fun _ h hfuel => conditional_completes ih h hfuel
    case branch => exact fun _ h hfuel => branch_completes ih h hfuel
    case loop => exact fun _ h hfuel => loop_completes ih h hfuel

/-! ## Whole programs -/

theorem expectOneOf_completes_of_any (h : state.WellFormed) (kinds : List TokenKind) :
    Completes (expectOneOf kinds) state fun _ _ => True := by
  refine (currentToken_completes h).bind ?_
  rintro _ _ - - ⟨rfl, rfl⟩
  split
  · exact (advance_completes h).weaken fun _ _ _ _ _ => trivial
  · exact .of_throw h

theorem program_completes (h : state.WellFormed) (hfuel : state.need + 16 ≤ fuel) :
    Completes (program fuel) state fun _ _ => True := by
  refine (currentToken_completes h).bind ?_
  rintro _ _ - - ⟨rfl, rfl⟩
  split
  · refine (advance_completes h).bind ?_
    rintro _ opened hopened hadvances -
    have := hadvances.need_le
    refine ((statementsComplete fuel).statements opened hopened (by omega)).bind ?_
    intro block after hwell _ _
    refine (expect_completes hwell (by decide)).bind ?_
    rintro _ closed hclosed - -
    refine (expectOneOf_completes_of_any hclosed _).bind ?_
    intro _ last hlast _ _
    refine (Completes.of_modify _ hlast (.of_eq rfl rfl rfl rfl rfl rfl)).bind ?_
    rintro _ _ hdone - -
    exact .of_pure hdone trivial
  · refine (Completes.of_modify _ h (.of_eq rfl rfl rfl rfl rfl rfl)).bind ?_
    rintro _ _ hdone - -
    exact .of_throw hdone

end Parser

namespace State

variable {state : State}

theorem need_le_fuel (state : State) : state.need + 32 ≤ state.fuel := by
  unfold need fuel
  omega

/-- Running a grammar function shows its own outcome if the fuel is enough for it. -/
theorem run_eq_of_completes {α : Type} {parser : Nat → Parser α} {good : α → State → Prop}
    (h : Completes (parser state.fuel) state good) :
    (parser state.fuel).run state = some (state.run parser) := by
  obtain ⟨result, after, hrun, -⟩ := h
  unfold run
  rw [hrun]
  rfl

theorem run_program (h : state.WellFormed) :
    (Parser.program state.fuel).run state = some (state.run Parser.program) :=
  run_eq_of_completes (Parser.program_completes h (by have := need_le_fuel state; omega))

end State

end Offside.Parse
