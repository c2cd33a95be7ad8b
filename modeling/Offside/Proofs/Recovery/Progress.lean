import Offside.Proofs.Parsing.Mirror
import Offside.Proofs.Recovery.Confinement

/-!
# Parsing goes on and comes to an end

A parse of a finite stream ends, whatever its tokens are.  Each round of the loop over the statements
of a block consumes a token, because a statement that is read does, and because going on behind a
broken one skips its first token if the statement itself has consumed none.  What is skipped stays
inside of the block in which the statement stands, unless the statement has read the end of this
block as an operator.
-/

namespace Offside.Parse

open Scan (TokenStream)
open Parse.Parser

variable {state failed after : State} {fuel fuel' : Nat} {error : Error}

/-! ## Rounds -/

/-- A statement that is read consumes a token, with any amount of fuel that is enough for it. -/
theorem statement_consumes {stmt : Stmt} (heof : state.current.kind ≠ .eof)
    (hrun : (statement fuel).run state = some (.ok stmt, after)) : state.consumed < after.consumed := by
  have hwell : state.WellFormed := fun hkind => absurd hkind heof
  have hmore : (statement (fuel + (state.need + 15))).run state = some (.ok stmt, after) :=
    (statementsRelated Mirror.identity_sound.compositional.guarding
      (Nat.le_add_right fuel (state.need + 15))).statement.follows trivial hrun
      ⟨fun _ _ => id, fun _ _ => id⟩
  obtain ⟨result, last, hlast, -, -, hconsumed⟩ :=
    (statementsComplete (fuel + (state.need + 15))).statement state hwell (Nat.le_add_left _ _)
  rw [hmore] at hlast
  cases hlast
  exact hconsumed stmt rfl

theorem statement_takes (heof : state.current.kind ≠ .eof) (herror : error.isFatal = false)
    (hrun : (statement fuel).run state = some (.error error, failed)) :
    ∃ spent, state.Takes failed spent := by
  have hmoving := (statementsMoving fuel).statement state (fun hkind => absurd hkind heof) _ _ hrun
  rcases hmoving with hfatal | hmoves
  · rw [herror] at hfatal
    contradiction
  · exact hmoves.takes

/-- A broken statement from which the parser recovers has consumed a token, or going on behind it
does. -/
theorem recover_consumes (heof : state.current.kind ≠ .eof) (hdedent : state.current.kind ≠ .dedent)
    (hrun : (statement fuel).run state = some (.error error, failed))
    (hrecover : (recover fuel' error state.consumed state.openBlocks).run failed =
      some (.ok (), after)) : state.consumed < after.consumed := by
  obtain ⟨herror, hlands⟩ := recover_skips.ok hrecover
  obtain ⟨spent, htakes⟩ := statement_takes heof herror hrun
  have hconsumed := htakes.consumed
  have hlater := hlands.consumed_le
  cases spent with
  | cons token spent =>
      rw [List.length_cons] at hconsumed
      omega
  | nil =>
      have hcurrent : failed.current = state.current :=
        State.current_eq_of_ahead htakes.ahead.symm
      have hnone : (failed.consumed != state.consumed) = false := by
        simpa using hconsumed
      rw [hnone] at hlands
      have hmore := hlands.progress (by rwa [hcurrent]) (by rwa [hcurrent])
      omega

theorem program_of_fuel_le {stream : TokenStream} {config : Config}
    (hstate : State.ofStream stream config = .ok state) (hfuel : state.fuel ≤ fuel) :
    (program fuel).run state = some (state.run program) := by
  have hwell := (State.fresh_of_ofStream hstate).settled.wellFormed
  exact (program_related Mirror.identity_sound.compositional hfuel).follows trivial
    (State.run_program hwell) ⟨fun _ _ => id, fun _ _ => id⟩

/-! ## Boundaries -/

/-- Behind a broken statement the parser has come to a boundary, and neither the statement nor what is
skipped contains the end of the block in which the statement stands. -/
def State.Resumes (state failed after : State) : Prop :=
  ∃ spent skipped, state.Takes failed spent ∧ failed.Takes after skipped ∧
    StaysInside 0 (spent ++ skipped) ∧
    AtBoundary (depthBehind 0 spent) (failed.consumed != state.consumed) skipped after

theorem recover_resumes (hinside : state.Inside 0 state.nesting failed)
    (hrecover : (recover fuel' error state.consumed state.openBlocks).run failed =
      some (.ok (), after)) : state.Resumes failed after := by
  obtain ⟨-, skipped, hskips, hboundary⟩ := recover_skips.ok hrecover
  obtain ⟨spent, htakes, hstays, -⟩ := hinside.way
  have hmoves := (recover_later hinside.settled (.inr (.refl failed))).ok hrecover
  rw [htakes.depth_eq hstays] at hboundary
  have hskipped := hskips.inside
  rw [htakes.depth_eq hstays] at hskipped
  exact ⟨spent, skipped, htakes, hskips.takes hmoves.1, hstays.append hskipped, hboundary⟩

/-- A parse ends.  Each round of the loop over the statements of a block consumes a token, and skipping
ends at a boundary.  If no end of a block ahead carries the fault of a stray `!`, this is a boundary
of the block in which the broken statement stands. -/
theorem parsing_progresses :
    (∀ (stream : TokenStream) (config : Config) (state : State),
      State.ofStream stream config = .ok state → ∀ fuel, state.fuel ≤ fuel →
        (program fuel).run state = some (state.run program)) ∧
    ∀ (state : State) (fuel : Nat), state.current.kind ≠ .eof → state.current.kind ≠ .dedent →
      Ensures (statement fuel) state (fun _ after => state.consumed < after.consumed)
        fun error failed =>
          (error.isFatal = true ∨ ∃ spent, state.Takes failed spent ∧
            (state.PlainEnds → StaysInside 0 spent ∧
              failed.openBlocks - state.openBlocks = depthBehind 0 spent)) ∧
          ∀ fuel', Ensures (recover fuel' error state.consumed state.openBlocks) failed
            (fun _ after => state.consumed < after.consumed ∧
              Lands (failed.openBlocks - state.openBlocks) (failed.consumed != state.consumed)
                failed after ∧
              (state.PlainEnds → state.Resumes failed after))
            fun _ after => Strays (failed.openBlocks - state.openBlocks) failed after := by
  refine ⟨fun _ _ _ hstate _ => program_of_fuel_le hstate, ?_⟩
  intro state fuel heof hdedent result failed hrun
  have hsettled : state.Settled := fun hkind => absurd hkind heof
  cases result with
  | ok stmt => exact statement_consumes heof hrun
  | error error =>
      have hconfined : state.PlainEnds →
          error.isFatal = true ∨ state.Inside 0 state.nesting failed := fun hplain =>
        statement_confined (fun less _ => statements_confined less) hsettled hplain _ _ hrun
      constructor
      · by_cases hfatal : error.isFatal = true
        · exact .inl hfatal
        · obtain ⟨spent, htakes⟩ := statement_takes heof (Bool.not_eq_true _ ▸ hfatal) hrun
          refine .inr ⟨spent, htakes, fun hplain => ?_⟩
          have hinside := (hconfined hplain).resolve_left hfatal
          have hstays := hinside.stays htakes
          exact ⟨hstays, htakes.depth_eq hstays⟩
      · intro fuel' result last hrecover
        have hskips := recover_skips result last hrecover
        cases result with
        | error thrown => exact hskips
        | ok =>
            refine ⟨recover_consumes heof hdedent hrun hrecover, hskips.2, fun hplain => ?_⟩
            have hgoes : ¬error.isFatal = true := by simp [hskips.1]
            exact recover_resumes ((hconfined hplain).resolve_left hgoes) hrecover

/-- An opening token, a parenthesis that nothing opens and a line break, without an end. -/
theorem parsing_progresses_unbalanced :
    let tokens : List Token :=
      [.plain .indent .start, .plain .rightParen .start, .plain .newline .start]
    let state : State :=
      ⟨⟨[.ok (.plain .newline .start)], .start⟩, .plain .indent .start, .plain .rightParen .start,
        0, 0, 0, [], .default, [.pulled, .pulled]⟩
    State.ofStream (.ofTokens tokens) .default = .ok state ∧
      (program state.fuel).run state = some (state.run program) ∧
      ((statement state.fuel).run state).map (fun outcome => outcome.1.isOk) = some false ∧
      state.PlainEnds ∧
      Ensures (statement state.fuel) state (fun _ after => state.consumed < after.consumed)
        fun error failed => ∀ fuel',
          Ensures (recover fuel' error state.consumed state.openBlocks) failed
            (fun _ after => state.consumed < after.consumed ∧ state.Resumes failed after)
            fun _ after => Strays (failed.openBlocks - state.openBlocks) failed after := by
  intro tokens state
  have hstate : State.ofStream (.ofTokens tokens) .default = .ok state := rfl
  have hplain : state.PlainEnds := by
    have hkinds : ∀ token ∈ tokens, token.kind ≠ .dedent := by decide
    have hahead : state.ahead = tokens.map .ok := rfl
    intro token hmem hkind
    rw [hahead, List.mem_map] at hmem
    obtain ⟨_, hmem, ⟨⟩⟩ := hmem
    exact absurd hkind (hkinds token hmem)
  refine ⟨hstate, parsing_progresses.1 _ _ state hstate _ (Nat.le_refl _), by decide +kernel,
    hplain, ?_⟩
  apply (parsing_progresses.2 state state.fuel (by decide) (by decide)).weaken
  · exact fun _ _ hconsumed => hconsumed
  · intro error failed hfailed fuel'
    apply (hfailed.2 fuel').weaken
    · exact fun _ _ hafter => ⟨hafter.1, hafter.2.2 hplain⟩
    · exact fun _ _ hafter => hafter

/-- The end of a block with the fault of a stray `!` is read as an operator. -/
theorem not_resumes_behind_strayEnd :
    let strayEnd : Token := ⟨.dedent, .start, some (.error .strayBang)⟩
    let tokens : List Token := [.plain .indent .start, .plain .minus .start, strayEnd,
      .plain .rightParen .start, .plain .dedent .start, .plain .eof .start]
    ∃ opened, State.ofStream (.ofTokens tokens) .default = .ok opened ∧
      let state := opened.advance.2
      ¬Ensures (statement state.fuel) state (fun _ _ => True) fun error failed =>
        Ensures (recover state.fuel error state.consumed state.openBlocks) failed
          (fun _ after => state.Resumes failed after) fun _ _ => True := by
  intro strayEnd tokens
  refine ⟨_, rfl, ?_⟩
  intro state h
  have hruns : ((statement state.fuel).run state).bind (fun
      | (.ok _, _) => none
      | (.error error, failed) =>
          ((recover state.fuel error state.consumed state.openBlocks).run failed).map fun outcome =>
            (outcome.1.isOk, failed.consumed)) = some (true, 3) := by
    decide +kernel
  obtain ⟨⟨result, failed⟩, hrun, hrest⟩ := Option.bind_eq_some_iff.1 hruns
  cases result with
  | ok stmt => cases hrest
  | error error =>
      obtain ⟨⟨recovered, after⟩, hrecover, hfacts⟩ := Option.map_eq_some_iff.1 hrest
      rw [Prod.mk.injEq] at hfacts
      cases recovered with
      | error thrown => cases hfacts.1
      | ok =>
          obtain ⟨spent, skipped, htakes, -, hinside, -⟩ := (h _ _ hrun).ok hrecover
          have hlength : spent.length = [Token.plain .minus .start, strayEnd].length := by
            have hconsumed := htakes.consumed
            rw [hfacts.2, show state.consumed = 1 from rfl] at hconsumed
            exact (Nat.add_left_cancel hconsumed).symm
          have hahead : state.ahead = [Token.plain .minus .start, strayEnd].map .ok ++
              [Token.plain .rightParen .start, .plain .dedent .start, .plain .eof .start].map .ok :=
            rfl
          rw [htakes.ahead] at hahead
          rw [tokens_eq_of_append hahead hlength] at hinside
          exact hinside.2.1 rfl rfl

end Offside.Parse
