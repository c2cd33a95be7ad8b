import Offside.Parse.Progress.Statement
import Offside.Proofs.Parsing.Ahead

/-!
# Runs of whole programs

A parser that is set up over a stream sees the outcomes of the stream, and a run of it never ends for
want of fuel.
-/

namespace Offside.Parse

open Scan (TokenStream)

namespace State

variable {state : State}

structure Fresh (state : State) (stream : Scan.TokenStream) (config : Config) : Prop where
  settled : state.Settled
  ahead : state.ahead = untilEof stream.items
  consumed : state.consumed = 0
  errors : state.errors = []
  config : state.config = config
  nesting : state.nesting = 0
  openBlocks : state.openBlocks = 0

theorem fresh_of_ofStream {stream : Scan.TokenStream} {config : Config}
    (h : ofStream stream config = .ok state) : state.Fresh stream config := by
  unfold ofStream Scan.TokenStream.next at h
  cases hitems : stream.items with
  | nil => simp [hitems] at h
  | cons first rest =>
      cases first with
      | error failure => simp [hitems] at h
      | ok current =>
          by_cases hcurrent : current.kind = .eof
          · simp only [hitems, hcurrent, if_true, Except.ok.injEq] at h
            subst h
            refine ⟨fun _ => rfl, ?_, rfl, rfl, rfl, rfl, rfl⟩
            rw [ahead_of_eof hcurrent, hitems, untilEof, if_pos hcurrent]
          · cases hrest : rest with
            | nil => simp [hitems, hcurrent, hrest] at h
            | cons second rest =>
                cases second with
                | error failure => simp [hitems, hcurrent, hrest] at h
                | ok next =>
                    simp only [hitems, hcurrent, hrest, if_false, Except.ok.injEq] at h
                    subst h
                    refine ⟨fun heof => absurd heof hcurrent, ?_, rfl, rfl, rfl, rfl, rfl⟩
                    rw [ahead, hitems, hrest]

theorem exists_fresh {stream : Scan.TokenStream} {tokens : List Token} (config : Config)
    (hitems : untilEof stream.items = tokens.map .ok)
    (hlast : ∃ last ∈ tokens.getLast?, last.kind = .eof) :
    ∃ state, ofStream stream config = .ok state := by
  obtain ⟨last, hlast, heof⟩ := hlast
  unfold ofStream Scan.TokenStream.next
  cases hstream : stream.items with
  | nil =>
      rw [hstream, untilEof, eq_comm, List.map_eq_nil_iff] at hitems
      simp [hitems] at hlast
  | cons first rest =>
      rw [hstream] at hitems
      cases tokens with
      | nil => simp at hlast
      | cons token tokens =>
          cases first with
          | error failure => simp [untilEof] at hitems
          | ok current =>
              by_cases hcurrent : current.kind = .eof
              · simp [hcurrent]
              · simp only [untilEof, hcurrent, if_false, List.map_cons, List.cons.injEq,
                  Except.ok.injEq] at hitems
                obtain ⟨rfl, hitems⟩ := hitems
                cases rest with
                | nil =>
                    rw [untilEof, eq_comm, List.map_eq_nil_iff] at hitems
                    subst hitems
                    simp only [List.getLast?_singleton, Option.mem_def, Option.some.injEq] at hlast
                    rw [hlast] at hcurrent
                    contradiction
                | cons second rest =>
                    cases second with
                    | error failure =>
                        cases tokens <;> simp [untilEof] at hitems
                    | ok next => simp [hcurrent]

end State

/-- A run of a whole program does not run out of fuel, so it has one of the ensured outcomes. -/
theorem State.run_program_meets {good : Block → State → Prop} {bad : Error → State → Prop}
    (h : state.WellFormed) (hprogram : Ensures (Parser.program state.fuel) state good bad) :
    Meets good bad (state.run Parser.program).1 (state.run Parser.program).2 :=
  hprogram _ _ (State.run_program h)

theorem exists_parsed_of_ensures {stream : TokenStream} {config : Config} {state : State}
    {good : Block → State → Prop} (hstate : State.ofStream stream config = .ok state)
    (hprogram : Ensures (Parser.program state.fuel) state good fun _ _ => False) :
    ∃ block after, (parseStream stream config).parsed = .ok ⟨block, after.errors⟩ ∧
      good block after := by
  have hmeets := State.run_program_meets (State.fresh_of_ofStream hstate).settled.wellFormed hprogram
  unfold parseStream
  rw [hstate]
  cases hresult : (state.run Parser.program).1 with
  | error error =>
      rw [hresult] at hmeets
      contradiction
  | ok block =>
      rw [hresult] at hmeets
      refine ⟨block, (state.run Parser.program).2, ?_, hmeets⟩
      simp only [Outcome.parsed, Except.map, hresult]

theorem Outcome.of_parsed {outcome : Outcome} {parsed : Parsed}
    (h : outcome.parsed = .ok parsed) :
    outcome.result = .ok parsed.block ∧ outcome.errors = parsed.errors := by
  obtain ⟨result, errors, journal⟩ := outcome
  cases result with
  | error error => cases h
  | ok block =>
      cases h
      exact ⟨rfl, rfl⟩

theorem Outcome.of_parsed_error {outcome : Outcome} {error : Error}
    (h : outcome.parsed = .error error) : outcome.result = .error error := by
  obtain ⟨result, errors, journal⟩ := outcome
  cases result with
  | error thrown => exact congrArg _ (Except.error.inj h)
  | ok block => cases h

theorem parsed_eq_ok {stream : TokenStream} {config : Config} {parsed : Parsed}
    (h : (parseStream stream config).parsed = .ok parsed) :
    ∃ state : State, state.Fresh stream config ∧ (state.run Parser.program).1 = .ok parsed.block ∧
      (state.run Parser.program).2.errors = parsed.errors := by
  have houtcome := Outcome.of_parsed h
  unfold parseStream at houtcome
  split at houtcome
  · exact absurd houtcome.1 nofun
  · rename_i state hstate
    exact ⟨state, State.fresh_of_ofStream hstate, houtcome⟩

end Offside.Parse
