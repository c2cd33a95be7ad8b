import Offside.Proofs.Nesting.Bounded
import Offside.Proofs.Parsing.Mirror

/-!
# A larger limit of nesting changes nothing

The limit of nesting is looked at in one place only, where it stops a parser with an error of its own.
So a run that never meets this error is the same run under every larger limit.
-/

namespace Offside.Parse

open Scan (TokenStream)

/-- The error says that the limit of nesting is exceeded. -/
def Error.IsTooDeep (error : Error) : Prop := ∃ limit, error.cause = .nestingTooDeep limit

def Mirror.deeper (config : Config) (limit : Nat) : Mirror where
  stream := id
  config config := { config with maxDepth := limit }
  holds state := state.config = config
  barred := Error.IsTooDeep

theorem Mirror.deeper_sound {config : Config} {limit : Nat} (h : config.maxDepth ≤ limit) :
    (deeper config limit).Sound where
  invariant :=
    { current := fun _ _ => trivial
      advance := fun state hstate => state.restored_advance.config.trans hstate
      keep := fun _ _ hstate => hstate
      note := fun _ _ _ hstate => hstate
      renest := fun _ _ hstate => hstate }
  items _ := rfl
  pull state _ := by
    unfold State.pull
    by_cases hnext : state.next.kind = .eof
    · simp only [Mirror.image, hnext, if_true]
    · simp only [Mirror.image, hnext, if_false]
      rfl
  recover _ := rfl
  maxErrors _ := rfl
  maxDepth state hstate := by
    have hconfig : state.config = config := hstate
    rw [hconfig]
    exact h
  tooDeep _ _ := .inr ⟨_, rfl⟩

/-- A parse that stays within the limit of nesting is the same parse under every larger limit. -/
theorem parseStream_deeper {stream : TokenStream} {config : Config} {limit : Nat}
    (hlimit : config.maxDepth ≤ limit)
    (hclear : Clear Error.IsTooDeep (parseStream stream config).result
      (parseStream stream config).errors) :
    parseStream stream { config with maxDepth := limit } = parseStream stream config := by
  refine (Mirror.deeper_sound hlimit).parseStream_eq ?_ ?_ hclear
  · rw [show (Mirror.deeper config limit).stream stream = stream from rfl]
    unfold State.ofStream
    split
    · rfl
    · split
      · rfl
      · split <;> rfl
  · exact fun state hstate => (State.fresh_of_ofStream hstate).config

/-! ## The limit as a whole -/

/-- The limit of nesting bounds the levels of a tree, every grammar function puts the depth of nesting
back, and where the limit is not exceeded it has no influence. -/
theorem parseStream_maxDepth (stream : TokenStream) (config : Config) :
    (∀ block, (parseStream stream config).result = .ok block →
      Block.levels block ≤ config.maxDepth) ∧
    (∀ {α : Type} {parser : Nat → Parser α}, Parser.Production parser →
      ∀ (fuel : Nat) (state after : State) (result : Except Error α),
        (parser fuel).run state = some (result, after) → after.nesting = state.nesting) ∧
    ∀ limit, config.maxDepth ≤ limit →
      Clear Error.IsTooDeep (parseStream stream config).result (parseStream stream config).errors →
      parseStream stream { config with maxDepth := limit } = parseStream stream config := by
  refine ⟨fun block => levels_of_parseStream, ?_, fun limit => parseStream_deeper⟩
  intro α parser hproduction fuel state after result hrun
  exact (hproduction.restored hrun).nesting

/-- A prefix operator in an argument is on the third level, where a limit of three ends.  The line
break that comes next is no expression, on whatever level it is found. -/
theorem parseStream_maxDepth_three :
    let config : Config := ⟨true, 64, 3⟩
    let stream : TokenStream := .ofText "f(-x)\n" 4
    let broken : State :=
      ⟨⟨[], .start⟩, .plain .newline .start, .plain .eof .start, 0, 0, 2, [], config, []⟩
    (∃ block, (parseStream stream config).result = .ok block ∧ Block.levels block = 3 ∧
      Block.levels block ≤ config.maxDepth) ∧
    (∃ error after, (Parser.expression 20).run broken = some (.error error, after) ∧
      after.nesting = 2) ∧
    parseStream stream { config with maxDepth := 48 } = parseStream stream config := by
  intro config stream broken
  obtain ⟨hlevels, hnesting, hdeeper⟩ := parseStream_maxDepth stream config
  have hthree : (parseStream stream config).result.toOption.map Block.levels = some 3 := by
    decide +kernel
  have hclean : (parseStream stream config).errors = [] := by decide +kernel
  cases hresult : (parseStream stream config).result with
  | error error => rw [hresult] at hthree; cases hthree
  | ok block =>
      rw [hresult] at hthree hdeeper
      refine ⟨⟨block, rfl, Option.some.inj hthree, hlevels block hresult⟩, ?_, ?_⟩
      · refine ⟨_, _, rfl, ?_⟩
        exact hnesting Parser.Production.expression 20 broken _ _ rfl
      · exact hdeeper 48 (by decide) ⟨nofun, by simp [hclean]⟩

end Offside.Parse
