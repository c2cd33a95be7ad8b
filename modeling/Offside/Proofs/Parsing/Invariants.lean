import Offside.Proofs.Parsing.Composition
import Offside.Proofs.Parsing.Run

/-!
# What grammar functions keep

What consuming a token, keeping an error, noting an event and setting the depth of nesting keep, all
grammar functions keep.  So the errors only grow, and all that a parser ever sees are tokens of its
stream: whatever errors it has recovered from, the names and the literals of its program are drawn
from them.
-/

namespace Offside.Parse

/-- A property of parsers that every change of a parser keeps, and under which only such tokens are
consumed. -/
structure Invariant (tokens : Token → Prop) (holds : State → Prop) : Prop where
  current : ∀ state, holds state → tokens state.current
  advance : ∀ state, holds state → holds state.advance.2
  keep : ∀ state error, holds state → holds (state.keep error)
  note : ∀ state event, event ≠ .pulled → holds state → holds (state.note event)
  renest : ∀ state nesting, holds state → holds { state with nesting }

theorem State.current_of_advance {state after : State} {token : Token}
    (h : state.advance = (.ok token, after)) : token = state.current := by
  cases hpull : state.pull with
  | mk result pulled =>
      cases result with
      | error failure =>
          rw [advance_of_failure hpull] at h
          cases h
      | ok following =>
          rw [advance_eq_of_pull hpull] at h
          cases h
          rfl

namespace Parser

def Keeps {α : Type} (holds : State → Prop) (good : α → Prop) (parser : Parser α) : Prop :=
  ∀ state, holds state →
    Ensures parser state (fun value after => good value ∧ holds after) fun _ after => holds after

variable {tokens : Token → Prop} {holds : State → Prop}

namespace Keeps

variable {α β : Type} {good : α → Prop} {good' : β → Prop} {parser : Parser α}

theorem of_value {value : α} (h : good value) : Keeps holds good (pure value) :=
  fun _ hstate => .of_pure ⟨h, hstate⟩

theorem of_throw (good : α → Prop) (error : Error) : Keeps holds good (throw error) :=
  fun _ hstate => .of_throw hstate

theorem bind {next : α → Parser β} (h : Keeps holds good parser)
    (hnext : ∀ value, good value → Keeps holds good' (next value)) :
    Keeps holds good' (parser >>= next) := by
  intro state hstate
  apply Ensures.bind (h state hstate)
  rintro value after ⟨hvalue, hafter⟩
  exact hnext value hvalue after hafter

theorem of_advance (invariant : Invariant tokens holds) : Keeps holds tokens Parser.advance := by
  intro state hstate
  have hafter := invariant.advance state hstate
  cases hadvance : state.advance with
  | mk result after =>
      rw [hadvance] at hafter
      apply Ensures.of_advance hadvance
      cases result with
      | ok token =>
          rw [State.current_of_advance hadvance]
          exact ⟨invariant.current state hstate, hafter⟩
      | error error => exact hafter

theorem attempt (h : Keeps holds good parser) :
    Keeps holds (fun result => ∀ value, result = .ok value → good value)
      (Parser.attempt parser) := by
  intro state hstate
  apply (Ensures.attempt (h state hstate)).weaken
  · rintro (error | value) after hafter
    · exact ⟨by simp, hafter⟩
    · exact ⟨by simpa using hafter.1, hafter.2⟩
  · exact fun _ _ hafter => hafter

theorem of_nested (invariant : Invariant tokens holds) (h : Keeps holds good parser) :
    Keeps holds good (nested parser) := by
  intro state hstate
  apply Ensures.get_bind
  split
  · exact .of_throw hstate
  · apply Ensures.set_bind
    apply Ensures.bind (h.attempt _ (invariant.renest state _ hstate))
    rintro result after ⟨hresult, hafter⟩
    apply Ensures.modify_bind
    have hback := invariant.renest after (after.nesting - 1) hafter
    cases result with
    | ok value => exact .of_pure ⟨hresult value rfl, hback⟩
    | error error => exact .of_throw hback

theorem of_record (invariant : Invariant tokens holds) (error : Error) :
    Keeps holds (fun _ => True) (record error) := by
  intro state hstate
  apply Ensures.modify_bind
  apply Ensures.get_bind
  have hkept := invariant.keep state error hstate
  split
  · exact .of_throw hkept
  · exact .of_pure ⟨trivial, hkept⟩

theorem of_surface (invariant : Invariant tokens holds) (error : Error) :
    Keeps holds (fun _ => True) (surface error) := by
  intro state hstate
  apply Ensures.get_bind
  split
  · exact .of_throw hstate
  · exact of_record invariant error state hstate

theorem of_recovering (invariant : Invariant tokens holds) {next : α → Parser β}
    {elsewhere : Parser β} (h : Keeps holds good parser)
    (hnext : ∀ value, good value → Keeps holds good' (next value))
    (helsewhere : Keeps holds good' elsewhere) :
    Keeps holds good' (recovering parser next elsewhere) := by
  apply h.attempt.bind
  rintro (error | value) hresult
  · exact (of_surface invariant error).bind fun _ _ => helsewhere
  · exact hnext value (hresult value rfl)

end Keeps

theorem Keeps.compositional (invariant : Invariant tokens holds) :
    Compositional tokens fun good parser _ => Keeps holds good parser where
  exhausted _ _ _ := .of_exhausted
  cut _ _ _ := .of_exhausted
  value := .of_value
  throw good error _ := .of_throw good error
  bind := .bind
  currentToken state hstate := .of_currentToken ⟨invariant.current state hstate, hstate⟩
  nextKind _ hstate := .of_nextKind ⟨trivial, hstate⟩
  counts _ hstate := .get_bind (.get_bind (.of_pure ⟨trivial, hstate⟩))
  advance := .of_advance invariant
  note event _ hpulled state hstate :=
    .of_modify ⟨trivial, invariant.note state (event state) (hpulled state) hstate⟩
  nested := .of_nested invariant
  surface error _ := .of_surface invariant error
  recovering := .of_recovering invariant

end Parser

/-! ## Tokens of a stream -/

namespace State

structure Confined (tokens : Token → Prop) (state : State) : Prop where
  current : tokens state.current
  next : tokens state.next
  items : ∀ token, .ok token ∈ state.stream.items → tokens token

variable {tokens : Token → Prop} {state : State}

theorem Confined.pull (h : state.Confined tokens) :
    (∀ following, state.pull.1 = .ok following → tokens following) ∧ state.pull.2.Confined tokens := by
  by_cases hnext : state.next.kind = .eof
  · rw [pull_of_eof hnext]
    exact ⟨by rintro _ ⟨⟩; exact h.next, h⟩
  · cases hitems : state.stream.items with
    | nil =>
        rw [pull_of_nil hnext hitems]
        exact ⟨by rintro _ ⟨⟩, h.current, h.next, h.items⟩
    | cons item rest =>
        rw [pull_of_items hnext hitems]
        have hrest := h.items
        rw [hitems] at hrest
        refine ⟨?_, h.current, h.next, fun token htoken => hrest token (.tail _ htoken)⟩
        rintro following rfl
        exact hrest following (.head _)

theorem Confined.advance (h : state.Confined tokens) : state.advance.2.Confined tokens := by
  obtain ⟨hfollowing, hafter⟩ := h.pull
  cases hpull : state.pull with
  | mk result after =>
      rw [hpull] at hfollowing hafter
      cases result with
      | error failure =>
          rw [advance_of_failure hpull]
          exact hafter
      | ok following =>
          rw [advance_eq_of_pull hpull]
          exact ⟨hafter.next, hfollowing following rfl, hafter.items⟩

theorem Confined.invariant (tokens : Token → Prop) : Invariant tokens (Confined tokens) where
  current _ h := h.current
  advance _ h := h.advance
  keep _ _ h := ⟨h.current, h.next, h.items⟩
  note _ _ _ h := ⟨h.current, h.next, h.items⟩
  renest _ _ h := ⟨h.current, h.next, h.items⟩

theorem confined_of_ofStream {stream : Scan.TokenStream} {config : Config}
    (h : ofStream stream config = .ok state) :
    state.Confined fun token => .ok token ∈ stream.items := by
  unfold ofStream Scan.TokenStream.next at h
  cases hitems : stream.items with
  | nil => simp [hitems] at h
  | cons first rest =>
      cases first with
      | error failure => simp [hitems] at h
      | ok current =>
          by_cases hcurrent : current.kind = .eof
          · simp only [hitems, hcurrent, if_true, Except.ok.injEq] at h
            subst h
            exact ⟨.head _, .head _, fun token htoken => .tail _ htoken⟩
          · cases hrest : rest with
            | nil => simp [hitems, hcurrent, hrest] at h
            | cons second rest =>
                cases second with
                | error failure => simp [hitems, hcurrent, hrest] at h
                | ok next =>
                    simp only [hitems, hcurrent, hrest, if_false, Except.ok.injEq] at h
                    subst h
                    exact ⟨.head _, .tail _ (.head _), fun token htoken => .tail _ (.tail _ htoken)⟩

end State

/-- A program is drawn from the tokens of its stream, whatever the parser has recovered from. -/
theorem drawnFrom_of_parseStream {stream : Scan.TokenStream} {config : Config} {block : Block}
    (h : (parseStream stream config).result = .ok block) :
    Block.DrawnFrom (fun token => .ok token ∈ stream.items) block := by
  unfold parseStream at h
  split at h
  · cases h
  · rename_i state hstate
    have hkeeps := Parser.program_related
      (Parser.Keeps.compositional (State.Confined.invariant fun token => .ok token ∈ stream.items))
      (Nat.le_refl state.fuel)
    have hmeets := State.run_program_meets (State.fresh_of_ofStream hstate).settled.wellFormed
      (hkeeps state (State.confined_of_ofStream hstate))
    change (state.run Parser.program).1 = .ok block at h
    rw [h] at hmeets
    exact hmeets.1

end Offside.Parse
