import Mathlib.Logic.Relation
import Offside.Parse.Statement
import Offside.Proofs.Parsing.Ahead

/-!
# Grammar functions only move forward

Whatever a grammar function does is a sequence of four changes: it consumes a token, keeps an error,
notes an event or sets the depth of nesting.  A fatal error is the only outcome that is not reached
in this way.  So the errors only grow, the configuration stays, and what was ahead is what was
consumed followed by what is ahead now.
-/

namespace Offside.Parse

namespace State

inductive Step : State → State → Prop where
  | consume {before after : State} (h : before.Consumes after) : Step before after
  | keep (state : State) (error : Error) : Step state (state.keep error)
  | note (state : State) (event : Event) : Step state (state.note event)
  | renest (state : State) (nesting : Nat) : Step state { state with nesting }

def Moves : State → State → Prop := Relation.ReflTransGen Step

namespace Moves

variable {first second third : State} {error : Error}

theorem refl (state : State) : state.Moves state := Relation.ReflTransGen.refl

theorem trans (h : first.Moves second) (h' : second.Moves third) : first.Moves third :=
  Relation.ReflTransGen.trans h h'

theorem of_step (h : Step first second) : first.Moves second := Relation.ReflTransGen.single h

theorem settled (h : first.Moves second) (hfirst : first.Settled) : second.Settled := by
  induction h with
  | refl => exact hfirst
  | tail _ hstep ih =>
      cases hstep with
      | consume hconsumes => exact hconsumes.settled
      | keep error => exact ih
      | note event => exact ih
      | renest nesting => exact ih

theorem ahead (h : first.Moves second) :
    ∃ consumed : List Token, first.ahead = consumed.map .ok ++ second.ahead := by
  induction h with
  | refl => exact ⟨[], rfl⟩
  | tail _ hstep ih =>
      obtain ⟨consumed, hconsumed⟩ := ih
      cases hstep with
      | consume hconsumes =>
          rw [hconsumes.ahead] at hconsumed
          exact ⟨consumed ++ [_], by simpa using hconsumed⟩
      | keep error => exact ⟨consumed, hconsumed⟩
      | note event => exact ⟨consumed, hconsumed⟩
      | renest nesting => exact ⟨consumed, hconsumed⟩

theorem errors (h : first.Moves second) : first.errors <+: second.errors := by
  induction h with
  | refl => exact List.prefix_rfl
  | tail _ hstep ih =>
      cases hstep with
      | consume hconsumes =>
          rw [hconsumes.errors]
          exact ih
      | keep error => exact ih.trans (List.prefix_append _ [error])
      | note event => exact ih
      | renest nesting => exact ih

theorem config (h : first.Moves second) : second.config = first.config := by
  induction h with
  | refl => rfl
  | tail _ hstep ih =>
      cases hstep with
      | consume hconsumes => rw [hconsumes.config, ih]
      | keep error => exact ih
      | note event => exact ih
      | renest nesting => exact ih

theorem consumed (h : first.Moves second) :
    first.consumed ≤ second.consumed ∧
      (second.consumed = first.consumed → second.ahead = first.ahead) := by
  induction h with
  | refl => exact ⟨Nat.le_refl _, fun _ => rfl⟩
  | tail _ hstep ih =>
      cases hstep with
      | consume hconsumes =>
          have hmore := hconsumes.consumed
          constructor
          · omega
          · intro hsame
            omega
      | keep error => exact ih
      | note event => exact ih
      | renest nesting => exact ih

theorem errors_keep_ne (h : (first.keep error).Moves second) : second.errors ≠ first.errors := by
  intro hsame
  have hlength := h.errors.length_le
  rw [hsame] at hlength
  simp only [keep, State.note, List.length_append, List.length_singleton] at hlength
  omega

end Moves

end State

/-! ## Moving grammar functions -/

namespace Parser

def Moving {α : Type} (parser : Parser α) : Prop :=
  ∀ state : State, state.Settled →
    Ensures parser state (fun _ after => state.Moves after)
      fun error after => error.isFatal = true ∨ state.Moves after

namespace Moving

variable {α β : Type}

theorem of_pure (value : α) : Moving (pure value) :=
  fun state _ => .of_pure (.refl state)

theorem of_throw (error : Error) : Moving (throw error : Parser α) :=
  fun state _ => .of_throw (.inr (.refl state))

theorem of_exhausted : Moving (exhausted : Parser α) :=
  fun _ _ => .of_exhausted

theorem later {parser : Parser α} {state middle : State} (h : Moving parser)
    (hsettled : state.Settled) (hmiddle : state.Moves middle) :
    Ensures parser middle (fun _ after => state.Moves after)
      fun error after => error.isFatal = true ∨ state.Moves after := by
  apply (h middle (hmiddle.settled hsettled)).weaken
  · intro _ after hafter
    exact hmiddle.trans hafter
  · intro error after hafter
    cases hafter with
    | inl hfatal => exact .inl hfatal
    | inr hmoves => exact .inr (hmiddle.trans hmoves)

theorem bind {parser : Parser α} {next : α → Parser β} (h : Moving parser)
    (hnext : ∀ value, Moving (next value)) : Moving (parser >>= next) := by
  intro state hsettled
  apply Ensures.bind (h state hsettled)
  intro value middle hmiddle
  exact (hnext value).later hsettled hmiddle

theorem of_get : Moving get :=
  fun state _ => .of_get (.refl state)

theorem of_note (event : State → Event) :
    Moving (modify fun state => state.note (event state)) :=
  fun state _ => .of_modify (.of_step (.note state _))

theorem of_currentToken : Moving currentToken :=
  fun state _ => .of_currentToken (.refl state)

theorem of_currentKind : Moving currentKind :=
  fun state _ => .of_currentKind (.refl state)

theorem of_nextKind : Moving nextKind :=
  fun state _ => .of_nextKind (.refl state)

theorem of_advance : Moving advance := by
  intro state hsettled
  by_cases heof : state.current.kind = .eof
  · exact .of_advance (State.advance_of_eof hsettled heof) (.refl state)
  · rcases State.advance_cases heof with ⟨after, hadvance, hconsumes⟩ |
      ⟨failure, after, hadvance, _⟩
    · exact .of_advance hadvance (.of_step (.consume hconsumes))
    · exact .of_advance hadvance (.inl rfl)

theorem nested {parser : Parser α} (h : Moving parser) : Moving (nested parser) := by
  intro state hsettled
  apply Ensures.get_bind
  split
  · exact .of_throw (.inr (.refl state))
  · apply Ensures.set_bind
    have hdeeper : state.Moves { state with nesting := state.nesting + 1 } :=
      .of_step (.renest state _)
    apply Ensures.bind (h _ (hdeeper.settled hsettled)).attempt
    intro result after hafter
    apply Ensures.modify_bind
    have hback : after.Moves { after with nesting := after.nesting - 1 } :=
      .of_step (.renest after _)
    cases result with
    | ok value => exact .of_pure (hdeeper.trans (State.Moves.trans hafter hback))
    | error error =>
        apply Ensures.of_throw
        cases hafter with
        | inl hfatal => exact .inl hfatal
        | inr hmoves => exact .inr (hdeeper.trans (hmoves.trans hback))

end Moving

theorem expectOneOf_moving (kinds : List TokenKind) : Moving (expectOneOf kinds) := by
  apply Moving.bind .of_currentToken
  intro token
  split
  · exact .of_advance
  · exact .of_throw _

theorem expect_moving (kind : TokenKind) : Moving (expect kind) := expectOneOf_moving [kind]

theorem record_ensures (state : State) (error : Error) :
    Ensures (record error) state (fun _ after => after = state.keep error)
      fun thrown after => (∃ count, thrown.cause = .tooManyErrors count) ∧
        after = state.keep error := by
  apply Ensures.modify_bind
  apply Ensures.get_bind
  split
  · exact .of_throw ⟨⟨_, rfl⟩, rfl⟩
  · exact .of_pure rfl

theorem record_bind {α : Type} {state : State} {error : Error} {next : PUnit → Parser α}
    {good : α → State → Prop} {bad : Error → State → Prop}
    (hbad : ∀ thrown count, thrown.cause = .tooManyErrors count → bad thrown (state.keep error))
    (h : Ensures (next ⟨⟩) (state.keep error) good bad) :
    Ensures (record error >>= next) state good bad := by
  have hrecord : Ensures (record error) state (fun _ after => after = state.keep error) bad := by
    apply (record_ensures state error).weaken
    · exact fun _ _ h => h
    · rintro thrown _ ⟨⟨count, hcause⟩, rfl⟩
      exact hbad thrown count hcause
  apply Ensures.bind hrecord
  rintro ⟨⟩ _ rfl
  exact h

theorem record_moving (error : Error) : Moving (record error) := by
  intro state _
  have hkeep : state.Moves (state.keep error) := .of_step (.keep state error)
  apply (record_ensures state error).weaken
  · rintro _ _ rfl
    exact hkeep
  · rintro _ _ ⟨-, rfl⟩
    exact .inr hkeep

theorem skipToBoundary_moving (fuel : Nat) (progressed : Bool) (depth : Nat) :
    Moving (skipToBoundary fuel progressed depth) := by
  induction fuel generalizing progressed depth with
  | zero => exact .of_exhausted
  | succ fuel ih =>
      unfold skipToBoundary
      apply Moving.bind .of_currentKind
      intro kind
      split
      · exact .of_pure _
      · split
        · exact .of_pure _
        · apply Moving.bind .of_advance
          intro _
          split
          · exact .of_pure _
          · exact ih _ _
      · exact Moving.bind .of_advance fun _ => ih _ _
      · apply Moving.bind .of_advance
        intro _
        split
        · apply Moving.bind .of_currentKind
          intro kind
          split
          · exact ih _ _
          · exact .of_pure _
        · exact ih _ _
      · split
        · exact .of_pure _
        · exact Moving.bind .of_advance fun _ => ih _ _

theorem recover_of_fatal {fuel start openBlocks : Nat} {error : Error} {state : State}
    {bad : Error → State → Prop} (h : error.isFatal = true) (hbad : bad error state) :
    Ensures (recover fuel error start openBlocks) state (fun _ _ => False) bad := by
  apply Ensures.get_bind
  rw [h, Bool.true_or, if_pos rfl]
  exact .of_throw hbad

theorem recover_later {fuel start openBlocks : Nat} {error : Error} {state after : State}
    (hsettled : state.Settled) (hafter : error.isFatal = true ∨ state.Moves after) :
    Ensures (recover fuel error start openBlocks) after
      (fun _ last => state.Moves last ∧ last.errors ≠ state.errors)
      fun thrown last => thrown.isFatal = true ∨ state.Moves last := by
  apply Ensures.get_bind
  split
  · exact .of_throw hafter
  · rename_i hgoes
    have hmoves : state.Moves after := by
      cases hafter with
      | inl hfatal => simp [hfatal] at hgoes
      | inr hmoves => exact hmoves
    have hkeep : after.Moves (after.keep error) := .of_step (.keep after error)
    apply record_bind
    · exact fun _ _ _ => .inr (hmoves.trans hkeep)
    · have hskip : Moving (synchronize fuel start ((after.keep error).openBlocks - openBlocks)) := by
        apply Moving.bind .of_get
        intro state
        apply Moving.bind (skipToBoundary_moving fuel _ _)
        intro _
        exact .of_note fun state => .resynchronized state.current.position state.current.kind
      apply Ensures.get_bind
      apply (hskip _ (hkeep.settled (hmoves.settled hsettled))).weaken
      · intro _ last hlast
        constructor
        · exact hmoves.trans (hkeep.trans hlast)
        · intro hsame
          have hlength := (hmoves.trans hkeep).errors.length_le
          have hlength' := hlast.errors.length_le
          have hgrown := hmoves.errors.length_le
          rw [hsame] at hlength'
          simp only [State.keep, State.note, List.length_append, List.length_singleton] at hlength'
          omega
      · intro thrown last hlast
        cases hlast with
        | inl hfatal => exact .inl hfatal
        | inr hlast => exact .inr (hmoves.trans (hkeep.trans hlast))

end Parser

end Offside.Parse
