import Offside.Proofs.Grammar.Acceptance
import Offside.Proofs.Parsing.Mirror

/-!
# What a parser asks its stream for

A parser asks for no token behind an end token.  So nothing that a stream would do past its end has an
influence, and a parse of a stream is a parse of its tokens.  A failure in front of the end token is a
wall: no program is read across it, and a parse gives back this failure unless it stops before it has
asked for it.
-/

namespace Offside.Parse

open Scan (TokenStream)

/-! ## Counting -/

def Event.isPull : Event → Bool
  | .pulled => true
  | _ => false

theorem Event.isPull_eq_false {event : Event} (h : event ≠ .pulled) : event.isPull = false := by
  cases event <;> first | rfl | contradiction

def Outcome.pulls (outcome : Outcome) : Nat := outcome.journal.countP Event.isPull

namespace State

def pulls (state : State) : Nat := state.journal.countP Event.isPull

variable {state : State}

theorem pulls_note {event : Event} (h : event ≠ .pulled) : (state.note event).pulls = state.pulls := by
  simp [pulls, note, Event.isPull_eq_false h]

theorem pulls_note_pulled (state : State) : (state.note .pulled).pulls = state.pulls + 1 :=
  List.countP_cons_of_pos rfl

theorem pulls_keep (state : State) (error : Error) : (state.keep error).pulls = state.pulls :=
  pulls_note (by simp)

end State

/-! ## Streams with an end token -/

/-- Behind `next` the outcomes still go on to an end token, unless `next` is one, and when it is there
no more than `total` tokens have been asked for. -/
def LeadsToEof (total : Nat) (next : Token) (items : List Item) (pulls : Nat) : Prop :=
  (next.kind = .eof ∧ pulls ≤ total) ∨
    ∃ (tokens : List Token) (last : Token), items = (tokens ++ [last]).map .ok ∧
      last.kind = .eof ∧ pulls + (tokens.length + 1) ≤ total

namespace State

variable {state : State} {total : Nat}

def Supplied (total : Nat) (state : State) : Prop :=
  LeadsToEof total state.next state.stream.items state.pulls

theorem Supplied.pulls_le (h : state.Supplied total) : state.pulls ≤ total := by
  rcases h with ⟨-, h⟩ | ⟨_, _, -, -, h⟩ <;> omega

theorem Supplied.pull (h : state.Supplied total) :
    ∃ following after, state.pull = (.ok following, after) ∧
      LeadsToEof total following after.stream.items after.pulls := by
  by_cases hnext : state.next.kind = .eof
  · exact ⟨_, _, pull_of_eof hnext, .inl ⟨hnext, h.pulls_le⟩⟩
  · rcases h with ⟨heof, -⟩ | ⟨tokens, last, hitems, hlast, htotal⟩
    · contradiction
    · cases tokens with
      | nil =>
          refine ⟨_, _, pull_of_items hnext hitems, .inl ⟨hlast, ?_⟩⟩
          rw [pulls_note_pulled]
          exact htotal
      | cons token tokens =>
          refine ⟨_, _, pull_of_items hnext hitems, .inr ⟨tokens, last, rfl, hlast, ?_⟩⟩
          rw [pulls_note_pulled]
          rw [List.length_cons] at htotal
          change state.pulls + 1 + _ ≤ total
          omega

theorem Supplied.invariant (total : Nat) : Invariant (fun _ => True) (Supplied total) where
  current _ _ := trivial
  advance state h := by
    obtain ⟨following, after, hpull, hafter⟩ := h.pull
    rw [advance_eq_of_pull hpull]
    exact hafter
  keep state error h := by
    rw [Supplied, pulls_keep]
    exact h
  note state event hevent h := by
    rw [Supplied, pulls_note hevent]
    exact h
  renest _ _ h := h

end State

def Mirror.closing (pastEnd : Text.Position) (total : Nat) : Mirror where
  stream stream := { stream with pastEnd }
  config := id
  holds := State.Supplied total
  barred _ := False

theorem Outcome.pulls_eq {stream : TokenStream} {config : Config} {state : State}
    (h : State.ofStream stream config = .ok state) :
    (parseStream stream config).pulls = (state.run Parser.program).2.pulls := by
  simp [pulls, parseStream, h, State.pulls]

end Offside.Parse
