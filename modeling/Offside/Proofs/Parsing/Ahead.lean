import Offside.Parse.Progress.Completion
import Offside.Proofs.Parsing.Ensures

/-!
# The tokens ahead of a parser

A parser sees the outcomes of its stream up to the first end token.  Consuming a token takes the
first one away, and fails only where the outcome behind the next token is a failure or missing.
-/

namespace Offside

/-- How many blocks are open behind a token of this kind. -/
def TokenKind.blocksBehind (openBlocks : Nat) : TokenKind → Nat
  | .indent => openBlocks + 1
  | .dedent => openBlocks - 1
  | _ => openBlocks

namespace Parse

abbrev Item := Except LexFailure Token

def untilEof : List Item → List Item
  | [] => []
  | .error failure :: rest => .error failure :: untilEof rest
  | .ok token :: rest => if token.kind = .eof then [.ok token] else .ok token :: untilEof rest

theorem untilEof_of_forall_ne {tokens : List Token} {last : Token} (hlast : last.kind = .eof)
    (h : ∀ token ∈ tokens, token.kind ≠ .eof) :
    untilEof ((tokens ++ [last]).map .ok) = (tokens ++ [last]).map .ok := by
  induction tokens with
  | nil => simp [untilEof, hlast]
  | cons token tokens ih =>
      have hfirst := h token (by simp)
      have hrest := ih fun other hother => h other (by simp [hother])
      simp only [List.cons_append, List.map_cons, untilEof, hfirst, if_false, hrest]

theorem untilEof_of_indent (position : Text.Position) (items : List Item) :
    untilEof (.ok (.plain .indent position) :: items) =
      .ok (.plain .indent position) :: untilEof items := by
  simp [untilEof, Token.plain]

theorem exists_untilEof_append (items : List Item) : ∃ behind, items = untilEof items ++ behind := by
  induction items with
  | nil => exact ⟨[], rfl⟩
  | cons first rest ih =>
      obtain ⟨behind, hbehind⟩ := ih
      cases first with
      | error failure => exact ⟨behind, congrArg _ hbehind⟩
      | ok token =>
          by_cases heof : token.kind = .eof
          · exact ⟨rest, by rw [untilEof, if_pos heof, List.singleton_append]⟩
          · refine ⟨behind, ?_⟩
            rw [untilEof, if_neg heof, List.cons_append, ← hbehind]

theorem mem_of_mem_untilEof {items : List Item} {item : Item} (h : item ∈ untilEof items) :
    item ∈ items := by
  obtain ⟨behind, hbehind⟩ := exists_untilEof_append items
  rw [hbehind]
  exact List.mem_append_left behind h

namespace State

/-- The current token, the next one and what the stream gives behind them. -/
def ahead (state : State) : List Item :=
  untilEof (.ok state.current :: .ok state.next :: state.stream.items)

variable {state : State}

theorem ahead_of_eof (h : state.current.kind = .eof) : state.ahead = [.ok state.current] := by
  simp [ahead, untilEof, h]

theorem ahead_of_ne_eof (h : state.current.kind ≠ .eof) :
    state.ahead = .ok state.current :: untilEof (.ok state.next :: state.stream.items) := by
  rw [ahead, untilEof, if_neg h]

theorem head_ahead (state : State) : state.ahead.head? = some (.ok state.current) := by
  by_cases h : state.current.kind = .eof
  · simp [ahead_of_eof h]
  · simp [ahead_of_ne_eof h]

theorem current_of_ahead {token : Token} {rest : List Item}
    (h : state.ahead = .ok token :: rest) : state.current = token := by
  have hhead := state.head_ahead
  rw [h] at hhead
  simpa using hhead.symm

theorem next_of_ahead {first second : Token} {rest : List Item}
    (h : state.ahead = .ok first :: .ok second :: rest) : state.next = second := by
  by_cases hcurrent : state.current.kind = .eof
  · rw [ahead_of_eof hcurrent] at h
    simp at h
  · rw [ahead_of_ne_eof hcurrent, untilEof] at h
    by_cases hnext : state.next.kind = .eof
    · simp [hnext] at h
      exact h.2.1
    · simp [hnext] at h
      exact h.2.1

def Settled (state : State) : Prop := state.current.kind = .eof → state.next = state.current

theorem Settled.wellFormed (h : state.Settled) : state.WellFormed := by
  intro heof
  rw [h heof]
  exact heof

theorem advance_eq_of_pull {following : Token} {after : State}
    (h : state.pull = (.ok following, after)) :
    state.advance = (.ok state.current,
      { after with
        current := after.next
        next := following
        openBlocks := state.current.kind.blocksBehind after.openBlocks
        consumed := if state.current.kind = .eof then after.consumed else after.consumed + 1 }) := by
  unfold State.advance
  rw [h]
  simp only
  split <;> simp_all [TokenKind.blocksBehind]

structure Consumes (before after : State) : Prop where
  settled : after.Settled
  ahead : before.ahead = .ok before.current :: after.ahead
  errors : after.errors = before.errors
  config : after.config = before.config
  nesting : after.nesting = before.nesting
  openBlocks : after.openBlocks = before.current.kind.blocksBehind before.openBlocks
  consumed : after.consumed = before.consumed + 1

/-- A token before the end is consumed unless the outcome behind the next token is no token. -/
theorem advance_cases (h : state.current.kind ≠ .eof) :
    (∃ after, state.advance = (.ok state.current, after) ∧ state.Consumes after) ∨
      ∃ failure after, state.advance = (.error (.ofFailure failure), after) ∧
        after.errors = state.errors ∧ after.config = state.config ∧ state.next.kind ≠ .eof ∧
        ((∃ rest, state.ahead = .ok state.current :: .ok state.next :: .error failure :: rest) ∨
          state.ahead = [.ok state.current, .ok state.next]) := by
  by_cases hnext : state.next.kind = .eof
  · have hahead : state.ahead = [.ok state.current, .ok state.next] := by
      simp [ahead, untilEof, h, hnext]
    left
    have hlast : ∀ moved : State, moved.current = state.next → moved.ahead = [.ok state.next] := by
      intro moved hmoved
      rw [ahead_of_eof (by rw [hmoved]; exact hnext), hmoved]
    unfold advance
    rw [pull_of_eof hnext]
    simp only
    split
    · contradiction
    all_goals
      rename_i hkind
      exact ⟨_, rfl, fun _ => rfl, by rw [hahead, hlast _ rfl], rfl, rfl, rfl,
        by simp [hkind, TokenKind.blocksBehind], rfl⟩
  · cases hitems : state.stream.items with
    | nil =>
        right
        refine ⟨_, _, advance_of_failure (pull_of_nil hnext hitems), rfl, rfl, hnext, .inr ?_⟩
        simp [ahead, untilEof, h, hnext, hitems]
    | cons item rest =>
        have hpull := pull_of_items hnext hitems
        cases item with
        | error failure =>
            right
            refine ⟨failure, _, advance_of_failure hpull, rfl, rfl, hnext,
              .inl ⟨untilEof rest, ?_⟩⟩
            simp [ahead, untilEof, h, hnext, hitems]
        | ok following =>
            left
            have hahead : state.ahead =
                .ok state.current :: .ok state.next :: untilEof (.ok following :: rest) := by
              simp [ahead, untilEof, h, hnext, hitems]
            have hmoved : ∀ moved : State, moved.current = state.next → moved.next = following →
                moved.stream.items = rest →
                moved.ahead = .ok state.next :: untilEof (.ok following :: rest) := by
              intro moved hcurrent hfollowing hrest
              rw [ahead_of_ne_eof (by rw [hcurrent]; exact hnext), hcurrent, hfollowing, hrest]
            unfold advance
            rw [hpull]
            simp only
            split
            · contradiction
            all_goals
              rename_i hkind
              exact ⟨_, rfl, fun heof => absurd heof hnext, by rw [hahead, hmoved _ rfl rfl rfl],
                rfl, rfl, rfl, by simp [hkind, note, TokenKind.blocksBehind], rfl⟩

theorem advance_of_eof (hsettled : state.Settled) (h : state.current.kind = .eof) :
    state.advance = (.ok state.current, state) := by
  have hnext := hsettled h
  have hpull : state.pull = (.ok state.next, state) := by simp [pull, hnext, h]
  have hsame : { state with current := state.next } = state := by
    cases state
    cases hnext
    rfl
  simp only [advance, hpull, h]
  rw [hsame]

end State

end Parse

end Offside
