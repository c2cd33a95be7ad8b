import Offside.Proofs.Grammar.Derives

/-!
# Reading tokens without an error

A parser that sees a list of tokens with the end token last can consume them one by one.
`Accepts parser state value rest` says that `parser` gives `value`, records nothing and leaves `rest`
to be read.  As the other grammar functions do, it may run out of fuel.
-/

namespace Offside.Parse

def Ended (tokens : List Token) : Prop := ∃ last ∈ tokens.getLast?, last.kind = .eof

theorem Ended.tail {token : Token} {rest : List Token} (h : Ended (token :: rest))
    (hkind : token.kind ≠ .eof) : Ended rest := by
  obtain ⟨last, hlast, heof⟩ := h
  cases rest with
  | nil =>
      simp only [List.getLast?_singleton, Option.mem_def, Option.some.injEq] at hlast
      rw [hlast] at hkind
      contradiction
  | cons second rest =>
      rw [List.getLast?_cons_cons] at hlast
      exact ⟨last, hlast, heof⟩

namespace State

structure Sees (state : State) (tokens : List Token) : Prop where
  settled : state.Settled
  ahead : state.ahead = tokens.map .ok
  ended : Ended tokens

variable {state : State}

theorem Sees.current {token : Token} {rest : List Token} (h : state.Sees (token :: rest)) :
    state.current = token :=
  current_of_ahead h.ahead

theorem Sees.exists_cons {tokens : List Token} (h : state.Sees tokens) :
    ∃ rest, tokens = state.current :: rest := by
  obtain ⟨last, hlast, -⟩ := h.ended
  cases tokens with
  | nil => simp at hlast
  | cons token rest => exact ⟨rest, by rw [h.current]⟩

theorem Sees.exists_consumes {token : Token} {rest : List Token} (h : state.Sees (token :: rest))
    (hkind : token.kind ≠ .eof) :
    ∃ after, state.advance = (.ok token, after) ∧ state.Consumes after ∧ after.Sees rest := by
  have hcurrent := h.current
  have hended := h.ended.tail hkind
  rcases State.advance_cases (by rwa [hcurrent]) with ⟨after, hadvance, hconsumes⟩ |
    ⟨failure, after, _, _, _, hnext, hahead⟩
  · have hrest := hconsumes.ahead
    rw [h.ahead, List.map_cons, List.cons.injEq] at hrest
    exact ⟨after, hcurrent ▸ hadvance, hconsumes, hconsumes.settled, hrest.2.symm, hended⟩
  · exfalso
    rcases hahead with ⟨more, hahead⟩ | hahead
    · rw [h.ahead] at hahead
      have hmem : (.error failure : Item) ∈ (token :: rest).map .ok := by
        rw [hahead]
        simp
      simp at hmem
    · rw [h.ahead, List.map_cons, List.cons.injEq] at hahead
      obtain ⟨last, hlast, heof⟩ := hended
      cases rest with
      | nil => simp at hlast
      | cons second rest =>
          simp only [List.map_cons, List.cons.injEq, List.map_eq_nil_iff] at hahead
          obtain ⟨-, hsecond, rfl⟩ := hahead
          cases hsecond
          simp only [List.getLast?_singleton, Option.mem_def, Option.some.injEq] at hlast
          rw [hlast] at hnext
          contradiction

structure Leaves (before after : State) (rest : List Token) : Prop where
  sees : after.Sees rest
  errors : after.errors = before.errors
  config : after.config = before.config
  nesting : after.nesting = before.nesting

theorem Sees.leaves {rest : List Token} (h : state.Sees rest) : state.Leaves state rest :=
  ⟨h, rfl, rfl, rfl⟩

theorem Leaves.trans {first second third : State} {rest rest' : List Token}
    (h : first.Leaves second rest) (h' : second.Leaves third rest') :
    first.Leaves third rest' where
  sees := h'.sees
  errors := by rw [h'.errors, h.errors]
  config := by rw [h'.config, h.config]
  nesting := by rw [h'.nesting, h.nesting]

theorem Leaves.room_eq {before after : State} {rest : List Token}
    (h : before.Leaves after rest) : after.room = before.room := by
  simp only [room, h.config, h.nesting]

end State

def Accepts {α : Type} (parser : Parser α) (state : State) (value : α) (rest : List Token) :
    Prop :=
  Ensures parser state (fun result after => result = value ∧ state.Leaves after rest)
    fun _ _ => False

namespace Accepts

variable {α β : Type} {state : State} {value : α} {rest : List Token}

theorem of_pure (h : state.Sees rest) : Accepts (pure value) state value rest :=
  Ensures.of_pure ⟨rfl, h.leaves⟩

theorem of_exhausted : Accepts Parser.exhausted state value rest :=
  Ensures.of_exhausted

theorem bind {parser : Parser α} {next : α → Parser β} {result : β} {rest' : List Token}
    (h : Accepts parser state value rest)
    (hnext : ∀ middle, state.Leaves middle rest → Accepts (next value) middle result rest') :
    Accepts (parser >>= next) state result rest' := by
  apply Ensures.bind h
  rintro _ middle ⟨rfl, hmiddle⟩
  apply (hnext middle hmiddle).weaken
  · rintro _ after ⟨rfl, hafter⟩
    exact ⟨rfl, hmiddle.trans hafter⟩
  · exact fun _ _ h => h

theorem get_bind {next : State → Parser β} {result : β}
    (h : Accepts (next state) state result rest) : Accepts (get >>= next) state result rest :=
  h

theorem currentToken_bind {next : Token → Parser β} {result : β}
    (h : Accepts (next state.current) state result rest) :
    Accepts (Parser.currentToken >>= next) state result rest :=
  h

theorem currentKind_bind {next : TokenKind → Parser β} {result : β}
    (h : Accepts (next state.current.kind) state result rest) :
    Accepts (Parser.currentKind >>= next) state result rest :=
  h

theorem nextKind_bind {next : TokenKind → Parser β} {result : β}
    (h : Accepts (next state.next.kind) state result rest) :
    Accepts (Parser.nextKind >>= next) state result rest :=
  h

theorem note_bind {tokens : List Token} {event : State → Event} {next : PUnit → Parser β}
    {result : β} (hsees : state.Sees tokens)
    (h : ∀ middle, state.Leaves middle tokens → Accepts (next ⟨⟩) middle result rest) :
    Accepts (modify (fun state => state.note (event state)) >>= next) state result rest := by
  have hnote : Accepts (modify fun state => state.note (event state)) state PUnit.unit tokens :=
    Ensures.of_modify ⟨rfl, ⟨hsees.settled, hsees.ahead, hsees.ended⟩, rfl, rfl, rfl⟩
  exact bind hnote h

theorem advance {token : Token} (hsees : state.Sees (token :: rest)) (hkind : token.kind ≠ .eof) :
    Accepts Parser.advance state token rest := by
  obtain ⟨after, hadvance, hconsumes, hafter⟩ := hsees.exists_consumes hkind
  exact Ensures.of_advance hadvance
    ⟨rfl, hafter, hconsumes.errors, hconsumes.config, hconsumes.nesting⟩

theorem expectOneOf {token : Token} {kinds : List TokenKind} (hsees : state.Sees (token :: rest))
    (hkind : token.kind ≠ .eof) (hmem : token.kind ∈ kinds) :
    Accepts (Parser.expectOneOf kinds) state token rest := by
  apply currentToken_bind
  rw [hsees.current, if_pos (by simpa using hmem)]
  exact advance hsees hkind

theorem expect {kind : TokenKind} {position : Text.Position}
    (hsees : state.Sees (.plain kind position :: rest)) (hkind : kind ≠ .eof) :
    Accepts (Parser.expect kind) state (.plain kind position) rest :=
  expectOneOf hsees hkind (by simp [Token.plain])

theorem identifier {name : Identifier}
    (hsees : state.Sees (.identifier name.name name.position :: rest)) :
    Accepts Parser.identifier state name rest := by
  apply bind (expectOneOf hsees (by simp [Token.identifier]) (by simp [Token.identifier]))
  intro middle hmiddle
  exact of_pure hmiddle.sees

theorem nested {parser : Parser α} {tokens : List Token} (hsees : state.Sees tokens)
    (hroom : 0 < state.room)
    (h : ∀ deeper : State, deeper.Sees tokens → deeper.room + 1 = state.room →
      Accepts parser deeper value rest) :
    Accepts (Parser.nested parser) state value rest := by
  have hroom' : ¬ state.config.maxDepth ≤ state.nesting := by
    unfold State.room at hroom
    omega
  apply Ensures.get_bind
  rw [if_neg hroom']
  apply Ensures.set_bind
  have hdeeper : ({ state with nesting := state.nesting + 1 } : State).room + 1 = state.room := by
    simp only [State.room]
    omega
  apply Ensures.bind (h { state with nesting := state.nesting + 1 }
    ⟨hsees.settled, hsees.ahead, hsees.ended⟩ hdeeper).attempt
  intro result after hafter
  apply Ensures.modify_bind
  cases result with
  | error error => contradiction
  | ok value =>
      obtain ⟨rfl, hleaves⟩ := hafter
      apply Ensures.of_pure
      constructor
      · rfl
      · refine ⟨⟨hleaves.sees.settled, hleaves.sees.ahead, hleaves.sees.ended⟩, hleaves.errors,
          hleaves.config, ?_⟩
        have hnesting : after.nesting = state.nesting + 1 := hleaves.nesting
        simp [hnesting]

end Accepts

end Offside.Parse
