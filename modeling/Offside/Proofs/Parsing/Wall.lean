import Offside.Proofs.Parsing.Demand

/-!
# A failure of the lexer is a wall

Where the lexer fails in front of the end token, no parser gets across: no program is read.  A parse
stops with this failure, unless it has given up before with too many errors, or with an error that it
does not recover from and that it has met before it asked for the token that fails.
-/

namespace Offside.Parse

open Scan (TokenStream)

namespace State

/-- The end token is not in sight, the stream goes on to `failure`, and the parser has not asked for
more than `total` tokens when it gets there. -/
structure Walled (failure : LexFailure) (total : Nat) (state : State) : Prop where
  current : state.current.kind ≠ .eof
  next : state.next.kind ≠ .eof
  items : ∃ (tokens : List Token) (behind : List Item),
    state.stream.items = tokens.map .ok ++ .error failure :: behind ∧
      (∀ token ∈ tokens, token.kind ≠ .eof) ∧ state.pulls + tokens.length ≤ total

variable {state : State} {failure : LexFailure} {total : Nat}

theorem Walled.keep (h : state.Walled failure total) (error : Error) :
    (state.keep error).Walled failure total := by
  obtain ⟨tokens, behind, hitems, htokens, htotal⟩ := h.items
  exact ⟨h.current, h.next, tokens, behind, hitems, htokens, by rwa [pulls_keep]⟩

theorem Walled.note (h : state.Walled failure total) {event : Event} (hevent : event ≠ .pulled) :
    (state.note event).Walled failure total := by
  obtain ⟨tokens, behind, hitems, htokens, htotal⟩ := h.items
  exact ⟨h.current, h.next, tokens, behind, hitems, htokens, by rwa [pulls_note hevent]⟩

theorem Walled.renest (h : state.Walled failure total) (nesting : Nat) :
    ({ state with nesting } : State).Walled failure total :=
  ⟨h.current, h.next, h.items⟩

theorem Walled.pulls_le (h : state.Walled failure total) : state.pulls ≤ total := by
  obtain ⟨tokens, -, -, -, htotal⟩ := h.items
  omega

theorem Walled.advance (h : state.Walled failure total) :
    (∃ after, state.advance = (.ok state.current, after) ∧ after.Walled failure total) ∨
      ∃ after, state.advance = (.error (.ofFailure failure), after) := by
  obtain ⟨tokens, behind, hitems, htokens, htotal⟩ := h.items
  cases tokens with
  | nil => exact .inr ⟨_, advance_of_failure (pull_of_items h.next hitems)⟩
  | cons token tokens =>
      refine .inl ⟨_, advance_eq_of_pull (pull_of_items h.next hitems), h.next,
        htokens token List.mem_cons_self, tokens, behind, rfl,
        fun other hother => htokens other (List.mem_cons_of_mem _ hother), ?_⟩
      have hpulls := pulls_note_pulled state
      rw [List.length_cons] at htotal
      change (state.note .pulled).pulls + tokens.length ≤ total
      omega

end State

/-- An error that a parser in front of a wall stops with: the wall itself, too many errors, or an error
that was met in front of it. -/
def Error.AtWall (failure : LexFailure) (total : Nat) (error : Error) (after : State) : Prop :=
  error = .ofFailure failure ∨ (∃ count, error.cause = .tooManyErrors count) ∨
    error.isFatal = false ∧ after.Walled failure total

namespace Parser

variable {failure : LexFailure} {total : Nat}

def Walled {α : Type} (failure : LexFailure) (total : Nat) (good : α → Prop) (parser : Parser α) :
    Prop :=
  ∀ state : State, state.Walled failure total →
    Ensures parser state (fun value after => good value ∧ after.Walled failure total)
      (Error.AtWall failure total)

namespace Walled

variable {α β : Type} {good : α → Prop} {good' : β → Prop} {parser : Parser α}

theorem of_throw (good : α → Prop) {error : Error} (h : error.isFatal = false) :
    Walled failure total good (throw error) :=
  fun _ hstate => .of_throw (.inr (.inr ⟨h, hstate⟩))

theorem bind {next : α → Parser β} (h : Walled failure total good parser)
    (hnext : ∀ value, good value → Walled failure total good' (next value)) :
    Walled failure total good' (parser >>= next) := by
  intro state hstate
  apply Ensures.bind (h state hstate)
  rintro value after ⟨hvalue, hafter⟩
  exact hnext value hvalue after hafter

theorem advance : Walled failure total (fun _ => True) Parser.advance := by
  intro state hstate
  rcases hstate.advance with ⟨after, hadvance, hafter⟩ | ⟨after, hadvance⟩
  · exact .of_advance hadvance ⟨trivial, hafter⟩
  · exact .of_advance hadvance (.inl rfl)

theorem nested (h : Walled failure total good parser) :
    Walled failure total good (nested parser) := by
  intro state hstate
  apply Ensures.get_bind
  split
  · exact .of_throw (.inr (.inr ⟨rfl, hstate⟩))
  · apply Ensures.set_bind
    apply Ensures.bind (h _ (hstate.renest _)).attempt
    intro result after hafter
    apply Ensures.modify_bind
    cases result with
    | ok value =>
        obtain ⟨hvalue, hafter⟩ := hafter
        exact .of_pure ⟨hvalue, hafter.renest _⟩
    | error error =>
        apply Ensures.of_throw
        rcases hafter with hwall | hmany | ⟨hfatal, hafter⟩
        · exact .inl hwall
        · exact .inr (.inl hmany)
        · exact .inr (.inr ⟨hfatal, hafter.renest _⟩)

theorem surface {state : State} {error : Error} (hstate : state.Walled failure total)
    (h : error.isFatal = false) :
    Ensures (Parser.surface error) state (fun _ after => True ∧ after.Walled failure total)
      (Error.AtWall failure total) := by
  apply Ensures.get_bind
  split
  · exact .of_throw (.inr (.inr ⟨h, hstate⟩))
  · apply Ensures.modify_bind
    apply Ensures.get_bind
    split
    · exact .of_throw (.inr (.inl ⟨_, rfl⟩))
    · exact .of_pure ⟨trivial, hstate.keep error⟩

theorem surface_of_isFatal {state : State} {error : Error} (h : error.isFatal = true)
    {good : Unit → State → Prop} (hbad : error.AtWall failure total state) :
    Ensures (Parser.surface error) state good (Error.AtWall failure total) := by
  apply Ensures.get_bind
  rw [h, Bool.true_or, if_pos rfl]
  exact .of_throw hbad

theorem recovering {next : α → Parser β} {elsewhere : Parser β}
    (h : Walled failure total good parser)
    (hnext : ∀ value, good value → Walled failure total good' (next value))
    (helsewhere : Walled failure total good' elsewhere) :
    Walled failure total good' (Parser.recovering parser next elsewhere) := by
  intro state hstate
  apply Ensures.bind (h state hstate).attempt
  intro result middle hmiddle
  cases result with
  | ok value => exact hnext value hmiddle.1 middle hmiddle.2
  | error error =>
      have hsurface : Ensures (Parser.surface error) middle
          (fun _ after => True ∧ after.Walled failure total) (Error.AtWall failure total) := by
        have hmiddle : error.AtWall failure total middle := hmiddle
        rcases hmiddle with hwall | ⟨count, hcause⟩ | ⟨hfatal, hmiddle⟩
        · exact surface_of_isFatal (by rw [hwall]; rfl) (.inl hwall)
        · exact surface_of_isFatal (by simp [Error.isFatal, hcause]) (.inr (.inl ⟨count, hcause⟩))
        · exact surface hmiddle hfatal
      apply Ensures.bind hsurface
      rintro _ after ⟨-, hafter⟩
      exact helsewhere after hafter

theorem compositional (failure : LexFailure) (total : Nat) :
    Compositional (fun _ => True) fun good parser _ => Walled failure total good parser where
  exhausted _ _ _ := .of_exhausted
  cut _ _ _ := .of_exhausted
  value h _ hstate := .of_pure ⟨h, hstate⟩
  throw good _ h := .of_throw good h
  bind := .bind
  currentToken _ hstate := .of_currentToken ⟨trivial, hstate⟩
  nextKind _ hstate := .of_nextKind ⟨trivial, hstate⟩
  counts _ hstate := .get_bind (.get_bind (.of_pure ⟨trivial, hstate⟩))
  advance := .advance
  note _ _ hpulled state hstate := .of_modify ⟨trivial, hstate.note (hpulled state)⟩
  nested := .nested
  surface _ h _ hstate := Walled.surface hstate h
  recovering := .recovering

end Walled

end Parser

/-! ## Parses -/

theorem State.walled_of_ofStream {stream : TokenStream} {config : Config} {tokens : List Token}
    {failure : LexFailure} {behind : List Item}
    (hitems : stream.items = tokens.map .ok ++ .error failure :: behind)
    (htokens : ∀ token ∈ tokens, token.kind ≠ .eof) :
    ofStream stream config = .error (.ofFailure failure) ∨
      ∃ state, ofStream stream config = .ok state ∧ state.Walled failure tokens.length := by
  obtain ⟨items, position⟩ := stream
  obtain rfl : items = _ := hitems
  cases tokens with
  | nil => exact .inl rfl
  | cons first tokens =>
      have hfirst := htokens first List.mem_cons_self
      cases tokens with
      | nil =>
          left
          simp [ofStream, TokenStream.next, hfirst]
      | cons second tokens =>
          have hsecond := htokens second (List.mem_cons_of_mem _ List.mem_cons_self)
          right
          refine ⟨⟨⟨tokens.map .ok ++ .error failure :: behind, position⟩, first, second, 0, 0, 0, [],
            config, [.pulled, .pulled]⟩, ?_, hfirst, hsecond, tokens, behind, rfl, ?_, ?_⟩
          · simp [ofStream, TokenStream.next, hfirst]
          · exact fun token htoken =>
              htokens token (List.mem_cons_of_mem _ (List.mem_cons_of_mem _ htoken))
          · change 2 + tokens.length ≤ tokens.length + 2
            omega

theorem parseStream_of_failure {stream : TokenStream} {tokens : List Token}
    {failure : LexFailure} {behind : List Item} (config : Config)
    (hitems : stream.items = tokens.map .ok ++ .error failure :: behind)
    (htokens : ∀ token ∈ tokens, token.kind ≠ .eof) :
    ∃ error, (parseStream stream config).result = .error error ∧
      (error = .ofFailure failure ∨ (∃ count, error.cause = .tooManyErrors count) ∨
        error.isFatal = false ∧ (parseStream stream config).pulls ≤ tokens.length) := by
  have hopens : State.ofStream stream config = .error (.ofFailure failure) ∨
      ∃ state, State.ofStream stream config = .ok state ∧ state.Walled failure tokens.length :=
    State.walled_of_ofStream hitems htokens
  rcases hopens with hstart | ⟨state, hstart, hwalled⟩
  · exact ⟨.ofFailure failure, by simp [parseStream, hstart], .inl rfl⟩
  · have hsettled := (State.fresh_of_ofStream hstart).settled
    have hrelated := Parser.program_related (Parser.Walled.compositional failure tokens.length)
      (Nat.le_refl state.fuel)
    have hmeets := State.run_program_meets hsettled.wellFormed
      ((hrelated state hwalled).and (program_ends state.fuel hsettled))
    have hparse : (parseStream stream config).result = (state.run Parser.program).1 := by
      simp [parseStream, hstart]
    rw [hparse, Outcome.pulls_eq hstart]
    cases hresult : (state.run Parser.program).1 with
    | ok block =>
        rw [hresult] at hmeets
        exact absurd hmeets.2 hmeets.1.2.current
    | error error =>
        rw [hresult] at hmeets
        refine ⟨error, rfl, ?_⟩
        rcases hmeets.1 with hwall | hmany | ⟨hfatal, hafter⟩
        · exact .inl hwall
        · exact .inr (.inl hmany)
        · exact .inr (.inr ⟨hfatal, hafter.pulls_le⟩)

end Offside.Parse
