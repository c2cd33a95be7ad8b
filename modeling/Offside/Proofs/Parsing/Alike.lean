import Offside.Proofs.Parsing.Ahead
import Offside.Proofs.Scanning.Lockstep

/-!
# Grammar functions do not look at positions

Two parsers are alike if they differ in the positions of their tokens and errors only, and in their
journals.  Two grammar functions are alike if from such parsers they lead to such parsers again and
give the same value or the same error, up to positions.  The lemmas follow the ways in which grammar
functions are put together.
-/

namespace Offside

/-! ## Tokens and errors up to positions -/

namespace Token

variable {token token' : Token}

theorem kind_of_bare (h : token'.bare = token.bare) : token'.kind = token.kind := by
  have hkind : token'.bare.kind = token.bare.kind := by rw [h]
  exact hkind

theorem payload?_of_bare (h : token'.bare = token.bare) : token'.payload? = token.payload? := by
  have hpayload : token'.bare.payload? = token.bare.payload? := by rw [h]
  exact hpayload

theorem fault?_of_bare (h : token'.bare = token.bare) : token'.fault? = token.fault? := by
  rw [fault?, payload?_of_bare h, fault?]

end Token

namespace Parse

open Scan (TokenStream bareItem)

def Cause.bare : Cause → Cause
  | .failed failure => .failed failure.bare
  | cause => cause

def Error.bare (error : Error) : Error := ⟨error.cause.bare, .start⟩

namespace Error

theorem isFatal_of_bare {error error' : Error} (h : error'.bare = error.bare) :
    error'.isFatal = error.isFatal := by
  have hfatal : ∀ error : Error, error.isFatal = error.bare.isFatal := by
    rintro ⟨cause, position⟩
    cases cause <;> rfl
  rw [hfatal, h, ← hfatal]

variable {token token' : Token}

theorem bare_unexpected (h : token'.bare = token.bare) (kinds : List TokenKind) :
    (unexpected kinds token').bare = (unexpected kinds token).bare := by
  unfold unexpected
  rw [Token.fault?_of_bare h, Token.kind_of_bare h]
  split <;> rfl

theorem bare_expectedExpression (h : token'.bare = token.bare) :
    (expectedExpression token').bare = (expectedExpression token).bare := by
  unfold expectedExpression
  rw [Token.fault?_of_bare h, Token.kind_of_bare h]
  split <;> rfl

theorem bare_ofFailure {failure failure' : LexFailure} (h : failure'.bare = failure.bare) :
    (ofFailure failure').bare = (ofFailure failure).bare :=
  congrArg (fun failure => (⟨.failed failure, .start⟩ : Error)) h

end Error

theorem bareItem_cases {item item' : Item} (h : bareItem item' = bareItem item) :
    (∃ token token', item = .ok token ∧ item' = .ok token' ∧ token'.bare = token.bare) ∨
      ∃ failure failure', item = .error failure ∧ item' = .error failure' ∧
        failure'.bare = failure.bare := by
  cases item with
  | ok token =>
      cases item' with
      | ok token' => exact .inl ⟨token, token', rfl, rfl, by
          simpa [bareItem] using h⟩
      | error failure' => simp [bareItem] at h
  | error failure =>
      cases item' with
      | ok token' => simp [bareItem] at h
      | error failure' => exact .inr ⟨failure, failure', rfl, rfl, by
          simpa [bareItem] using h⟩

theorem exists_next_of_bareItem {stream stream' : TokenStream}
    (h : stream'.items.map bareItem = stream.items.map bareItem) :
    ∃ item item' rest rest', stream.next = (item, rest) ∧ stream'.next = (item', rest') ∧
      bareItem item' = bareItem item ∧ rest'.items.map bareItem = rest.items.map bareItem := by
  unfold TokenStream.next
  cases hstream : stream.items with
  | nil =>
      rw [hstream] at h
      rw [List.map_eq_nil_iff.1 h]
      exact ⟨_, _, _, _, rfl, rfl, rfl, by simpa [hstream] using h⟩
  | cons item rest =>
      rw [hstream, List.map_cons, List.map_eq_cons_iff] at h
      obtain ⟨item', rest', hstream', hitem, hrest⟩ := h
      rw [hstream']
      exact ⟨_, _, _, _, rfl, rfl, hitem, hrest⟩

/-! ## Parsers up to positions -/

namespace State

structure Alike (state state' : State) : Prop where
  items : state'.stream.items.map bareItem = state.stream.items.map bareItem
  current : state'.current.bare = state.current.bare
  next : state'.next.bare = state.next.bare
  consumed : state'.consumed = state.consumed
  openBlocks : state'.openBlocks = state.openBlocks
  nesting : state'.nesting = state.nesting
  errors : state'.errors.map Error.bare = state.errors.map Error.bare
  config : state'.config = state.config

variable {state state' : State}

namespace Alike

theorem length_errors (h : state.Alike state') : state'.errors.length = state.errors.length := by
  simpa using congrArg List.length h.errors

theorem note (h : state.Alike state') (event event' : Event) :
    (state.note event).Alike (state'.note event') :=
  ⟨h.items, h.current, h.next, h.consumed, h.openBlocks, h.nesting, h.errors, h.config⟩

theorem keep (h : state.Alike state') {error error' : Error} (herror : error'.bare = error.bare) :
    (state.keep error).Alike (state'.keep error') :=
  ⟨h.items, h.current, h.next, h.consumed, h.openBlocks, h.nesting, by
    simp only [State.keep, State.note, List.map_append, List.map_singleton, h.errors, herror],
    h.config⟩

theorem renest (h : state.Alike state') {depth depth' : Nat} (hdepth : depth' = depth) :
    ({ state with nesting := depth } : State).Alike { state' with nesting := depth' } :=
  ⟨h.items, h.current, h.next, h.consumed, h.openBlocks, hdepth, h.errors, h.config⟩

theorem fuel (h : state.Alike state') : state'.fuel = state.fuel := by
  have hlength : state'.stream.items.length = state.stream.items.length := by
    simpa using congrArg List.length h.items
  unfold State.fuel State.size State.slack
  rw [Token.kind_of_bare h.current, Token.kind_of_bare h.next, hlength, h.config, h.length_errors]

end Alike

end State

inductive SameRun {α β : Type} (bare : α → β) :
    Option (Except Error α × State) → Option (Except Error α × State) → Prop where
  | exhausted : SameRun bare none none
  | value {value value' : α} {state state' : State} (h : bare value' = bare value)
      (hstate : state.Alike state') :
      SameRun bare (some (.ok value, state)) (some (.ok value', state'))
  | error {error error' : Error} {state state' : State} (h : error'.bare = error.bare)
      (hstate : state.Alike state') :
      SameRun bare (some (.error error, state)) (some (.error error', state'))

def bareResult {α β : Type} (bare : α → β) : Except Error α → Except Error β
  | .ok value => .ok (bare value)
  | .error error => .error error.bare

/-! ## Consuming a token -/

namespace State

variable {state state' : State}

theorem Alike.pull (h : state.Alike state') :
    bareItem state'.pull.1 = bareItem state.pull.1 ∧ state.pull.2.Alike state'.pull.2 := by
  unfold State.pull
  rw [Token.kind_of_bare h.next]
  split
  · refine ⟨?_, h⟩
    simp only [bareItem, h.next]
  · obtain ⟨item, item', rest, rest', hnext, hnext', hitem, hrest⟩ :=
      exists_next_of_bareItem h.items
    rw [hnext, hnext']
    exact ⟨hitem, hrest, h.current, h.next, h.consumed, h.openBlocks, h.nesting, h.errors, h.config⟩

theorem Alike.advance (h : state.Alike state') :
    SameRun Token.bare (some state.advance) (some state'.advance) := by
  obtain ⟨hitem, hafter⟩ := h.pull
  cases hpull : state.pull with
  | mk item after =>
      cases hpull' : state'.pull with
      | mk item' after' =>
          rw [hpull, hpull'] at hitem hafter
          rcases bareItem_cases hitem with ⟨token, token', rfl, rfl, htoken⟩ |
            ⟨failure, failure', rfl, rfl, hfailure⟩
          · rw [advance_eq_of_pull hpull, advance_eq_of_pull hpull', Token.kind_of_bare h.current,
              hafter.openBlocks, hafter.consumed]
            exact .value h.current ⟨hafter.items, hafter.next, htoken, rfl, rfl, hafter.nesting,
              hafter.errors, hafter.config⟩
          · have hfails : ∀ {state after : State} {failure : LexFailure},
                state.pull = (.error failure, after) →
                  state.advance = (.error (.ofFailure failure), after) := by
              intro state after failure hpull
              unfold State.advance
              rw [hpull]
            rw [hfails hpull, hfails hpull']
            exact .error (Error.bare_ofFailure hfailure) hafter

end State

/-! ## Grammar functions up to positions -/

namespace Parser

def Alike {α β : Type} (bare : α → β) (parser parser' : Parser α) : Prop :=
  ∀ ⦃state state' : State⦄, state.Alike state' →
    SameRun bare (parser.run state) (parser'.run state')

namespace Alike

variable {α β γ δ : Type} {bare : α → β} {bare' : γ → δ}

theorem of_pure {value value' : α} (h : bare value' = bare value) :
    Alike bare (pure value) (pure value') :=
  fun _ _ hstate => .value h hstate

theorem of_throw {error error' : Error} (h : error'.bare = error.bare) :
    Alike bare (throw error) (throw error') :=
  fun _ _ hstate => .error h hstate

theorem of_exhausted : Alike bare exhausted exhausted :=
  fun _ _ _ => .exhausted

theorem bind {parser parser' : Parser α} {next next' : α → Parser γ}
    (h : Alike bare parser parser')
    (hnext : ∀ value value', bare value' = bare value → Alike bare' (next value) (next' value')) :
    Alike bare' (parser >>= next) (parser' >>= next') := by
  intro state state' hstate
  change SameRun bare' ((ExceptT.run (parser >>= next)) state)
    ((ExceptT.run (parser' >>= next')) state')
  simp only [ExceptT.run_bind]
  change SameRun bare' (ExceptT.run parser state >>= _) (ExceptT.run parser' state' >>= _)
  have hrun : SameRun bare (ExceptT.run parser state) (ExceptT.run parser' state') := h hstate
  generalize ExceptT.run parser state = outcome at hrun
  generalize ExceptT.run parser' state' = outcome' at hrun
  cases hrun with
  | exhausted => exact .exhausted
  | value hvalue hafter => exact hnext _ _ hvalue hafter
  | error herror hafter => exact .error herror hafter

theorem get_bind {next next' : State → Parser γ}
    (h : ∀ state state' : State, state.Alike state' → Alike bare' (next state) (next' state')) :
    Alike bare' (get >>= next) (get >>= next') :=
  fun state state' hstate => h state state' hstate hstate

theorem currentToken_bind {next next' : Token → Parser γ}
    (h : ∀ token token' : Token, token'.bare = token.bare →
      Alike bare' (next token) (next' token')) :
    Alike bare' (currentToken >>= next) (currentToken >>= next') :=
  fun state state' hstate => h state.current state'.current hstate.current hstate

theorem currentKind_bind {next next' : TokenKind → Parser γ}
    (h : ∀ kind, Alike bare' (next kind) (next' kind)) :
    Alike bare' (currentKind >>= next) (currentKind >>= next') := by
  intro state state' hstate
  change SameRun bare' ((next state.current.kind).run state) ((next' state'.current.kind).run state')
  rw [Token.kind_of_bare hstate.current]
  exact h _ hstate

theorem nextKind_bind {next next' : TokenKind → Parser γ}
    (h : ∀ kind, Alike bare' (next kind) (next' kind)) :
    Alike bare' (nextKind >>= next) (nextKind >>= next') := by
  intro state state' hstate
  change SameRun bare' ((next state.next.kind).run state) ((next' state'.next.kind).run state')
  rw [Token.kind_of_bare hstate.next]
  exact h _ hstate

theorem set_bind {state state' : State} {next next' : PUnit → Parser γ} (hstate : state.Alike state')
    (h : Alike bare' (next ⟨⟩) (next' ⟨⟩)) :
    Alike bare' (set state >>= next) (set state' >>= next') :=
  fun _ _ _ => h hstate

theorem of_modify {change change' : State → State}
    (h : ∀ state state' : State, state.Alike state' → (change state).Alike (change' state')) :
    Alike (id : PUnit → PUnit) (modify change) (modify change') :=
  fun state state' hstate => .value rfl (h state state' hstate)

theorem modify_bind {change change' : State → State} {next next' : PUnit → Parser γ}
    (hchange : ∀ state state' : State, state.Alike state' → (change state).Alike (change' state'))
    (h : Alike bare' (next ⟨⟩) (next' ⟨⟩)) :
    Alike bare' (modify change >>= next) (modify change' >>= next') :=
  fun state state' hstate => h (hchange state state' hstate)

theorem advance : Alike Token.bare Parser.advance Parser.advance :=
  fun _ _ hstate => hstate.advance

theorem attempt {parser parser' : Parser α} (h : Alike bare parser parser') :
    Alike (bareResult bare) (Parser.attempt parser) (Parser.attempt parser') := by
  intro state state' hstate
  change SameRun (bareResult bare) ((parser.run state).map _) ((parser'.run state').map _)
  have hrun := h hstate
  generalize parser.run state = outcome at hrun
  generalize parser'.run state' = outcome' at hrun
  cases hrun with
  | exhausted => exact .exhausted
  | value hvalue hafter => exact .value (congrArg Except.ok hvalue) hafter
  | error herror hafter => exact .value (congrArg Except.error herror) hafter

theorem nested {parser parser' : Parser α} (h : Alike bare parser parser') :
    Alike bare (Parser.nested parser) (Parser.nested parser') := by
  apply get_bind
  intro state state' hstate
  by_cases hdeep : state.config.maxDepth ≤ state.nesting
  · rw [if_pos hdeep, if_pos (by rwa [hstate.config, hstate.nesting]), hstate.config]
    exact of_throw rfl
  · rw [if_neg hdeep, if_neg (by rwa [hstate.config, hstate.nesting])]
    apply set_bind (hstate.renest (by rw [hstate.nesting]))
    apply bind h.attempt
    intro result result' hresult
    apply modify_bind fun _ _ hafter => hafter.renest (by rw [hafter.nesting])
    cases result <;> cases result' <;>
      simp only [bareResult, Except.ok.injEq, Except.error.injEq,
        reduceCtorEq] at hresult
    · exact of_throw hresult
    · exact of_pure hresult

theorem expectOneOf (kinds : List TokenKind) :
    Alike Token.bare (Parser.expectOneOf kinds) (Parser.expectOneOf kinds) := by
  apply currentToken_bind
  intro token token' htoken
  rw [Token.kind_of_bare htoken]
  split
  · exact advance
  · exact of_throw (Error.bare_unexpected htoken kinds)

theorem expect (kind : TokenKind) :
    Alike Token.bare (Parser.expect kind) (Parser.expect kind) :=
  expectOneOf [kind]

end Alike

end Parser

end Parse

end Offside
