import Offside.Parse.State

/-!
# What the outcomes of a grammar function have in common

`Ensures parser state good bad` says of every outcome of `parser` at `state` that a value is good
and that an error is bad, each together with the state in which it is given.  Nothing is said of a
run without fuel.  The lemmas follow the ways in which grammar functions are put together.
-/

namespace Offside.Parse

/-! ## Errors at a token -/

theorem Error.unexpected_recoverable (kinds : List TokenKind) (token : Token) :
    (Error.unexpected kinds token).isFatal = false ∧
      (Error.unexpected kinds token).position = token.position := by
  unfold Error.unexpected
  split <;> exact ⟨rfl, rfl⟩

theorem Error.expectedExpression_recoverable (token : Token) :
    (Error.expectedExpression token).isFatal = false ∧
      (Error.expectedExpression token).position = token.position := by
  unfold Error.expectedExpression
  split <;> exact ⟨rfl, rfl⟩

/-! ## Runs of compositions -/

namespace Parser

variable {α β : Type} {parser : Parser α} {state : State}

theorem run_bind_eq_some {next : α → Parser β} {outcome : Except Error β × State}
    (h : (parser >>= next).run state = some outcome) :
    (∃ value middle, parser.run state = some (.ok value, middle) ∧
      (next value).run middle = some outcome) ∨
    ∃ error middle, parser.run state = some (.error error, middle) ∧
      outcome = (.error error, middle) := by
  rw [ExceptT.run_bind] at h
  change (ExceptT.run parser state >>= _) = _ at h
  cases hparser : parser.run state with
  | none =>
      change (ExceptT.run parser state) = _ at hparser
      rw [hparser] at h
      cases h
  | some first =>
      change (ExceptT.run parser state) = _ at hparser
      rw [hparser] at h
      obtain ⟨result, middle⟩ := first
      cases result with
      | ok value => exact .inl ⟨value, middle, rfl, h⟩
      | error error =>
          cases h
          exact .inr ⟨error, middle, rfl, rfl⟩

theorem run_bind_eq_ok {next : α → Parser β} {value : β} {after : State}
    (h : (parser >>= next).run state = some (.ok value, after)) :
    ∃ first middle, parser.run state = some (.ok first, middle) ∧
      (next first).run middle = some (.ok value, after) := by
  rcases run_bind_eq_some h with hvalue | ⟨error, middle, -, heq⟩
  · exact hvalue
  · cases heq

theorem run_bind_of_ok {next : α → Parser β} {value : α} {middle : State}
    (h : parser.run state = some (.ok value, middle)) :
    (parser >>= next).run state = (next value).run middle := by
  change ExceptT.run parser state = _ at h
  rw [ExceptT.run_bind]
  change (ExceptT.run parser state >>= _) = _
  rw [h]
  rfl

theorem run_bind_of_error (next : α → Parser β) {error : Error} {after : State}
    (h : parser.run state = some (.error error, after)) :
    (parser >>= next).run state = some (.error error, after) := by
  change ExceptT.run parser state = _ at h
  rw [ExceptT.run_bind]
  change (ExceptT.run parser state >>= _) = _
  rw [h]
  rfl

theorem run_attempt {result : Except Error α} {after : State}
    (h : parser.run state = some (result, after)) :
    (attempt parser).run state = some (.ok result, after) := by
  change (parser.run state).map _ = _
  rw [h]
  rfl

theorem run_attempt_bind_eq_some {next : Except Error α → Parser β}
    {outcome : Except Error β × State} (h : (attempt parser >>= next).run state = some outcome) :
    ∃ result middle, parser.run state = some (result, middle) ∧
      (next result).run middle = some outcome := by
  rcases run_bind_eq_some h with ⟨result, middle, hattempt, hnext⟩ | ⟨error, middle, hattempt, -⟩
  · change (parser.run state).map _ = _ at hattempt
    obtain ⟨first, hrun, heq⟩ := Option.map_eq_some_iff.1 hattempt
    cases heq
    exact ⟨_, _, hrun, hnext⟩
  · change (parser.run state).map _ = _ at hattempt
    obtain ⟨first, hrun, heq⟩ := Option.map_eq_some_iff.1 hattempt
    cases heq

theorem run_nested_of_deep (parser : Parser α) (h : state.config.maxDepth ≤ state.nesting) :
    (nested parser).run state =
      some (.error ⟨.nestingTooDeep state.config.maxDepth, state.current.position⟩, state) := by
  change ExceptT.run (ite _ _ _ : Parser α) state = _
  rw [if_pos h]
  rfl

theorem run_nested_eq_some {outcome : Except Error α × State}
    (hdeep : ¬state.config.maxDepth ≤ state.nesting)
    (h : (nested parser).run state = some outcome) :
    ∃ after, parser.run { state with nesting := state.nesting + 1 } = some (outcome.1, after) ∧
      outcome.2 = { after with nesting := after.nesting - 1 } := by
  change ExceptT.run (ite _ _ _ : Parser α) state = _ at h
  rw [if_neg hdeep] at h
  obtain ⟨result, after, hrun, hnext⟩ := run_attempt_bind_eq_some h
  cases result <;> cases hnext <;> exact ⟨after, hrun, rfl⟩

theorem run_nested {result : Except Error α} {after : State}
    (hdeep : ¬state.config.maxDepth ≤ state.nesting)
    (h : parser.run { state with nesting := state.nesting + 1 } = some (result, after)) :
    (nested parser).run state = some (result, { after with nesting := after.nesting - 1 }) := by
  change ExceptT.run (ite _ _ _ : Parser α) state = _
  rw [if_neg hdeep]
  refine (run_bind_of_ok (run_attempt h)).trans ?_
  cases result <;> rfl

end Parser

/-! ## Good and bad outcomes -/

def Meets {α : Type} (good : α → State → Prop) (bad : Error → State → Prop) :
    Except Error α → State → Prop
  | .ok value, after => good value after
  | .error error, after => bad error after

/-- Every value of a run is `good` and every error of it is `bad`. -/
def Ensures {α : Type} (parser : Parser α) (state : State) (good : α → State → Prop)
    (bad : Error → State → Prop) : Prop :=
  ∀ result after, parser.run state = some (result, after) → Meets good bad result after

namespace Ensures

variable {α β : Type} {state : State} {good : α → State → Prop} {bad : Error → State → Prop}

theorem ok {parser : Parser α} {value : α} {after : State} (h : Ensures parser state good bad)
    (hrun : parser.run state = some (.ok value, after)) : good value after :=
  h _ _ hrun

theorem of_forall {parser : Parser α} (hgood : ∀ value after, good value after)
    (hbad : ∀ error after, bad error after) : Ensures parser state good bad := by
  intro result after _
  cases result with
  | ok value => exact hgood value after
  | error error => exact hbad error after

/-- What is ensured, together with the run that gives it. -/
theorem traced (h : Ensures parser state good bad) :
    Ensures parser state
      (fun value after => good value after ∧ parser.run state = some (.ok value, after))
      fun error after => bad error after ∧ parser.run state = some (.error error, after) := by
  intro result after hrun
  have hmeets := h result after hrun
  cases result with
  | ok value => exact ⟨hmeets, hrun⟩
  | error error => exact ⟨hmeets, hrun⟩

theorem of_pure {value : α} (h : good value state) : Ensures (pure value) state good bad := by
  intro result after hrun
  cases hrun
  exact h

theorem of_throw {error : Error} (h : bad error state) :
    Ensures (throw error) state good bad := by
  intro result after hrun
  cases hrun
  exact h

theorem of_exhausted : Ensures Parser.exhausted state good bad := by
  intro result after hrun
  cases hrun

theorem weaken {parser : Parser α} {better : α → State → Prop} {worse : Error → State → Prop}
    (h : Ensures parser state better worse)
    (hgood : ∀ value after, better value after → good value after)
    (hbad : ∀ error after, worse error after → bad error after) :
    Ensures parser state good bad := by
  intro result after hrun
  have houtcome := h result after hrun
  cases result with
  | ok value => exact hgood value after houtcome
  | error error => exact hbad error after houtcome

theorem and {parser : Parser α} {good' : α → State → Prop} {bad' : Error → State → Prop}
    (h : Ensures parser state good bad) (h' : Ensures parser state good' bad') :
    Ensures parser state (fun value after => good value after ∧ good' value after)
      fun error after => bad error after ∧ bad' error after := by
  intro result after hrun
  cases result with
  | ok value => exact ⟨h _ _ hrun, h' _ _ hrun⟩
  | error error => exact ⟨h _ _ hrun, h' _ _ hrun⟩

theorem bind {parser : Parser α} {next : α → Parser β} {good' : β → State → Prop}
    (h : Ensures parser state good bad)
    (hnext : ∀ value after, good value after → Ensures (next value) after good' bad) :
    Ensures (parser >>= next) state good' bad := by
  intro result after hrun
  rcases Parser.run_bind_eq_some hrun with ⟨value, middle, hfirst, hrest⟩ |
    ⟨error, middle, hfirst, heq⟩
  · exact hnext value middle (h _ _ hfirst) result after hrest
  · cases heq
    exact h _ _ hfirst

theorem of_get {good : State → State → Prop} (h : good state state) :
    Ensures get state good bad := by
  intro result after hrun
  cases hrun
  exact h

theorem of_modify {good : PUnit → State → Prop} {change : State → State}
    (h : good ⟨⟩ (change state)) : Ensures (modify change) state good bad := by
  intro result after hrun
  cases hrun
  exact h

theorem of_currentToken {good : Token → State → Prop} (h : good state.current state) :
    Ensures Parser.currentToken state good bad := by
  intro result after hrun
  cases hrun
  exact h

theorem of_currentKind {good : TokenKind → State → Prop} (h : good state.current.kind state) :
    Ensures Parser.currentKind state good bad := by
  intro result after hrun
  cases hrun
  exact h

theorem of_nextKind {good : TokenKind → State → Prop} (h : good state.next.kind state) :
    Ensures Parser.nextKind state good bad := by
  intro result after hrun
  cases hrun
  exact h

theorem of_advance {good : Token → State → Prop} {outcome : Except Error Token} {after : State}
    (hadvance : state.advance = (outcome, after))
    (h : Meets good bad outcome after) : Ensures Parser.advance state good bad := by
  intro result last hrun
  change some state.advance = some (result, last) at hrun
  rw [hadvance] at hrun
  cases hrun
  exact h

theorem get_bind {next : State → Parser β} {good' : β → State → Prop}
    (h : Ensures (next state) state good' bad) : Ensures (get >>= next) state good' bad :=
  h

theorem currentToken_bind {next : Token → Parser β} {good' : β → State → Prop}
    (h : Ensures (next state.current) state good' bad) :
    Ensures (Parser.currentToken >>= next) state good' bad :=
  h

theorem currentKind_bind {next : TokenKind → Parser β} {good' : β → State → Prop}
    (h : Ensures (next state.current.kind) state good' bad) :
    Ensures (Parser.currentKind >>= next) state good' bad :=
  h

theorem modify_bind {change : State → State} {next : PUnit → Parser β}
    {good' : β → State → Prop} (h : Ensures (next ⟨⟩) (change state) good' bad) :
    Ensures (modify change >>= next) state good' bad :=
  h

theorem set_bind {after : State} {next : PUnit → Parser β} {good' : β → State → Prop}
    (h : Ensures (next ⟨⟩) after good' bad) : Ensures (set after >>= next) state good' bad :=
  h

theorem attempt {parser : Parser α} {bad' : Error → State → Prop}
    (h : Ensures parser state good bad) :
    Ensures (Parser.attempt parser) state (Meets good bad) bad' := by
  intro result after hrun
  change (parser.run state).map _ = _ at hrun
  obtain ⟨outcome, houtcome, heq⟩ := Option.map_eq_some_iff.1 hrun
  obtain ⟨first, middle⟩ := outcome
  cases heq
  exact h _ _ houtcome

end Ensures

end Offside.Parse
