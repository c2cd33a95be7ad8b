import Offside.Proofs.Parsing.Invariants

/-!
# Runs under two configurations

A lenient configuration and a strict one lead through the same states as long as the recorded errors
do not tell them apart.  When they do, the strict run stops with an error, and the lenient one goes on
with at least the errors that it has recorded by then.
-/

namespace Offside.Parse

namespace State

def under (config : Config) (state : State) : State := { state with config }

variable {state : State}

theorem pull_under (config : Config) (state : State) :
    (state.under config).pull = (state.pull.1, state.pull.2.under config) := by
  unfold pull under
  split <;> rfl

theorem advance_under (config : Config) (state : State) :
    (state.under config).advance = (state.advance.1, state.advance.2.under config) := by
  have hpulled := pull_under config state
  cases hpull : state.pull with
  | mk result after =>
      rw [hpull] at hpulled
      cases result with
      | error failure => rw [advance_of_failure hpull, advance_of_failure hpulled]
      | ok following =>
          rw [advance_eq_of_pull hpull, advance_eq_of_pull hpulled]
          rfl

theorem errors_advance (state : State) : state.advance.2.errors = state.errors := by
  have herrors : state.pull.2.errors = state.errors := by
    unfold pull
    split <;> rfl
  cases hpull : state.pull with
  | mk result after =>
      rw [hpull] at herrors
      cases result with
      | error failure => rw [advance_of_failure hpull, ← herrors]
      | ok following => rw [advance_eq_of_pull hpull, ← herrors]

theorem ofStream_under (stream : Scan.TokenStream) (strict lenient : Config) :
    ofStream stream strict = (ofStream stream lenient).map (under strict) := by
  unfold ofStream
  split
  · rfl
  · split
    · rfl
    · split <;> rfl

end State

namespace Parser

variable {error : Error} {state : State}

theorem run_record (error : Error) (state : State) :
    (record error).run state = some
      (if state.config.maxErrors < state.errors.length + 1 then
        .error ⟨.tooManyErrors (state.errors.length + 1), state.current.position⟩
      else .ok ⟨⟩, state.keep error) := by
  have hlength : (state.keep error).errors.length = state.errors.length + 1 := by
    simp [State.keep, State.note]
  change ExceptT.run (ite _ _ _ : Parser Unit) (state.keep error) = _
  rw [hlength]
  change ExceptT.run (if state.config.maxErrors < _ then _ else _ : Parser Unit) _ = _
  split <;> rfl

theorem run_surface_bind_of_stop {β : Type} (next : Unit → Parser β)
    (h : (error.isFatal || !state.config.recover) = true) :
    (surface error >>= next).run state = some (.error error, state) := by
  change ((surface error).run state >>= _) = _
  rw [surface_of_stop h]
  rfl

def Grows {α : Type} (good : α → Prop) (parser : Parser α) : Prop :=
  ∀ errors, Keeps (fun state => errors <+: state.errors) good parser

namespace Grows

variable {α β : Type} {good : α → Prop} {good' : β → Prop} {parser : Parser α} {after : State}

theorem invariant (errors : List Error) :
    Invariant (fun _ => True) fun state : State => errors <+: state.errors where
  current _ _ := trivial
  advance state h := by rwa [State.errors_advance]
  keep state error h := h.trans (List.prefix_append _ _)
  note _ _ _ h := h
  renest _ _ h := h

theorem of_value {value : α} (h : good value) : Grows good (pure value) :=
  fun _ => .of_value h

theorem bind {next : α → Parser β} (h : Grows good parser)
    (hnext : ∀ value, good value → Grows good' (next value)) : Grows good' (parser >>= next) :=
  fun errors => (h errors).bind fun value hvalue => hnext value hvalue errors

theorem advance : Grows (fun _ => True) Parser.advance :=
  fun errors => .of_advance (invariant errors)

theorem nested (h : Grows good parser) : Grows good (nested parser) :=
  fun errors => .of_nested (invariant errors) (h errors)

theorem surface (error : Error) : Grows (fun _ => True) (surface error) :=
  fun errors => .of_surface (invariant errors) error

theorem recovering {next : α → Parser β} {elsewhere : Parser β} (h : Grows good parser)
    (hnext : ∀ value, good value → Grows good' (next value)) (helsewhere : Grows good' elsewhere) :
    Grows good' (recovering parser next elsewhere) :=
  fun errors => .of_recovering (invariant errors) (h errors)
    (fun value hvalue => hnext value hvalue errors) (helsewhere errors)

theorem errors_of_run (h : Grows good parser) {result : Except Error α}
    (hrun : parser.run state = some (result, after)) : state.errors <+: after.errors := by
  have hmeets := h state.errors state List.prefix_rfl _ _ hrun
  cases result with
  | ok value => exact hmeets.2
  | error error => exact hmeets

theorem good_of_run (h : Grows good parser) {value : α}
    (hrun : parser.run state = some (.ok value, after)) : good value :=
  (h state.errors state List.prefix_rfl _ _ hrun).1

end Grows

end Parser

/-! ## Configurations that part -/

/-- Two configurations, what the recorded errors are as long as runs under them agree, and how the
error that stops the strict run and the errors that both have recorded are related once they do not. -/
structure Parting where
  lenient : Config
  strict : Config
  agreed : List Error → Prop
  parted : Error → List Error → List Error → Prop

namespace Parting

structure Sound (parting : Parting) : Prop where
  maxDepth : parting.strict.maxDepth = parting.lenient.maxDepth
  maxErrors : parting.strict.maxErrors ≤ parting.lenient.maxErrors
  recover : parting.lenient.recover = false → parting.strict.recover = false
  start : parting.agreed []
  /-- A strict run that does not recover stops where a lenient one goes on. -/
  stops {errors : List Error} {error : Error} (h : parting.agreed errors)
    (hstrict : parting.strict.recover = false) (hlenient : parting.lenient.recover = true) :
    parting.parted error errors (errors ++ [error])
  /-- A strict run stops behind an error too many. -/
  exceeds {errors : List Error} {error : Error} {position : Text.Position}
    (h : parting.agreed errors) (hstrict : parting.strict.recover = true)
    (hmany : parting.strict.maxErrors < errors.length + 1) :
    parting.parted ⟨.tooManyErrors (errors.length + 1), position⟩ (errors ++ [error])
      (errors ++ [error])
  records {errors : List Error} {error : Error} (h : parting.agreed errors)
    (hstrict : parting.strict.recover = true)
    (hfew : errors.length + 1 ≤ parting.strict.maxErrors) : parting.agreed (errors ++ [error])
  grows {error : Error} {errors recorded grown : List Error}
    (h : parting.parted error errors recorded) (hgrown : recorded <+: grown) :
    parting.parted error errors grown
  /-- The error at which the runs part is not recovered from. -/
  final {error : Error} {errors recorded : List Error}
    (h : parting.parted error errors recorded) :
    (error.isFatal || !parting.strict.recover) = true

inductive Follows {α : Type} (parting : Parting) (good : α → Prop) :
    Except Error α × State → Except Error α × State → Prop where
  | agree {result : Except Error α} {state : State}
      (hgood : ∀ value, result = .ok value → good value)
      (hconfig : state.config = parting.lenient) (h : parting.agreed state.errors) :
      Follows parting good (result, state.under parting.strict) (result, state)
  | part {error : Error} {result : Except Error α} {state state' : State}
      (hconfig : state.config = parting.strict)
      (h : parting.parted error state.errors state'.errors) :
      Follows parting good (.error error, state) (result, state')

structure Related (parting : Parting) {α : Type} (good : α → Prop) (parser parser' : Parser α) :
    Prop where
  grows : Parser.Grows good parser'
  follows : ∀ (state : State) {outcome outcome' : Except Error α × State},
    state.config = parting.lenient → parting.agreed state.errors →
    parser.run (state.under parting.strict) = some outcome → parser'.run state = some outcome' →
    parting.Follows good outcome outcome'

variable {parting : Parting}

namespace Related

variable {α β : Type} {good : α → Prop} {good' : β → Prop} {parser parser' : Parser α}
  {state : State}

theorem of_value {value : α} (h : good value) :
    parting.Related good (pure value) (pure value) where
  grows := .of_value h
  follows state _ _ hconfig hagreed hstrict hlenient := by
    cases hstrict
    cases hlenient
    exact .agree (by rintro _ ⟨⟩; exact h) hconfig hagreed

theorem of_throw (good : α → Prop) (error : Error) :
    parting.Related good (throw error) (throw error) where
  grows _ := .of_throw good error
  follows state _ _ hconfig hagreed hstrict hlenient := by
    cases hstrict
    cases hlenient
    exact .agree (by simp) hconfig hagreed

theorem of_exhausted (good : α → Prop) :
    parting.Related good Parser.exhausted Parser.exhausted where
  grows _ _ _ := .of_exhausted
  follows _ _ _ _ _ hstrict := by cases hstrict

theorem cut (h : parting.Related good parser parser) :
    parting.Related good Parser.exhausted parser where
  grows := h.grows
  follows _ _ _ _ _ hstrict := by cases hstrict

theorem of_transition (transition : State → Except Error α × State)
    (hrun : ∀ state, parser.run state = some (transition state))
    (hunder : ∀ config state, transition (state.under config) =
      ((transition state).1, (transition state).2.under config))
    (herrors : ∀ state, (transition state).2.errors = state.errors)
    (hgood : ∀ state value, (transition state).1 = .ok value → good value) :
    parting.Related good parser parser where
  grows errors state hstate := by
    rintro result after hafter
    have herrors := herrors state
    have hgood := hgood state
    rw [hrun, Option.some.injEq] at hafter
    rw [hafter] at herrors hgood
    cases result with
    | ok value => exact ⟨hgood value rfl, hstate.trans (herrors ▸ List.prefix_rfl)⟩
    | error error => exact hstate.trans (herrors ▸ List.prefix_rfl)
  follows state outcome outcome' hconfig hagreed hstrict hlenient := by
    rw [hrun, Option.some.injEq] at hstrict hlenient
    have hsame : (transition state).2.config = state.config :=
      congrArg (fun outcome => outcome.2.config) (hunder state.config state)
    rw [hunder] at hstrict
    subst hstrict hlenient
    exact .agree (hgood state) (by rw [hsame, hconfig]) (by rwa [herrors])

theorem bind (sound : parting.Sound) {next next' : α → Parser β}
    (h : parting.Related good parser parser')
    (hnext : ∀ value, good value → parting.Related good' (next value) (next' value)) :
    parting.Related good' (parser >>= next) (parser' >>= next') where
  grows := h.grows.bind fun value hvalue => (hnext value hvalue).grows
  follows state outcome outcome' hconfig hagreed hstrict hlenient := by
    rcases Parser.run_bind_eq_some hstrict with ⟨value, middle, hfirst, hrest⟩ |
        ⟨error, middle, hfirst, rfl⟩ <;>
      rcases Parser.run_bind_eq_some hlenient with ⟨value', middle', hfirst', hrest'⟩ |
        ⟨error', middle', hfirst', rfl⟩ <;>
      have hfollows := h.follows state hconfig hagreed hfirst hfirst'
    case inl.inl =>
      cases hfollows with
      | agree hgood hconfig' hagreed' =>
          exact (hnext value (hgood value rfl)).follows _ hconfig' hagreed' hrest hrest'
    case inl.inr => cases hfollows
    case inr.inl =>
      cases hfollows with
      | part hconfig' hparted =>
          have hgrown := (hnext value' (h.grows.good_of_run hfirst')).grows.errors_of_run hrest'
          exact .part hconfig' (sound.grows hparted hgrown)
    case inr.inr =>
      cases hfollows with
      | agree _ hconfig' hagreed' => exact .agree (by simp) hconfig' hagreed'
      | part hconfig' hparted => exact .part hconfig' hparted

theorem nested (sound : parting.Sound) (h : parting.Related good parser parser') :
    parting.Related good (Parser.nested parser) (Parser.nested parser') where
  grows := h.grows.nested
  follows state outcome outcome' hconfig hagreed hstrict hlenient := by
    have hlimit : (state.under parting.strict).config.maxDepth = state.config.maxDepth := by
      rw [hconfig, ← sound.maxDepth, State.under]
    by_cases hdeep : state.config.maxDepth ≤ state.nesting
    · rw [Parser.run_nested_of_deep _ hdeep] at hlenient
      rw [Parser.run_nested_of_deep _ (by rwa [hlimit]), hlimit] at hstrict
      cases hstrict
      cases hlenient
      exact .agree (by simp) hconfig hagreed
    · obtain ⟨after, hrun, hback⟩ := Parser.run_nested_eq_some (by rwa [hlimit]) hstrict
      obtain ⟨after', hrun', hback'⟩ := Parser.run_nested_eq_some hdeep hlenient
      obtain ⟨result, last⟩ := outcome
      obtain ⟨result', last'⟩ := outcome'
      cases hback
      cases hback'
      have hfollows := h.follows { state with nesting := state.nesting + 1 } hconfig hagreed hrun hrun'
      cases hfollows with
      | agree hgood hconfig' hagreed' =>
          change parting.Follows good
            (result, State.under _ { after' with nesting := after'.nesting - 1 }) _
          exact .agree hgood hconfig' hagreed'
      | part hconfig' hparted => exact .part hconfig' hparted

theorem surface (sound : parting.Sound) (error : Error) :
    parting.Related (fun _ => True) (Parser.surface error) (Parser.surface error) where
  grows := .surface error
  follows state outcome outcome' hconfig hagreed hstrict hlenient := by
    cases hstop : error.isFatal || !parting.strict.recover with
    | true =>
        rw [Parser.surface_of_stop hstop] at hstrict
        cases hstrict
        cases hstop' : error.isFatal || !state.config.recover with
        | true =>
            rw [Parser.surface_of_stop hstop'] at hlenient
            cases hlenient
            exact .agree (by simp) hconfig hagreed
        | false =>
            rw [Parser.surface_of_record hstop', Parser.run_record] at hlenient
            cases hlenient
            apply Follows.part rfl
            rw [hconfig] at hstop'
            exact sound.stops hagreed (by grind) (by grind)
    | false =>
        have hstop' : (error.isFatal || !state.config.recover) = false := by
          rw [hconfig]
          have := sound.recover
          grind
        rw [Parser.surface_of_record hstop, Parser.run_record] at hstrict
        rw [Parser.surface_of_record hstop', Parser.run_record] at hlenient
        cases hstrict
        cases hlenient
        have hrecover : parting.strict.recover = true := by grind
        change parting.Follows _ (if parting.strict.maxErrors < state.errors.length + 1 then _ else _,
          (state.keep error).under parting.strict) _
        by_cases hmany : parting.strict.maxErrors < state.errors.length + 1
        · rw [if_pos hmany]
          exact .part rfl (sound.exceeds hagreed hrecover hmany)
        · have hfew : ¬state.config.maxErrors < state.errors.length + 1 := by
            rw [hconfig]
            exact fun hlenient => hmany (Nat.lt_of_le_of_lt sound.maxErrors hlenient)
          rw [if_neg hmany, if_neg hfew]
          exact .agree (by simp) hconfig (sound.records hagreed hrecover (Nat.not_lt.1 hmany))

theorem recovering (sound : parting.Sound) {next next' : α → Parser β}
    {elsewhere elsewhere' : Parser β} (h : parting.Related good parser parser')
    (hnext : ∀ value, good value → parting.Related good' (next value) (next' value))
    (helsewhere : parting.Related good' elsewhere elsewhere') :
    parting.Related good' (Parser.recovering parser next elsewhere)
      (Parser.recovering parser' next' elsewhere') where
  grows := h.grows.recovering (fun value hvalue => (hnext value hvalue).grows) helsewhere.grows
  follows state outcome outcome' hconfig hagreed hstrict hlenient := by
    have hbehind := fun error => (surface sound error).bind sound fun _ _ => helsewhere
    obtain ⟨result, middle, hfirst, hrest⟩ := Parser.run_attempt_bind_eq_some hstrict
    obtain ⟨result', middle', hfirst', hrest'⟩ := Parser.run_attempt_bind_eq_some hlenient
    have hfollows := h.follows state hconfig hagreed hfirst hfirst'
    cases hfollows with
    | agree hgood hconfig' hagreed' =>
        cases result with
        | ok value => exact (hnext value (hgood value rfl)).follows _ hconfig' hagreed' hrest hrest'
        | error error => exact (hbehind error).follows _ hconfig' hagreed' hrest hrest'
    | part hconfig' hparted =>
        have hstop := sound.final hparted
        rw [← hconfig'] at hstop
        have hstopped := Parser.run_surface_bind_of_stop (fun _ => elsewhere) hstop
        cases hstopped.symm.trans hrest
        apply Follows.part hconfig'
        apply sound.grows hparted
        cases result' with
        | ok value => exact (hnext value (h.grows.good_of_run hfirst')).grows.errors_of_run hrest'
        | error error => exact (hbehind error).grows.errors_of_run hrest'

end Related

theorem Sound.compositional (sound : parting.Sound) :
    Parser.Compositional (fun _ => True) parting.Related where
  exhausted := .of_exhausted
  cut := .cut
  value := .of_value
  throw good error _ := .of_throw good error
  bind := .bind sound
  currentToken := .of_transition (fun state => (.ok state.current, state))
    (fun _ => rfl) (fun _ _ => rfl) (fun _ => rfl) fun _ _ _ => trivial
  nextKind := .of_transition (fun state => (.ok state.next.kind, state))
    (fun _ => rfl) (fun _ _ => rfl) (fun _ => rfl) fun _ _ _ => trivial
  counts := .of_transition (fun state => (.ok (state.consumed, state.openBlocks), state))
    (fun _ => rfl) (fun _ _ => rfl) (fun _ => rfl) fun _ _ _ => trivial
  advance := .of_transition State.advance (fun _ => rfl) State.advance_under State.errors_advance
    fun _ _ _ => trivial
  note event h _ := .of_transition (fun state => (.ok ⟨⟩, state.note (event state)))
    (fun _ => rfl)
    (fun config state => congrArg (fun event => (_, State.note _ event)) (h state _ config))
    (fun _ => rfl) fun _ _ _ => trivial
  nested := .nested sound
  surface error _ := .surface sound error
  recovering := .recovering sound

end Parting

/-! ## Whole parses -/

namespace State

variable {state : State}

theorem WellFormed.under (h : state.WellFormed) (config : Config) :
    (state.under config).WellFormed := h

theorem fuel_under_le {config : Config} (h : config.maxErrors ≤ state.config.maxErrors) :
    (state.under config).fuel ≤ state.fuel := by
  have hslack : (state.under config).slack ≤ state.slack :=
    Nat.sub_le_sub_right (Nat.add_le_add_right h 1) _
  have hsize : (state.under config).size = state.size := rfl
  unfold fuel
  omega

end State

theorem Parting.parseStream_cases {parting : Parting} (sound : parting.Sound)
    (stream : Scan.TokenStream) :
    (parseStream stream parting.strict = parseStream stream parting.lenient ∧
      parting.agreed (parseStream stream parting.lenient).errors) ∨
    ∃ error, (parseStream stream parting.strict).result = .error error ∧
      parting.parted error (parseStream stream parting.strict).errors
        (parseStream stream parting.lenient).errors := by
  unfold parseStream
  rw [State.ofStream_under stream parting.strict parting.lenient]
  cases hstart : State.ofStream stream parting.lenient with
  | error error => exact .inl ⟨rfl, sound.start⟩
  | ok state =>
      have hfresh := State.fresh_of_ofStream hstart
      have hwell := hfresh.settled.wellFormed
      have hfuel : (state.under parting.strict).fuel ≤ state.fuel :=
        State.fuel_under_le (by rw [hfresh.config]; exact sound.maxErrors)
      have hrelated := Parser.program_related sound.compositional hfuel
      have hfollows := hrelated.follows state hfresh.config (by rw [hfresh.errors]; exact sound.start)
        (State.run_program (hwell.under parting.strict)) (State.run_program hwell)
      simp only [Except.map]
      generalize (state.under parting.strict).run Parser.program = outcome at hfollows
      generalize state.run Parser.program = outcome' at hfollows
      cases hfollows with
      | agree _ _ hagreed => exact .inl ⟨rfl, hagreed⟩
      | part _ hparted => exact .inr ⟨_, rfl, hparted⟩

end Offside.Parse
