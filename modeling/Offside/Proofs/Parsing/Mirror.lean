import Offside.Proofs.Parsing.Parting

/-!
# Runs with another stream and another configuration

A parser looks at its stream only where it pulls a token, and at its configuration only where it goes
deeper and where it keeps an error.  So a run with another stream and another configuration goes
through the same states, up to these two, if what is pulled is the same and if no error is met at which
the configurations differ.
-/

namespace Offside.Parse

/-- Neither the result nor a recorded error is a barred one. -/
structure Clear {α : Type} (barred : Error → Prop) (result : Except Error α) (errors : List Error) :
    Prop where
  result : ∀ error, result = .error error → ¬barred error
  errors : ∀ error ∈ errors, ¬barred error

theorem Clear.of_ok {α β : Type} {barred : Error → Prop} {result : Except Error α}
    {errors grown : List Error} (value : β) (h : Clear barred result grown)
    (hgrown : errors <+: grown) : Clear barred (.ok value : Except Error β) errors :=
  ⟨nofun, fun error herror => h.errors error (hgrown.subset herror)⟩

/-- Another stream and another configuration, what is known of the states that are mirrored, and the
errors behind which nothing is claimed. -/
structure Mirror where
  stream : Scan.TokenStream → Scan.TokenStream
  config : Config → Config
  holds : State → Prop
  barred : Error → Prop

namespace Mirror

variable {mirror : Mirror}

def image (mirror : Mirror) (state : State) : State :=
  { state with stream := mirror.stream state.stream, config := mirror.config state.config }

structure Sound (mirror : Mirror) : Prop where
  invariant : Invariant (fun _ => True) mirror.holds
  items : ∀ stream, (mirror.stream stream).items = stream.items
  pull : ∀ state, mirror.holds state →
    (mirror.image state).pull = (state.pull.1, mirror.image state.pull.2)
  recover : ∀ config, (mirror.config config).recover = config.recover
  maxErrors : ∀ config, (mirror.config config).maxErrors = config.maxErrors
  maxDepth : ∀ state, mirror.holds state →
    state.config.maxDepth ≤ (mirror.config state.config).maxDepth
  tooDeep : ∀ config position,
    mirror.config config = config ∨ mirror.barred ⟨.nestingTooDeep config.maxDepth, position⟩

theorem Sound.advance (sound : mirror.Sound) {state : State} (h : mirror.holds state) :
    (mirror.image state).advance = (state.advance.1, mirror.image state.advance.2) := by
  have himage := sound.pull state h
  cases hpull : state.pull with
  | mk result after =>
      rw [hpull] at himage
      cases result with
      | error failure => rw [State.advance_of_failure hpull, State.advance_of_failure himage]
      | ok following =>
          rw [State.advance_eq_of_pull hpull, State.advance_eq_of_pull himage]
          rfl

structure Related (mirror : Mirror) {α : Type} (good : α → Prop) (parser parser' : Parser α) :
    Prop where
  keeps : Parser.Keeps mirror.holds good parser
  grows : Parser.Grows good parser
  follows : ∀ {state after : State} {result : Except Error α}, mirror.holds state →
    parser.run state = some (result, after) → Clear mirror.barred result after.errors →
    parser'.run (mirror.image state) = some (result, mirror.image after)

namespace Related

variable {α β : Type} {good : α → Prop} {good' : β → Prop} {parser parser' : Parser α}
  {state after : State}

theorem of_value {value : α} (h : good value) : mirror.Related good (pure value) (pure value) where
  keeps := .of_value h
  grows := .of_value h
  follows _ hrun _ := by
    cases hrun
    rfl

theorem of_throw (good : α → Prop) (error : Error) :
    mirror.Related good (throw error) (throw error) where
  keeps := .of_throw good error
  grows _ := .of_throw good error
  follows _ hrun _ := by
    cases hrun
    rfl

theorem of_exhausted (good : α → Prop) (parser' : Parser α) :
    mirror.Related good Parser.exhausted parser' where
  keeps _ _ := .of_exhausted
  grows _ _ _ := .of_exhausted
  follows _ hrun := by cases hrun

theorem of_transition (transition : State → Except Error α × State)
    (hrun : ∀ state, parser.run state = some (transition state))
    (himage : ∀ state, mirror.holds state → transition (mirror.image state) =
      ((transition state).1, mirror.image (transition state).2))
    (hkeeps : Parser.Keeps mirror.holds good parser)
    (hgrows : Parser.Grows good parser) :
    mirror.Related good parser parser where
  keeps := hkeeps
  grows := hgrows
  follows {state after result} hstate hafter _ := by
    rw [hrun, Option.some.injEq] at hafter
    rw [hrun, himage state hstate, hafter]

theorem holds_of_run (h : mirror.Related good parser parser') {result : Except Error α}
    (hstate : mirror.holds state) (hrun : parser.run state = some (result, after)) :
    mirror.holds after := by
  have hmeets := h.keeps state hstate _ _ hrun
  cases result with
  | ok value => exact hmeets.2
  | error error => exact hmeets

theorem bind {next next' : α → Parser β} (h : mirror.Related good parser parser')
    (hnext : ∀ value, good value → mirror.Related good' (next value) (next' value)) :
    mirror.Related good' (parser >>= next) (parser' >>= next') where
  keeps := h.keeps.bind fun value hvalue => (hnext value hvalue).keeps
  grows := h.grows.bind fun value hvalue => (hnext value hvalue).grows
  follows hstate hrun hclear := by
    rcases Parser.run_bind_eq_some hrun with ⟨value, middle, hfirst, hrest⟩ |
      ⟨error, middle, hfirst, heq⟩
    · have hvalue := hnext value (h.grows.good_of_run hfirst)
      have hfirst' := h.follows hstate hfirst (hclear.of_ok value (hvalue.grows.errors_of_run hrest))
      rw [Parser.run_bind_of_ok hfirst']
      exact hvalue.follows (h.holds_of_run hstate hfirst) hrest hclear
    · cases heq
      have hfirst' := h.follows hstate hfirst
        ⟨by rintro _ ⟨⟩; exact hclear.result _ rfl, hclear.errors⟩
      exact Parser.run_bind_of_error next' hfirst'

theorem nested (sound : mirror.Sound) (h : mirror.Related good parser parser') :
    mirror.Related good (Parser.nested parser) (Parser.nested parser') where
  keeps := .of_nested sound.invariant h.keeps
  grows := h.grows.nested
  follows {state after result} hstate hrun hclear := by
    by_cases hdeep : state.config.maxDepth ≤ state.nesting
    · rw [Parser.run_nested_of_deep _ hdeep] at hrun
      cases hrun
      rcases sound.tooDeep state.config state.current.position with hsame | hbarred
      · have hdeep' : (mirror.image state).config.maxDepth ≤ state.nesting := by
          rw [image, hsame]
          exact hdeep
        have hrun' := Parser.run_nested_of_deep parser' hdeep'
        rw [hrun']
        simp only [image, hsame]
      · exact absurd hbarred (hclear.result _ rfl)
    · obtain ⟨inner, hinner, hback⟩ := Parser.run_nested_eq_some hdeep hrun
      obtain rfl : after = { inner with nesting := inner.nesting - 1 } := hback
      have hinner' := h.follows (sound.invariant.renest state _ hstate) hinner hclear
      have hdeep' : ¬(mirror.image state).config.maxDepth ≤ (mirror.image state).nesting :=
        fun hle => hdeep (Nat.le_trans (sound.maxDepth state hstate) hle)
      exact Parser.run_nested hdeep' hinner'

theorem surface (sound : mirror.Sound) (error : Error) :
    mirror.Related (fun _ => True) (Parser.surface error) (Parser.surface error) where
  keeps := .of_surface sound.invariant error
  grows := .surface error
  follows {state after result} hstate hrun _ := by
    have hrecover := sound.recover state.config
    cases hstop : error.isFatal || !state.config.recover with
    | true =>
        rw [Parser.surface_of_stop hstop] at hrun
        cases hrun
        exact Parser.surface_of_stop (by rwa [image, hrecover])
    | false =>
        rw [Parser.surface_of_record hstop, Parser.run_record] at hrun
        cases hrun
        have hstop' : (error.isFatal || !(mirror.image state).config.recover) = false := by
          rwa [image, hrecover]
        rw [Parser.surface_of_record hstop', Parser.run_record]
        simp only [image, sound.maxErrors]
        rfl

theorem not_barred_of_surface {error : Error} {result : Except Error α}
    (h : mirror.Related good parser parser')
    (hrun : (Parser.surface error >>= fun _ => parser).run state = some (result, after))
    (hclear : Clear mirror.barred result after.errors) : ¬mirror.barred error := by
  cases hstop : error.isFatal || !state.config.recover with
  | true =>
      rw [Parser.run_surface_bind_of_stop (fun _ => parser) hstop] at hrun
      cases hrun
      exact hclear.result error rfl
  | false =>
      have hkept : (state.keep error).errors <+: after.errors := by
        rcases Parser.run_bind_eq_some hrun with ⟨_, middle, hsurface, hrest⟩ |
          ⟨_, middle, hsurface, heq⟩ <;>
          rw [Parser.surface_of_record hstop, Parser.run_record, Option.some.injEq,
            Prod.mk.injEq] at hsurface <;>
          obtain ⟨-, rfl⟩ := hsurface
        · exact h.grows.errors_of_run hrest
        · cases heq
          exact List.prefix_rfl
      exact hclear.errors error (hkept.subset (by simp [State.keep, State.note]))

theorem recovering (sound : mirror.Sound) {next next' : α → Parser β}
    {elsewhere elsewhere' : Parser β} (h : mirror.Related good parser parser')
    (hnext : ∀ value, good value → mirror.Related good' (next value) (next' value))
    (helsewhere : mirror.Related good' elsewhere elsewhere') :
    mirror.Related good' (Parser.recovering parser next elsewhere)
      (Parser.recovering parser' next' elsewhere') where
  keeps := .of_recovering sound.invariant h.keeps (fun value hvalue => (hnext value hvalue).keeps)
    helsewhere.keeps
  grows := h.grows.recovering (fun value hvalue => (hnext value hvalue).grows) helsewhere.grows
  follows {state after result} hstate hrun hclear := by
    obtain ⟨first, middle, hfirst, hrest⟩ := Parser.run_attempt_bind_eq_some hrun
    have hmiddle := h.holds_of_run hstate hfirst
    cases first with
    | ok value =>
        have hvalue := hnext value (h.grows.good_of_run hfirst)
        have hfirst' := h.follows hstate hfirst (hclear.of_ok value (hvalue.grows.errors_of_run hrest))
        have hrest' := hvalue.follows hmiddle hrest hclear
        exact (Parser.run_bind_of_ok (Parser.run_attempt hfirst')).trans hrest'
    | error error =>
        have hbehind := (surface sound error).bind fun _ _ => helsewhere
        have hclear' : Clear mirror.barred (.error error : Except Error α) middle.errors :=
          ⟨by rintro _ ⟨⟩; exact helsewhere.not_barred_of_surface hrest hclear,
            (hclear.of_ok () (hbehind.grows.errors_of_run hrest)).errors⟩
        have hfirst' := h.follows hstate hfirst hclear'
        have hrest' := hbehind.follows hmiddle hrest hclear
        exact (Parser.run_bind_of_ok (Parser.run_attempt hfirst')).trans hrest'

end Related

theorem Sound.compositional (sound : mirror.Sound) :
    Parser.Compositional (fun _ => True) mirror.Related where
  exhausted good := .of_exhausted good _
  cut _ := .of_exhausted _ _
  value := .of_value
  throw good error _ := .of_throw good error
  bind := .bind
  currentToken := .of_transition (fun state => (.ok state.current, state))
    (fun _ => rfl) (fun _ _ => rfl) (fun _ hstate => .of_currentToken ⟨trivial, hstate⟩)
    fun _ _ hstate => .of_currentToken ⟨trivial, hstate⟩
  nextKind := .of_transition (fun state => (.ok state.next.kind, state))
    (fun _ => rfl) (fun _ _ => rfl) (fun _ hstate => .of_nextKind ⟨trivial, hstate⟩)
    fun _ _ hstate => .of_nextKind ⟨trivial, hstate⟩
  counts := .of_transition (fun state => (.ok (state.consumed, state.openBlocks), state))
    (fun _ => rfl) (fun _ _ => rfl)
    (fun _ hstate => .get_bind (.get_bind (.of_pure ⟨trivial, hstate⟩)))
    fun _ _ hstate => .get_bind (.get_bind (.of_pure ⟨trivial, hstate⟩))
  advance := .of_transition State.advance (fun _ => rfl) (fun _ => sound.advance)
    (.of_advance sound.invariant) .advance
  note event h hpulled := .of_transition (fun state => (.ok ⟨⟩, state.note (event state)))
    (fun _ => rfl)
    (fun state _ => congrArg (fun event => (_, State.note _ event)) (h state _ _))
    (fun state hstate => .of_modify ⟨trivial, sound.invariant.note state _ (hpulled state) hstate⟩)
    fun _ _ hstate => .of_modify ⟨trivial, hstate⟩
  nested := .nested sound
  surface error _ := .surface sound error
  recovering := .recovering sound

theorem Sound.parseStream_eq (sound : mirror.Sound) {stream : Scan.TokenStream} {config : Config}
    (hstart : State.ofStream (mirror.stream stream) (mirror.config config) =
      (State.ofStream stream config).map mirror.image)
    (hholds : ∀ state, State.ofStream stream config = .ok state → mirror.holds state)
    (hclear : Clear mirror.barred (parseStream stream config).result
      (parseStream stream config).errors) :
    parseStream (mirror.stream stream) (mirror.config config) = parseStream stream config := by
  unfold parseStream at hclear ⊢
  rw [hstart]
  cases hstate : State.ofStream stream config with
  | error error => rfl
  | ok state =>
      rw [hstate] at hclear
      have hwell := (State.fresh_of_ofStream hstate).settled.wellFormed
      have hrelated := Parser.program_related sound.compositional (Nat.le_refl state.fuel)
      have hfollows := hrelated.follows (hholds state hstate) (State.run_program hwell) hclear
      have hfuel : (mirror.image state).fuel = state.fuel := by
        simp only [State.fuel, State.size, State.slack, image, sound.items, sound.maxErrors]
      have hwell' : (mirror.image state).WellFormed := hwell
      have hrun := State.run_program hwell'
      rw [hfuel, hfollows, Option.some.injEq] at hrun
      simp only [Except.map, ← hrun]
      rfl

/-! ## More fuel -/

def identity : Mirror := ⟨id, id, fun _ => True, fun _ => False⟩

theorem identity_sound : identity.Sound where
  invariant := ⟨fun _ _ => trivial, fun _ _ => trivial, fun _ _ _ => trivial, fun _ _ _ _ => trivial,
    fun _ _ _ => trivial⟩
  items _ := rfl
  pull _ _ := rfl
  recover _ := rfl
  maxErrors _ := rfl
  maxDepth _ _ := Nat.le_refl _
  tooDeep _ _ := .inl rfl

end Mirror

namespace Parser

variable {fuel fuel' : Nat} {state after : State}

theorem statements_of_fuel_le {result : Except Error Block} (h : fuel ≤ fuel')
    (hrun : (statements fuel).run state = some (result, after)) :
    (statements fuel').run state = some (result, after) :=
  (statementsRelated Mirror.identity_sound.compositional.guarding h).statements.follows trivial hrun
    ⟨fun _ _ => id, fun _ _ => id⟩

/-- A grammar function that more fuel does not change has one outcome at most. -/
theorem run_unique {α : Type} {good : α → Prop} {parser : Nat → Parser α}
    (hmore : ∀ {fuel fuel' : Nat}, fuel ≤ fuel' →
      Mirror.identity.Related good (parser fuel) (parser fuel'))
    {outcome outcome' : Except Error α × State} (hrun : (parser fuel).run state = some outcome)
    (hrun' : (parser fuel').run state = some outcome') : outcome = outcome' := by
  have hbig := (hmore (Nat.le_max_left fuel fuel')).follows trivial hrun
    ⟨fun _ _ => id, fun _ _ => id⟩
  have hbig' := (hmore (Nat.le_max_right fuel fuel')).follows trivial hrun'
    ⟨fun _ _ => id, fun _ _ => id⟩
  exact Option.some.inj (hbig.symm.trans hbig')

theorem statement_unique {outcome outcome' : Except Error Stmt × State}
    (hrun : (statement fuel).run state = some outcome)
    (hrun' : (statement fuel').run state = some outcome') : outcome = outcome' :=
  run_unique (fun h => (statementsRelated Mirror.identity_sound.compositional.guarding h).statement)
    hrun hrun'

theorem recover_unique {error : Error} {start openBlocks : Nat}
    {outcome outcome' : Except Error Unit × State}
    (hrun : (recover fuel error start openBlocks).run state = some outcome)
    (hrun' : (recover fuel' error start openBlocks).run state = some outcome') :
    outcome = outcome' := by
  have hmore : ∀ {fuel fuel' : Nat}, fuel ≤ fuel' → Mirror.identity.Related (fun _ => True)
      (recover fuel error start openBlocks) (recover fuel' error start openBlocks) := by
    intro fuel fuel' h
    simp only [recover_eq]
    exact (Mirror.Related.surface Mirror.identity_sound error).bind fun _ _ =>
      resume_related Mirror.identity_sound.compositional h start openBlocks
  exact run_unique hmore hrun hrun'

end Parser

end Offside.Parse
