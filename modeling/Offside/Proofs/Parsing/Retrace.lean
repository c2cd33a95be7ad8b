import Offside.Proofs.Grammar.Accepts
import Offside.Proofs.Parsing.Mirror

/-!
# Runs without errors in other places

A run that gives a value and records nothing depends on the tokens ahead, on the depth of nesting and
on the configuration alone.  What has been consumed and recorded before does not matter: the counts
are looked at only behind an error.  So tokens that are read without an error in one place are read
in the same way in every other.
-/

namespace Offside.Parse

namespace State

variable {here there : State}

structure Matches (here there : State) : Prop where
  sees : ∃ tokens, here.Sees tokens ∧ there.Sees tokens
  nesting : there.nesting = here.nesting
  config : there.config = here.config

namespace Matches

theorem current (h : here.Matches there) : there.current = here.current := by
  obtain ⟨tokens, hhere, hthere⟩ := h.sees
  obtain ⟨rest, rfl⟩ := hhere.exists_cons
  exact hthere.current

theorem next (h : here.Matches there) : there.next = here.next := by
  obtain ⟨tokens, hhere, hthere⟩ := h.sees
  by_cases heof : here.current.kind = .eof
  · rw [hhere.settled heof, hthere.settled (h.current ▸ heof), h.current]
  · obtain ⟨rest, rfl⟩ := hhere.exists_cons
    obtain ⟨last, hlast, -⟩ := hhere.ended.tail heof
    cases rest with
    | nil => simp at hlast
    | cons second rest => rw [next_of_ahead hhere.ahead, next_of_ahead hthere.ahead]

theorem note (h : here.Matches there) (event event' : Event) :
    (here.note event).Matches (there.note event') := by
  obtain ⟨tokens, hhere, hthere⟩ := h.sees
  exact ⟨⟨tokens, ⟨hhere.settled, hhere.ahead, hhere.ended⟩,
    ⟨hthere.settled, hthere.ahead, hthere.ended⟩⟩, h.nesting, h.config⟩

theorem renest (h : here.Matches there) (nesting : Nat) :
    { here with nesting }.Matches { there with nesting } := by
  obtain ⟨tokens, hhere, hthere⟩ := h.sees
  exact ⟨⟨tokens, ⟨hhere.settled, hhere.ahead, hhere.ended⟩,
    ⟨hthere.settled, hthere.ahead, hthere.ended⟩⟩, rfl, h.config⟩

theorem advance (h : here.Matches there) :
    ∃ after last, here.advance = (.ok here.current, after) ∧
      there.advance = (.ok here.current, last) ∧ last.errors = there.errors ∧
      after.Matches last := by
  obtain ⟨tokens, hhere, hthere⟩ := h.sees
  by_cases heof : here.current.kind = .eof
  · refine ⟨here, there, advance_of_eof hhere.settled heof, ?_, rfl, h⟩
    rw [← h.current] at heof ⊢
    exact advance_of_eof hthere.settled heof
  · obtain ⟨rest, rfl⟩ := hhere.exists_cons
    obtain ⟨after, hadvance, hconsumes, hafter⟩ := hhere.exists_consumes heof
    obtain ⟨last, hadvance', hconsumes', hlast⟩ := hthere.exists_consumes heof
    refine ⟨after, last, hadvance, hadvance', hconsumes'.errors, ⟨rest, hafter, hlast⟩, ?_, ?_⟩
    · rw [hconsumes.nesting, hconsumes'.nesting, h.nesting]
    · rw [hconsumes.config, hconsumes'.config, h.config]

end Matches

end State

namespace Parser

private theorem errors_eq_of_prefix {start middle last : List Error} (hstart : start <+: middle)
    (hlast : middle <+: last) (hsame : last = start) : middle = start := by
  subst hsame
  exact hlast.eq_of_length_le hstart.length_le

structure Retraces {α : Type} (good : α → Prop) (parser parser' : Parser α) : Prop where
  grows : Grows good parser
  follows : ∀ {here there after : State} {value : α}, here.Matches there →
    parser.run here = some (.ok value, after) → after.errors = here.errors →
    ∃ last, parser'.run there = some (.ok value, last) ∧ last.errors = there.errors ∧
      after.Matches last

namespace Retraces

variable {α β : Type} {good : α → Prop} {good' : β → Prop} {parser parser' : Parser α}

theorem of_value {value : α} (h : good value) : Retraces good (pure value) (pure value) where
  grows := .of_value h
  follows {here there after result} hmatches hrun _ := by
    cases hrun
    exact ⟨there, rfl, rfl, hmatches⟩

theorem of_throw (good : α → Prop) (error : Error) :
    Retraces good (throw error) (throw error) where
  grows _ := .of_throw good error
  follows _ hrun _ := by cases hrun

theorem of_exhausted (good : α → Prop) (parser' : Parser α) :
    Retraces good exhausted parser' where
  grows _ _ _ := .of_exhausted
  follows _ hrun := by cases hrun

theorem bind {next next' : α → Parser β} (h : Retraces good parser parser')
    (hnext : ∀ value, good value → Retraces good' (next value) (next' value)) :
    Retraces good' (parser >>= next) (parser' >>= next') where
  grows := h.grows.bind fun value hvalue => (hnext value hvalue).grows
  follows {here there after result} hmatches hrun hclean := by
    obtain ⟨value, middle, hfirst, hrest⟩ := run_bind_eq_ok hrun
    have hvalue := hnext value (h.grows.good_of_run hfirst)
    have hmiddle := errors_eq_of_prefix (h.grows.errors_of_run hfirst)
      (hvalue.grows.errors_of_run hrest) hclean
    obtain ⟨middle', hfirst', herrors, hmatches'⟩ := h.follows hmatches hfirst hmiddle
    obtain ⟨last, hrest', herrors', hlast⟩ :=
      hvalue.follows hmatches' hrest (hclean.trans hmiddle.symm)
    exact ⟨last, (run_bind_of_ok hfirst').trans hrest', herrors'.trans herrors, hlast⟩

theorem of_currentToken : Retraces (fun _ => True) currentToken currentToken where
  grows _ _ hstate := .of_currentToken ⟨trivial, hstate⟩
  follows {here there after value} hmatches hrun _ := by
    cases hrun
    refine ⟨there, ?_, rfl, hmatches⟩
    rw [← hmatches.current]
    rfl

theorem of_nextKind : Retraces (fun _ => True) nextKind nextKind where
  grows _ _ hstate := .of_nextKind ⟨trivial, hstate⟩
  follows {here there after value} hmatches hrun _ := by
    cases hrun
    refine ⟨there, ?_, rfl, hmatches⟩
    rw [← hmatches.next]
    rfl

theorem of_advance : Retraces (fun _ => True) advance advance where
  grows := .advance
  follows {here there after value} hmatches hrun _ := by
    obtain ⟨after', last, hadvance, hadvance', herrors, hlast⟩ := hmatches.advance
    have hsame : some (here.advance) = some (.ok value, after) := hrun
    rw [hadvance] at hsame
    cases hsame
    exact ⟨last, congrArg some hadvance', herrors, hlast⟩

theorem of_note (event : State → Event) : Retraces (fun _ => True) (note event) (note event) where
  grows _ _ hstate := .of_modify ⟨trivial, hstate⟩
  follows {here there after value} hmatches hrun _ := by
    cases hrun
    exact ⟨there.note (event there), rfl, rfl, hmatches.note _ _⟩

theorem of_nested (h : Retraces good parser parser') :
    Retraces good (nested parser) (nested parser') where
  grows := h.grows.nested
  follows {here there after value} hmatches hrun hclean := by
    by_cases hdeep : here.config.maxDepth ≤ here.nesting
    · rw [run_nested_of_deep _ hdeep] at hrun
      cases hrun
    · obtain ⟨inner, hinner, rfl⟩ := run_nested_eq_some hdeep hrun
      have hdeeper := hmatches.renest (here.nesting + 1)
      obtain ⟨last, hlast, herrors, hmatches'⟩ := h.follows hdeeper hinner hclean
      rw [← hmatches.nesting] at hlast
      rw [← hmatches.config, ← hmatches.nesting] at hdeep
      refine ⟨_, run_nested hdeep hlast, herrors, ?_⟩
      rw [hmatches'.nesting]
      exact hmatches'.renest _

theorem length_errors_lt_of_surface {error : Error} {state after : State} {value : α}
    (h : Grows good parser)
    (hrun : (Parser.surface error >>= fun _ => parser).run state = some (.ok value, after)) :
    state.errors.length < after.errors.length := by
  cases hstop : error.isFatal || !state.config.recover with
  | true =>
      rw [run_surface_bind_of_stop (fun _ => parser) hstop] at hrun
      cases hrun
  | false =>
      obtain ⟨_, middle, hsurface, hrest⟩ := run_bind_eq_ok hrun
      rw [surface_of_record hstop, run_record, Option.some.injEq, Prod.mk.injEq] at hsurface
      obtain ⟨-, rfl⟩ := hsurface
      have hlength := (h.errors_of_run hrest).length_le
      simp only [State.keep, State.note, List.length_append, List.length_singleton] at hlength
      omega

theorem of_surface (error : Error) :
    Retraces (fun _ => True) (Parser.surface error) (Parser.surface error) where
  grows := .surface error
  follows {here there after value} _ hrun hclean := by
    have hbind : (Parser.surface error >>= fun _ => pure value).run here =
        some (.ok value, after) := by
      rw [run_bind_of_ok hrun]
      rfl
    have hgrows : Grows (fun _ => True) (pure value : Parser Unit) := .of_value trivial
    have hlength := length_errors_lt_of_surface hgrows hbind
    rw [hclean] at hlength
    exact absurd hlength (Nat.lt_irrefl _)

/-- Where a statement is not broken, it does not matter how to go on behind a broken one. -/
theorem of_recovering {next next' : α → Parser β} {elsewhere : Parser β} (elsewhere' : Parser β)
    (h : Retraces good parser parser')
    (hnext : ∀ value, good value → Retraces good' (next value) (next' value))
    (helsewhere : Grows good' elsewhere) :
    Retraces good' (recovering parser next elsewhere) (recovering parser' next' elsewhere') where
  grows := h.grows.recovering (fun value hvalue => (hnext value hvalue).grows) helsewhere
  follows {here there after result} hmatches hrun hclean := by
    obtain ⟨first, middle, hfirst, hsecond⟩ := run_attempt_bind_eq_some hrun
    have hless := h.grows.errors_of_run hfirst
    cases first with
    | ok value =>
        have hvalue := hnext value (h.grows.good_of_run hfirst)
        have hmiddle := errors_eq_of_prefix hless (hvalue.grows.errors_of_run hsecond) hclean
        obtain ⟨middle', hfirst', herrors, hmatches'⟩ := h.follows hmatches hfirst hmiddle
        obtain ⟨last, hsecond', herrors', hlast⟩ :=
          hvalue.follows hmatches' hsecond (hclean.trans hmiddle.symm)
        refine ⟨last, ?_, herrors'.trans herrors, hlast⟩
        exact (run_bind_of_ok (run_attempt hfirst')).trans hsecond'
    | error error =>
        have hlength := length_errors_lt_of_surface helsewhere hsecond
        rw [hclean] at hlength
        exact absurd hless.length_le (Nat.not_le_of_lt hlength)

theorem of_guarded {next next' : α → Parser β} {rest rest' : Parser β} {fuel fuel' : Nat}
    (h : Retraces good parser parser')
    (hnext : ∀ value, good value → Retraces good' (next value) (next' value))
    (hrest : Grows good' rest) :
    Retraces good' (guarded fuel parser next rest) (guarded fuel' parser' next' rest') := by
  have helsewhere : ∀ start : Nat × Nat,
      Grows good' (resume fuel start.1 start.2 >>= fun _ => rest) := by
    intro start errors
    have hresume := resume_related (Keeps.compositional (Grows.invariant errors))
      (Nat.le_refl fuel) start.1 start.2
    exact Keeps.bind hresume fun _ _ => hrest errors
  constructor
  case grows =>
    intro errors
    have hcounts := (Keeps.compositional (Grows.invariant errors)).counts
    apply Keeps.bind hcounts
    intro start _
    exact (of_recovering exhausted h hnext (helsewhere start)).grows errors
  case follows =>
    intro here there after result hmatches hrun hclean
    -- The two runs have counted differently, so they would go on in different ways behind an error.
    have hrecovering := of_recovering
      (resume fuel' there.consumed there.openBlocks >>= fun _ => rest') h hnext
      (helsewhere (here.consumed, here.openBlocks))
    exact hrecovering.follows hmatches hrun hclean

theorem guarding : Guarding (fun _ => True) Retraces where
  exhausted good := .of_exhausted good _
  cut _ := .of_exhausted _ _
  value := .of_value
  throw good error _ := .of_throw good error
  bind := .bind
  currentToken := .of_currentToken
  nextKind := .of_nextKind
  advance := .of_advance
  note event _ _ := .of_note event
  nested := .of_nested
  surface error _ := .of_surface error
  guarded _ h hnext hrest := .of_guarded h hnext hrest.grows

theorem ensures (h : Retraces good parser parser') {here there after : State} {value : α}
    (hmatches : here.Matches there) (hrun : parser.run here = some (.ok value, after))
    (hclean : after.errors = here.errors) :
    Ensures parser' there (fun result last => result = value ∧ after.Matches last)
      fun _ _ => False := by
  obtain ⟨last, hlast, -, hmatches'⟩ := h.follows hmatches hrun hclean
  intro result last' hrun'
  cases hlast.symm.trans hrun'
  exact ⟨rfl, hmatches'⟩

end Retraces

variable {fuel fuel' : Nat} {here there state after : State} {block : Block}

/-- Statements that have been read in one place are read in another one, with any amount of fuel. -/
theorem statements_retrace (hmatches : here.Matches there)
    (hrun : (statements fuel).run here = some (.ok block, after))
    (hclean : after.errors = here.errors) :
    Ensures (statements fuel') there (fun result last => result = block ∧ after.Matches last)
      fun _ _ => False := by
  intro result last hrun'
  have hrelated := statementsRelated Retraces.guarding (Nat.le_max_left fuel fuel')
  have hmore := statements_of_fuel_le (Nat.le_max_right fuel fuel') hrun'
  exact hrelated.statements.ensures hmatches hrun hclean _ _ hmore

/-! ## Files without errors -/

structure CleanRun (config : Config) (tokens : List Token) (block : Block) where
  fuel : Nat
  opened : State
  read : State
  closed : State
  last : State
  sees : opened.Sees tokens
  nesting : opened.nesting = 0
  config_eq : opened.config = config
  statements : (statements fuel).run opened = some (.ok block, read)
  dedent : ∃ token, (expect .dedent).run read = some (.ok token, closed)
  eof : ∃ token, (expect .eof).run closed = some (.ok token, last)
  errors_read : read.errors = opened.errors
  errors_closed : closed.errors = read.errors
  errors_last : last.errors = closed.errors

theorem CleanRun.of_program {opening : Text.Position} {tokens : List Token}
    (hsees : state.Sees (.plain .indent opening :: tokens)) (hnesting : state.nesting = 0)
    (hrun : (program fuel).run state = some (.ok block, after))
    (hclean : after.errors = state.errors) : Nonempty (CleanRun state.config tokens block) := by
  have hcurrent : currentToken.run state = some (.ok state.current, state) := rfl
  rw [program, run_bind_of_ok hcurrent, hsees.current, if_pos (by simp [Token.plain])] at hrun
  obtain ⟨_, opened, hadvance, hrun⟩ := run_bind_eq_ok hrun
  obtain ⟨body, read, hstatements, hrun⟩ := run_bind_eq_ok hrun
  obtain ⟨dedent, closed, hdedent, hrun⟩ := run_bind_eq_ok hrun
  obtain ⟨eof, last, heof, hrun⟩ := run_bind_eq_ok hrun
  cases hrun
  obtain ⟨opened', hadvance', hconsumes, hopened⟩ := hsees.exists_consumes (by simp [Token.plain])
  obtain rfl : opened = opened' := by
    have hsame : some state.advance = some (.ok _, opened) := hadvance
    rw [hadvance'] at hsame
    cases hsame
    rfl
  have hexpect := Retraces.guarding.toSequential.expect
  have hblock := (statementsRelated Retraces.guarding (Nat.le_refl fuel)).statements
  have hread := hblock.grows.errors_of_run hstatements
  have hclosed := (hexpect .dedent).grows.errors_of_run hdedent
  have hlast := (hexpect .eof).grows.errors_of_run heof
  have hclean' : last.errors = opened.errors := hclean.trans hconsumes.errors.symm
  have hread' := errors_eq_of_prefix hread (hclosed.trans hlast) hclean'
  have hclosed' := errors_eq_of_prefix hclosed hlast (hclean'.trans hread'.symm)
  exact ⟨{
    fuel, opened, read, closed, last
    sees := hopened
    nesting := hconsumes.nesting.trans hnesting
    config_eq := hconsumes.config
    statements := hstatements
    dedent := ⟨dedent, hdedent⟩
    eof := ⟨eof, heof⟩
    errors_read := hread'
    errors_closed := hclosed'
    errors_last := by rw [hclean', hclosed', hread'] }⟩

namespace CleanRun

variable {config : Config} {tokens : List Token}

theorem statements_ensures (run : CleanRun config tokens block) (hsees : state.Sees tokens)
    (hnesting : state.nesting = 0) (hconfig : state.config = config) :
    Ensures (Parser.statements fuel) state
      (fun result last => result = block ∧ run.read.Matches last) fun _ _ => False := by
  have hmatches : run.opened.Matches state :=
    ⟨⟨tokens, run.sees, hsees⟩, by rw [hnesting, run.nesting], by rw [hconfig, run.config_eq]⟩
  exact statements_retrace hmatches run.statements run.errors_read

theorem closing_ensures (run : CleanRun config tokens block) (hmatches : run.read.Matches state)
    (whole : Block) :
    Ensures (do
        let _ ← expect .dedent
        let _ ← expect .eof
        modify fun state => state.note (.finished whole.length state.errors.length)
        return whole) state (fun result _ => result = whole) fun _ _ => False := by
  have hexpect := Retraces.guarding.toSequential.expect
  obtain ⟨_, hdedent⟩ := run.dedent
  obtain ⟨_, heof⟩ := run.eof
  apply Ensures.bind ((hexpect .dedent).ensures hmatches hdedent run.errors_closed)
  rintro _ closed ⟨-, hclosed⟩
  apply Ensures.bind ((hexpect .eof).ensures hclosed heof run.errors_last)
  intro _ last _
  exact .modify_bind (.of_pure rfl)

end CleanRun

end Parser

end Offside.Parse
