import Offside.Proofs.Parsing.Forward
import Offside.Proofs.Parsing.Retrace

/-!
# Runs in front of other tokens

A parser looks at two tokens.  So a run that ends in front of two tokens depends on these, on the tokens
that it has consumed and on what has been counted and recorded, but not on what stands behind them: in
front of another tail it does the same.
-/

namespace Offside.Parse

namespace State

variable {tail tail' : List Token} {here there after last : State}

/-- In front of the same tokens with different tails, with the same counts, errors and configuration. -/
structure Beside (tail tail' : List Token) (here there : State) : Prop where
  sees : ∃ front, here.Sees (front ++ tail) ∧ there.Sees (front ++ tail')
  consumed : there.consumed = here.consumed
  openBlocks : there.openBlocks = here.openBlocks
  nesting : there.nesting = here.nesting
  errors : there.errors = here.errors
  config : there.config = here.config

def Clears (tail : List Token) (state : State) : Prop := tail.length + 2 ≤ state.ahead.length

namespace Beside

theorem refl {front : List Token} (h : here.Sees (front ++ tail)) : here.Beside tail tail here :=
  ⟨⟨front, h, h⟩, rfl, rfl, rfl, rfl, rfl⟩

theorem symm (h : here.Beside tail tail' there) : there.Beside tail' tail here where
  sees := by
    obtain ⟨front, hhere, hthere⟩ := h.sees
    exact ⟨front, hthere, hhere⟩
  consumed := h.consumed.symm
  openBlocks := h.openBlocks.symm
  nesting := h.nesting.symm
  errors := h.errors.symm
  config := h.config.symm

theorem clears (h : here.Beside tail tail' there) (hclears : here.Clears tail) :
    there.Clears tail' := by
  obtain ⟨front, hhere, hthere⟩ := h.sees
  rw [Clears, hhere.ahead, List.length_map, List.length_append] at hclears
  rw [Clears, hthere.ahead, List.length_map, List.length_append]
  omega

theorem exists_cons (h : here.Beside tail tail' there) (hclears : here.Clears tail) :
    ∃ first second front, here.Sees (first :: second :: front ++ tail) ∧
      there.Sees (first :: second :: front ++ tail') := by
  obtain ⟨front, hhere, hthere⟩ := h.sees
  rw [Clears, hhere.ahead, List.length_map, List.length_append] at hclears
  match front with
  | [] | [_] =>
      simp only [List.length_nil, List.length_singleton] at hclears
      omega
  | first :: second :: front => exact ⟨first, second, front, hhere, hthere⟩

theorem current (h : here.Beside tail tail' there) (hclears : here.Clears tail) :
    there.current = here.current := by
  obtain ⟨first, second, front, hhere, hthere⟩ := h.exists_cons hclears
  rw [hhere.current, hthere.current]

theorem next (h : here.Beside tail tail' there) (hclears : here.Clears tail) :
    there.next = here.next := by
  obtain ⟨first, second, front, hhere, hthere⟩ := h.exists_cons hclears
  rw [next_of_ahead hhere.ahead, next_of_ahead hthere.ahead]

theorem note (h : here.Beside tail tail' there) (event : Event) :
    here.Beside tail tail' (there.note event) := by
  obtain ⟨front, hhere, hthere⟩ := h.sees
  exact ⟨⟨front, hhere, ⟨hthere.settled, hthere.ahead, hthere.ended⟩⟩, h.consumed, h.openBlocks,
    h.nesting, h.errors, h.config⟩

theorem notes (h : here.Beside tail tail' there) (event event' : Event) :
    (here.note event).Beside tail tail' (there.note event') :=
  ((h.note event').symm.note event).symm

theorem keep (h : here.Beside tail tail' there) (error : Error) :
    (here.keep error).Beside tail tail' (there.keep error) := by
  obtain ⟨front, hhere, hthere⟩ := h.sees
  refine ⟨⟨front, ⟨hhere.settled, hhere.ahead, hhere.ended⟩,
    ⟨hthere.settled, hthere.ahead, hthere.ended⟩⟩, h.consumed, h.openBlocks, h.nesting, ?_, h.config⟩
  exact congrArg (· ++ [error]) h.errors

theorem renest (h : here.Beside tail tail' there) (nesting : Nat) :
    { here with nesting }.Beside tail tail' { there with nesting } := by
  obtain ⟨front, hhere, hthere⟩ := h.sees
  exact ⟨⟨front, ⟨hhere.settled, hhere.ahead, hhere.ended⟩,
    ⟨hthere.settled, hthere.ahead, hthere.ended⟩⟩, h.consumed, h.openBlocks, rfl, h.errors, h.config⟩

theorem advance (h : here.Beside tail tail' there) {token : Token}
    (hadvance : here.advance = (.ok token, after)) (hclears : after.Clears tail) :
    ∃ last, there.advance = (.ok token, last) ∧ after.Beside tail tail' last := by
  obtain ⟨front, hhere, hthere⟩ := h.sees
  by_cases heof : here.current.kind = .eof
  · exfalso
    rw [advance_of_eof hhere.settled heof, Prod.mk.injEq] at hadvance
    obtain ⟨-, rfl⟩ := hadvance
    rw [Clears, ahead_of_eof heof, List.length_singleton] at hclears
    omega
  · cases front with
    | nil =>
        exfalso
        rcases advance_cases heof with ⟨after', hadvance', hconsumes⟩ | ⟨failure, after', hadvance', -⟩
        · rw [hadvance', Prod.mk.injEq] at hadvance
          obtain ⟨-, rfl⟩ := hadvance
          have hahead := hconsumes.ahead
          rw [hhere.ahead] at hahead
          have hlength := congrArg List.length hahead
          rw [List.length_map, List.nil_append, List.length_cons] at hlength
          rw [Clears] at hclears
          omega
        · rw [hadvance'] at hadvance
          cases hadvance
    | cons first front =>
        have hcurrent := hhere.current
        rw [hcurrent] at heof
        obtain ⟨after', hadvance', hconsumes, hafter⟩ := hhere.exists_consumes heof
        obtain ⟨last, hlast, hconsumes', hafter'⟩ := hthere.exists_consumes heof
        rw [hadvance', Prod.mk.injEq] at hadvance
        obtain ⟨hfirst, rfl⟩ := hadvance
        cases hfirst
        refine ⟨last, hlast, ⟨front, hafter, hafter'⟩, ?_, ?_, ?_, ?_, ?_⟩
        · rw [hconsumes.consumed, hconsumes'.consumed, h.consumed]
        · rw [hconsumes.openBlocks, hconsumes'.openBlocks, h.openBlocks, hcurrent, hthere.current]
        · rw [hconsumes.nesting, hconsumes'.nesting, h.nesting]
        · rw [hconsumes.errors, hconsumes'.errors, h.errors]
        · rw [hconsumes.config, hconsumes'.config, h.config]

end Beside

theorem Moves.clears (h : here.Moves after) (hclears : after.Clears tail) : here.Clears tail := by
  obtain ⟨consumed, hahead⟩ := h.ahead
  rw [Clears, hahead, List.length_append]
  rw [Clears] at hclears
  omega

end State

namespace Parser

def GoesOn {α : Type} (result : Except Error α) : Prop :=
  ∀ error, result = .error error → error.isFatal = false

theorem GoesOn.of_ok {α : Type} (value : α) : GoesOn (.ok value) := nofun

theorem GoesOn.of_error {α β : Type} {error : Error} (h : GoesOn (.error error : Except Error α)) :
    GoesOn (.error error : Except Error β) := by
  rintro _ ⟨⟩
  exact h error rfl

theorem GoesOn.of_surface {β : Type} {error : Error} {next : Unit → Parser β}
    {result : Except Error β} {state after : State} (h : GoesOn result)
    (hrun : (surface error >>= next).run state = some (result, after)) : error.isFatal = false := by
  cases hfatal : error.isFatal with
  | false => rfl
  | true =>
      rw [run_surface_bind_of_stop next (by rw [hfatal]; rfl)] at hrun
      cases hrun
      rw [← hfatal]
      exact h error rfl

theorem Moving.of_run {α : Type} {parser : Parser α} {state after : State} {result : Except Error α}
    (h : Moving parser) (hsettled : state.Settled) (hrun : parser.run state = some (result, after))
    (hgoes : GoesOn result) : state.Moves after := by
  have hmeets := h state hsettled result after hrun
  cases result with
  | ok value => exact hmeets
  | error error =>
      apply hmeets.resolve_left
      rw [hgoes error rfl]
      exact Bool.false_ne_true

structure Local {α : Type} (tail tail' : List Token) (good : α → Prop) (parser parser' : Parser α) :
    Prop where
  grows : Grows good parser
  moving : Moving parser
  follows : ∀ {here there after : State} {result : Except Error α}, here.Beside tail tail' there →
    parser.run here = some (result, after) → GoesOn result → after.Clears tail →
    ∃ last, parser'.run there = some (result, last) ∧ after.Beside tail tail' last

namespace Local

variable {α β : Type} {tail tail' : List Token} {good : α → Prop} {good' : β → Prop}
  {parser parser' : Parser α}

theorem of_value {value : α} (h : good value) : Local tail tail' good (pure value) (pure value) where
  grows := .of_value h
  moving := .of_pure value
  follows {here there after result} hbeside hrun _ _ := by
    cases hrun
    exact ⟨there, rfl, hbeside⟩

theorem of_throw (good : α → Prop) (error : Error) :
    Local tail tail' good (throw error) (throw error) where
  grows _ := .of_throw good error
  moving := .of_throw error
  follows {here there after result} hbeside hrun _ _ := by
    cases hrun
    exact ⟨there, rfl, hbeside⟩

theorem of_exhausted (good : α → Prop) (parser' : Parser α) :
    Local tail tail' good exhausted parser' where
  grows _ _ _ := .of_exhausted
  moving := .of_exhausted
  follows _ hrun := by cases hrun

theorem bind {next next' : α → Parser β} (h : Local tail tail' good parser parser')
    (hnext : ∀ value, good value → Local tail tail' good' (next value) (next' value)) :
    Local tail tail' good' (parser >>= next) (parser' >>= next') where
  grows := h.grows.bind fun value hvalue => (hnext value hvalue).grows
  moving := by
    intro state hsettled
    have hfirst := (h.grows [] state List.nil_prefix).and (h.moving state hsettled)
    apply Ensures.bind (hfirst.weaken (fun _ _ hvalue => hvalue) fun _ _ herror => herror.2)
    rintro value middle ⟨⟨hvalue, -⟩, hmiddle⟩
    exact (hnext value hvalue).moving.later hsettled hmiddle
  follows {here there after result} hbeside hrun hgoes hclears := by
    obtain ⟨_, hhere, -⟩ := hbeside.sees
    rcases run_bind_eq_some hrun with ⟨value, middle, hfirst, hrest⟩ | ⟨error, middle, hfirst, heq⟩
    · have hvalue := hnext value (h.grows.good_of_run hfirst)
      have hmiddle := h.moving.of_run hhere.settled hfirst (.of_ok value)
      have hlast := hvalue.moving.of_run (hmiddle.settled hhere.settled) hrest hgoes
      obtain ⟨middle', hfirst', hbeside'⟩ :=
        h.follows hbeside hfirst (.of_ok value) (hlast.clears hclears)
      obtain ⟨last, hrest', hlast'⟩ := hvalue.follows hbeside' hrest hgoes hclears
      exact ⟨last, (run_bind_of_ok hfirst').trans hrest', hlast'⟩
    · cases heq
      obtain ⟨last, hfirst', hlast⟩ := h.follows hbeside hfirst hgoes.of_error hclears
      exact ⟨last, run_bind_of_error next' hfirst', hlast⟩

theorem of_currentToken :
    Local tail tail' (fun _ => True) currentToken currentToken where
  grows _ _ hstate := .of_currentToken ⟨trivial, hstate⟩
  moving := .of_currentToken
  follows {here there after result} hbeside hrun _ hclears := by
    cases hrun
    exact ⟨there, by rw [← hbeside.current hclears]; rfl, hbeside⟩

theorem of_nextKind : Local tail tail' (fun _ => True) nextKind nextKind where
  grows _ _ hstate := .of_nextKind ⟨trivial, hstate⟩
  moving := .of_nextKind
  follows {here there after result} hbeside hrun _ hclears := by
    cases hrun
    exact ⟨there, by rw [← hbeside.next hclears]; rfl, hbeside⟩

theorem of_counts : Local tail tail' (fun _ => True) counts counts where
  grows _ _ hstate := .get_bind (.get_bind (.of_pure ⟨trivial, hstate⟩))
  moving := fun state _ => .get_bind (.get_bind (.of_pure (.refl state)))
  follows {here there after result} hbeside hrun _ _ := by
    cases hrun
    exact ⟨there, by rw [← hbeside.consumed, ← hbeside.openBlocks]; rfl, hbeside⟩

theorem of_advance : Local tail tail' (fun _ => True) advance advance where
  grows := .advance
  moving := .of_advance
  follows {here there after result} hbeside hrun hgoes hclears := by
    have hadvance : here.advance = (result, after) := Option.some.inj hrun
    cases result with
    | ok token =>
        obtain ⟨last, hlast, hbeside'⟩ := hbeside.advance hadvance hclears
        exact ⟨last, congrArg some hlast, hbeside'⟩
    | error error =>
        obtain ⟨_, hhere, -⟩ := hbeside.sees
        by_cases heof : here.current.kind = .eof
        · rw [State.advance_of_eof hhere.settled heof] at hadvance
          cases hadvance
        · rcases State.advance_cases heof with ⟨_, hadvance', -⟩ | ⟨failure, _, hadvance', -⟩
          · rw [hadvance'] at hadvance
            cases hadvance
          · rw [hadvance'] at hadvance
            cases hadvance
            exact absurd (hgoes _ rfl) (by simp [Error.ofFailure, Error.isFatal])

theorem of_note (event : State → Event) :
    Local tail tail' (fun _ => True) (note event) (note event) where
  grows _ _ hstate := .of_modify ⟨trivial, hstate⟩
  moving := .of_note event
  follows {here there after result} hbeside hrun _ _ := by
    cases hrun
    exact ⟨there.note (event there), rfl, hbeside.notes _ _⟩

theorem of_nested (h : Local tail tail' good parser parser') :
    Local tail tail' good (nested parser) (nested parser') where
  grows := h.grows.nested
  moving := h.moving.nested
  follows {here there after result} hbeside hrun hgoes hclears := by
    by_cases hdeep : here.config.maxDepth ≤ here.nesting
    · rw [run_nested_of_deep _ hdeep] at hrun
      cases hrun
      rw [← hbeside.config, ← hbeside.nesting] at hdeep
      exact ⟨there, by rw [run_nested_of_deep _ hdeep, hbeside.config, hbeside.current hclears],
        hbeside⟩
    · obtain ⟨inner, hinner, rfl⟩ := run_nested_eq_some hdeep hrun
      obtain ⟨last, hlast, hbeside'⟩ :=
        h.follows (hbeside.renest (here.nesting + 1)) hinner hgoes hclears
      rw [← hbeside.nesting] at hlast
      rw [← hbeside.config, ← hbeside.nesting] at hdeep
      refine ⟨_, run_nested hdeep hlast, ?_⟩
      rw [hbeside'.nesting]
      exact hbeside'.renest _

theorem of_surface (error : Error) :
    Local tail tail' (fun _ => True) (Parser.surface error) (Parser.surface error) where
  grows := .surface error
  moving := by
    apply Moving.bind .of_get
    intro state
    split
    · exact .of_throw error
    · exact record_moving error
  follows {here there after result} hbeside hrun _ hclears := by
    cases hstop : error.isFatal || !here.config.recover with
    | true =>
        rw [surface_of_stop hstop] at hrun
        cases hrun
        rw [← hbeside.config] at hstop
        exact ⟨there, surface_of_stop hstop, hbeside⟩
    | false =>
        rw [surface_of_record hstop, run_record] at hrun
        cases hrun
        rw [← hbeside.config] at hstop
        have hcurrent : there.current = here.current := hbeside.current hclears
        refine ⟨there.keep error, ?_, hbeside.keep error⟩
        rw [surface_of_record hstop, run_record, hbeside.config, hbeside.errors, hcurrent]

theorem of_recovering {next next' : α → Parser β} {elsewhere elsewhere' : Parser β}
    (h : Local tail tail' good parser parser')
    (hnext : ∀ value, good value → Local tail tail' good' (next value) (next' value))
    (helsewhere : Local tail tail' good' elsewhere elsewhere') :
    Local tail tail' good' (recovering parser next elsewhere)
      (recovering parser' next' elsewhere') where
  grows := h.grows.recovering (fun value hvalue => (hnext value hvalue).grows) helsewhere.grows
  moving := by
    intro state hsettled
    have hfirst := (h.grows [] state List.nil_prefix).and (h.moving state hsettled)
    apply Ensures.bind hfirst.attempt
    intro first middle hmiddle
    cases first with
    | ok value => exact (hnext value hmiddle.1.1).moving.later hsettled hmiddle.2
    | error error =>
        rcases hmiddle.2 with hfatal | hmoves
        · have hstop : (error.isFatal || !middle.config.recover) = true := by rw [hfatal]; rfl
          intro result last hrun
          have hsame := run_surface_bind_of_stop (fun _ => elsewhere) hstop
          rw [hsame] at hrun
          cases hrun
          exact .inl hfatal
        · exact ((of_surface error).bind fun _ _ => helsewhere).moving.later hsettled hmoves
  follows {here there after result} hbeside hrun hgoes hclears := by
    obtain ⟨_, hhere, -⟩ := hbeside.sees
    obtain ⟨first, middle, hfirst, hrest⟩ := run_attempt_bind_eq_some hrun
    cases first with
    | ok value =>
        have hvalue := hnext value (h.grows.good_of_run hfirst)
        have hmiddle := h.moving.of_run hhere.settled hfirst (.of_ok value)
        have hlast := hvalue.moving.of_run (hmiddle.settled hhere.settled) hrest hgoes
        obtain ⟨middle', hfirst', hbeside'⟩ :=
          h.follows hbeside hfirst (.of_ok value) (hlast.clears hclears)
        obtain ⟨last, hrest', hlast'⟩ := hvalue.follows hbeside' hrest hgoes hclears
        exact ⟨last, (run_bind_of_ok (run_attempt hfirst')).trans hrest', hlast'⟩
    | error error =>
        have hbehind := (of_surface error).bind fun _ _ => helsewhere
        have herror : GoesOn (.error error : Except Error α) := by
          rintro _ ⟨⟩
          exact hgoes.of_surface hrest
        have hmiddle := h.moving.of_run hhere.settled hfirst herror
        have hlast := hbehind.moving.of_run (hmiddle.settled hhere.settled) hrest hgoes
        obtain ⟨middle', hfirst', hbeside'⟩ :=
          h.follows hbeside hfirst herror (hlast.clears hclears)
        obtain ⟨last, hrest', hlast'⟩ := hbehind.follows hbeside' hrest hgoes hclears
        exact ⟨last, (run_bind_of_ok (run_attempt hfirst')).trans hrest', hlast'⟩

theorem compositional (tail tail' : List Token) :
    Compositional (fun _ => True) (Local tail tail') where
  exhausted good := .of_exhausted good _
  cut _ := .of_exhausted _ _
  value := .of_value
  throw good error _ := .of_throw good error
  bind := .bind
  currentToken := .of_currentToken
  nextKind := .of_nextKind
  counts := .of_counts
  advance := .of_advance
  note event _ _ := .of_note event
  nested := .of_nested
  surface error _ := .of_surface error
  recovering := .of_recovering

theorem of_statement (tail tail' : List Token) (fuel : Nat) :
    Local tail tail' (Stmt.DrawnFrom fun _ => True) (statement fuel) (statement fuel) :=
  (statementsRelated (compositional tail tail').guarding (Nat.le_refl fuel)).statement

theorem of_recover (tail tail' : List Token) (fuel : Nat) (error : Error) (start openBlocks : Nat) :
    Local tail tail' (fun _ => True) (recover fuel error start openBlocks)
      (recover fuel error start openBlocks) := by
  rw [recover_eq]
  exact (of_surface error).bind fun _ _ =>
    resume_related (compositional tail tail') (Nat.le_refl fuel) start openBlocks

end Local

end Parser

/-! ## Dropped statements -/

namespace State

open Parse.Parser
open Relation (ReflTransGen)

variable {tail tail' : List Token} {here there after : State}

/-- A statement is broken, and the parser goes on behind it. -/
def Drops (before after : State) : Prop :=
  ∃ fuel fuel' error failed, (statement fuel).run before = some (.error error, failed) ∧
    (recover fuel' error before.consumed before.openBlocks).run failed = some (.ok ⟨⟩, after)

theorem Drops.moves (h : here.Drops after) (hsettled : here.Settled) : here.Moves after := by
  obtain ⟨fuel, fuel', error, failed, hrun, hrecover⟩ := h
  exact ((recover_later hsettled ((statementsMoving fuel).statement here hsettled _ _ hrun)).ok
    hrecover).1

theorem Drops.beside (h : here.Drops after) (hbeside : here.Beside tail tail' there)
    (hclears : after.Clears tail) : ∃ last, there.Drops last ∧ after.Beside tail tail' last := by
  obtain ⟨fuel, fuel', error, failed, hrun, hrecover⟩ := h
  obtain ⟨_, hhere, -⟩ := hbeside.sees
  have hrecovers := Local.of_recover tail tail' fuel' error here.consumed here.openBlocks
  have hgoes : GoesOn (.error error : Except Error Stmt) := by
    rintro _ ⟨⟩
    rw [recover_eq] at hrecover
    exact (GoesOn.of_ok ()).of_surface hrecover
  have hfailed := (statementsMoving fuel).statement.of_run hhere.settled hrun hgoes
  have hafter := hrecovers.moving.of_run (hfailed.settled hhere.settled) hrecover (.of_ok ())
  obtain ⟨failed', hrun', hbeside'⟩ :=
    (Local.of_statement tail tail' fuel).follows hbeside hrun hgoes (hafter.clears hclears)
  obtain ⟨last, hrecover', hlast⟩ := hrecovers.follows hbeside' hrecover (.of_ok ()) hclears
  rw [← hbeside.consumed, ← hbeside.openBlocks] at hrecover'
  exact ⟨last, ⟨fuel, fuel', error, failed', hrun', hrecover'⟩, hlast⟩

theorem drops_moves (h : ReflTransGen Drops here after) (hsettled : here.Settled) :
    here.Moves after := by
  induction h with
  | refl => exact .refl here
  | tail _ hdrops ih => exact ih.trans (hdrops.moves (ih.settled hsettled))

theorem drops_beside (h : ReflTransGen Drops here after) (hbeside : here.Beside tail tail' there)
    (hclears : after.Clears tail) :
    ∃ last, ReflTransGen Drops there last ∧ after.Beside tail tail' last := by
  obtain ⟨_, hhere, -⟩ := hbeside.sees
  induction h with
  | refl => exact ⟨there, .refl, hbeside⟩
  | tail hway hdrops ih =>
      have hmoves := hdrops.moves ((drops_moves hway hhere.settled).settled hhere.settled)
      obtain ⟨middle, hway', hmiddle⟩ := ih (hmoves.clears hclears)
      obtain ⟨last, hdrops', hlast⟩ := hdrops.beside hmiddle hclears
      exact ⟨last, hway'.tail hdrops', hlast⟩

end State

end Offside.Parse
