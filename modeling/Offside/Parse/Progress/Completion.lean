import Offside.Parse.State

/-!
# Grammar functions do not run out of fuel

Every grammar function only moves forward: tokens are consumed and errors are recorded, and the fuel
that a state needs goes down by sixteen with every consumed token and by one with every recorded
error.  So a grammar function that gets the fuel which its state needs, and as much again as the
grammar functions that it may enter in front of one token, gives a value or an error.
-/

namespace Offside.Parse

namespace State

def WellFormed (state : State) : Prop := state.current.kind = .eof → state.next.kind = .eof

def need (state : State) : Nat := 16 * state.size + state.slack

structure Advances (before after : State) : Prop where
  consumed : before.consumed ≤ after.consumed
  need : after.need + 16 * after.consumed ≤ before.need + 16 * before.consumed
  current : after.consumed = before.consumed → before.current.kind ≠ .eof →
    after.current = before.current

theorem Advances.refl (state : State) : state.Advances state :=
  ⟨Nat.le_refl _, Nat.le_refl _, fun _ _ => rfl⟩

theorem Advances.trans {first second third : State} (h : first.Advances second)
    (h' : second.Advances third) : first.Advances third where
  consumed := Nat.le_trans h.consumed h'.consumed
  need := Nat.le_trans h'.need h.need
  current := by
    intro hconsumed hkind
    have hfirst := h.consumed
    have hsecond := h'.consumed
    have hcurrent := h.current (by omega) hkind
    rw [h'.current (by omega) (by rwa [hcurrent]), hcurrent]

theorem Advances.need_le {before after : State} (h : before.Advances after) :
    after.need ≤ before.need := by
  have := h.consumed
  have := h.need
  omega

theorem Advances.of_eq {before after : State} (hstream : after.stream = before.stream)
    (hcurrent : after.current = before.current) (hnext : after.next = before.next)
    (hconsumed : after.consumed = before.consumed) (herrors : after.errors = before.errors)
    (hconfig : after.config = before.config) : before.Advances after where
  consumed := Nat.le_of_eq hconsumed.symm
  need := Nat.le_of_eq (by
    simp only [State.need, size, slack, hstream, hcurrent, hnext, hconsumed, herrors, hconfig])
  current := fun _ _ => hcurrent

end State

/-! ## Completion -/

/-- A grammar function gives a value or an error on a well-formed state, and every value is a good
one for the state that comes with it. -/
def Completes {α : Type} (parser : Parser α) (state : State) (good : α → State → Prop) : Prop :=
  ∃ result after, parser.run state = some (result, after) ∧ after.WellFormed ∧
    state.Advances after ∧ ∀ value, result = .ok value → good value after

namespace Completes

variable {α β : Type} {state : State}

theorem of_pure (h : state.WellFormed) {value : α} {good : α → State → Prop}
    (hgood : good value state) : Completes (pure value) state good :=
  ⟨.ok value, state, rfl, h, .refl state, by rintro _ ⟨⟩; exact hgood⟩

theorem of_throw (h : state.WellFormed) {error : Error} {good : α → State → Prop} :
    Completes (throw error) state good :=
  ⟨.error error, state, rfl, h, .refl state, by rintro _ ⟨⟩⟩

theorem weaken {parser : Parser α} {good better : α → State → Prop}
    (h : Completes parser state better)
    (hgood : ∀ value after, after.WellFormed → state.Advances after → better value after →
      good value after) : Completes parser state good := by
  obtain ⟨result, after, hrun, hwell, hadvances, hbetter⟩ := h
  exact ⟨result, after, hrun, hwell, hadvances,
    fun value hvalue => hgood value after hwell hadvances (hbetter value hvalue)⟩

theorem bind {parser : Parser α} {next : α → Parser β} {good : α → State → Prop}
    {good' : β → State → Prop} (h : Completes parser state good)
    (hnext : ∀ value after, after.WellFormed → state.Advances after → good value after →
      Completes (next value) after good') : Completes (parser >>= next) state good' := by
  obtain ⟨result, after, hrun, hwell, hadvances, hgood⟩ := h
  cases result with
  | error error =>
    refine ⟨.error error, after, ?_, hwell, hadvances, by rintro _ ⟨⟩⟩
    show (ExceptT.run (parser >>= next)) state = _
    simp only [ExceptT.run_bind]
    show (ExceptT.run parser state >>= _) = _
    rw [hrun]
    rfl
  | ok value =>
    obtain ⟨result', after', hrun', hwell', hadvances', hgood'⟩ :=
      hnext value after hwell hadvances (hgood value rfl)
    refine ⟨result', after', ?_, hwell', hadvances.trans hadvances', hgood'⟩
    show (ExceptT.run (parser >>= next)) state = _
    simp only [ExceptT.run_bind]
    show (ExceptT.run parser state >>= _) = _
    rw [hrun]
    exact hrun'

theorem of_get (h : state.WellFormed) :
    Completes get state fun value after => state = value ∧ state = after :=
  ⟨.ok state, state, rfl, h, .refl state, by rintro _ ⟨⟩; exact ⟨rfl, rfl⟩⟩

theorem of_modify (change : State → State) (h : (change state).WellFormed)
    (hadvances : state.Advances (change state)) :
    Completes (modify change) state fun _ after => change state = after :=
  ⟨.ok ⟨⟩, change state, rfl, h, hadvances, fun _ _ => rfl⟩

theorem of_set (after : State) (hwell : after.WellFormed)
    (hadvances : state.Advances after) :
    Completes (set after) state fun _ last => after = last :=
  ⟨.ok ⟨⟩, after, rfl, hwell, hadvances, fun _ _ => rfl⟩

end Completes

/-! ## Tokens -/

namespace State

variable {state : State}

theorem advance_of_pull {following : Token} {after : State}
    (hpull : state.pull = (.ok following, after)) (hcurrent : state.current.kind ≠ .eof) :
    ∃ moved, state.advance = (.ok state.current, moved) ∧ moved.current = after.next ∧
      moved.next = following ∧ moved.stream = after.stream ∧
      moved.consumed = after.consumed + 1 ∧ moved.errors = after.errors ∧
      moved.config = after.config := by
  unfold advance
  rw [hpull]
  simp only
  split
  · contradiction
  all_goals exact ⟨_, rfl, rfl, rfl, rfl, rfl, rfl, rfl⟩

theorem pull_of_eof (hnext : state.next.kind = .eof) : state.pull = (.ok state.next, state) := by
  simp [pull, hnext]

theorem pull_of_nil (hnext : state.next.kind ≠ .eof) (hitems : state.stream.items = []) :
    state.pull = (.error (.pastEndOfInput state.stream.pastEnd), state.note .pulled) := by
  simp [pull, hnext, Scan.TokenStream.next, hitems]

theorem pull_of_items {item : Except LexFailure Token} {rest : List (Except LexFailure Token)}
    (hnext : state.next.kind ≠ .eof) (hitems : state.stream.items = item :: rest) :
    state.pull =
      (item, { state with stream := { state.stream with items := rest } }.note .pulled) := by
  simp [pull, hnext, Scan.TokenStream.next, hitems]

theorem advance_of_failure {failure : LexFailure} {after : State}
    (hpull : state.pull = (.error failure, after)) :
    state.advance = (.error (.ofFailure failure), after) := by
  simp [advance, hpull]

theorem advance_spec (h : state.WellFormed) :
    state.advance.2.WellFormed ∧ state.Advances state.advance.2 ∧
      ∀ token, state.advance.1 = .ok token →
        state.current = token ∧
          (state.current.kind ≠ .eof → state.advance.2.consumed = state.consumed + 1) := by
  by_cases hcurrent : state.current.kind = .eof
  · have hnext := h hcurrent
    have hadvance : state.advance = (.ok state.current, { state with current := state.next }) := by
      simp [advance, pull, hnext, hcurrent]
    rw [hadvance]
    refine ⟨fun _ => hnext, ⟨Nat.le_refl _, ?_, fun _ hkind => absurd hcurrent hkind⟩, ?_⟩
    · simp [need, size, slack, hnext]
    · rintro token ⟨⟩
      exact ⟨rfl, fun hkind => absurd hcurrent hkind⟩
  · by_cases hnext : state.next.kind = .eof
    · obtain ⟨moved, hadvance, hmoved⟩ := advance_of_pull (pull_of_eof hnext) hcurrent
      rw [hadvance]
      refine ⟨fun _ => by simp [hmoved, hnext], ⟨by simp [hmoved], ?_, ?_⟩, ?_⟩
      · simp [need, size, slack, hmoved, hnext, hcurrent]
        omega
      · intro hconsumed
        simp [hmoved] at hconsumed
      · rintro token ⟨⟩
        exact ⟨rfl, fun _ => hmoved.2.2.2.1⟩
    · cases hitems : state.stream.items with
      | nil =>
        rw [advance_of_failure (pull_of_nil hnext hitems)]
        exact ⟨h, .of_eq rfl rfl rfl rfl rfl rfl, by rintro token ⟨⟩⟩
      | cons item rest =>
        have hpull := pull_of_items hnext hitems
        cases item with
        | error failure =>
          rw [advance_of_failure hpull]
          refine ⟨h, ⟨Nat.le_refl _, ?_, fun _ _ => rfl⟩, by rintro token ⟨⟩⟩
          simp only [need, size, slack, note, hitems, hnext, hcurrent, if_false, List.length_cons]
          omega
        | ok following =>
          obtain ⟨moved, hadvance, hmoved⟩ := advance_of_pull hpull hcurrent
          simp only [note] at hmoved
          rw [hadvance]
          refine ⟨fun hkind => absurd (by simpa [hmoved] using hkind) hnext,
            ⟨by simp [hmoved], ?_, ?_⟩, ?_⟩
          · simp only [need, size, slack, hmoved, hnext, hcurrent, hitems, if_false,
              List.length_cons]
            split <;> omega
          · intro hconsumed
            simp [hmoved] at hconsumed
          · rintro token ⟨⟩
            exact ⟨rfl, fun _ => hmoved.2.2.2.1⟩

end State

namespace Parser

variable {state : State}

theorem advance_completes (h : state.WellFormed) :
    Completes advance state fun token after =>
      state.current = token ∧
        (state.current.kind ≠ .eof → after.consumed = state.consumed + 1) := by
  obtain ⟨hwell, hadvances, hgood⟩ := State.advance_spec h
  exact ⟨state.advance.1, state.advance.2, rfl, hwell, hadvances, hgood⟩

/-- Every token but the last one that is consumed leaves less to be done. -/
theorem advance_completes_of_ne (h : state.WellFormed) (hkind : state.current.kind ≠ .eof) :
    Completes advance state fun _ after =>
      after.consumed = state.consumed + 1 ∧ after.need + 16 ≤ state.need := by
  refine (advance_completes h).weaken ?_
  rintro _ after - hadvances ⟨-, hconsumed⟩
  have hmoved := hconsumed hkind
  have := hadvances.need
  exact ⟨hmoved, by omega⟩

theorem currentToken_completes (h : state.WellFormed) :
    Completes currentToken state fun token after => state.current = token ∧ state = after :=
  ⟨.ok state.current, state, rfl, h, .refl state, by rintro _ ⟨⟩; exact ⟨rfl, rfl⟩⟩

theorem currentKind_completes (h : state.WellFormed) :
    Completes currentKind state fun kind after => state.current.kind = kind ∧ state = after :=
  ⟨.ok state.current.kind, state, rfl, h, .refl state, by rintro _ ⟨⟩; exact ⟨rfl, rfl⟩⟩

theorem nextKind_completes (h : state.WellFormed) :
    Completes nextKind state fun kind after => state.next.kind = kind ∧ state = after :=
  ⟨.ok state.next.kind, state, rfl, h, .refl state, by rintro _ ⟨⟩; exact ⟨rfl, rfl⟩⟩

theorem expectOneOf_completes (h : state.WellFormed) {kinds : List TokenKind}
    (hkinds : TokenKind.eof ∉ kinds) :
    Completes (expectOneOf kinds) state fun token after =>
      state.current = token ∧ after.consumed = state.consumed + 1 := by
  refine (currentToken_completes h).bind ?_
  rintro token after hwell - ⟨rfl, rfl⟩
  split
  · rename_i hmem
    refine (advance_completes h).weaken ?_
    rintro token after - - ⟨rfl, hconsumed⟩
    refine ⟨rfl, hconsumed fun hkind => hkinds ?_⟩
    rw [hkind] at hmem
    simpa using hmem
  · exact .of_throw h

theorem expect_completes (h : state.WellFormed) {kind : TokenKind} (hkind : kind ≠ .eof) :
    Completes (expect kind) state fun token after =>
      state.current = token ∧ after.consumed = state.consumed + 1 :=
  expectOneOf_completes h (by simpa using hkind.symm)

theorem attempt_completes {α : Type} {parser : Parser α} {good : α → State → Prop}
    (h : Completes parser state good) :
    Completes (attempt parser) state fun result after =>
      ∀ value, result = .ok value → good value after := by
  obtain ⟨result, after, hrun, hwell, hadvances, hgood⟩ := h
  refine ⟨.ok result, after, ?_, hwell, hadvances, by rintro _ ⟨⟩; exact hgood⟩
  show ((ExceptT.run parser) state).map _ = _
  rw [hrun]
  rfl

theorem nested_completes {α : Type} (h : state.WellFormed) {parser : Parser α}
    (good : α → State → Prop)
    (hparser : ∀ before : State, before.WellFormed → state.Advances before →
      Completes parser before fun value after =>
        ∀ nesting, good value { after with nesting }) :
    Completes (nested parser) state good := by
  refine (Completes.of_get h).bind ?_
  rintro _ _ - - ⟨rfl, rfl⟩
  split
  · exact .of_throw h
  · have hadvances : state.Advances { state with nesting := state.nesting + 1 } :=
      .of_eq rfl rfl rfl rfl rfl rfl
    have hdeeper := hparser { state with nesting := state.nesting + 1 } h hadvances
    refine (Completes.of_set { state with nesting := state.nesting + 1 } h hadvances).bind ?_
    rintro _ _ - - rfl
    refine (attempt_completes hdeeper).bind ?_
    rintro result after hwell - hgood
    refine (Completes.of_modify _ hwell (.of_eq rfl rfl rfl rfl rfl rfl)).bind ?_
    rintro _ _ - - rfl
    have hback : State.WellFormed { after with nesting := after.nesting - 1 } := hwell
    split
    · exact .of_pure hback (hgood _ rfl _)
    · exact .of_throw hback

/-! ## Recovery -/

theorem need_keep (state : State) (error : Error) :
    (state.keep error).need + (if state.errors.length ≤ state.config.maxErrors then 1 else 0) ≤
      state.need := by
  have hsize : (state.keep error).size = state.size := rfl
  have hslack : (state.keep error).slack = state.config.maxErrors - state.errors.length := by
    simp only [State.slack, State.keep, State.note, List.length_append, List.length_singleton]
    omega
  rw [State.need, State.need, hsize, hslack, State.slack]
  split <;> omega

/-- Recording an error that is not one too many leaves room for one error less. -/
theorem record_completes (h : state.WellFormed) {error : Error} :
    Completes (record error) state fun _ after =>
      after.need + 1 ≤ state.need ∧ after.consumed = state.consumed ∧
        after.current = state.current := by
  have hneed := need_keep state error
  refine (Completes.of_modify (fun state => state.keep error) h
    ⟨Nat.le_refl _, Nat.add_le_add_right (Nat.le_trans (Nat.le_add_right _ _) hneed) _,
      fun _ _ => rfl⟩).bind ?_
  rintro _ _ hwell - rfl
  refine (Completes.of_get hwell).bind ?_
  rintro _ _ - - ⟨rfl, rfl⟩
  split
  · exact .of_throw hwell
  · rename_i hroom
    have hlength : (state.keep error).errors.length = state.errors.length + 1 := by
      simp [State.keep, State.note]
    have hroom : state.errors.length ≤ state.config.maxErrors := by
      rw [hlength] at hroom
      exact Nat.le_of_lt (Nat.lt_of_lt_of_le (Nat.lt_succ_self _) (Nat.not_lt.1 hroom))
    rw [if_pos hroom] at hneed
    exact .of_pure hwell ⟨hneed, rfl, rfl⟩

/-- Skipping to a boundary ends, and leaves the place where it starts unless that is the end of a
block. -/
theorem skipToBoundary_completes (fuel : Nat) :
    ∀ (state : State) (progressed : Bool) (depth : Nat), state.WellFormed →
      state.need + 1 ≤ fuel →
      Completes (skipToBoundary fuel progressed depth) state fun _ after =>
        progressed = false → state.current.kind ≠ .eof → state.current.kind ≠ .dedent →
          state.consumed < after.consumed := by
  induction fuel with
  | zero => intro state _ _ _ hfuel; omega
  | succ fuel ih =>
    intro state progressed depth h hfuel
    unfold skipToBoundary
    refine (currentKind_completes h).bind ?_
    rintro _ _ - - ⟨rfl, rfl⟩
    have hstep : ∀ (progressed : Bool) (depth : Nat) (after : State), state.current.kind ≠ .eof →
        after.WellFormed → state.Advances after → after.consumed = state.consumed + 1 →
        Completes (skipToBoundary fuel progressed depth) after fun _ last =>
          state.consumed < last.consumed := by
      intro progressed depth after hkind hwell hadvances hconsumed
      have hneed := hadvances.need
      refine (ih after progressed depth hwell (by omega)).weaken ?_
      intro _ last _ hlast _
      have := hlast.consumed
      omega
    split
    · rename_i hkind
      exact .of_pure h fun _ heof => absurd hkind heof
    · rename_i hkind
      split
      · exact .of_pure h fun _ _ hdedent => absurd hkind hdedent
      · refine (advance_completes h).bind ?_
        rintro _ after hwell hadvances ⟨-, hconsumed⟩
        have hconsumed := hconsumed (by simp [hkind])
        split
        · exact .of_pure hwell fun _ _ _ => by omega
        · exact (hstep _ _ _ (by simp [hkind]) hwell hadvances hconsumed).weaken
            fun _ _ _ _ hlast _ _ _ => hlast
    · rename_i hkind
      refine (advance_completes h).bind ?_
      rintro _ after hwell hadvances ⟨-, hconsumed⟩
      exact (hstep _ _ _ (by simp [hkind]) hwell hadvances (hconsumed (by simp [hkind]))).weaken
        fun _ _ _ _ hlast _ _ _ => hlast
    · rename_i hkind
      refine (advance_completes h).bind ?_
      rintro _ after hwell hadvances ⟨-, hconsumed⟩
      have hconsumed := hconsumed (by simp [hkind])
      have hskip := hstep true depth after (by simp [hkind]) hwell hadvances hconsumed
      split
      · refine (currentKind_completes hwell).bind ?_
        rintro _ _ - - ⟨rfl, rfl⟩
        split
        · exact hskip.weaken fun _ _ _ _ hlast _ _ _ => hlast
        · exact .of_pure hwell fun _ _ _ => by omega
      · exact hskip.weaken fun _ _ _ _ hlast _ _ _ => hlast
    · rename_i heof _ _ _
      split
      · rename_i hstop
        exact .of_pure h fun hprogressed => by simp [hprogressed] at hstop
      · refine (advance_completes h).bind ?_
        rintro _ after hwell hadvances ⟨-, hconsumed⟩
        exact (hstep _ _ _ heof hwell hadvances (hconsumed heof)).weaken
          fun _ _ _ _ hlast _ _ _ => hlast

/-- Going on behind a statement consumes tokens if the statement itself has not. -/
theorem recover_completes {fuel : Nat} {error : Error} {start openBlocks : Nat}
    (h : state.WellFormed) (hfuel : state.need + 1 ≤ fuel) (hstart : start ≤ state.consumed)
    (hkind : start = state.consumed →
      state.current.kind ≠ .eof ∧ state.current.kind ≠ .dedent) :
    Completes (recover fuel error start openBlocks) state fun _ after =>
      start < after.consumed := by
  refine (Completes.of_get h).bind ?_
  rintro _ _ - - ⟨rfl, rfl⟩
  split
  · exact .of_throw h
  · refine (record_completes h).bind ?_
    rintro _ recorded hwell - ⟨hneed, hconsumed, hcurrent⟩
    refine (Completes.of_get hwell).bind ?_
    rintro _ _ - - ⟨rfl, rfl⟩
    refine (Completes.of_get hwell).bind ?_
    rintro _ _ - - ⟨rfl, rfl⟩
    refine (skipToBoundary_completes fuel recorded _ _ hwell (by omega)).bind ?_
    rintro _ after hafter hskipped hprogress
    refine (Completes.of_modify _ hafter (.of_eq rfl rfl rfl rfl rfl rfl)).weaken ?_
    rintro _ _ - - rfl
    have := hskipped.consumed
    by_cases hsame : start = state.consumed
    · have hkind := hkind hsame
      have := hprogress (by simp [hsame, hconsumed]) (by simp [hcurrent, hkind.1])
        (by simp [hcurrent, hkind.2])
      show start < after.consumed
      omega
    · show start < after.consumed
      omega

end Parser

end Offside.Parse
