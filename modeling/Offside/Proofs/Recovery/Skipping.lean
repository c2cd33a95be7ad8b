import Offside.Proofs.Parsing.Forward

/-!
# Skipping the rest of a statement

What is skipped behind a broken statement stays inside of the block in which the statement stands and
ends at a boundary: the end of the text or of that block, a keyword that starts statements, or the
place behind a line break or behind the end of a block.
-/

namespace Offside

namespace Parse

open Parse.Parser

variable {state failed after : State} {fuel start depth : Nat} {error : Error}

/-! ## Blocks behind tokens -/

/-- How many blocks are open behind the tokens, if `depth` are open in front of them. -/
def depthBehind (depth : Nat) (tokens : List Token) : Nat :=
  tokens.foldl (fun depth token => token.kind.blocksBehind depth) depth

/-- None of the tokens closes the block that is `depth` blocks out. -/
def StaysInside : Nat → List Token → Prop
  | _, [] => True
  | depth, token :: rest =>
      (token.kind = .dedent → depth ≠ 0) ∧ StaysInside (token.kind.blocksBehind depth) rest

@[simp]
theorem depthBehind_cons (depth : Nat) (token : Token) (rest : List Token) :
    depthBehind depth (token :: rest) = depthBehind (token.kind.blocksBehind depth) rest := rfl

theorem depthBehind_append (depth : Nat) (front back : List Token) :
    depthBehind depth (front ++ back) = depthBehind (depthBehind depth front) back :=
  List.foldl_append

theorem StaysInside.append {front back : List Token} (hfront : StaysInside depth front)
    (hback : StaysInside (depthBehind depth front) back) : StaysInside depth (front ++ back) := by
  induction front generalizing depth with
  | nil => exact hback
  | cons token front ih => exact ⟨hfront.1, ih hfront.2 hback⟩

theorem StaysInside.blocksBehind_add {token : Token} {rest : List Token}
    (h : StaysInside depth (token :: rest)) (outer : Nat) :
    token.kind.blocksBehind (outer + depth) = outer + token.kind.blocksBehind depth := by
  have hinner := h.1
  unfold TokenKind.blocksBehind
  split
  · omega
  · rename_i hkind
    have := hinner hkind
    omega
  · rfl

/-- Tokens that stay inside of a block change the number of open blocks in the same way however many
blocks there are around it. -/
theorem StaysInside.depthBehind_add {tokens : List Token} (h : StaysInside depth tokens)
    (outer : Nat) : depthBehind (outer + depth) tokens = outer + depthBehind depth tokens := by
  induction tokens generalizing depth with
  | nil => rfl
  | cons token tokens ih =>
      rw [depthBehind_cons, depthBehind_cons, h.blocksBehind_add outer]
      exact ih h.2

theorem StaysInside.outward {tokens : List Token} (h : StaysInside depth tokens) (outer : Nat) :
    StaysInside (outer + depth) tokens := by
  induction tokens generalizing depth with
  | nil => trivial
  | cons token tokens ih =>
      refine ⟨fun hkind hdepth => h.1 hkind (by omega), ?_⟩
      rw [h.blocksBehind_add outer]
      exact ih h.2

theorem tokens_eq_of_append {tokens tokens' : List Token} {rest rest' : List Item}
    (h : tokens.map .ok ++ rest = tokens'.map .ok ++ rest')
    (hlength : tokens.length = tokens'.length) : tokens = tokens' := by
  have hsame := (List.append_inj h (by simp [hlength])).1
  exact (List.map_inj_right fun _ _ => Except.ok.inj).1 hsame

namespace State

/-- The tokens that a parser has consumed on its way to a later state. -/
structure Takes (before after : State) (tokens : List Token) : Prop where
  ahead : before.ahead = tokens.map .ok ++ after.ahead
  consumed : after.consumed = before.consumed + tokens.length
  openBlocks : after.openBlocks = depthBehind before.openBlocks tokens

theorem Moves.takes (h : state.Moves after) : ∃ tokens, state.Takes after tokens := by
  induction h with
  | refl => exact ⟨[], rfl, rfl, rfl⟩
  | @tail middle _ _ hstep ih =>
      obtain ⟨tokens, htakes⟩ := ih
      cases hstep with
      | consume hconsumes =>
          refine ⟨tokens ++ [middle.current], ?_, ?_, ?_⟩
          · rw [htakes.ahead, hconsumes.ahead]
            simp
          · rw [hconsumes.consumed, htakes.consumed, List.length_append, List.length_singleton]
            omega
          · rw [hconsumes.openBlocks, htakes.openBlocks, depthBehind_append]
            rfl
      | keep error => exact ⟨tokens, htakes.ahead, htakes.consumed, htakes.openBlocks⟩
      | note event => exact ⟨tokens, htakes.ahead, htakes.consumed, htakes.openBlocks⟩
      | renest nesting => exact ⟨tokens, htakes.ahead, htakes.consumed, htakes.openBlocks⟩

theorem Takes.unique {tokens tokens' : List Token} (h : state.Takes after tokens)
    (h' : state.Takes after tokens') : tokens = tokens' := by
  have hahead := h.ahead
  rw [h'.ahead] at hahead
  have hlength := h.consumed
  rw [h'.consumed, Nat.add_left_cancel_iff] at hlength
  exact (tokens_eq_of_append hahead hlength).symm

theorem Takes.trans {first second third : State} {front back : List Token}
    (h : first.Takes second front) (h' : second.Takes third back) :
    first.Takes third (front ++ back) where
  ahead := by rw [h.ahead, h'.ahead, List.map_append, List.append_assoc]
  consumed := by rw [h'.consumed, h.consumed, List.length_append, Nat.add_assoc]
  openBlocks := by rw [h'.openBlocks, h.openBlocks, depthBehind_append]

/-- How deep inside of its block a statement has got, by the tokens that it has consumed. -/
theorem Takes.depth_eq {spent : List Token} (h : state.Takes failed spent)
    (hinside : StaysInside 0 spent) :
    failed.openBlocks - state.openBlocks = depthBehind 0 spent := by
  have hadd := hinside.depthBehind_add state.openBlocks
  rw [h.openBlocks, ← Nat.add_zero state.openBlocks, hadd]
  omega

end State

/-! ## Skipping -/

/-- What skipping from one state to another passes over, and what is ahead behind that. -/
structure Skips (depth : Nat) (before after : State) (skipped : List Token) (rest : List Item) :
    Prop where
  ahead : before.ahead = skipped.map .ok ++ rest
  consumed : after.consumed = before.consumed + skipped.length
  inside : StaysInside depth skipped

theorem Skips.takes {before : State} {skipped : List Token} {rest : List Item}
    (h : Skips depth before after skipped rest) (hmoves : before.Moves after) :
    before.Takes after skipped := by
  obtain ⟨tokens, htakes⟩ := hmoves.takes
  have hahead := h.ahead
  rw [htakes.ahead] at hahead
  have hlength := h.consumed
  rw [htakes.consumed, Nat.add_left_cancel_iff] at hlength
  rwa [tokens_eq_of_append hahead hlength] at htakes

/-- A place at which skipping ends: the end of the text or, outside of the blocks that are inside of
the one `depth` blocks out, the end of that block, a keyword that starts statements, or the place
behind a line break or behind the end of a block.  A keyword does not count before anything is
consumed. -/
def AtBoundary (depth : Nat) (progressed : Bool) (skipped : List Token) (after : State) : Prop :=
  after.current.kind = .eof ∨
    depthBehind depth skipped = 0 ∧
      (after.current.kind = .dedent ∨
        after.current.kind.startsStatement = true ∧ (progressed = true ∨ skipped ≠ []) ∨
        ∃ last ∈ skipped.getLast?, last.kind = .newline ∨ last.kind = .dedent)

structure Skipping (depth : Nat) (progressed : Bool) (before : State) (skipped : List Token)
    (depth' : Nat) (progressed' : Bool) (after : State) : Prop where
  skips : Skips depth before after skipped after.ahead
  depth : depth' = depthBehind depth skipped
  progressed : progressed' = true → progressed = true ∨ skipped ≠ []

theorem Skipping.consume {progressed progressed' : Bool} {before middle : State} {depth' : Nat}
    {skipped : List Token} (h : Skipping depth progressed before skipped depth' progressed' state)
    (hinner : state.current.kind = .dedent → depth' ≠ 0) (hconsumes : state.Consumes middle) :
    Skipping depth progressed before (skipped ++ [state.current])
      (state.current.kind.blocksBehind depth') true middle where
  skips := by
    refine ⟨?_, ?_, h.skips.inside.append ⟨?_, trivial⟩⟩
    · rw [h.skips.ahead, hconsumes.ahead]
      simp
    · rw [hconsumes.consumed, h.skips.consumed, List.length_append, List.length_singleton]
      omega
    · rw [← h.depth]
      exact hinner
  depth := by
    rw [depthBehind_append, ← h.depth]
    rfl
  progressed _ := .inr (by simp)

theorem pull_consumed (state : State) : state.pull.2.consumed = state.consumed := by
  unfold State.pull
  split <;> rfl

theorem advance_consumes (heof : state.current.kind ≠ .eof) :
    Ensures Parser.advance state (fun _ middle => state.Consumes middle)
      fun _ after => after.consumed = state.consumed := by
  rcases State.advance_cases heof with ⟨middle, hadvance, hconsumes⟩ | ⟨failure, after, hadvance, -⟩
  · exact .of_advance hadvance hconsumes
  · apply Ensures.of_advance hadvance
    show after.consumed = state.consumed
    cases hpull : state.pull with
    | mk result pulled =>
        have hpulled := pull_consumed state
        rw [hpull] at hpulled
        cases result with
        | ok following =>
            rw [State.advance_eq_of_pull hpull] at hadvance
            cases hadvance
        | error failure =>
            rw [State.advance_of_failure hpull] at hadvance
            obtain rfl : pulled = after := congrArg Prod.snd hadvance
            exact hpulled

def Lands (depth : Nat) (progressed : Bool) (before after : State) : Prop :=
  ∃ skipped, Skips depth before after skipped after.ahead ∧
    AtBoundary depth progressed skipped after

def Strays (depth : Nat) (before after : State) : Prop :=
  ∃ skipped rest, Skips depth before after skipped rest

theorem Skipping.advance {progressed progressed' : Bool} {before : State} {depth' : Nat}
    {skipped : List Token} (h : Skipping depth progressed before skipped depth' progressed' state)
    (heof : state.current.kind ≠ .eof) (hinner : state.current.kind = .dedent → depth' ≠ 0)
    {next : Token → Parser Unit}
    (hnext : ∀ token middle, Skipping depth progressed before (skipped ++ [state.current])
      (state.current.kind.blocksBehind depth') true middle →
      Ensures (next token) middle (fun _ after => Lands depth progressed before after)
        fun _ after => Strays depth before after) :
    Ensures (Parser.advance >>= next) state (fun _ after => Lands depth progressed before after)
      fun _ after => Strays depth before after := by
  apply Ensures.bind ((advance_consumes heof).weaken (fun _ _ hconsumes => hconsumes) ?_)
  · exact fun token middle hconsumes => hnext token middle (h.consume hinner hconsumes)
  · intro _ after hsame
    exact ⟨skipped, state.ahead, h.skips.ahead, by rw [hsame, h.skips.consumed], h.skips.inside⟩

theorem Skipping.skipToBoundary {progressed : Bool} {before : State} (fuel : Nat) :
    ∀ {state : State} {skipped : List Token} {depth' : Nat} {progressed' : Bool},
      Skipping depth progressed before skipped depth' progressed' state →
      Ensures (skipToBoundary fuel progressed' depth') state
        (fun _ after => Lands depth progressed before after)
        fun _ after => Strays depth before after := by
  induction fuel with
  | zero => exact fun _ => .of_exhausted
  | succ fuel ih =>
      intro state skipped depth' progressed' h
      apply Ensures.currentKind_bind
      split
      · rename_i hkind
        exact .of_pure ⟨skipped, h.skips, .inl hkind⟩
      · rename_i hkind
        split
        · rename_i hdepth
          exact .of_pure ⟨skipped, h.skips, .inr ⟨h.depth.symm.trans hdepth, .inl hkind⟩⟩
        · rename_i hdepth
          apply h.advance (by simp [hkind]) fun _ => hdepth
          intro _ middle hmiddle
          rw [hkind] at hmiddle
          split
          · rename_i hone
            have hclosed : depthBehind depth (skipped ++ [state.current]) = 0 := by
              rw [← hmiddle.depth, hone]
              rfl
            exact .of_pure ⟨_, hmiddle.skips, .inr ⟨hclosed, .inr (.inr ⟨state.current, by simp,
              .inr hkind⟩)⟩⟩
          · exact ih hmiddle
      · rename_i hkind
        apply h.advance (by simp [hkind]) (by simp [hkind])
        intro _ middle hmiddle
        rw [hkind] at hmiddle
        exact ih hmiddle
      · rename_i hkind
        apply h.advance (by simp [hkind]) (by simp [hkind])
        intro _ middle hmiddle
        rw [hkind] at hmiddle
        split
        · rename_i hdepth
          apply Ensures.currentKind_bind
          split
          · exact ih hmiddle
          · exact .of_pure ⟨_, hmiddle.skips, .inr ⟨hmiddle.depth.symm.trans hdepth,
              .inr (.inr ⟨state.current, by simp, .inl hkind⟩)⟩⟩
        · exact ih hmiddle
      · rename_i heof hdedent hindent _
        split
        · rename_i hstop
          simp only [Bool.and_eq_true, decide_eq_true_eq] at hstop
          obtain ⟨⟨hdepth, hprogressed⟩, hkeyword⟩ := hstop
          exact .of_pure ⟨skipped, h.skips, .inr ⟨h.depth.symm.trans hdepth,
            .inr (.inl ⟨hkeyword, h.progressed hprogressed⟩)⟩⟩
        · have hlevel : state.current.kind.blocksBehind depth' = depth' := by
            unfold TokenKind.blocksBehind
            split <;> first | contradiction | rfl
          apply h.advance heof fun hkind => absurd hkind hdedent
          intro _ middle hmiddle
          rw [hlevel] at hmiddle
          exact ih hmiddle

theorem State.current_eq_of_ahead (h : state.ahead = after.ahead) : state.current = after.current := by
  have hhead := state.head_ahead
  rw [h, after.head_ahead] at hhead
  simpa using hhead.symm

theorem Lands.consumed_le {progressed : Bool} (h : Lands depth progressed state after) :
    state.consumed ≤ after.consumed := by
  obtain ⟨skipped, hskips, -⟩ := h
  rw [hskips.consumed]
  exact Nat.le_add_right _ _

theorem Lands.progress (h : Lands depth false state after) (heof : state.current.kind ≠ .eof)
    (hdedent : state.current.kind ≠ .dedent) : state.consumed < after.consumed := by
  obtain ⟨skipped, hskips, hboundary⟩ := h
  rw [hskips.consumed]
  cases skipped with
  | cons token skipped => simp
  | nil =>
      have hahead : state.ahead = after.ahead := hskips.ahead
      have hcurrent := State.current_eq_of_ahead hahead
      rw [AtBoundary, ← hcurrent] at hboundary
      simp [heof, hdedent] at hboundary

/-- Going on behind a statement that began at `start` skips tokens as deep inside of the block of the
statement as the statement has left off. -/
theorem recover_skips {openBlocks : Nat} :
    Ensures (recover fuel error start openBlocks) failed
      (fun _ after => error.isFatal = false ∧
        Lands (failed.openBlocks - openBlocks) (failed.consumed != start) failed after)
      fun _ after => Strays (failed.openBlocks - openBlocks) failed after := by
  apply Ensures.get_bind
  split
  · exact .of_throw ⟨[], failed.ahead, rfl, rfl, trivial⟩
  · rename_i hgoes
    have herror : error.isFatal = false := by
      simp only [Bool.or_eq_true, not_or, Bool.not_eq_true] at hgoes
      exact hgoes.1
    apply record_bind fun _ _ _ => ⟨[], failed.ahead, rfl, rfl, trivial⟩
    apply Ensures.get_bind
    apply Ensures.get_bind
    have hstart : Skipping (failed.openBlocks - openBlocks) (failed.consumed != start) failed []
        (failed.openBlocks - openBlocks) (failed.consumed != start) (failed.keep error) :=
      ⟨⟨rfl, rfl, trivial⟩, rfl, .inl⟩
    apply Ensures.bind (hstart.skipToBoundary fuel)
    rintro _ after ⟨skipped, hskips, hboundary⟩
    exact .of_modify
      ⟨herror, skipped, ⟨hskips.ahead, hskips.consumed, hskips.inside⟩, hboundary⟩

end Parse

end Offside
