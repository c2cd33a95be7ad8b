import Offside.Proofs.Parsing.Locality
import Offside.Proofs.Parsing.Run
import Offside.Proofs.Recovery.Fence

/-!
# Lines that announce a block

A function, a condition, a loop and a record start with a heading, a marker and a line break, and a
block has to follow.  Where none does, the statement is noticed to be broken behind the line break.
-/

namespace Offside.Parse

/-- What stands in front of the marker of a line that announces a block. -/
inductive Heading where
  | function (header : Header)
  | conditional (condition : Expr)
  | loop (condition : Expr)
  | record (name : Identifier)

def Heading.markers : Heading → List TokenKind
  | function _ => [.assign, .colon]
  | _ => [.colon]

theorem Heading.isStructural_of_mem {heading : Heading} {kind : TokenKind}
    (h : kind ∈ heading.markers) : kind.isStructural = false := by
  have hkind : kind = .assign ∨ kind = .colon := by
    cases heading <;> simp_all [markers]
  rcases hkind with rfl | rfl <;> rfl

namespace Parser

def heading (fuel : Nat) : Parser Heading := do
  let token ← currentToken
  match token.kind with
  | .funcKeyword => return .function (← header fuel)
  | .ifKeyword =>
      let _ ← expect .ifKeyword
      return .conditional (← expression fuel)
  | .whileKeyword =>
      let _ ← expect .whileKeyword
      return .loop (← expression fuel)
  | .structKeyword =>
      let _ ← expect .structKeyword
      return .record (← identifier)
  | _ => throw (.unexpected [.funcKeyword, .ifKeyword, .whileKeyword, .structKeyword] token)

def announce (heading : Heading) : Parser Unit := do
  let _ ← expectOneOf heading.markers
  let _ ← expect .newline

def body (fuel : Nat) : Heading → Parser Stmt
  | .function header => do return .function header (← block fuel)
  | .conditional condition => do
      let body ← block fuel
      match ← currentKind with
      | .elifKeyword =>
          let _ ← advance
          let (inner, innerBody, alternative) ← branch fuel
          return .conditional condition body (.conditional inner innerBody alternative)
      | .elseKeyword =>
          let _ ← advance
          let _ ← expect .colon
          let _ ← expect .newline
          return .conditional condition body (.block (← block fuel))
      | _ => return .conditional condition body (.block [])
  | .loop condition => do return .loop condition (← block fuel)
  | .record name => do
      let _ ← expect .indent
      let fields ← fields fuel
      let _ ← expect .dedent
      return .record name fields

def startsHeading (kind : TokenKind) : Bool :=
  kind = .funcKeyword || kind = .ifKeyword || kind = .whileKeyword || kind = .structKeyword

variable {state : State} {fuel : Nat}

theorem function_eq (fuel : Nat) :
    function (fuel + 1) = (do
      let header ← header fuel
      announce (.function header)
      body fuel (.function header)) := by
  simp [function, announce, body, Heading.markers]

theorem loop_eq (fuel : Nat) :
    loop (fuel + 1) = (do
      let _ ← expect .whileKeyword
      let condition ← expression fuel
      announce (.loop condition)
      body fuel (.loop condition)) := by
  simp [loop, announce, body, Heading.markers, expect]

theorem recordStatement_eq (fuel : Nat) :
    recordStatement fuel = (do
      let _ ← expect .structKeyword
      let name ← identifier
      announce (.record name)
      body fuel (.record name)) := by
  simp [recordStatement, announce, body, Heading.markers, expect]

theorem conditional_eq (fuel : Nat) :
    conditional (fuel + 2) = (do
      let _ ← expect .ifKeyword
      let condition ← expression fuel
      announce (.conditional condition)
      body fuel (.conditional condition)) := by
  simp only [conditional, branch, announce, body, Heading.markers, bind_assoc]
  refine bind_congr fun _ => bind_congr fun condition => bind_congr fun _ => bind_congr fun _ =>
    bind_congr fun body => bind_congr fun kind => ?_
  split <;> simp

theorem run_currentToken_bind {α : Type} (next : Token → Parser α) (state : State) :
    (currentToken >>= next).run state = (next state.current).run state := rfl

theorem run_note_bind {α : Type} (event : Event) (next : PUnit → Parser α) (state : State) :
    ((modify fun state => state.note event) >>= next).run state =
      (next ⟨⟩).run (state.note event) := rfl

/-- A statement that starts with a heading is read as the heading, its line and what follows. -/
theorem run_statement_of_startsHeading (fuel : Nat) (h : startsHeading state.current.kind = true) :
    (statement fuel).run state = none ∨
      ∃ less, (statement fuel).run state = (do
        let heading ← heading less
        announce heading
        body less heading : Parser Stmt).run
          (state.note (.began state.current.kind state.current.position.line)) := by
  have hnoted : (state.note (.began state.current.kind state.current.position.line)).current =
    state.current := rfl
  cases fuel with
  | zero => exact .inl rfl
  | succ fuel =>
      rw [statement, run_currentToken_bind, run_note_bind]
      simp only [heading, bind_assoc, run_currentToken_bind, hnoted]
      simp only [startsHeading, Bool.or_eq_true, decide_eq_true_eq] at h
      rcases h with ((hkind | hkind) | hkind) | hkind <;> simp only [hkind]
      · cases fuel with
        | zero => exact .inl rfl
        | succ fuel => exact .inr ⟨fuel, by simp [function_eq]⟩
      · match fuel with
        | 0 => exact .inl rfl
        | 1 =>
            refine .inr ⟨0, ?_⟩
            simp only [conditional, branch, expression, bind_assoc]
            rfl
        | fuel + 2 => exact .inr ⟨fuel, by simp [conditional_eq]⟩
      · cases fuel with
        | zero => exact .inl rfl
        | succ fuel => exact .inr ⟨fuel, by simp [loop_eq]⟩
      · exact .inr ⟨fuel, by simp [recordStatement_eq]⟩

theorem heading_starts (fuel : Nat) (state : State) :
    Ensures (heading fuel) state (fun _ _ => startsHeading state.current.kind = true)
      fun _ _ => True := by
  apply Ensures.currentToken_bind
  split
  case h_5 => exact .of_throw trivial
  all_goals
    rename_i hkind
    exact .of_forall (fun _ _ => by rw [hkind]; rfl) fun _ _ => trivial

theorem expect_of_ne {kind : TokenKind} (h : state.current.kind ≠ kind) :
    Ensures (expect kind) state (fun _ _ => False)
      fun error after => error.isFatal = false ∧ after = state := by
  apply Ensures.currentToken_bind
  rw [if_neg (by simpa using h)]
  exact .of_throw ⟨(Error.unexpected_recoverable [kind] state.current).1, rfl⟩

/-- What follows the line of a heading starts with a block. -/
theorem body_of_ne_indent (h : state.current.kind ≠ .indent) (heading : Heading) :
    Ensures (body fuel heading) state (fun _ _ => False)
      fun error after => error.isFatal = false ∧ after = state := by
  have hblock : Ensures (block fuel) state (fun _ _ => False)
      fun error after => error.isFatal = false ∧ after = state := by
    cases fuel with
    | zero => exact .of_exhausted
    | succ fuel => exact Ensures.bind (expect_of_ne h) fun _ _ => False.elim
  cases heading with
  | record name => exact Ensures.bind (expect_of_ne h) fun _ _ => False.elim
  | _ => exact Ensures.bind hblock fun _ _ => False.elim

theorem heading_related {tokens : Token → Prop}
    {Related : ∀ {α : Type}, (α → Prop) → Parser α → Parser α → Prop}
    (related : Sequential tokens Related) {fuel' : Nat} (h : fuel ≤ fuel') :
    Related (fun _ => True) (heading fuel) (heading fuel') := by
  apply related.bind related.currentToken
  intro token _
  split
  · exact related.bind (header_related related h) fun _ _ => related.value trivial
  · apply related.bind (related.expect _)
    intro _ _
    exact related.bind (expressionsRelated related h).expression fun _ _ => related.value trivial
  · apply related.bind (related.expect _)
    intro _ _
    exact related.bind (expressionsRelated related h).expression fun _ _ => related.value trivial
  · apply related.bind (related.expect _)
    intro _ _
    exact related.bind related.identifier fun _ _ => related.value trivial
  · exact related.throw _ _ (Error.unexpected_recoverable _ token).1

theorem heading_unique {fuel' : Nat} {outcome outcome' : Except Error Heading × State}
    (hrun : (heading fuel).run state = some outcome)
    (hrun' : (heading fuel').run state = some outcome') : outcome = outcome' :=
  run_unique (fun h => heading_related Mirror.identity_sound.compositional.toSequential h) hrun hrun'

end Parser

theorem LineInvariant.Sound.heading_reads {line : LineInvariant} (sound : line.Sound) {nesting : Nat}
    {state : State} (fuel : Nat) (h : line.holds nesting state)
    (hkeyword : ∀ kind : TokenKind, kind.startsStatement = true →
      line.Reads nesting (Parser.expect kind) state) :
    line.Reads nesting (Parser.heading fuel) state := by
  apply Reads.currentToken_bind
  split
  · apply Reads.bind (sound.header_reads fuel (hkeyword _ rfl))
    exact fun _ _ hlast => Reads.of_pure hlast
  · apply Reads.bind (hkeyword _ rfl)
    intro _ begun hbegun
    apply Reads.bind (sound.expression_stays fuel hbegun)
    exact fun _ _ hlast => Reads.of_pure hlast
  · apply Reads.bind (hkeyword _ rfl)
    intro _ begun hbegun
    apply Reads.bind (sound.expression_stays fuel hbegun)
    exact fun _ _ hlast => Reads.of_pure hlast
  · apply Reads.bind (hkeyword _ rfl)
    intro _ begun hbegun
    apply Reads.bind (sound.identifier_stays hbegun)
    exact fun _ _ hlast => Reads.of_pure hlast
  · obtain ⟨herror, hposition⟩ := Error.unexpected_recoverable
      [.funcKeyword, .ifKeyword, .whileKeyword, .structKeyword] state.current
    exact .of_throw (sound.throw h herror (sound.noted h hposition))

/-- Right ahead are a heading, its marker and a line break. -/
def State.Announces (state after : State) : Prop :=
  ∃ fuel heading, (Parser.heading fuel).run state = some (.ok heading, after) ∧
    after.current.kind ∈ heading.markers ∧ after.next.kind = .newline

theorem State.Announces.startsHeading {state after : State} (h : state.Announces after) :
    Parser.startsHeading state.current.kind = true := by
  obtain ⟨fuel, heading, hrun, -⟩ := h
  exact Parser.heading_starts fuel state _ _ hrun

theorem State.Announces.moves {state after : State} (h : state.Announces after)
    (hsettled : state.Settled) : state.Moves after := by
  obtain ⟨fuel, heading, hrun, -⟩ := h
  have hlocal := Parser.heading_related (Parser.Local.compositional [] []).toSequential
    (Nat.le_refl fuel)
  exact hlocal.moving.of_run hsettled hrun (.of_ok heading)

theorem State.Announces.beside {tail tail' : List Token} {here there after : State}
    (h : here.Announces after) (hbeside : here.Beside tail tail' there)
    (hclears : after.Clears tail) : ∃ last, there.Announces last ∧ after.Beside tail tail' last := by
  obtain ⟨fuel, heading, hrun, hmarker, hnewline⟩ := h
  have hlocal := Parser.heading_related (Parser.Local.compositional tail tail').toSequential
    (Nat.le_refl fuel)
  obtain ⟨last, hrun', hlast⟩ := hlocal.follows hbeside hrun (.of_ok heading) hclears
  refine ⟨last, ⟨fuel, heading, hrun', ?_, ?_⟩, hlast⟩
  · rwa [hlast.current hclears]
  · rwa [hlast.next hclears]

namespace Fence

open Parse.Parser

variable {fence : Fence} {start state after : State} {fuel : Nat} {line : List Token}

theorem Broken.ahead_ne {base nesting : Nat} {error : Error}
    (h : fence.Broken False start base nesting error after) : after.ahead ≠ fence.tail.map .ok := by
  obtain ⟨-, level, front, -, hsince, hfront⟩ := h
  intro hahead
  have hsees := congrArg List.length (hsince.at_.sees.ahead.symm.trans hahead)
  cases front with
  | nil => exact hfront rfl
  | cons token front =>
      simp only [List.length_map, List.length_append, List.length_cons] at hsees
      omega

/-- A statement that starts with no heading is noticed to be broken in front of the fence. -/
theorem statement_ahead_ne (h : fence.At 1 0 line state) (hline : line ≠ [])
    (hroom : state.cost ≤ fence.config.maxErrors)
    (hstarts : startsHeading state.current.kind = false) :
    Ensures (statement fuel) state (fun _ _ => True)
      fun _ after => after.ahead ≠ fence.tail.map .ok := by
  have hsound : (fence.line False state 1 1).Sound := fence.line_sound False state (Nat.le_refl 1)
  have hends : ∀ {middle : State}, (fence.line False state 1 1).holds 0 middle →
      Ensures (expect .newline) middle (fun _ _ => True) (fence.Broken False state 1 0) := by
    rintro middle ⟨_ | ⟨token, front⟩, hmiddle, hfront⟩
    · contradiction
    · exact (hmiddle.expect (Nat.le_refl 1) .newline).weaken (fun _ _ _ => trivial) fun _ _ => id
  suffices hbroken : Ensures (statement fuel) state (fun _ _ => True)
      (fence.Broken False state 1 0) from
    hbroken.weaken (fun _ _ _ => trivial) fun _ _ => Broken.ahead_ne
  cases fuel with
  | zero => exact .of_exhausted
  | succ fuel =>
      apply Ensures.currentToken_bind
      apply Ensures.modify_bind
      have hsince : fence.Since state 1 0 line (state.note
          (.began state.current.kind state.current.position.line)) :=
        ⟨h.note _, .refl state, hroom⟩
      split <;> try (rename_i hkind; rw [hkind] at hstarts; contradiction)
      · apply Ensures.bind (hsince.expect_content hline rfl)
        intro _ begun hbegun
        apply Ensures.bind (hsound.returnValue?_stays fuel hbegun)
        intro _ read hread
        exact Ensures.bind (hends hread) fun _ _ _ => .of_pure trivial
      · apply Ensures.bind (hsound.expression_stays fuel ⟨_, hsince, hline⟩)
        intro _ read hread
        exact Ensures.bind (hends hread) fun _ _ _ => .of_pure trivial

/-- Behind a heading its marker and the line break are read, or the error is noticed in front of the
fence. -/
theorem announce_ahead_ne {heading : Heading}
    (hrun : (Parser.heading fuel).run state = some (.ok heading, after))
    (hafter : (fence.line False start 1 1).holds 0 after) :
    Ensures (announce heading) after (fun _ _ => state.Announces after ∧ after.Clears fence.tail)
      fun _ last => last.ahead ≠ fence.tail.map .ok := by
  obtain ⟨_ | ⟨marker, front⟩, hsince, hfront⟩ := hafter
  · contradiction
  have hahead : ∀ (error : Error) (last : State), fence.Broken False start 1 0 error last →
      last.ahead ≠ fence.tail.map .ok := fun _ _ => Broken.ahead_ne
  apply Ensures.bind ((hsince.expectOneOf (Nat.le_refl 1) heading.markers).weaken (fun _ _ => id) hahead)
  rintro _ middle ⟨-, hmarker, hmiddle⟩
  have hcontent := Heading.isStructural_of_mem hmarker
  rw [TokenKind.blocksBehind_of_content hcontent] at hmiddle
  cases front with
  | nil =>
      refine absurd rfl (hsince.at_.front.ne_nil_of_kind ?_ ?_) <;>
      · intro hkind
        rw [hkind] at hcontent
        contradiction
  | cons last front =>
      apply Ensures.bind ((hmiddle.expect (Nat.le_refl 1) .newline).weaken (fun _ _ => id) hahead)
      rintro _ _ ⟨-, hlast, -⟩
      have hahead := hsince.at_.sees.ahead
      refine .of_pure ⟨⟨fuel, heading, hrun, ?_, ?_⟩, ?_⟩
      · rwa [hsince.at_.current]
      · rwa [State.next_of_ahead hahead]
      · rw [State.Clears, hahead]
        simp only [List.length_map, List.length_append, List.length_cons]
        omega

private theorem heading_announces (h : fence.Since start 1 0 line state) (hline : line ≠ [])
    (fuel : Nat) :
    Ensures (do
      let heading ← heading fuel
      announce heading
      body fuel heading) state (fun _ _ => True)
      fun _ after => after.ahead = fence.tail.map .ok →
        ∃ last, state.Announces last ∧ last.Clears fence.tail := by
  have hreads := (fence.line_sound False start (Nat.le_refl 1)).heading_reads fuel ⟨_, h, hline⟩
    fun kind hkeyword => h.expect_content hline (TokenKind.content_of_startsStatement hkeyword)
  apply Ensures.bind (hreads.traced.weaken (fun _ _ => id)
    fun _ _ hbroken hlate => absurd hlate hbroken.1.ahead_ne)
  rintro value middle ⟨hmiddle, hrun⟩
  apply Ensures.bind ((announce_ahead_ne hrun hmiddle).weaken (fun _ _ hvalue => hvalue)
    fun _ _ hne hlate => absurd hlate hne)
  exact fun _ _ hannounces => .of_forall (fun _ _ => trivial) fun _ _ _ => ⟨middle, hannounces⟩

/-- A statement in front of a fence is noticed to be broken at the fence only where its first line
announces a block. -/
theorem announces_of_late (fuel : Nat) (h : fence.At 1 0 line state) (hline : line ≠ [])
    (hroom : state.cost ≤ fence.config.maxErrors) :
    Ensures (statement fuel) state (fun _ _ => True)
      fun _ after => after.ahead = fence.tail.map .ok →
        ∃ last, state.Announces last ∧ last.Clears fence.tail := by
  cases hstarts : startsHeading state.current.kind with
  | false =>
      apply (statement_ahead_ne h hline hroom hstarts).weaken (fun _ _ => id)
      exact fun _ _ hahead hlate => absurd hlate hahead
  | true =>
      intro result after hrun
      rcases run_statement_of_startsHeading fuel hstarts with hnone | ⟨less, hsame⟩
      · rw [hnone] at hrun
        cases hrun
      · rw [hsame] at hrun
        apply Ensures.weaken (heading_announces ⟨h.note _, .refl state, hroom⟩ hline less)
          (fun _ _ => id) ?_ result after hrun
        intro _ _ hannounces hlate
        obtain ⟨middle, hmiddle, hclears⟩ := hannounces hlate
        have hbeside := ((State.Beside.refl h.sees).symm.note
          (.began state.current.kind state.current.position.line)).symm
        obtain ⟨last, hlast, hbeside'⟩ := hmiddle.beside hbeside hclears
        exact ⟨last, hlast, hbeside'.clears hclears⟩

end Fence

end Offside.Parse
