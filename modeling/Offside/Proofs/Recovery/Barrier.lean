import Offside.Proofs.Parsing.Line
import Offside.Proofs.Parsing.Moves
import Offside.Proofs.Scanning.Balance

/-!
# Parsing up to a barrier

The outcomes ahead of a parser may end in a part that starts, outside of all inner blocks, with a
keyword of statements.  A grammar function that does not start in front of this barrier never gets
behind it, keeps count of the open blocks, and fails only at a token in front of the barrier or at
the barrier itself.  Without a barrier this says how far a parser can go wrong at all.
-/

namespace Offside

namespace TokenKind

/-- The kinds of token that neither open or close a block nor start a statement nor end the
text. -/
def isInner (kind : TokenKind) : Bool :=
  kind ≠ .indent && kind ≠ .dedent && kind ≠ .eof && !kind.startsStatement

variable {kind : TokenKind}

theorem isInner_of_isInline (h : kind.isInline = true) : kind.isInner = true := by
  cases kind <;> first | contradiction | rfl

theorem ne_eof_of_isInner (h : kind.isInner = true) : kind ≠ .eof := by
  rintro rfl
  contradiction

theorem startsStatement_of_isInner (h : kind.isInner = true) : kind.startsStatement = false := by
  simp only [isInner, Bool.and_eq_true, Bool.not_eq_eq_eq_not, Bool.not_true] at h
  exact h.2

theorem blocksBehind_of_isInner (h : kind.isInner = true) (openBlocks : Nat) :
    kind.blocksBehind openBlocks = openBlocks := by
  unfold blocksBehind
  split <;> first | contradiction | rfl

end TokenKind

namespace Parse

def Error.Aborts (error : Error) : Prop :=
  (∃ failure : LexFailure, error.cause = .failed failure ∧ failure.IsMismatch) ∨
    ∃ count, error.cause = .tooManyErrors count

theorem Error.Aborts.isFatal {error : Error} (h : error.Aborts) : error.isFatal = true := by
  unfold Error.isFatal
  rcases h with ⟨failure, hcause, -⟩ | ⟨count, hcause⟩ <;> rw [hcause]

structure Barrier where
  config : Config
  tail : List Item
  near : Token → Prop
  keyword : ∀ item rest, tail = item :: rest →
    ∃ token, item = .ok token ∧ token.kind.startsStatement = true ∧ near token
  outermost : tail ≠ [] → ∀ openBlocks, Closes tail openBlocks → openBlocks = 1

namespace Barrier

variable {barrier : Barrier} {state after : State} {base level level' nesting : Nat}

def Noted (barrier : Barrier) (error : Error) : Prop :=
  ∃ token, barrier.near token ∧ error.position = token.position

structure Within (barrier : Barrier) (state : State) : Prop where
  settled : state.Settled
  faithful : ∀ token, .ok token ∈ state.ahead → token.Faithful
  closes : Closes state.ahead state.openBlocks
  front : ∃ front, state.ahead = front ++ barrier.tail ∧
    ∀ token, .ok token ∈ front → barrier.near token
  errors : ∀ error ∈ state.errors, barrier.Noted error
  config : state.config = barrier.config

structure At (barrier : Barrier) (level nesting : Nat) (state : State) : Prop where
  within : barrier.Within state
  openBlocks : state.openBlocks = level
  nesting : state.nesting = nesting

structure Broken (barrier : Barrier) (base nesting : Nat) (error : Error) (after : State) :
    Prop where
  goesOn : error.isFatal = false
  noted : barrier.Noted error
  within : barrier.Within after
  openBlocks : base ≤ after.openBlocks
  nesting : after.nesting = nesting

theorem Broken.outward {base' : Nat} {error : Error}
    (h : barrier.Broken base nesting error after) (hbase : base' ≤ base) :
    barrier.Broken base' nesting error after :=
  ⟨h.goesOn, h.noted, h.within, Nat.le_trans hbase h.openBlocks, h.nesting⟩

namespace Within

theorem current_mem (state : State) : .ok state.current ∈ state.ahead := by
  have hhead := state.head_ahead
  cases hahead : state.ahead with
  | nil => simp [hahead] at hhead
  | cons item rest =>
      rw [hahead] at hhead
      simp only [List.head?_cons, Option.some.injEq] at hhead
      rw [hhead]
      exact List.mem_cons_self

theorem near (h : barrier.Within state) : barrier.near state.current := by
  obtain ⟨front, hahead, hnear⟩ := h.front
  have hhead := state.head_ahead
  rw [hahead] at hhead
  cases front with
  | nil =>
      cases htail : barrier.tail with
      | nil => simp [htail] at hhead
      | cons item rest =>
          rw [htail] at hhead
          simp only [List.nil_append, List.head?_cons, Option.some.injEq] at hhead
          obtain ⟨token, hitem, _, htoken⟩ := barrier.keyword item rest htail
          rw [hitem, Except.ok.injEq] at hhead
          rwa [← hhead]
  | cons item front =>
      simp only [List.cons_append, List.head?_cons, Option.some.injEq] at hhead
      apply hnear
      rw [hhead]
      exact List.mem_cons_self

theorem startsStatement (hahead : state.ahead = barrier.tail) :
    state.current.kind.startsStatement = true := by
  have hhead := state.head_ahead
  rw [hahead] at hhead
  cases htail : barrier.tail with
  | nil => simp [htail] at hhead
  | cons item rest =>
      rw [htail] at hhead
      simp only [List.head?_cons, Option.some.injEq] at hhead
      obtain ⟨token, hitem, hkind, _⟩ := barrier.keyword item rest htail
      rw [hitem, Except.ok.injEq] at hhead
      rwa [← hhead]

theorem openBlocks_of_barrier (h : barrier.Within state) (hahead : state.ahead = barrier.tail) :
    state.openBlocks = 1 := by
  have hcloses := h.closes
  rw [hahead] at hcloses
  apply barrier.outermost _ _ hcloses
  intro htail
  have hmem := current_mem state
  rw [hahead, htail] at hmem
  cases hmem

theorem openBlocks_ne_zero (h : barrier.Within state) (hkind : state.current.kind ≠ .eof) :
    state.openBlocks ≠ 0 := by
  have hcloses := h.closes
  rw [State.ahead_of_ne_eof hkind] at hcloses
  exact (hcloses.tail hkind).1

theorem openBlocks_of_eof (h : barrier.Within state) (hkind : state.current.kind = .eof) :
    state.openBlocks = 0 := by
  have hcloses := h.closes
  rw [State.ahead_of_eof hkind] at hcloses
  exact (hcloses.eof hkind).1

end Within

/-! ## Outcomes of grammar functions -/

/-- A value comes with `level` open blocks.  An error ends the parse or can be recovered from. -/
def Keeps {α : Type} (barrier : Barrier) (base level nesting : Nat) (parser : Parser α)
    (state : State) : Prop :=
  Ensures parser state (fun _ after => barrier.At level nesting after)
    fun error after => error.Aborts ∨ barrier.Broken base nesting error after

theorem Keeps.bind {α β : Type} {parser : Parser α} {next : α → Parser β}
    (h : barrier.Keeps base level nesting parser state)
    (hnext : ∀ value middle, barrier.At level nesting middle →
      barrier.Keeps base level' nesting (next value) middle) :
    barrier.Keeps base level' nesting (parser >>= next) state :=
  Ensures.bind h hnext

theorem At.note (h : barrier.At level nesting state) (event : Event) :
    barrier.At level nesting (state.note event) :=
  ⟨⟨h.within.settled, h.within.faithful, h.within.closes, h.within.front, h.within.errors,
    h.within.config⟩, h.openBlocks, h.nesting⟩

theorem At.keep (h : barrier.At level nesting state) {error : Error}
    (hnoted : barrier.Noted error) : barrier.At level nesting (state.keep error) := by
  refine ⟨⟨h.within.settled, h.within.faithful, h.within.closes, h.within.front, ?_,
    h.within.config⟩, h.openBlocks, h.nesting⟩
  intro kept hkept
  rcases List.mem_append.1 hkept with hkept | hkept
  · exact h.within.errors kept hkept
  · rw [List.mem_singleton.1 hkept]
    exact hnoted

theorem At.noted (h : barrier.At level nesting state) {error : Error}
    (hposition : error.position = state.current.position) : barrier.Noted error :=
  ⟨state.current, h.within.near, hposition⟩

theorem At.broken (h : barrier.At level nesting state) (hbase : base ≤ level) {error : Error}
    (herror : error.isFatal = false) (hnoted : barrier.Noted error) :
    barrier.Broken base nesting error state :=
  ⟨herror, hnoted, h.within, h.openBlocks ▸ hbase, h.nesting⟩

/-! ## Single tokens -/

theorem advance_ensures (h : barrier.At level nesting state) (hkind : state.current.kind ≠ .eof)
    (hfront : state.ahead ≠ barrier.tail) :
    Ensures Parser.advance state
      (fun token after => token = state.current ∧
        barrier.At (state.current.kind.blocksBehind level) nesting after)
      fun error _ => error.Aborts := by
  have hcloses := h.within.closes
  rcases State.advance_cases hkind with ⟨after, hadvance, hconsumes⟩ |
    ⟨failure, after, hadvance, _, _, hnext, hahead⟩
  · apply Ensures.of_advance hadvance
    refine ⟨rfl, ⟨hconsumes.settled, ?_, ?_, ?_, ?_, ?_⟩, ?_, ?_⟩
    · intro token htoken
      apply h.within.faithful
      rw [hconsumes.ahead]
      exact List.mem_cons_of_mem _ htoken
    · rw [hconsumes.openBlocks]
      rw [hconsumes.ahead] at hcloses
      exact (hcloses.tail hkind).2
    · obtain ⟨front, hahead, hnear⟩ := h.within.front
      cases front with
      | nil => exact absurd hahead hfront
      | cons item front =>
          rw [hconsumes.ahead, List.cons_append, List.cons.injEq] at hahead
          exact ⟨front, hahead.2, fun token htoken => hnear token (List.mem_cons_of_mem _ htoken)⟩
    · rw [hconsumes.errors]
      exact h.within.errors
    · rw [hconsumes.config]
      exact h.within.config
    · rw [hconsumes.openBlocks, h.openBlocks]
    · rw [hconsumes.nesting, h.nesting]
  · apply Ensures.of_advance hadvance
    rcases hahead with ⟨rest, hahead⟩ | hahead
    · refine .inl ⟨failure, rfl, ?_⟩
      rw [hahead] at hcloses
      exact ((hcloses.tail hkind).2.tail hnext).2.2
    · rw [hahead] at hcloses
      have hcloses := (hcloses.tail hkind).2
      exact absurd (hcloses.tail hnext).2 (by simp [Closes])

/-- A parser in front of another token than a keyword of statements is not at the barrier. -/
theorem ahead_ne_of_kind (hkind : state.current.kind.startsStatement = false) :
    state.ahead ≠ barrier.tail := by
  intro hahead
  rw [Within.startsStatement hahead] at hkind
  contradiction

theorem advance_keeps (h : barrier.At level nesting state) (hkind : state.current.kind ≠ .eof)
    (hfront : state.ahead ≠ barrier.tail)
    (hlevel : state.current.kind.blocksBehind level = level') :
    barrier.Keeps base level' nesting Parser.advance state := by
  apply (advance_ensures h hkind hfront).weaken
  · rintro token after ⟨-, hafter⟩
    exact hlevel ▸ hafter
  · exact fun _ _ haborts => .inl haborts

theorem advance_inner (h : barrier.At level nesting state) {kind : TokenKind}
    (hcurrent : state.current.kind = kind) (hinner : kind.isInner = true) :
    barrier.Keeps base level nesting Parser.advance state := by
  subst hcurrent
  exact advance_keeps h (TokenKind.ne_eof_of_isInner hinner)
    (ahead_ne_of_kind (TokenKind.startsStatement_of_isInner hinner))
    (TokenKind.blocksBehind_of_isInner hinner level)

theorem expectOneOf_keeps (h : barrier.At level nesting state) (hbase : base ≤ level)
    {kinds : List TokenKind} (heof : TokenKind.eof ∉ kinds)
    (hfront : (∀ kind ∈ kinds, kind.startsStatement = false) ∨ state.ahead ≠ barrier.tail)
    (hlevel : ∀ kind ∈ kinds, kind.blocksBehind level = level') :
    barrier.Keeps base level' nesting (Parser.expectOneOf kinds) state := by
  apply Ensures.currentToken_bind
  split
  · rename_i hmem
    have hmem : state.current.kind ∈ kinds := by simpa using hmem
    have hfront' : state.ahead ≠ barrier.tail := by
      cases hfront with
      | inl hkinds => exact ahead_ne_of_kind (hkinds _ hmem)
      | inr hfront => exact hfront
    exact advance_keeps h (fun hkind => heof (hkind ▸ hmem)) hfront' (hlevel _ hmem)
  · obtain ⟨herror, hposition⟩ := Error.unexpected_recoverable kinds state.current
    exact .of_throw (.inr (h.broken hbase herror (h.noted hposition)))

theorem expect_inner (h : barrier.At level nesting state) (hbase : base ≤ level)
    {kind : TokenKind} (hinner : kind.isInner = true) :
    barrier.Keeps base level nesting (Parser.expect kind) state :=
  expectOneOf_keeps h hbase (by simpa using (TokenKind.ne_eof_of_isInner hinner).symm)
    (.inl (by simpa using TokenKind.startsStatement_of_isInner hinner))
    (by simpa using TokenKind.blocksBehind_of_isInner hinner level)

theorem expect_indent (h : barrier.At level nesting state) (hbase : base ≤ level) :
    barrier.Keeps base (level + 1) nesting (Parser.expect .indent) state :=
  expectOneOf_keeps h hbase (by simp) (.inl (by simp [TokenKind.startsStatement]))
    (by simp [TokenKind.blocksBehind])

theorem expect_dedent (h : barrier.At (level + 1) nesting state) (hbase : base ≤ level + 1) :
    barrier.Keeps base level nesting (Parser.expect .dedent) state :=
  expectOneOf_keeps h hbase (by simp) (.inl (by simp [TokenKind.startsStatement]))
    (by simp [TokenKind.blocksBehind])

theorem expect_keyword (h : barrier.At level nesting state) (hbase : base ≤ level)
    {kind : TokenKind} (hkeyword : kind.startsStatement = true)
    (hfront : state.ahead ≠ barrier.tail) :
    barrier.Keeps base level nesting (Parser.expect kind) state := by
  apply expectOneOf_keeps h hbase
  · rw [List.mem_singleton]
    rintro rfl
    contradiction
  · exact .inr hfront
  · intro other hother
    rw [List.mem_singleton.1 hother]
    cases kind <;> first | contradiction | rfl

/-! ## Recovery -/

theorem At.renest (h : barrier.At level nesting state) (nesting' : Nat) :
    barrier.At level nesting' { state with nesting := nesting' } :=
  ⟨⟨h.within.settled, h.within.faithful, h.within.closes, h.within.front, h.within.errors,
    h.within.config⟩, h.openBlocks, rfl⟩

theorem skipToBoundary_keeps (fuel : Nat) :
    ∀ (state : State) (progressed : Bool) (depth : Nat),
      barrier.At (base + depth) nesting state → base ≠ 0 →
      (progressed = false → state.ahead ≠ barrier.tail) →
      Ensures (Parser.skipToBoundary fuel progressed depth) state
        (fun _ after => barrier.At base nesting after) fun error _ => error.Aborts := by
  induction fuel with
  | zero => exact fun _ _ _ _ _ _ => .of_exhausted
  | succ fuel ih =>
      intro state progressed depth h hbase hprogressed
      have heof : state.current.kind ≠ .eof := by
        intro heof
        have hlevel := h.within.openBlocks_of_eof heof
        rw [h.openBlocks] at hlevel
        omega
      apply Ensures.currentKind_bind
      split
      · contradiction
      · rename_i hkind
        split
        · rename_i hdepth
          subst hdepth
          exact .of_pure h
        · apply Ensures.bind (advance_ensures h heof (ahead_ne_of_kind (by rw [hkind]; rfl)))
          rintro _ middle ⟨-, hmiddle⟩
          have hlevel : state.current.kind.blocksBehind (base + depth) = base + (depth - 1) := by
            rw [hkind, TokenKind.blocksBehind]
            omega
          rw [hlevel] at hmiddle
          split
          · rename_i hdepth
            subst hdepth
            exact .of_pure hmiddle
          · exact ih middle true _ hmiddle hbase (by simp)
      · rename_i hkind
        apply Ensures.bind (advance_ensures h heof (ahead_ne_of_kind (by rw [hkind]; rfl)))
        rintro _ middle ⟨-, hmiddle⟩
        rw [hkind] at hmiddle
        exact ih middle true _ hmiddle hbase (by simp)
      · rename_i hkind
        apply Ensures.bind (advance_ensures h heof (ahead_ne_of_kind (by rw [hkind]; rfl)))
        rintro _ middle ⟨-, hmiddle⟩
        rw [hkind] at hmiddle
        split
        · rename_i hdepth
          subst hdepth
          apply Ensures.currentKind_bind
          split
          · exact ih middle true _ hmiddle hbase (by simp)
          · exact .of_pure hmiddle
        · exact ih middle true _ hmiddle hbase (by simp)
      · rename_i hdedent hindent hnewline
        split
        · rename_i hboundary
          simp only [Bool.and_eq_true, decide_eq_true_eq] at hboundary
          obtain ⟨⟨rfl, -⟩, -⟩ := hboundary
          exact .of_pure h
        · rename_i hboundary
          have hfront : state.ahead ≠ barrier.tail := by
            intro hahead
            have hlevel := h.within.openBlocks_of_barrier hahead
            rw [h.openBlocks] at hlevel
            have hdepth : depth = 0 := by omega
            cases progressed with
            | true => simp [hdepth, Within.startsStatement hahead] at hboundary
            | false => exact hprogressed rfl hahead
          apply Ensures.bind (advance_ensures h heof hfront)
          rintro _ middle ⟨-, hmiddle⟩
          have hlevel : state.current.kind.blocksBehind (base + depth) = base + depth := by
            unfold TokenKind.blocksBehind
            split <;> first | contradiction | rfl
          rw [hlevel] at hmiddle
          exact ih middle true _ hmiddle hbase (by simp)

/-- Going on behind a broken statement ends inside of as many blocks as the statement.  Only with
recovery off the error is passed on. -/
theorem recover_keeps {fuel start : Nat} {error : Error}
    (h : barrier.Broken base nesting error state) (hbase : base ≠ 0)
    (hstart : state.consumed = start → state.ahead ≠ barrier.tail) :
    Ensures (Parser.recover fuel error start base) state
      (fun _ after => barrier.At base nesting after)
      fun thrown after => thrown.Aborts ∨
        (barrier.config.recover = false ∧ barrier.Broken base nesting thrown after) := by
  apply Ensures.get_bind
  rw [h.goesOn, Bool.false_or, h.within.config]
  split
  · rename_i hoff
    exact .of_throw (.inr ⟨by simpa using hoff, h⟩)
  · apply Parser.record_bind
    · exact fun thrown count hcause => .inl (.inr ⟨count, hcause⟩)
    · apply Ensures.get_bind
      apply Ensures.get_bind
      have hlevel : base + ((state.keep error).openBlocks - base) = state.openBlocks := by
        have hbelow := h.openBlocks
        show base + (state.openBlocks - base) = state.openBlocks
        omega
      have hat : barrier.At (base + ((state.keep error).openBlocks - base)) nesting
          (state.keep error) := by
        rw [hlevel]
        exact At.keep ⟨h.within, rfl, h.nesting⟩ h.noted
      have hprogressed : ((state.keep error).consumed != start) = false →
          (state.keep error).ahead ≠ barrier.tail := by
        intro hsame
        have hconsumed : (state.keep error).consumed = start := by simpa using hsame
        exact hstart hconsumed
      apply Ensures.bind ((skipToBoundary_keeps fuel _ _ _ hat hbase hprogressed).weaken
        (fun _ _ hafter => hafter) fun _ _ haborts => .inl haborts)
      intro _ after hafter
      exact .of_modify (hafter.note _)

end Barrier

end Parse

end Offside
