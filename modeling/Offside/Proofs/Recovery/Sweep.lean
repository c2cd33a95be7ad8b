import Offside.Proofs.Parsing.Construct
import Offside.Proofs.Parsing.Forward
import Offside.Proofs.Recovery.Barrier

/-!
# Statements stay in front of the barrier

A line stays in front of the barrier wherever it starts, and a statement does if it does not start at
the barrier.  A block that is read statement by statement ends inside of as many blocks as it has
started, whatever its statements are.
-/

namespace Offside.Parse

open Parse.Parser

namespace Barrier

variable {barrier : Barrier} {state : State} {base blocks nesting fuel : Nat}

/-! ## Lines -/

def line (barrier : Barrier) (base blocks : Nat) : LineInvariant where
  holds nesting state := barrier.At blocks nesting state
  signed nesting state := barrier.At blocks nesting state ∧ state.current.kind.isInner = true
  noted := barrier.Noted
  broken nesting error after := error.Aborts ∨ barrier.Broken base nesting error after

private theorem signAhead?_ensures (h : barrier.At blocks nesting state) (hbase : base ≤ blocks) :
    Ensures signAhead? state
      (fun op? after => match op? with
        | some _ => barrier.At blocks nesting after ∧ after.current.kind.isInner = true
        | none => barrier.At blocks nesting after)
      fun error after => error.Aborts ∨ barrier.Broken base nesting error after := by
  apply Ensures.get_bind
  split
  · rename_i hminus
    refine .of_pure ⟨h, ?_⟩
    rw [hminus]
    rfl
  · split
    · rename_i hfault
      have herror : state.current.kind = .error := by
        have hfaithful := h.within.faithful _ (Within.current_mem state)
        unfold Token.fault? at hfault
        split at hfault
        · rename_i fault hpayload
          simp only [Token.Faithful, hpayload] at hfaithful
          exact hfaithful.symm
        · cases hfault
      split
      · apply record_bind
        · exact fun thrown count hcause => .inl (.inr ⟨count, hcause⟩)
        · refine .of_pure ⟨h.keep (h.noted rfl), ?_⟩
          change state.current.kind.isInner = true
          rw [herror]
          rfl
      · exact .of_throw (.inr (h.broken hbase rfl (h.noted rfl)))
    · exact .of_pure h

theorem line_sound (barrier : Barrier) (hbase : base ≤ blocks) :
    (barrier.line base blocks).Sound where
  inline {nesting state} h hkind := by
    have hinner := TokenKind.isInner_of_isInline hkind
    apply (advance_ensures h (TokenKind.ne_eof_of_isInner hinner)
      (ahead_ne_of_kind (TokenKind.startsStatement_of_isInner hinner))).weaken
    · rintro token after ⟨htoken, hafter⟩
      rw [TokenKind.blocksBehind_of_isInner hinner] at hafter
      exact ⟨htoken, hafter⟩
    · exact fun _ _ haborts => .inl haborts
  noted h _ hposition := At.noted h hposition
  throw h _ herror hnoted := .inr (At.broken h hbase herror hnoted)
  sign h := signAhead?_ensures h hbase
  signed h := advance_inner h.1 rfl h.2
  nesting h := h.nesting
  renest h := h.renest
  renestBroken {nesting error state} h := by
    rcases h with haborts | hbroken
    · exact .inl haborts
    · have hat : barrier.At state.openBlocks (nesting + 1) state :=
        ⟨hbroken.within, rfl, hbroken.nesting⟩
      refine .inr ⟨hbroken.goesOn, hbroken.noted, (hat.renest _).within, hbroken.openBlocks, ?_⟩
      simp [hbroken.nesting]

/-! ## Statements -/

def places (barrier : Barrier) (base blocks : Nat) : StatementInvariant where
  line := barrier.line base blocks
  body := barrier.line base (blocks + 1)
  starts nesting state := barrier.At blocks nesting state ∧ state.ahead ≠ barrier.tail
  announced nesting state := barrier.At blocks nesting state
  ends nesting state := barrier.At blocks nesting state

theorem places_sound (barrier : Barrier) (hbase : base ≤ blocks) :
    (barrier.places base blocks).Sound where
  line := line_sound barrier hbase
  body := line_sound barrier (Nat.le_succ_of_le hbase)
  outward h := h
  note h event := ⟨h.1.note event, h.2⟩
  lead h := h.1
  keyword h _ hkeyword := expect_keyword h.1 hbase hkeyword h.2
  newline h := expect_inner h hbase rfl
  announce {nesting state} h kinds hkinds := by
    have hinner : ∀ kind ∈ kinds, kind.isInner = true := by
      intro kind hkind
      rcases hkinds kind hkind with rfl | rfl <;> rfl
    have hmarker : barrier.Keeps base blocks nesting (expectOneOf kinds) state :=
      expectOneOf_keeps h hbase (fun heof => absurd (hinner _ heof) (by decide))
        (.inl fun kind hkind => TokenKind.startsStatement_of_isInner (hinner kind hkind))
        fun kind hkind => TokenKind.blocksBehind_of_isInner (hinner kind hkind) blocks
    exact Keeps.bind hmarker fun _ _ hmarked => expect_inner hmarked hbase rfl
  indent h := expect_indent h hbase
  field h := expect_inner h (Nat.le_succ_of_le hbase) rfl
  dedent h := expect_dedent h (Nat.le_succ_of_le hbase)
  alternative h hkind := by
    rcases hkind with helif | helse
    · exact advance_inner h helif rfl
    · exact advance_inner h helse rfl

/-! ## Blocks -/

/-- The statements of a block end at its end.  Only with recovery off an error gets out of it. -/
def Resumes (barrier : Barrier) (blocks nesting : Nat) (parser : Parser Block) (state : State) :
    Prop :=
  Ensures parser state
    (fun _ after => barrier.At blocks nesting after ∧ after.current.kind = .dedent)
    fun error after => error.Aborts ∨
      (barrier.config.recover = false ∧ barrier.Broken blocks nesting error after)

def StatementsResume (barrier : Barrier) (fuel : Nat) : Prop :=
  ∀ {blocks nesting : Nat} {state : State}, barrier.At blocks nesting state →
    blocks ≠ 0 → (barrier.tail = [] ∨ blocks ≠ 1) →
    barrier.Resumes blocks nesting (statements fuel) state

theorem At.ahead_ne (h : barrier.At blocks nesting state)
    (hinner : barrier.tail = [] ∨ blocks ≠ 1) : state.ahead ≠ barrier.tail := by
  intro hahead
  rcases hinner with htail | hblocks
  · have hmem := Within.current_mem state
    rw [hahead, htail] at hmem
    cases hmem
  · exact hblocks (h.openBlocks ▸ h.within.openBlocks_of_barrier hahead)

private theorem statement_keeps (ih : ∀ less < fuel, barrier.StatementsResume less)
    (h : barrier.At blocks nesting state) (hbase : base ≤ blocks) (hblocks : blocks ≠ 0)
    (hfront : state.ahead ≠ barrier.tail) :
    barrier.Keeps base blocks nesting (statement fuel) state := by
  have hstatements : ∀ less < fuel, (barrier.places base blocks).body.Stays (statements less) := by
    intro less hless nesting state hinside
    apply (ih less hless hinside (by omega) (.inr (by omega))).weaken
    · exact fun _ _ hafter => hafter.1
    · intro error after hafter
      rcases hafter with haborts | ⟨-, hbroken⟩
      · exact .inl haborts
      · exact .inr (hbroken.outward (Nat.le_succ_of_le hbase))
  exact ((places_sound barrier hbase).constructs fuel hstatements).statement ⟨h, hfront⟩

theorem statement_resumes (ih : ∀ less < fuel, barrier.StatementsResume less)
    (h : barrier.At blocks nesting state) (hblocks : blocks ≠ 0)
    (hfront : state.ahead ≠ barrier.tail) {α : Type} {next : Except Error Stmt → Parser α}
    {good : α → State → Prop} {bad : Error → State → Prop}
    (hok : ∀ stmt after, barrier.At blocks nesting after →
      Ensures (next (.ok stmt)) after good bad)
    (herror : ∀ error after, barrier.Broken blocks nesting error after →
      (after.consumed = state.consumed → after.ahead ≠ barrier.tail) →
      Ensures (next (.error error)) after good bad)
    (haborts : ∀ error after, error.Aborts → Ensures (next (.error error)) after good bad) :
    Ensures (attempt (statement fuel) >>= next) state good bad := by
  have hstatement := (statement_keeps ih h (Nat.le_refl _) hblocks hfront).and
    ((statementsMoving fuel).statement state h.within.settled)
  apply Ensures.bind hstatement.attempt
  intro result after hafter
  cases result with
  | ok stmt => exact hok stmt after hafter.1
  | error error =>
      obtain ⟨hkept, hmoves⟩ := hafter
      rcases hkept with hfatal | hbroken
      · exact haborts error after hfatal
      · apply herror error after hbroken
        rcases hmoves with hfatal | hmoves
        · rw [hbroken.goesOn] at hfatal
          contradiction
        · intro hconsumed
          rw [hmoves.consumed.2 hconsumed]
          exact hfront

private theorem statements_succ_resume (ih : ∀ less < fuel + 1, barrier.StatementsResume less) :
    barrier.StatementsResume (fuel + 1) := by
  intro blocks nesting state h hblocks hinner
  have hrest : barrier.StatementsResume fuel := ih fuel (Nat.lt_succ_self fuel)
  unfold statements
  apply Ensures.get_bind
  split
  · rename_i hend
    simp only [Bool.or_eq_true, decide_eq_true_eq] at hend
    rcases hend with hdedent | heof
    · exact .of_pure ⟨h, hdedent⟩
    · exact absurd (h.openBlocks ▸ h.within.openBlocks_of_eof heof) hblocks
  · apply statement_resumes (fun less hless => ih less (Nat.lt_succ_of_lt hless)) h hblocks
      (h.ahead_ne hinner)
    · intro stmt after hafter
      apply Ensures.bind (hrest hafter hblocks hinner)
      rintro rest last hlast
      exact .of_pure hlast
    · intro error after hbroken hstart
      rw [h.openBlocks]
      apply Ensures.bind (recover_keeps hbroken hblocks hstart)
      intro _ middle hmiddle
      exact hrest hmiddle hblocks hinner
    · intro error after haborts
      apply Ensures.bind (Parser.recover_of_fatal haborts.isFatal (.inl haborts))
      exact fun _ _ hfalse => hfalse.elim

theorem statements_resume (barrier : Barrier) (fuel : Nat) : barrier.StatementsResume fuel := by
  induction fuel using Nat.strongRecOn with
  | ind fuel ih =>
      cases fuel with
      | zero => exact fun _ _ _ => Ensures.of_exhausted
      | succ fuel => exact statements_succ_resume ih

end Barrier

end Offside.Parse
