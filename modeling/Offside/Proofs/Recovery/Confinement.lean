import Offside.Proofs.Nesting.Bounded
import Offside.Proofs.Parsing.Construct
import Offside.Proofs.Recovery.Skipping

/-!
# Statements stay inside of their block

The only tokens that a parser consumes without looking at their kinds are those with the fault of a
stray `!`, which are read as operators.  Unless one of them is the end of a block, a statement never
consumes the end of the block in which it stands, and neither does going on behind it.
-/

namespace Offside.Parse

open Parse.Parser

variable {start state middle after failed : State} {base nesting nesting' fuel : Nat} {error : Error}

/-- No end of a block carries the fault of a stray `!`. -/
def State.PlainEnds (state : State) : Prop :=
  ∀ token, .ok token ∈ state.ahead → token.kind = .dedent → token.fault? ≠ some .strayBang

namespace State

/-- A parser has gone on from a start without leaving the block of the start, and has got inside of
at least `base` more blocks. -/
structure Inside (start : State) (base nesting : Nat) (state : State) : Prop where
  settled : state.Settled
  plain : state.PlainEnds
  nesting : state.nesting = nesting
  way : ∃ spent, start.Takes state spent ∧ StaysInside 0 spent ∧ base ≤ depthBehind 0 spent

theorem Takes.plainEnds {tokens : List Token} (h : state.Takes after tokens)
    (hplain : state.PlainEnds) : after.PlainEnds := by
  intro token hmem
  apply hplain
  rw [h.ahead]
  exact List.mem_append_right _ hmem

namespace Inside

theorem refl (hsettled : state.Settled) (hplain : state.PlainEnds) :
    state.Inside 0 state.nesting state :=
  ⟨hsettled, hplain, rfl, [], ⟨rfl, rfl, rfl⟩, trivial, Nat.le_refl 0⟩

theorem stays (h : start.Inside base nesting state) {spent : List Token}
    (htakes : start.Takes state spent) : StaysInside 0 spent := by
  obtain ⟨tokens, htokens, hstays, -⟩ := h.way
  rwa [htakes.unique htokens]

theorem trans (h : start.Inside base nesting middle) (h' : middle.Inside 0 nesting' after) :
    start.Inside base nesting' after := by
  obtain ⟨front, hfront, hstays, hbase⟩ := h.way
  obtain ⟨back, hback, hstays', -⟩ := h'.way
  refine ⟨h'.settled, h'.plain, h'.nesting, front ++ back, hfront.trans hback,
    hstays.append (hstays'.outward _), ?_⟩
  have hadd := hstays'.depthBehind_add (depthBehind 0 front)
  rw [Nat.add_zero] at hadd
  rw [depthBehind_append, hadd]
  omega

theorem shallower (h : start.Inside base nesting state) {base' : Nat} (hbase : base' ≤ base) :
    start.Inside base' nesting state := by
  obtain ⟨spent, htakes, hstays, hdepth⟩ := h.way
  exact ⟨h.settled, h.plain, h.nesting, spent, htakes, hstays, Nat.le_trans hbase hdepth⟩

theorem outward (h : start.Inside base nesting state) : start.Inside 0 nesting state :=
  h.shallower (Nat.zero_le base)

theorem keep (h : start.Inside base nesting state) (error : Error) :
    start.Inside base nesting (state.keep error) := by
  obtain ⟨spent, htakes, hinside⟩ := h.way
  exact ⟨h.settled, h.plain, h.nesting, spent, ⟨htakes.ahead, htakes.consumed, htakes.openBlocks⟩,
    hinside⟩

theorem note (h : start.Inside base nesting state) (event : Event) :
    start.Inside base nesting (state.note event) := by
  obtain ⟨spent, htakes, hinside⟩ := h.way
  exact ⟨h.settled, h.plain, h.nesting, spent, ⟨htakes.ahead, htakes.consumed, htakes.openBlocks⟩,
    hinside⟩

theorem renest (h : start.Inside base nesting state) (nesting' : Nat) :
    start.Inside base nesting' { state with nesting := nesting' } := by
  obtain ⟨spent, htakes, hinside⟩ := h.way
  exact ⟨h.settled, h.plain, rfl, spent, ⟨htakes.ahead, htakes.consumed, htakes.openBlocks⟩,
    hinside⟩

theorem consume (h : start.Inside base nesting state)
    (hinner : state.current.kind = .dedent → base ≠ 0) (hconsumes : state.Consumes after) :
    start.Inside (state.current.kind.blocksBehind base) nesting after := by
  obtain ⟨spent, htakes, hstays, hbase⟩ := h.way
  have htaken : state.Takes after [state.current] :=
    ⟨hconsumes.ahead, hconsumes.consumed, hconsumes.openBlocks⟩
  refine ⟨hconsumes.settled, htaken.plainEnds h.plain, hconsumes.nesting.trans h.nesting,
    spent ++ [state.current], htakes.trans htaken, hstays.append ⟨?_, trivial⟩, ?_⟩
  · intro hkind
    have := hinner hkind
    omega
  · rw [depthBehind_append]
    change _ ≤ state.current.kind.blocksBehind _
    unfold TokenKind.blocksBehind
    split <;> omega

theorem skip (h : start.Inside 0 nesting state) {skipped : List Token} {rest : List Item}
    (hskips : Skips (state.openBlocks - start.openBlocks) state after skipped rest)
    (hmoves : state.Moves after) (hnesting : after.nesting = state.nesting) :
    start.Inside 0 nesting after := by
  obtain ⟨spent, htakes, hstays, -⟩ := h.way
  have htaken := hskips.takes hmoves
  have hinside := hskips.inside
  rw [htakes.depth_eq hstays] at hinside
  exact ⟨hmoves.settled h.settled, htaken.plainEnds h.plain, hnesting.trans h.nesting,
    spent ++ skipped, htakes.trans htaken, hstays.append hinside, Nat.zero_le _⟩

/-- A token that does not close the block is consumed inside of it, and the end of the text never
is. -/
theorem advance (h : start.Inside base nesting state)
    (hinner : state.current.kind = .dedent → base ≠ 0) :
    Ensures Parser.advance state
      (fun token after => token = state.current ∧
        start.Inside (state.current.kind.blocksBehind base) nesting after)
      fun error _ => error.isFatal = true := by
  by_cases heof : state.current.kind = .eof
  · refine .of_advance (advance_of_eof h.settled heof) ⟨rfl, ?_⟩
    rwa [heof]
  · rcases advance_cases heof with ⟨after, hadvance, hconsumes⟩ | ⟨failure, after, hadvance, -⟩
    · exact .of_advance hadvance ⟨rfl, h.consume hinner hconsumes⟩
    · exact .of_advance hadvance rfl

theorem signAhead? (h : start.Inside base nesting state) :
    Ensures Parser.signAhead? state
      (fun op? after => match op? with
        | some _ => start.Inside base nesting after ∧ after.current.kind ≠ .dedent
        | none => start.Inside base nesting after)
      fun error after => error.isFatal = true ∨ start.Inside 0 nesting after := by
  apply Ensures.get_bind
  split
  · rename_i hminus
    exact .of_pure ⟨h, by simp [hminus]⟩
  · split
    · rename_i hfault
      split
      · apply record_bind
        · exact fun thrown _ hcause => .inl (by simp [Error.isFatal, hcause])
        · exact .of_pure ⟨h.keep _, fun hkind =>
            h.plain state.current (List.mem_of_mem_head? state.head_ahead) hkind hfault⟩
      · exact .of_throw (.inr h.outward)
    · exact .of_pure h

end Inside

end State

/-! ## Lines and statements -/

def confinedLine (start : State) (base : Nat) : LineInvariant where
  holds := start.Inside base
  signed nesting state := start.Inside base nesting state ∧ state.current.kind ≠ .dedent
  noted _ := True
  broken nesting error after := error.isFatal = true ∨ start.Inside 0 nesting after

theorem confinedLine_sound (start : State) (base : Nat) : (confinedLine start base).Sound where
  inline {nesting state} h hkind := by
    have hcontent := TokenKind.content_of_isInline hkind
    have hdedent : state.current.kind ≠ .dedent := by
      intro hdedent
      rw [hdedent] at hcontent
      contradiction
    apply (State.Inside.advance h fun hkind => absurd hkind hdedent).weaken
    · rintro token after ⟨htoken, hafter⟩
      rw [TokenKind.blocksBehind_of_content hcontent] at hafter
      exact ⟨htoken, hafter⟩
    · exact fun _ _ => .inl
  noted _ _ _ := trivial
  throw h _ _ _ := .inr (State.Inside.outward h)
  sign h := State.Inside.signAhead? h
  signed {nesting state} h := by
    apply (State.Inside.advance h.1 fun hkind => absurd hkind h.2).weaken
    · rintro token after ⟨-, hafter⟩
      apply hafter.shallower
      have hdedent := h.2
      unfold TokenKind.blocksBehind
      split
      · exact Nat.le_succ base
      · contradiction
      · exact Nat.le_refl base
    · exact fun _ _ => .inl
  nesting h := h.nesting
  renest h := h.renest
  renestBroken {nesting error state} h := by
    rcases h with hfatal | hinside
    · exact .inl hfatal
    · have hback := hinside.renest (state.nesting - 1)
      rw [hinside.nesting, Nat.add_sub_cancel] at hback
      rw [hinside.nesting, Nat.add_sub_cancel]
      exact .inr hback

theorem State.Inside.expectOneOf (h : start.Inside base nesting state) {kinds : List TokenKind}
    {base' : Nat} (hinner : .dedent ∈ kinds → base ≠ 0)
    (hkinds : ∀ kind ∈ kinds, kind.blocksBehind base = base') :
    Ensures (Parser.expectOneOf kinds) state (fun _ after => start.Inside base' nesting after)
      fun error after => error.isFatal = true ∨ start.Inside 0 nesting after := by
  apply Ensures.currentToken_bind
  split
  · rename_i hmem
    have hmem : state.current.kind ∈ kinds := by simpa using hmem
    apply (h.advance fun hkind => hinner (hkind ▸ hmem)).weaken
    · rintro token after ⟨-, hafter⟩
      rwa [hkinds _ hmem] at hafter
    · exact fun _ _ => .inl
  · exact .of_throw (.inr h.outward)

def confinedPlaces (start : State) (base : Nat) : StatementInvariant where
  line := confinedLine start base
  body := confinedLine start (base + 1)
  starts := start.Inside base
  announced := start.Inside base
  ends := start.Inside base

theorem confinedPlaces_sound (start : State) (base : Nat) : (confinedPlaces start base).Sound where
  line := confinedLine_sound start base
  body := confinedLine_sound start (base + 1)
  outward h := h
  note h event := h.note event
  lead h := h
  keyword {nesting state} h kind hkeyword :=
    h.expectOneOf (by rintro (_ | ⟨_, ⟨⟩⟩); contradiction) (by
      rintro _ (_ | ⟨_, ⟨⟩⟩)
      exact TokenKind.blocksBehind_of_content (TokenKind.content_of_startsStatement hkeyword) base)
  newline h := h.expectOneOf (by simp) (by simp [TokenKind.blocksBehind])
  announce {nesting state} h kinds hkinds := by
    have hmarker : Ensures (Parser.expectOneOf kinds) state
        (fun _ after => start.Inside base nesting after)
        fun error after => error.isFatal = true ∨ start.Inside 0 nesting after := by
      apply h.expectOneOf
      · intro hmem
        rcases hkinds _ hmem with hkind | hkind <;> cases hkind
      · intro kind hmem
        rcases hkinds kind hmem with rfl | rfl <;> rfl
    apply Ensures.bind hmarker
    exact fun _ _ hmarked => hmarked.expectOneOf (by simp) (by simp [TokenKind.blocksBehind])
  indent h := h.expectOneOf (by simp) (by simp [TokenKind.blocksBehind])
  field h := h.expectOneOf (by simp) (by simp [TokenKind.blocksBehind])
  dedent h := h.expectOneOf (fun _ => Nat.succ_ne_zero base) (by simp [TokenKind.blocksBehind])
  alternative {nesting state} h hkind := by
    have hsame : state.current.kind.blocksBehind base = base := by
      rcases hkind with hkind | hkind <;> rw [hkind] <;> rfl
    apply (h.advance fun hdedent => by simp [hdedent] at hkind).weaken
    · rintro token after ⟨-, hafter⟩
      rwa [hsame] at hafter
    · exact fun _ _ => .inl

/-! ## Blocks -/

def StatementsConfined (fuel : Nat) : Prop :=
  ∀ state : State, state.Settled → state.PlainEnds →
    Ensures (statements fuel) state (fun _ after => state.Inside 0 state.nesting after)
      fun error after => error.isFatal = true ∨ state.Inside 0 state.nesting after

/-- What is read inside of the block of a later state is read inside of that of an earlier one. -/
theorem State.Inside.later {α : Type} {parser : Parser α} (h : start.Inside base nesting state)
    (hparser : Ensures parser state (fun _ after => state.Inside 0 state.nesting after)
      fun error after => error.isFatal = true ∨ state.Inside 0 state.nesting after) :
    Ensures parser state (fun _ after => start.Inside base nesting after)
      fun error after => error.isFatal = true ∨ start.Inside 0 nesting after := by
  rw [h.nesting] at hparser
  apply hparser.weaken
  · exact fun _ _ hafter => h.trans hafter
  · exact fun _ _ hafter => hafter.imp_right fun hinside => (h.trans hinside).outward

theorem statement_confined (ih : ∀ less < fuel, StatementsConfined less) (hsettled : state.Settled)
    (hplain : state.PlainEnds) :
    Ensures (statement fuel) state (fun _ after => state.Inside 0 state.nesting after)
      fun error after => error.isFatal = true ∨ state.Inside 0 state.nesting after := by
  have hstatements : ∀ less < fuel, (confinedPlaces state 0).body.Stays (statements less) :=
    fun less hless _ _ h => h.later (ih less hless _ h.settled h.plain)
  exact ((confinedPlaces_sound state 0).constructs fuel hstatements).statement
    (.refl hsettled hplain)

/-- Going on behind a statement stays inside of the block of the statement, if the statement has. -/
theorem recover_confined (h : state.Inside 0 nesting failed) {start : Nat} :
    Ensures (recover fuel error start state.openBlocks) failed
      (fun _ after => state.Inside 0 nesting after)
      fun thrown after => thrown.isFatal = true ∨ state.Inside 0 nesting after := by
  have hmoves : Ensures (recover fuel error start state.openBlocks) failed
      (fun _ last => failed.Moves last ∧ last.errors ≠ failed.errors)
      fun thrown last => thrown.isFatal = true ∨ failed.Moves last :=
    recover_later h.settled (.inr (.refl failed))
  have hrestored := recover_bounded fuel error start state.openBlocks failed rfl
  apply ((recover_skips.and hmoves).and hrestored).weaken
  · rintro _ after ⟨⟨⟨-, skipped, hskips, -⟩, hmoved, -⟩, -, hafter⟩
    exact h.skip hskips hmoved hafter.nesting
  · rintro thrown after ⟨⟨⟨skipped, rest, hskips⟩, hmoved⟩, hafter⟩
    exact hmoved.imp_right fun hmoved => h.skip hskips hmoved hafter.nesting

private theorem statements_succ_confined (ih : ∀ less < fuel + 1, StatementsConfined less) :
    StatementsConfined (fuel + 1) := by
  intro state hsettled hplain
  have hrest : StatementsConfined fuel := ih fuel (Nat.lt_succ_self fuel)
  unfold statements
  apply Ensures.get_bind
  split
  · exact .of_pure (.refl hsettled hplain)
  · have hstatement := statement_confined (fun less hless => ih less (Nat.lt_succ_of_lt hless))
      hsettled hplain
    apply Ensures.bind hstatement.attempt
    intro result middle hmiddle
    cases result with
    | ok stmt =>
        have hmiddle : state.Inside 0 state.nesting middle := hmiddle
        apply Ensures.bind (hmiddle.later (hrest middle hmiddle.settled hmiddle.plain))
        exact fun _ _ hlast => .of_pure hlast
    | error error =>
        rcases hmiddle with hfatal | hmiddle
        · exact Ensures.bind (recover_of_fatal hfatal (.inl hfatal)) fun _ _ => False.elim
        · apply Ensures.bind (recover_confined hmiddle)
          intro _ last hlast
          exact hlast.later (hrest last hlast.settled hlast.plain)

theorem statements_confined (fuel : Nat) : StatementsConfined fuel := by
  induction fuel using Nat.strongRecOn with
  | ind fuel ih =>
      cases fuel with
      | zero => exact fun _ _ _ => .of_exhausted
      | succ fuel => exact statements_succ_confined ih

end Offside.Parse
