import Offside.Proofs.Grammar.ClauseCompleteness
import Offside.Proofs.Parsing.Mention
import Offside.Proofs.Recovery.Group

/-!
# Headers without a block

The line of a function, a condition, a loop or a record lacks its block if there is none behind it.
Where no token is an error, the line of every group that lacks its block ends like this.
-/

namespace Offside

namespace Grammar

open Text (Position)

/-- A line that announces a block, up to its marker. -/
inductive Lead where
  | function (heading : Heading)
  | conditional (keyword : Position) (condition : Phrase .expression)
  | loop (keyword : Position) (condition : Phrase .expression)
  | record (keyword : Position) (name : Identifier)

namespace Lead

def tokens : Lead → List Token
  | function heading => heading.tokens
  | conditional keyword condition => .plain .ifKeyword keyword :: condition.tokens
  | loop keyword condition => .plain .whileKeyword keyword :: condition.tokens
  | record keyword name => [.plain .structKeyword keyword, name.token]

def tree : Lead → Parse.Heading
  | function heading => .function heading.tree
  | conditional _ condition => .conditional condition.tree
  | loop _ condition => .loop condition.tree
  | record _ name => .record name

def depth : Lead → Nat
  | function _ | record _ _ => 0
  | conditional _ condition | loop _ condition => condition.depth

theorem exists_keyword (lead : Lead) :
    ∃ keyword rest, lead.tokens = keyword :: rest ∧
      Parse.Parser.startsHeading keyword.kind = true := by
  cases lead <;> exact ⟨_, _, rfl, rfl⟩

end Lead

open Parse (Accepts Completes Derives State)
open Parse.Parser

variable {state : State} {fuel : Nat}

private theorem condition_derives {keyword : TokenKind} (wrap : Expr → Parse.Heading)
    (hkeyword : keyword ≠ .eof) (hplain : keyword.carriesPayload = false) (fuel : Nat)
    (hsettled : state.Settled) :
    Derives
      (do
        let _ ← expect keyword
        return wrap (← expression fuel))
      state fun value tokens depth =>
        ∃ (position : Position) (condition : Phrase .expression), wrap condition.tree = value ∧
          tokens = .plain keyword position :: condition.tokens ∧ depth = condition.depth := by
  apply Derives.bind hsettled (Derives.expect hkeyword hplain)
  intro _ begun hbegun
  apply Derives.bind hbegun ((readsPhrases fuel).expression begun hbegun)
  intro _ last _
  apply Derives.of_pure
  rintro _ _ ⟨condition, rfl, rfl, rfl⟩ _ _ ⟨position, rfl, rfl⟩
  exact ⟨position, condition, rfl, by simp, by simp⟩

theorem heading_derives (fuel : Nat) (hsettled : state.Settled) :
    Derives (heading fuel) state fun value tokens depth =>
      ∃ lead : Lead, lead.tree = value ∧ lead.tokens = tokens ∧ lead.depth = depth := by
  apply Derives.currentToken_bind
  split
  · apply Derives.bind hsettled (header_derives fuel hsettled)
    intro _ last _
    apply Derives.of_pure
    rintro _ _ ⟨heading, rfl, rfl, rfl⟩
    exact ⟨.function heading, rfl, by simp [Lead.tokens], rfl⟩
  · apply (condition_derives .conditional (by simp) rfl fuel hsettled).weaken
    rintro _ _ _ ⟨keyword, condition, rfl, rfl, rfl⟩
    exact ⟨.conditional keyword condition, rfl, rfl, rfl⟩
  · apply (condition_derives .loop (by simp) rfl fuel hsettled).weaken
    rintro _ _ _ ⟨keyword, condition, rfl, rfl, rfl⟩
    exact ⟨.loop keyword condition, rfl, rfl, rfl⟩
  · apply Derives.bind hsettled (Derives.expect (by simp) rfl)
    intro _ begun hbegun
    apply Derives.bind hbegun (Derives.identifier hbegun)
    intro name last _
    apply Derives.of_pure
    rintro _ _ ⟨rfl, rfl⟩ _ _ ⟨keyword, rfl, rfl⟩
    exact ⟨.record keyword name, rfl, by simp [Lead.tokens], by simp [Lead.depth]⟩
  · exact Derives.of_throw

private theorem condition_accepts {keyword : TokenKind} {position : Position}
    {condition : Phrase .expression} {marker : Token} {rest : List Token}
    (wrap : Expr → Parse.Heading) (hkeyword : keyword ≠ .eof) (hmarker : marker.kind ∈ [.colon])
    (hsees : state.Sees (.plain keyword position :: (condition.tokens ++ marker :: rest)))
    (hroom : condition.depth ≤ state.room) :
    Accepts
      (do
        let _ ← expect keyword
        return wrap (← expression fuel))
      state (wrap condition.tree) (marker :: rest) := by
  have hcolon : marker.kind = .colon := List.mem_singleton.1 hmarker
  apply Accepts.bind (Accepts.expect hsees hkeyword)
  intro begun hbegun
  apply Accepts.bind ((acceptsPhrases fuel).expression condition begun _
    ⟨hbegun.sees, heads_cons.2 (by rw [hcolon]; rfl), by rw [hbegun.room_eq]; exact hroom⟩)
  intro last hlast
  exact .of_pure hlast.sees

theorem heading_accepts {marker newline : Token} {rest : List Token} (lead : Lead)
    (hsees : state.Sees (lead.tokens ++ marker :: newline :: rest))
    (hmarker : marker.kind ∈ lead.tree.markers) (hnewline : newline.kind = .newline)
    (hroom : lead.depth ≤ state.room) :
    Accepts (heading fuel) state lead.tree (marker :: newline :: rest) := by
  apply Accepts.currentToken_bind
  cases lead with
  | function heading =>
      have hkind : state.current.kind = .funcKeyword := by rw [hsees.current]; rfl
      rw [hkind]
      apply Accepts.bind (header_accepts heading hsees (Heading.endsBefore_marker _ _ _ hnewline))
      intro last hlast
      exact .of_pure hlast.sees
  | conditional keyword condition =>
      have hkind : state.current.kind = .ifKeyword := by rw [hsees.current]; rfl
      rw [hkind]
      exact condition_accepts .conditional (by simp) hmarker hsees hroom
  | loop keyword condition =>
      have hkind : state.current.kind = .whileKeyword := by rw [hsees.current]; rfl
      rw [hkind]
      exact condition_accepts .loop (by simp) hmarker hsees hroom
  | record keyword name =>
      have hkind : state.current.kind = .structKeyword := by rw [hsees.current]; rfl
      rw [hkind]
      apply Accepts.bind (Accepts.expect hsees (by simp))
      intro begun hbegun
      apply Accepts.bind (Accepts.identifier hbegun.sees)
      intro last hlast
      exact .of_pure hlast.sees

theorem heading_completes (h : state.WellFormed) (hfuel : state.need + 14 ≤ fuel) :
    Completes (heading fuel) state fun _ _ => True := by
  refine (currentToken_completes h).bind ?_
  rintro _ _ - - ⟨rfl, rfl⟩
  split
  · refine (header_completes h (by omega)).bind ?_
    exact fun _ _ hlast _ _ => .of_pure hlast trivial
  · refine (expect_completes h (by decide)).bind ?_
    intro _ begun hbegun hadvances _
    have := hadvances.need_le
    refine ((expressionsComplete fuel).expression begun hbegun (by omega)).bind ?_
    exact fun _ _ hlast _ _ => .of_pure hlast trivial
  · refine (expect_completes h (by decide)).bind ?_
    intro _ begun hbegun hadvances _
    have := hadvances.need_le
    refine ((expressionsComplete fuel).expression begun hbegun (by omega)).bind ?_
    exact fun _ _ hlast _ _ => .of_pure hlast trivial
  · refine (expect_completes h (by decide)).bind ?_
    intro _ begun hbegun _ _
    refine (identifier_completes hbegun).bind ?_
    exact fun _ _ hlast _ _ => .of_pure hlast trivial
  · exact .of_throw h

end Grammar

namespace Parse

open Grammar (Lead)

variable {state start after : State} {nesting : Nat}

theorem State.exists_announces {marker newline : Token} {rest : List Token} (lead : Lead)
    (hsees : state.Sees (lead.tokens ++ marker :: newline :: rest))
    (hmarker : marker.kind ∈ lead.tree.markers) (hnewline : newline.kind = .newline)
    (hroom : lead.depth ≤ state.room) : ∃ after, state.Announces after := by
  obtain ⟨result, after, hrun, -⟩ :=
    Grammar.heading_completes hsees.settled.wellFormed (Nat.le_refl (state.need + 14))
  have haccepts := Grammar.heading_accepts lead hsees hmarker hnewline hroom result after hrun
  cases result with
  | error error => exact haccepts.elim
  | ok value =>
      obtain ⟨rfl, hafter⟩ := haccepts
      refine ⟨after, _, lead.tree, hrun, ?_, ?_⟩
      · rwa [hafter.sees.current]
      · rwa [State.next_of_ahead hafter.sees.ahead]

/-! ## Lines without errors -/

/-- Nothing has been recorded on the way. -/
structure State.Quiet (start : State) (nesting : Nat) (state : State) : Prop where
  moves : start.Moves state
  settled : state.Settled
  nesting : state.nesting = nesting
  errors : state.errors = start.errors

theorem State.Quiet.advance (h : start.Quiet nesting state) :
    Ensures Parser.advance state
      (fun token after => token = state.current ∧ start.Quiet nesting after) fun _ _ => True := by
  by_cases heof : state.current.kind = .eof
  · exact .of_advance (advance_of_eof h.settled heof) ⟨rfl, h⟩
  · rcases advance_cases heof with ⟨after, hadvance, hconsumes⟩ | ⟨failure, after, hadvance, -⟩
    · exact .of_advance hadvance ⟨rfl, h.moves.trans (.of_step (.consume hconsumes)),
        hconsumes.settled, hconsumes.nesting.trans h.nesting, hconsumes.errors.trans h.errors⟩
    · exact .of_advance hadvance trivial

def quiet (start : State) : LineInvariant where
  holds := start.Quiet
  signed := start.Quiet
  noted _ := True
  broken _ _ _ := True

theorem quiet_sound (hfaultless : ∀ token, .ok token ∈ start.ahead → token.fault? = none) :
    (quiet start).Sound where
  inline h _ := State.Quiet.advance h
  noted _ _ _ := trivial
  throw _ _ _ _ := trivial
  sign {nesting state} h := by
    have hfault : state.current.fault? = none := by
      obtain ⟨consumed, hahead⟩ := (State.Quiet.moves h).ahead
      apply hfaultless
      rw [hahead]
      exact List.mem_append_right _ (List.mem_of_mem_head? state.head_ahead)
    apply Ensures.get_bind
    split
    · exact .of_pure h
    · rw [if_neg (by simp [hfault])]
      exact .of_pure h
  signed h := (State.Quiet.advance h).weaken (fun _ _ hafter => hafter.2) fun _ _ => id
  nesting h := h.nesting
  renest h _ := ⟨State.Moves.trans h.moves (.of_step (.renest _ _)), h.settled, rfl, h.errors⟩
  renestBroken _ := trivial

theorem State.Announces.errors (h : state.Announces after) (hsettled : state.Settled)
    (hfaultless : ∀ token, .ok token ∈ state.ahead → token.fault? = none) :
    after.errors = state.errors := by
  obtain ⟨fuel, heading, hrun, -⟩ := h
  have hquiet : state.Quiet state.nesting state := ⟨.refl state, hsettled, rfl, rfl⟩
  have hreads := (quiet_sound hfaultless).heading_reads fuel hquiet fun kind _ => by
    apply Ensures.currentToken_bind
    split
    · exact (State.Quiet.advance hquiet).weaken (fun _ _ hafter => hafter.2) fun _ _ => id
    · exact .of_throw trivial
  exact (hreads.ok hrun).errors

/-- Where no token is an error, what is announced is a header. -/
theorem State.Announces.exists_lead (h : state.Announces after) (hsettled : state.Settled)
    (hfaithful : state.Faithful)
    (hfaultless : ∀ token, .ok token ∈ state.ahead → token.fault? = none) :
    ∃ lead : Lead, state.ahead = lead.tokens.map .ok ++ after.ahead ∧
      after.current.kind ∈ lead.tree.markers ∧ lead.depth ≤ state.room := by
  have herrors := h.errors hsettled hfaultless
  obtain ⟨fuel, heading, hrun, hmarker, -⟩ := h
  obtain ⟨-, hderived⟩ := Grammar.heading_derives fuel hsettled _ _ hrun
  obtain ⟨_, _, ⟨lead, rfl, rfl, rfl⟩, hreads⟩ := hderived ⟨hfaithful, herrors⟩
  exact ⟨lead, hreads.ahead, hmarker, hreads.depth⟩

end Parse

open Parse
open Grammar (Lead)

namespace Group

variable {group : Group} {config : Config}

/-- A header without a block lacks its block. -/
theorem lacksBlock_of_lead {marker : Token} (lead : Lead) (hblock : group.block? = none)
    (hline : group.line = lead.tokens ++ [marker]) (hmarker : marker.kind ∈ lead.tree.markers)
    (hdepth : lead.depth ≤ config.maxDepth) : group.LacksBlock config := by
  obtain ⟨opened, hopened, hiff⟩ := group.exists_opened config
  have hsees : opened.Sees (lead.tokens ++ marker :: .plain .newline group.ending ::
      [.plain .dedent .start, .plain .eof .start]) := by
    simpa [tokens_of_none hblock, hline] using hopened.sees
  have hroom : lead.depth ≤ opened.room := by
    rw [State.room, hopened.config, hopened.nesting]
    exact hdepth
  obtain ⟨after, hannounces⟩ := State.exists_announces lead hsees hmarker rfl hroom
  exact hiff.2 ⟨hblock, opened, after, .refl, hannounces⟩

/-- Where no token is an error, the line of a group that lacks its block ends in a header. -/
theorem LacksBlock.exists_lead (h : group.LacksBlock config)
    (hfaithful : ∀ token ∈ group.line, token.Faithful)
    (hkind : ∀ token ∈ group.line, token.kind ≠ .error) :
    ∃ (before : List Token) (lead : Lead) (marker : Token),
      group.line = before ++ (lead.tokens ++ [marker]) ∧ marker.kind ∈ lead.tree.markers ∧
        lead.depth ≤ config.maxDepth := by
  obtain ⟨opened, hopened, hiff⟩ := group.exists_opened config
  obtain ⟨hblock, state, after, hway, hannounces⟩ := hiff.1 h
  have hmoves := State.drops_moves hway hopened.sees.settled
  obtain ⟨before, spent, hline, hahead⟩ := group.announced_line hblock
    (by simp [Token.plain, TokenKind.isStructural]) hopened hmoves hannounces
  have hclean : ∀ token, .ok token ∈ opened.ahead → token.Faithful ∧ token.fault? = none := by
    intro token htoken
    rw [hopened.sees.ahead, tokens_of_none hblock] at htoken
    simp only [List.mem_map, List.mem_append, List.mem_cons, List.not_mem_nil, or_false,
      Except.ok.injEq, exists_eq_right] at htoken
    rcases htoken with (htoken | rfl) | rfl | rfl
    · refine ⟨hfaithful token htoken, ?_⟩
      cases hfault : token.fault? with
      | none => rfl
      | some fault =>
          have herror := congrArg Token.kind ((hfaithful token htoken).eq_error hfault)
          exact absurd herror (hkind token htoken)
    all_goals exact ⟨rfl, rfl⟩
  have hclean' : ∀ token, .ok token ∈ state.ahead → token.Faithful ∧ token.fault? = none := by
    obtain ⟨skipped, hskipped⟩ := hmoves.ahead
    intro token htoken
    apply hclean
    rw [hskipped]
    exact List.mem_append_right _ htoken
  obtain ⟨lead, hlead, hmarker, hdepth⟩ := hannounces.exists_lead
    (hmoves.settled hopened.sees.settled) (fun token htoken => (hclean' token htoken).1)
    fun token htoken => (hclean' token htoken).2
  refine ⟨before, lead, after.current, ?_, hmarker, ?_⟩
  · rw [hahead] at hlead
    rwa [← (List.map_inj_right fun _ _ => Except.ok.inj).1 (List.append_cancel_right hlead)]
  · rw [State.room, hmoves.config, hopened.config] at hdepth
    exact Nat.le_trans hdepth (Nat.sub_le _ _)

end Group

end Offside
