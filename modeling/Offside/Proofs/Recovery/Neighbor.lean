import Offside.Proofs.Grammar.Acceptance
import Offside.Proofs.Recovery.Lead
import Offside.Proofs.Recovery.Loss

/-!
# A broken statement and the one behind it

With recovery on, a statement without errors is read behind a group of tokens that may be broken in
any way: a line with the block behind it.  The exception is a line that announces a block and has
none: it is noticed to be broken only at the first token behind it, and unless that is a keyword of
statements, the rest of the following line is skipped as well.
-/

namespace Offside

namespace Parse

open Parse.Parser
open Relation (ReflTransGen)
open Text (Position)

/-! ## Behind a group -/

variable {fence : Fence} {start state opened : State} {fuel : Nat} {front : List Token} {block : Block}

theorem Fence.At.suffix {level nesting nesting' : Nat} {front front' : List Token} {after : State}
    (h : fence.At level nesting front state) (h' : fence.At level nesting' front' after)
    (hahead : after.ahead <:+ state.ahead) : front' <:+ front := by
  obtain ⟨before, hbefore⟩ := hahead
  rw [h.sees.ahead, h'.sees.ahead] at hbefore
  obtain ⟨spent, rest, hsplit, -, hrest⟩ := List.map_eq_append_iff.1 hbefore.symm
  obtain rfl := (List.map_inj_right fun _ _ => Except.ok.inj).1 hrest
  rw [← List.append_assoc] at hsplit
  exact ⟨spent, (List.append_cancel_right hsplit).symm⟩

theorem Fence.At.suffix_of_ends {level nesting nesting' : Nat} {front front' : List Token}
    {after : State} (h : fence.At level nesting front state)
    (h' : fence.At level nesting' front' after) (hends : state.Ends after) :
    ∃ last, last :: front' <:+ front ∧ (last.kind = .newline ∨ last.kind = .dedent) := by
  obtain ⟨last, ⟨before, hbefore⟩, hkind⟩ := hends
  rw [h.sees.ahead, h'.sees.ahead] at hbefore
  have hmap : (.ok last :: (front' ++ fence.tail).map .ok : List Item) =
      (last :: (front' ++ fence.tail)).map .ok := rfl
  rw [hmap] at hbefore
  obtain ⟨spent, rest, hsplit, -, hrest⟩ := List.map_eq_append_iff.1 hbefore.symm
  obtain rfl := (List.map_inj_right fun _ _ => Except.ok.inj).1 hrest
  rw [← List.cons_append, ← List.append_assoc] at hsplit
  exact ⟨last, ⟨spent, (List.append_cancel_right hsplit).symm⟩, hkind⟩

/-- In front of a fence that is exposed, statements are dropped one after the other, up to one that is
read and ends in front of the fence. -/
theorem Fence.statements_arrive (run : CleanRun fence.config fence.tail block) {tokens : List Token}
    (hends : fence.exposed → ∀ last rest, last :: rest <:+ tokens →
      last.kind = .newline ∨ last.kind = .dedent → rest = [])
    (hlate : fence.exposed → ∀ state after, ReflTransGen State.Drops start state →
      state.Announces after → after.Clears fence.tail → fence.IsKeyword) (fuel : Nat) :
    ∀ {front : List Token} {state : State}, fence.At 1 0 front state → front <:+ tokens →
      state.cost ≤ fence.config.maxErrors →
      (fence.exposed → front ≠ [] → ReflTransGen State.Drops start state) →
      Ensures (statements fuel) state
        (fun whole after => (∃ before, whole = before ++ block) ∧ run.read.Matches after)
        fun _ _ => False := by
  induction fuel with
  | zero => exact fun _ _ _ _ => Ensures.of_exhausted
  | succ fuel ih =>
      intro front state h htokens hroom hway
      cases front with
      | nil =>
          apply (run.statements_ensures h.sees h.nesting h.config).weaken
          · rintro _ after ⟨rfl, hafter⟩
            exact ⟨⟨[], rfl⟩, hafter⟩
          · exact fun _ _ hfalse => hfalse
      | cons token front =>
          have hne : token :: front ≠ [] := List.cons_ne_nil token front
          have hdedent : token.kind ≠ .dedent := by
            intro hkind
            have hlevel := h.front.leads.2.1
            rw [hkind] at hlevel
            contradiction
          have hnotice : Ensures (statement fuel) state (fun _ _ => True) fun _ after =>
              fence.exposed → 1 = 1 → after.ahead = fence.tail.map .ok → fence.IsKeyword := by
            apply (announces_of_late fuel h hne hroom).weaken (fun _ _ => id)
            intro _ after hannounces hexposed _ hahead
            obtain ⟨last, hlast, hclears⟩ := hannounces hahead
            exact hlate hexposed state last (hway hexposed hne) hlast hclears
          apply Fence.statements_succ (fun less _ => Fence.statementsLand fence less) h Nat.one_ne_zero
            hdedent hroom hnotice
          · rintro stmt rest last ⟨⟨before, rfl⟩, hlast⟩
            exact ⟨⟨stmt :: before, rfl⟩, hlast⟩
          · intro front' after hafter hspends hstep
            apply ih hafter ((h.suffix hafter hspends.ahead).trans htokens)
              (Nat.le_trans hspends.paid hroom)
            intro hexposed hfront
            rcases hstep with hstops | hdrops
            · obtain ⟨last, hlast, hkind⟩ := h.suffix_of_ends hafter hstops
              exact absurd (hends hexposed last front' (hlast.trans htokens) hkind) hfront
            · exact (hway hexposed hne).tail hdrops

theorem Fence.program_arrives {opening : Position}
    (hcurrent : state.current = .plain .indent opening)
    (hadvance : state.advance = (.ok (.plain .indent opening), opened))
    (hopened : opened.Opened fence.config (front ++ fence.tail)) (hfront : fence.Front 1 front)
    (hends : fence.exposed → ∀ last rest, last :: rest <:+ front →
      last.kind = .newline ∨ last.kind = .dedent → rest = [])
    (hlate : fence.exposed → ∀ state after, ReflTransGen State.Drops opened state →
      state.Announces after → after.Clears fence.tail → fence.IsKeyword)
    (hroom : opened.cost ≤ fence.config.maxErrors) (run : CleanRun fence.config fence.tail block) :
    Ensures (program fuel) state (fun whole _ => ∃ before, whole = before ++ block)
      fun _ _ => False := by
  apply Ensures.currentToken_bind
  rw [hcurrent, if_pos (by simp [Token.plain])]
  have hat : fence.At 1 0 front opened :=
    ⟨hopened.sees, hfront, hopened.openBlocks, hopened.nesting, hopened.config⟩
  have hconsumed : Ensures advance state (fun _ after => after = opened) fun _ _ => False :=
    .of_advance hadvance rfl
  apply Ensures.bind hconsumed
  rintro _ _ rfl
  apply Ensures.bind (statements_arrive run hends hlate fuel hat List.suffix_rfl hroom
    fun _ _ => .refl)
  rintro whole read ⟨hwhole, hread⟩
  apply (run.closing_ensures hread whole).weaken
  · rintro _ _ rfl
    exact hwhole
  · exact fun _ _ hfalse => hfalse

end Parse

open Parse
open Relation (ReflTransGen)
open Scan (TokenStream)
open Text (Position)

variable {first second : Group} {opening closing last : Position} {config : Config} {stmt : Stmt}

/-- A group whose line announces no block, or with a block, hides no statement behind it, and none hides
one that starts with a keyword. -/
theorem parsed_behind_of_block (hrecover : config.recover = true)
    (hroom : 2 * (enclosed opening closing last (first.tokens ++ second.tokens)).length ≤
      config.maxErrors)
    (halternative : ∀ token ∈ second.tokens.head?,
      token.kind ≠ .elifKeyword ∧ token.kind ≠ .elseKeyword)
    (halone : (parseStream (.ofTokens (enclosed opening closing last second.tokens)) config).parsed =
      .ok ⟨[stmt], []⟩)
    (hblock : ¬ first.LacksBlock config ∨
      ∀ token ∈ second.tokens.head?, token.kind.startsStatement = true) :
    ∃ before errors,
      (parseStream (.ofTokens (enclosed opening closing last (first.tokens ++ second.tokens)))
        config).parsed = .ok ⟨before ++ [stmt], errors⟩ := by
  obtain ⟨run⟩ := cleanRun_of_enclosed second.leads.ne_eof halone
  obtain ⟨token, rest, htokens, hindent⟩ := second.exists_cons
  rw [htokens] at halternative hblock
  let fence : Fence :=
    { config
      first := token
      rest := rest ++ [.plain .dedent closing, .plain .eof last]
      exposed := first.block? = none
      recover := hrecover
      indent := hindent
      alternative := halternative token rfl }
  have htail : second.tokens ++ [.plain .dedent closing, .plain .eof last] = fence.tail := by
    simp [htokens, Fence.tail, fence]
  rw [htail] at run
  have heof : ∀ token ∈ first.tokens ++ second.tokens, token.kind ≠ .eof :=
    List.forall_mem_append.2 ⟨first.leads.ne_eof, second.leads.ne_eof⟩
  obtain ⟨state, hstate, hfresh, hsees⟩ := exists_sees_enclosed opening closing last config heof
  rw [enclosed] at hsees
  obtain ⟨opened, hadvance, hopened⟩ := State.exists_opened hfresh hsees
  rw [List.append_assoc, htail] at hopened
  have hcost : opened.cost ≤ config.maxErrors := by
    rw [enclosed, List.length_cons, List.append_assoc, htail] at hroom
    rw [State.cost, hopened.sees.ahead, hopened.errors, List.length_map, List.length_nil]
    omega
  have hlate : fence.exposed → ∀ state after, ReflTransGen State.Drops opened state →
      state.Announces after → after.Clears fence.tail → fence.IsKeyword := by
    intro hexposed state after hway hannounces hclears
    rcases hblock with hlacks | hkeyword
    · obtain ⟨alone, halone, hiff⟩ := first.exists_opened config
      have hsettled := (State.drops_moves hway hopened.sees.settled).settled hopened.sees.settled
      have hmoves := hannounces.moves hsettled
      obtain ⟨there, hthere, hbeside⟩ :=
        State.drops_beside hway (hopened.beside halone) (hmoves.clears hclears)
      obtain ⟨last, hlast, -⟩ := hannounces.beside hbeside hclears
      exact absurd (hiff.2 ⟨hexposed, there, last, hthere, hlast⟩) hlacks
    · exact hkeyword token rfl
  obtain ⟨block, after, hparsed, before, rfl⟩ := exists_parsed_of_ensures hstate
    (Fence.program_arrives hsees.current hadvance hopened (first.front id)
      (fun hexposed _ _ => Group.eq_nil_of_newline hexposed) hlate hcost run)
  exact ⟨before, after.errors, hparsed⟩

/-! ## Behind a line that lacks its block -/

theorem append_newline_inj {line line' rest rest' : List Token} {newline newline' : Token}
    (hline : ∀ token ∈ line, token.kind.isStructural = false)
    (hline' : ∀ token ∈ line', token.kind.isStructural = false)
    (hnewline : newline.kind = .newline) (hnewline' : newline'.kind = .newline)
    (h : line ++ newline :: rest = line' ++ newline' :: rest') : line = line' ∧ rest = rest' := by
  rcases List.append_eq_append_iff.1 h with ⟨beyond, rfl, hbeyond⟩ | ⟨under, rfl, hunder⟩
  · cases beyond with
    | nil => exact ⟨(List.append_nil line).symm, (List.cons.inj hbeyond).2⟩
    | cons token beyond =>
        obtain ⟨rfl, -⟩ := List.cons.inj hbeyond
        have hcontent := hline' newline (by simp)
        rw [hnewline] at hcontent
        contradiction
  · cases under with
    | nil => exact ⟨List.append_nil line', ((List.cons.inj hunder).2).symm⟩
    | cons token under =>
        obtain ⟨rfl, -⟩ := List.cons.inj hunder
        have hcontent := hline newline' (by simp)
        rw [hnewline'] at hcontent
        contradiction

/-- A group that is read without an error and starts with no keyword is the line of an expression. -/
theorem Group.exists_line
    (halone : (parseStream (.ofTokens (enclosed opening closing last second.tokens)) config).parsed =
      .ok ⟨[stmt], []⟩)
    (hstarts : ∀ token ∈ second.tokens.head?, token.kind.startsStatement = false) :
    ∃ line newline, second.tokens ++ [.plain .dedent closing, .plain .eof last] =
        line ++ newline :: .plain .dedent closing :: [.plain .eof last] ∧
      (∀ token ∈ line, token.kind.isInline = true) ∧ newline.kind = .newline := by
  obtain ⟨run⟩ := cleanRun_of_enclosed second.leads.ne_eof halone
  have hkind : ∀ token ∈ (second.tokens ++ [Token.plain .dedent closing, .plain .eof last]).head?,
      token.kind.startsStatement = false := by
    obtain ⟨token, rest, htokens, -⟩ := second.exists_cons
    rw [htokens] at hstarts ⊢
    exact hstarts
  obtain ⟨line, newline, behind, hsplit, hline, hnewline, hclosing⟩ := run.exists_line hkind
  have hcontent := fun token htoken => TokenKind.content_of_isInline (hline token htoken)
  rw [Group.tokens, List.append_assoc, List.cons_append] at hsplit
  obtain ⟨-, hbehind⟩ := append_newline_inj second.content hcontent rfl hnewline hsplit
  cases hblock : second.block? with
  | none => exact ⟨second.line, .plain .newline second.ending, by simp [Group.tokens, hblock],
      by rwa [(append_newline_inj second.content hcontent rfl hnewline hsplit).1], rfl⟩
  | some block =>
      rw [hblock] at hbehind
      have hindent : behind.head? = some (.plain .indent block.opening) := by
        rw [← hbehind]
        rfl
      rcases hclosing _ hindent with hkind | hkind <;> contradiction

/-- Where a group lacks its block, the parser drops statements up to the line that announces it also in
front of other tokens. -/
theorem exists_announced (hlacks : first.LacksBlock config) {opened : State} {tail : List Token}
    (hopened : opened.Opened config (first.tokens ++ tail)) :
    ∃ state after marker, ReflTransGen State.Drops opened state ∧ state.Announces after ∧
      after.Sees (marker :: .plain .newline first.ending :: tail) := by
  obtain ⟨alone, halone, hiff⟩ := first.exists_opened config
  obtain ⟨hblock, start, announced, hway, hannounces⟩ := hiff.1 hlacks
  have hmoves := State.drops_moves hway halone.sees.settled
  have hsees := first.announced_ahead hblock (by simp [Token.plain, TokenKind.isStructural]) halone
    hmoves hannounces
  have hclears : announced.Clears [.plain .dedent .start, .plain .eof .start] := by
    rw [State.Clears, hsees.ahead]
    exact Nat.le_refl _
  have hlater := hannounces.moves (hmoves.settled halone.sees.settled)
  obtain ⟨state, hway', hbeside⟩ :=
    State.drops_beside hway (halone.beside hopened) (hlater.clears hclears)
  obtain ⟨after, hannounces', hbeside'⟩ := hannounces.beside hbeside hclears
  refine ⟨state, after, announced.current, hway', hannounces', ?_⟩
  obtain ⟨ahead, hhere, hafter⟩ := hbeside'.sees
  have hahead : ahead ++ [.plain .dedent .start, .plain .eof .start] =
      [announced.current, .plain .newline first.ending] ++
        [.plain .dedent .start, .plain .eof .start] :=
    (List.map_inj_right fun _ _ => Except.ok.inj).1 (hhere.ahead.symm.trans hsees.ahead)
  rwa [List.append_cancel_right hahead] at hafter

theorem statements_lost (hlacks : first.LacksBlock config) {opened : State} {line tail : List Token}
    {newline dedent : Token}
    (hopened : opened.Opened config (first.tokens ++ (line ++ newline :: dedent :: tail)))
    (hline : ∀ token ∈ line, token.kind.isInline = true) (hnewline : newline.kind = .newline)
    (hdedent : dedent.kind = .dedent) (fuel : Nat) :
    Ensures (Parser.statements fuel) opened (fun block _ => block = []) fun _ _ => True := by
  obtain ⟨state, after, marker, hway, hannounces, hafter⟩ := exists_announced hlacks hopened
  have hmoves := State.drops_moves hway hopened.sees.settled
  have hlater := hannounces.moves (hmoves.settled hopened.sees.settled)
  have hfront : ∀ middle : State, opened.Moves middle → middle.Moves after →
      ∃ front, front ≠ [] ∧ front <:+ first.tokens ∧
        middle.Sees (front ++ (line ++ newline :: dedent :: tail)) := by
    intro middle hmiddle hbehind
    refine (hopened.sees.cut hmiddle).resolve_left fun hless => ?_
    obtain ⟨spent, hahead⟩ := hbehind.ahead
    have hlength := congrArg List.length hahead
    simp only [hafter.ahead, List.length_append, List.length_map, List.length_cons] at hlength hless
    omega
  have hflat := first.flat_of_none hlacks.1
  apply statements_of_way hway hopened.sees.settled
  · intro middle hmiddle hbehind
    obtain ⟨front, hne, hsuffix, hsees⟩ := hfront middle hmiddle (hbehind.trans hlater)
    obtain ⟨token, front, rfl⟩ := List.exists_cons_of_ne_nil hne
    rw [hsees.current]
    exact (hflat token (hsuffix.subset List.mem_cons_self)).2
  · intro fuel
    obtain ⟨front, hne, hsuffix, hsees⟩ := hfront state hmoves hlater
    exact statements_announced hannounces hsees hne
      (fun token htoken => (hflat token (hsuffix.subset htoken)).imp_right And.left) hafter hline
      hnewline hdedent

/-- An expression behind a line that announces a block and has none is skipped. -/
theorem block_of_lacksBlock {parsed : Parsed} (hlacks : first.LacksBlock config)
    (halone : (parseStream (.ofTokens (enclosed opening closing last second.tokens)) config).parsed =
      .ok ⟨[stmt], []⟩)
    (hstarts : ∀ token ∈ second.tokens.head?, token.kind.startsStatement = false)
    (hparsed : (parseStream (.ofTokens (enclosed opening closing last
      (first.tokens ++ second.tokens))) config).parsed = .ok parsed) : parsed.block = [] := by
  obtain ⟨line, newline, hsecond, hline, hnewline⟩ := Group.exists_line halone hstarts
  obtain ⟨state, hfresh, hblock, -⟩ := parsed_eq_ok hparsed
  have heof : ∀ token ∈ first.tokens ++ second.tokens, token.kind ≠ .eof :=
    List.forall_mem_append.2 ⟨first.leads.ne_eof, second.leads.ne_eof⟩
  have hsees : state.Sees (enclosed opening closing last (first.tokens ++ second.tokens)) :=
    ⟨hfresh.settled, hfresh.ahead.trans (untilEof_enclosed _ _ _ heof), ended_enclosed ..⟩
  rw [enclosed] at hsees
  obtain ⟨opened, hadvance, hopened⟩ := State.exists_opened hfresh hsees
  rw [List.append_assoc, hsecond] at hopened
  have hprogram : Ensures (Parser.program state.fuel) state (fun block _ => block = [])
      fun _ _ => True := by
    have hconsumed : Ensures Parser.advance state (fun _ after => after = opened) fun _ _ => True :=
      .of_advance hadvance rfl
    apply Ensures.currentToken_bind
    rw [hsees.current, if_pos (by simp [Token.plain])]
    apply Ensures.bind hconsumed
    rintro _ _ rfl
    apply Ensures.bind (statements_lost hlacks hopened hline hnewline rfl _)
    rintro block read rfl
    apply Ensures.bind (.of_forall (fun _ _ => trivial) fun _ _ => trivial)
    intro _ closed _
    apply Ensures.bind (.of_forall (fun _ _ => trivial) fun _ _ => trivial)
    intro _ ended _
    exact .modify_bind (.of_pure rfl)
  have hmeets := State.run_program_meets hfresh.settled.wellFormed hprogram
  rw [hblock] at hmeets
  exact hmeets

/-- With recovery on and room for the errors, a statement that is read without an error is read behind
any other group of tokens too, unless that one lacks its block and the statement starts with no
keyword. -/
theorem parsed_behind_group (hrecover : config.recover = true)
    (hroom : 2 * (enclosed opening closing last (first.tokens ++ second.tokens)).length ≤
      config.maxErrors)
    (halternative : ∀ token ∈ second.tokens.head?,
      token.kind ≠ .elifKeyword ∧ token.kind ≠ .elseKeyword)
    (halone : (parseStream (.ofTokens (enclosed opening closing last second.tokens)) config).parsed =
      .ok ⟨[stmt], []⟩) :
    (∃ before errors,
      (parseStream (.ofTokens (enclosed opening closing last (first.tokens ++ second.tokens)))
        config).parsed = .ok ⟨before ++ [stmt], errors⟩) ↔
      ¬ (first.LacksBlock config ∧
        ∀ token ∈ second.tokens.head?, token.kind.startsStatement = false) := by
  constructor
  · rintro ⟨before, errors, hparsed⟩ ⟨hlacks, hstarts⟩
    have hnone := block_of_lacksBlock hlacks halone hstarts hparsed
    simp at hnone
  · intro hblock
    apply parsed_behind_of_block hrecover hroom halternative halone
    by_cases hlacks : first.LacksBlock config
    · obtain ⟨token, rest, htokens, -⟩ := second.exists_cons
      rw [htokens] at hblock ⊢
      right
      rintro _ ⟨⟩
      by_cases hkeyword : token.kind.startsStatement = true
      · exact hkeyword
      · refine absurd ⟨hlacks, ?_⟩ hblock
        rintro _ ⟨⟩
        simpa using hkeyword
    · exact .inl hlacks

/-! ### One line behind another -/

/-- A condition with a name too many. -/
def Group.brokenCondition : Group :=
  ⟨[.plain .ifKeyword ⟨1, 1, 0⟩, .identifier "a" ⟨1, 4, 3⟩, .identifier "b" ⟨1, 6, 5⟩,
    .plain .colon ⟨1, 7, 6⟩], ⟨1, 8, 7⟩, none, by decide⟩

def Group.condition : Group :=
  ⟨[.plain .ifKeyword ⟨1, 1, 0⟩, .identifier "a" ⟨1, 4, 3⟩, .plain .colon ⟨1, 5, 4⟩], ⟨1, 6, 5⟩, none,
    by decide⟩

/-- A name on the second line. -/
def Group.oneName (offset : Nat) : Group :=
  ⟨[.identifier "b" ⟨2, 1, offset⟩], ⟨2, 2, offset + 1⟩, none, by simp [Token.identifier]; rfl⟩

theorem Group.oneName_parsed (offset : Nat) (closing last : Position) :
    (parseStream (.ofTokens (enclosed .start closing last (Group.oneName offset).tokens))
      .default).parsed = .ok ⟨[.expression (.identifier ⟨"b", ⟨2, 1, offset⟩⟩)], []⟩ := by
  let body : Grammar.Clause .statements :=
    .nextStatement (.expression (.ofAtom (.identifier ⟨"b", ⟨2, 1, offset⟩⟩)) ⟨2, 2, offset + 1⟩)
      .noStatement
  let program : Grammar.Program := ⟨.start, body, closing, last⟩
  have htokens : enclosed .start closing last (oneName offset).tokens = program.tokens := rfl
  have hitems := untilEof_enclosed .start closing last (oneName offset).leads.ne_eof
  rw [htokens] at hitems ⊢
  exact parsed_of_program program hitems (Nat.le_of_ble_eq_true rfl)

theorem Group.not_lacksBlock_brokenCondition : ¬ Group.brokenCondition.LacksBlock .default := by
  intro h
  obtain ⟨before, lead, marker, hline, -, -⟩ := h.exists_lead
    (by simp [brokenCondition, Token.Faithful, Token.plain, Token.identifier, Payload.kind,
      TokenKind.carriesPayload])
    (by decide)
  have hsplit : [.plain .ifKeyword ⟨1, 1, 0⟩, .identifier "a" ⟨1, 4, 3⟩, .identifier "b" ⟨1, 6, 5⟩] ++
      [.plain .colon ⟨1, 7, 6⟩] = (before ++ lead.tokens) ++ [marker] := by
    rw [List.append_assoc]
    exact hline
  replace hsplit := (List.append_inj' hsplit rfl).1
  cases before with
  | nil =>
      cases lead with
      | conditional keyword condition =>
          have htokens : [.identifier "a" ⟨1, 4, 3⟩, .identifier "b" ⟨1, 6, 5⟩] = condition.tokens :=
            (List.cons.inj hsplit).2
          -- The first name is an expression that ends in front of the second one.
          have hsame := condition.unambiguous (.ofAtom (.identifier ⟨"a", ⟨1, 4, 3⟩⟩)) []
            [.identifier "b" ⟨1, 6, 5⟩] (by simp [Grammar.Heads]) (Grammar.heads_cons.2 rfl)
            (by rw [← htokens, Grammar.Phrase.tokens_ofAtom]; rfl)
          cases hsame.2
      | function | loop | record =>
          simp [Grammar.Lead.tokens, Grammar.Heading.tokens, Token.plain] at hsplit
  | cons token before =>
      have htail : [.identifier "a" ⟨1, 4, 3⟩, .identifier "b" ⟨1, 6, 5⟩] = before ++ lead.tokens :=
        (List.cons.inj hsplit).2
      have hnone : ∀ token ∈ before ++ lead.tokens, Parser.startsHeading token.kind = false := by
        rw [← htail]
        decide
      obtain ⟨keyword, rest, hlead, hkeyword⟩ := lead.exists_keyword
      rw [hnone keyword (by simp [hlead])] at hkeyword
      contradiction

/-- Behind a condition with a name too many, which announces no block, a name is read. -/
theorem parsed_behind_brokenCondition :
    ∃ before errors,
      (parseStream (.ofTokens (enclosed .start ⟨3, 1, 10⟩ ⟨3, 1, 10⟩
        (Group.brokenCondition.tokens ++ (Group.oneName 8).tokens))) .default).parsed =
          .ok ⟨before ++ [.expression (.identifier ⟨"b", ⟨2, 1, 8⟩⟩)], errors⟩ := by
  apply (parsed_behind_group rfl (by decide) (by decide) (Group.oneName_parsed 8 _ _)).2
  exact fun hlost => Group.not_lacksBlock_brokenCondition hlost.1

/-- A condition that lacks its block takes the line behind it along. -/
theorem not_parsed_behind_condition :
    (parseStream (.ofTokens (enclosed .start ⟨3, 1, 8⟩ ⟨3, 1, 8⟩ (Group.oneName 6).tokens))
        .default).parsed = .ok ⟨[.expression (.identifier ⟨"b", ⟨2, 1, 6⟩⟩)], []⟩ ∧
      ¬ ∃ before errors,
        (parseStream (.ofTokens (enclosed .start ⟨3, 1, 8⟩ ⟨3, 1, 8⟩
          (Group.condition.tokens ++ (Group.oneName 6).tokens))) .default).parsed =
            .ok ⟨before ++ [.expression (.identifier ⟨"b", ⟨2, 1, 6⟩⟩)], errors⟩ := by
  refine ⟨Group.oneName_parsed 6 _ _, ?_⟩
  rintro ⟨before, errors, hparsed⟩
  have hlacks : Group.condition.LacksBlock .default :=
    Group.lacksBlock_of_lead (.conditional ⟨1, 1, 0⟩ (.ofAtom (.identifier ⟨"a", ⟨1, 4, 3⟩⟩))) rfl rfl
      (by decide) (by decide)
  have hnone := block_of_lacksBlock hlacks (Group.oneName_parsed 6 _ _) (by decide) hparsed
  simp at hnone

end Offside
