import Offside.Proofs.Recovery.Heading

/-!
# Groups of tokens

A group is a logical line with the block behind it, if it has one.  A file of such groups is read from
the token behind the one that opens it.
-/

namespace Offside

open Text (Position)

/-- Tokens whose blocks are opened and closed like brackets. -/
inductive Balanced : List Token → Prop where
  | nil : Balanced []
  | content {token : Token} {rest : List Token} (h : token.kind.isStructural = false)
      (hrest : Balanced rest) : Balanced (token :: rest)
  | newline (position : Position) {rest : List Token} (hrest : Balanced rest) :
      Balanced (.plain .newline position :: rest)
  | block (opening closing : Position) {body rest : List Token} (hbody : Balanced body)
      (hrest : Balanced rest) :
      Balanced (.plain .indent opening :: (body ++ .plain .dedent closing :: rest))

structure Indented where
  opening : Position
  body : List Token
  closing : Position
  balanced : Balanced body

def Indented.tokens (block : Indented) : List Token :=
  .plain .indent block.opening :: (block.body ++ [.plain .dedent block.closing])

/-- A logical line with the block behind it, if there is one. -/
structure Group where
  line : List Token
  ending : Position
  block? : Option Indented
  content : ∀ token ∈ line, token.kind.isStructural = false

namespace Group

def tokens (group : Group) : List Token :=
  group.line ++ .plain .newline group.ending :: (group.block?.map Indented.tokens).getD []

end Group

/-- The tokens of a file around those of its statements. -/
def enclosed (opening closing last : Position) (tokens : List Token) : List Token :=
  .plain .indent opening :: (tokens ++ [.plain .dedent closing, .plain .eof last])

/-- Read by itself, the line of the group leads the parser, behind statements that it drops, to a line
that announces a block, and there is none. -/
def Group.LacksBlock (config : Parse.Config) (group : Group) : Prop :=
  group.block? = none ∧ ∃ start opening opened state after,
    Parse.State.ofStream (.ofTokens (enclosed .start .start .start group.tokens)) config = .ok start ∧
      start.advance = (.ok opening, opened) ∧
      Relation.ReflTransGen Parse.State.Drops opened state ∧ state.Announces after

namespace Parse

open Parse.Parser
open Scan (TokenStream)

/-! ## Groups in front of a fence -/

variable {level : Nat} {rest : List Token}

theorem Leads.cons_content {token : Token} (h : token.kind.isStructural = false)
    (hlevel : level ≠ 0) (hrest : Leads level rest) : Leads level (token :: rest) := by
  rw [Leads, TokenKind.blocksBehind_of_content h]
  refine ⟨?_, hlevel, hrest⟩
  intro heof
  rw [heof] at h
  contradiction

theorem Leads.append_content {tokens : List Token}
    (h : ∀ token ∈ tokens, token.kind.isStructural = false) (hlevel : level ≠ 0)
    (hrest : Leads level rest) : Leads level (tokens ++ rest) := by
  induction tokens with
  | nil => exact hrest
  | cons token tokens ih =>
      apply cons_content (h token List.mem_cons_self) hlevel
      exact ih fun other hother => h other (List.mem_cons_of_mem _ hother)

theorem Leads.append_balanced {tokens : List Token} (h : Balanced tokens) (hlevel : level ≠ 0)
    (hrest : Leads level rest) : Leads level (tokens ++ rest) := by
  induction h generalizing level rest with
  | nil => exact hrest
  | content hkind _ ih => exact cons_content hkind hlevel (ih hlevel hrest)
  | newline position _ ih => exact ⟨by simp [Token.plain], hlevel, ih hlevel hrest⟩
  | block opening closing _ _ ihbody ihrest =>
      rw [List.cons_append, List.append_assoc, List.cons_append]
      refine ⟨by simp [Token.plain], Nat.succ_ne_zero level, ?_⟩
      exact ihbody (Nat.succ_ne_zero level) ⟨by simp [Token.plain], hlevel, ihrest hlevel hrest⟩

end Parse

theorem Balanced.faultless {tokens : List Token} (h : Balanced tokens) :
    ∀ token ∈ tokens, token.kind.isStructural = true → token.fault? = none := by
  induction h with
  | nil => simp
  | content hkind _ ih =>
      intro token htoken hstructural
      rcases List.mem_cons.1 htoken with rfl | htoken
      · rw [hkind] at hstructural
        contradiction
      · exact ih token htoken hstructural
  | newline position _ ih =>
      intro token htoken hstructural
      rcases List.mem_cons.1 htoken with rfl | htoken
      · rfl
      · exact ih token htoken hstructural
  | block opening closing _ _ ihbody ihrest =>
      intro token htoken hstructural
      rcases List.mem_cons.1 htoken with rfl | htoken
      · rfl
      · rcases List.mem_append.1 htoken with hbody | hclosing
        · exact ihbody token hbody hstructural
        · rcases List.mem_cons.1 hclosing with rfl | hrest
          · rfl
          · exact ihrest token hrest hstructural

namespace Group

open Parse

variable {group : Group}

theorem tokens_of_none (h : group.block? = none) :
    group.tokens = group.line ++ [.plain .newline group.ending] := by
  simp [tokens, h]

theorem tokens_of_some {block : Indented} (h : group.block? = some block) :
    group.tokens = group.line ++ .plain .newline group.ending :: .plain .indent block.opening ::
      block.body ++ [.plain .dedent block.closing] := by
  simp [tokens, h, Indented.tokens]

theorem exists_cons (group : Group) :
    ∃ token rest, group.tokens = token :: rest ∧ token.kind ≠ .indent := by
  unfold tokens
  cases hline : group.line with
  | nil => exact ⟨.plain .newline group.ending, _, rfl, by simp [Token.plain]⟩
  | cons token line =>
      refine ⟨token, _, rfl, ?_⟩
      intro hindent
      have hcontent := group.content token (by simp [hline])
      rw [hindent] at hcontent
      contradiction

theorem leads (group : Group) : Leads 1 group.tokens := by
  apply Leads.append_content group.content Nat.one_ne_zero
  refine ⟨by simp [Token.plain], by simp [Token.plain, TokenKind.blocksBehind], ?_⟩
  cases group.block? with
  | none => exact rfl
  | some block =>
      refine ⟨by simp [Token.plain], by simp [Token.plain, TokenKind.blocksBehind], ?_⟩
      apply Leads.append_balanced block.balanced (Nat.succ_ne_zero 1)
      exact ⟨by simp [Token.plain], by simp [Token.plain, TokenKind.blocksBehind], rfl⟩

theorem faultless (group : Group) :
    ∀ token ∈ group.tokens, token.kind.isStructural = true → token.fault? = none := by
  intro token htoken hstructural
  rcases List.mem_append.1 htoken with hline | hbehind
  · rw [group.content token hline] at hstructural
    contradiction
  · rcases List.mem_cons.1 hbehind with rfl | hblock
    · rfl
    · cases hgroup : group.block? with
      | none => simp [hgroup] at hblock
      | some block =>
          simp only [hgroup, Option.map_some, Option.getD_some, Indented.tokens, List.mem_cons,
            List.mem_append, List.not_mem_nil, or_false] at hblock
          rcases hblock with rfl | hbody | rfl
          · rfl
          · exact block.balanced.faultless token hbody hstructural
          · rfl

/-- A group stands in front of every fence that may have a line in front of it if the group has no
block. -/
theorem front (group : Group) {fence : Fence} (h : group.block? = none → fence.exposed) :
    fence.Front 1 group.tokens where
  leads := group.leads
  faultless := group.faultless
  lineEnd := by
    rintro last ⟨before, hbefore⟩
    cases hgroup : group.block? with
    | none =>
        rw [tokens_of_none hgroup] at hbefore
        have hlast := (List.append_inj' hbefore rfl).2
        obtain rfl : last = _ := (List.cons.inj hlast).1
        exact .inr ⟨rfl, h hgroup⟩
    | some block =>
        rw [tokens_of_some hgroup] at hbefore
        have hlast := (List.append_inj' hbefore rfl).2
        obtain rfl : last = _ := (List.cons.inj hlast).1
        exact .inl rfl

theorem flat_of_none (hblock : group.block? = none) :
    ∀ token ∈ group.tokens, token.kind ≠ .indent ∧ token.kind ≠ .dedent ∧ token.kind ≠ .eof := by
  rw [tokens_of_none hblock]
  intro token htoken
  rcases List.mem_append.1 htoken with hline | hlast
  · have hcontent := group.content token hline
    refine ⟨?_, ?_, ?_⟩ <;>
    · intro hkind
      rw [hkind] at hcontent
      contradiction
  · obtain rfl := List.mem_singleton.1 hlast
    simp [Token.plain]

/-- In a group without a block, nothing stands behind a line break. -/
theorem eq_nil_of_newline {token : Token} {rest : List Token} (hblock : group.block? = none)
    (h : token :: rest <:+ group.tokens) (hkind : token.kind = .newline ∨ token.kind = .dedent) :
    rest = [] := by
  obtain ⟨before, hbefore⟩ := h
  rw [tokens_of_none hblock, ← List.dropLast_concat_getLast (List.cons_ne_nil token rest),
    ← List.append_assoc] at hbefore
  cases rest with
  | nil => rfl
  | cons second rest =>
      have hmem : token ∈ group.line := by
        rw [← (List.append_inj' hbefore rfl).1]
        simp
      have hcontent := group.content token hmem
      rcases hkind with hkind | hkind <;>
      · rw [hkind] at hcontent
        contradiction

end Group

namespace Parse

open Parse.Parser
open Scan (TokenStream)

/-! ## Whole files -/

section Files

variable {tokens : List Token} {opening closing last : Position} {config : Config}

theorem ended_enclosed (opening closing last : Position) (tokens : List Token) :
    Ended (enclosed opening closing last tokens) := by
  refine ⟨.plain .eof last, ?_, rfl⟩
  have hsplit : enclosed opening closing last tokens =
      (.plain .indent opening :: (tokens ++ [.plain .dedent closing])) ++ [.plain .eof last] := by
    simp [enclosed]
  rw [hsplit, List.getLast?_concat]
  rfl

theorem untilEof_enclosed (opening closing last : Position)
    (h : ∀ token ∈ tokens, token.kind ≠ .eof) :
    untilEof (TokenStream.ofTokens (enclosed opening closing last tokens)).items =
      (enclosed opening closing last tokens).map .ok := by
  have hsplit : enclosed opening closing last tokens =
      (.plain .indent opening :: (tokens ++ [.plain .dedent closing])) ++ [.plain .eof last] := by
    simp [enclosed]
  rw [hsplit]
  apply untilEof_of_forall_ne rfl
  intro token htoken
  simp only [List.mem_cons, List.mem_append, List.not_mem_nil, or_false] at htoken
  rcases htoken with rfl | htoken | rfl
  · simp [Token.plain]
  · exact h token htoken
  · simp [Token.plain]

theorem exists_sees_enclosed (opening closing last : Position) (config : Config)
    (h : ∀ token ∈ tokens, token.kind ≠ .eof) :
    ∃ state, State.ofStream (TokenStream.ofTokens (enclosed opening closing last tokens)) config =
        .ok state ∧
      state.Fresh (TokenStream.ofTokens (enclosed opening closing last tokens)) config ∧
      state.Sees (enclosed opening closing last tokens) := by
  have hended := ended_enclosed opening closing last tokens
  obtain ⟨state, hstate⟩ := State.exists_fresh config (untilEof_enclosed _ _ _ h) hended
  have hfresh := State.fresh_of_ofStream hstate
  exact ⟨state, hstate, hfresh, hfresh.settled, hfresh.ahead.trans (untilEof_enclosed _ _ _ h), hended⟩

theorem cleanRun_of_enclosed {block : Block} (h : ∀ token ∈ tokens, token.kind ≠ .eof)
    (hparsed : (parseStream (.ofTokens (enclosed opening closing last tokens)) config).parsed =
      .ok ⟨block, []⟩) :
    Nonempty (CleanRun config (tokens ++ [.plain .dedent closing, .plain .eof last]) block) := by
  obtain ⟨state, hfresh, hblock, herrors⟩ := parsed_eq_ok hparsed
  have hsees : state.Sees (enclosed opening closing last tokens) :=
    ⟨hfresh.settled, hfresh.ahead.trans (untilEof_enclosed _ _ _ h), ended_enclosed ..⟩
  have hrun := State.run_program hfresh.settled.wellFormed
  have hclean : (state.run program).2.errors = state.errors := by rw [herrors, hfresh.errors]
  have hresult : state.run program = (.ok block, (state.run program).2) := by rw [← hblock]
  rw [hresult] at hrun
  rw [← hfresh.config]
  exact CleanRun.of_program hsees hfresh.nesting hrun hclean

namespace State

variable {here there start middle : State}

/-- A parser that has moved on from some tokens is in front of what stands behind them, or else of the
last ones of them. -/
theorem Sees.cut {tail : List Token} (h : start.Sees (tokens ++ tail)) (hmoves : start.Moves middle) :
    middle.ahead.length ≤ tail.length ∧ middle.current ∈ tail ∨
      ∃ front, front ≠ [] ∧ front <:+ tokens ∧ middle.Sees (front ++ tail) := by
  obtain ⟨consumed, hahead⟩ := hmoves.ahead
  rw [h.ahead] at hahead
  obtain ⟨spent, rest, hsplit, -, hrest⟩ := List.map_eq_append_iff.1 hahead
  have hended : Ended rest := by
    obtain ⟨last, hlast, heof⟩ := h.ended
    refine ⟨last, ?_, heof⟩
    have hne : rest ≠ [] := by
      rintro rfl
      have hhead := middle.head_ahead
      rw [← hrest] at hhead
      cases hhead
    rwa [hsplit, List.getLast?_append, List.getLast?_eq_some_getLast hne, Option.some_or,
      ← List.getLast?_eq_some_getLast hne] at hlast
  have hsees : middle.Sees rest := ⟨hmoves.settled h.settled, hrest.symm, hended⟩
  have hcurrent : middle.current ∈ rest := by
    obtain ⟨more, hmore⟩ := hsees.exists_cons
    rw [hmore]
    exact List.mem_cons_self
  have hlength : middle.ahead.length = rest.length := by rw [← hrest, List.length_map]
  rcases List.append_eq_append_iff.1 hsplit with ⟨beyond, -, rfl⟩ | ⟨under, rfl, rfl⟩
  · exact .inl ⟨by simp [hlength], List.mem_append_right _ hcurrent⟩
  · by_cases hunder : under = []
    · subst hunder
      exact .inl ⟨by simp [hlength], hcurrent⟩
    · exact .inr ⟨under, hunder, List.suffix_append _ _, hsees⟩

/-- Behind the token that opens a file, in front of these tokens. -/
structure Opened (config : Config) (tokens : List Token) (opened : State) : Prop where
  sees : opened.Sees tokens
  consumed : opened.consumed = 1
  openBlocks : opened.openBlocks = 1
  nesting : opened.nesting = 0
  errors : opened.errors = []
  config : opened.config = config

theorem Opened.beside {front tail tail' : List Token} (h : here.Opened config (front ++ tail))
    (h' : there.Opened config (front ++ tail')) : here.Beside tail tail' there where
  sees := ⟨front, h.sees, h'.sees⟩
  consumed := by rw [h.consumed, h'.consumed]
  openBlocks := by rw [h.openBlocks, h'.openBlocks]
  nesting := by rw [h.nesting, h'.nesting]
  errors := by rw [h.errors, h'.errors]
  config := by rw [h.config, h'.config]

theorem exists_opened {stream : TokenStream} (hfresh : start.Fresh stream config)
    (hsees : start.Sees (.plain .indent opening :: tokens)) :
    ∃ opened, start.advance = (.ok (.plain .indent opening), opened) ∧
      opened.Opened config tokens := by
  obtain ⟨opened, hadvance, hconsumes, hopened⟩ := hsees.exists_consumes (by simp [Token.plain])
  refine ⟨opened, hadvance, hopened, ?_, ?_, ?_, ?_, ?_⟩
  · rw [hconsumes.consumed, hfresh.consumed]
  · rw [hconsumes.openBlocks, hsees.current, hfresh.openBlocks]
    rfl
  · rw [hconsumes.nesting, hfresh.nesting]
  · rw [hconsumes.errors, hfresh.errors]
  · rw [hconsumes.config, hfresh.config]

end State

end Files

end Parse

open Parse
open Relation (ReflTransGen)

/-- Whether a group lacks its block is seen from the parser that is about to read it by itself. -/
theorem Group.exists_opened (config : Config) (group : Group) :
    ∃ opened : State,
      opened.Opened config (group.tokens ++ [.plain .dedent .start, .plain .eof .start]) ∧
      (group.LacksBlock config ↔ group.block? = none ∧
        ∃ state after, ReflTransGen State.Drops opened state ∧ state.Announces after) := by
  obtain ⟨start, hstart, hfresh, hsees⟩ :=
    exists_sees_enclosed .start .start .start config group.leads.ne_eof
  obtain ⟨opened, hadvance, hopened⟩ := State.exists_opened hfresh hsees
  refine ⟨opened, hopened, and_congr_right fun _ => ⟨?_, ?_⟩⟩
  · rintro ⟨start', opening, opened', state, after, hstart', hadvance', hway, hannounces⟩
    cases hstart.symm.trans hstart'
    cases hadvance.symm.trans hadvance'
    exact ⟨state, after, hway, hannounces⟩
  · rintro ⟨state, after, hway, hannounces⟩
    exact ⟨start, _, opened, state, after, hstart, hadvance, hway, hannounces⟩

/-- The marker and the line break that are announced are the last tokens of a group without a block. -/
theorem Group.announced_ahead {config : Config} {group : Group} {tail : List Token}
    {opened state after : State} (hblock : group.block? = none)
    (htail : ∀ token ∈ tail, token.kind.isStructural = true)
    (hopened : opened.Opened config (group.tokens ++ tail)) (hmoves : opened.Moves state)
    (hannounces : state.Announces after) :
    after.Sees (after.current :: .plain .newline group.ending :: tail) := by
  have hlater := hmoves.trans (hannounces.moves (hmoves.settled hopened.sees.settled))
  obtain ⟨fuel, heading, -, hmarker, hnewline⟩ := hannounces
  have hcontent := Heading.isStructural_of_mem hmarker
  rcases hopened.sees.cut hlater with ⟨-, hmem⟩ | ⟨front, hne, hfront, hsees⟩
  · rw [htail _ hmem] at hcontent
    contradiction
  · match front with
    | [] => contradiction
    | [marker] =>
        rw [tokens_of_none hblock] at hfront
        obtain ⟨before, hbefore⟩ := hfront
        obtain rfl : marker = .plain .newline group.ending := by
          simpa using (List.append_inj' hbefore rfl).2
        rw [hsees.current] at hcontent
        contradiction
    | marker :: newline :: front =>
        have hkind : newline.kind = .newline := by
          rwa [State.next_of_ahead hsees.ahead] at hnewline
        have hbehind := (List.suffix_cons marker _).trans hfront
        obtain rfl := eq_nil_of_newline hblock hbehind (.inl hkind)
        rw [tokens_of_none hblock] at hbehind
        obtain ⟨before, hbefore⟩ := hbehind
        obtain rfl : newline = .plain .newline group.ending := by
          simpa using (List.append_inj' hbefore rfl).2
        rwa [hsees.current]

/-- The tokens up to the announced marker are the end of the line. -/
theorem Group.announced_line {config : Config} {group : Group} {tail : List Token}
    {opened state after : State} (hblock : group.block? = none)
    (htail : ∀ token ∈ tail, token.kind.isStructural = true)
    (hopened : opened.Opened config (group.tokens ++ tail)) (hmoves : opened.Moves state)
    (hannounces : state.Announces after) :
    ∃ before spent, group.line = before ++ (spent ++ [after.current]) ∧
      state.ahead = spent.map .ok ++ after.ahead := by
  have hsees := group.announced_ahead hblock htail hopened hmoves hannounces
  obtain ⟨skipped, hskipped⟩ := hmoves.ahead
  obtain ⟨read, hread⟩ := (hannounces.moves (hmoves.settled hopened.sees.settled)).ahead
  have hahead := hskipped
  rw [hread, hopened.sees.ahead, hsees.ahead, tokens_of_none hblock] at hahead
  have htokens := (List.map_inj_right fun _ _ => Except.ok.inj).1
    (hahead.trans (by rw [← List.map_append, ← List.map_append]))
  have hline : group.line ++ .plain .newline group.ending :: tail =
      (skipped ++ (read ++ [after.current])) ++ .plain .newline group.ending :: tail := by
    simpa using htokens
  exact ⟨skipped, read, List.append_cancel_right hline, hread⟩

end Offside
