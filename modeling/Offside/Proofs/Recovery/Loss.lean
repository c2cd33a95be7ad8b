import Offside.Proofs.Recovery.Heading
import Offside.Proofs.Recovery.Skipping

/-!
# The line behind one that lacks its block

A line that announces a block is noticed to lack it at the first token behind its line break.  What is
skipped from there is the line behind it, if that is an expression: no token of an expression starts a
statement.
-/

namespace Offside.Parse

open Parse.Parser
open Relation (ReflTransGen)

variable {start state after failed last : State} {fuel nesting depth : Nat} {line front tail : List Token}
  {marker newline dedent : Token}

/-! ## Lines of expressions -/

namespace State

/-- Unless an error has been recorded on the way, every token on it may stand inside of an
expression. -/
structure Along (start : State) (nesting : Nat) (state : State) : Prop where
  moves : start.Moves state
  settled : state.Settled
  nesting : state.nesting = nesting
  spent : state.errors = start.errors →
    ∃ spent, start.Takes state spent ∧ ∀ token ∈ spent, token.kind.isInline = true

namespace Along

theorem advance (h : start.Along nesting state)
    (hkind : state.errors = start.errors → state.current.kind.isInline = true) :
    Ensures Parser.advance state
      (fun token after => token = state.current ∧ start.Along nesting after) fun _ _ => True := by
  by_cases heof : state.current.kind = .eof
  · exact .of_advance (advance_of_eof h.settled heof) ⟨rfl, h⟩
  · rcases advance_cases heof with ⟨after, hadvance, hconsumes⟩ | ⟨failure, after, hadvance, -⟩
    · refine .of_advance hadvance ⟨rfl, h.moves.trans (.of_step (.consume hconsumes)),
        hconsumes.settled, hconsumes.nesting.trans h.nesting, fun hsame => ?_⟩
      rw [hconsumes.errors] at hsame
      obtain ⟨spent, htakes, hspent⟩ := h.spent hsame
      have htaken : state.Takes after [state.current] :=
        ⟨hconsumes.ahead, hconsumes.consumed, hconsumes.openBlocks⟩
      refine ⟨spent ++ [state.current], htakes.trans htaken, ?_⟩
      exact List.forall_mem_append.2 ⟨hspent, List.forall_mem_singleton.2 (hkind hsame)⟩
    · exact .of_advance hadvance trivial

theorem keep (h : start.Along nesting state) (error : Error) :
    start.Along nesting (state.keep error) ∧ (state.keep error).errors ≠ start.errors := by
  have hmore : (state.keep error).errors ≠ start.errors := by
    intro hsame
    have hlength := h.moves.errors.length_le
    rw [← hsame] at hlength
    simp only [State.keep, State.note, List.length_append, List.length_singleton] at hlength
    omega
  exact ⟨⟨h.moves.trans (.of_step (.keep state error)), h.settled, h.nesting,
    fun hsame => absurd hsame hmore⟩, hmore⟩

end Along

end State

def along (start : State) : LineInvariant where
  holds := start.Along
  signed nesting state := start.Along nesting state ∧
    (state.errors = start.errors → state.current.kind.isInline = true)
  noted _ := True
  broken _ _ _ := True

theorem along_sound (start : State) : (along start).Sound where
  inline h hkind := State.Along.advance h fun _ => hkind
  noted _ _ _ := trivial
  throw _ _ _ _ := trivial
  sign {nesting state} h := by
    apply Ensures.get_bind
    split
    · rename_i hminus
      exact .of_pure ⟨h, fun _ => by rw [hminus]; rfl⟩
    · split
      · split
        · apply record_bind
          · exact fun _ _ _ => trivial
          · obtain ⟨hkept, hmore⟩ := State.Along.keep h ⟨.lexical .strayBang, state.current.position⟩
            exact .of_pure ⟨hkept, fun hsame => absurd hsame hmore⟩
        · exact .of_throw trivial
      · exact .of_pure h
  signed {nesting state} h := by
    apply (State.Along.advance h.1 h.2).weaken
    · exact fun _ _ hafter => hafter.2
    · exact fun _ _ => id
  nesting h := h.nesting
  renest h nesting' := by
    refine ⟨State.Moves.trans h.moves (.of_step (.renest _ _)), h.settled, rfl, fun hsame => ?_⟩
    obtain ⟨spent, htakes, hspent⟩ := h.spent hsame
    exact ⟨spent, ⟨htakes.ahead, htakes.consumed, htakes.openBlocks⟩, hspent⟩
  renestBroken _ := trivial

/-- A statement that starts with no keyword and is read without an error is a line of tokens that may
stand inside of an expression. -/
theorem statement_line (hsettled : state.Settled)
    (hstarts : state.current.kind.startsStatement = false) :
    Ensures (statement fuel) state
      (fun _ after => after.errors = state.errors → ∃ line newline,
        state.Takes after (line ++ [newline]) ∧ (∀ token ∈ line, token.kind.isInline = true) ∧
          newline.kind = .newline)
      fun _ _ => True := by
  cases fuel with
  | zero => exact .of_exhausted
  | succ fuel =>
      apply Ensures.currentToken_bind
      apply Ensures.modify_bind
      split <;> try (rename_i hkind; rw [hkind] at hstarts; contradiction)
      have hnoted : state.Along state.nesting
          (state.note (.began state.current.kind state.current.position.line)) :=
        ⟨.of_step (.note state _), hsettled, rfl, fun _ => ⟨[], ⟨rfl, rfl, rfl⟩, by simp⟩⟩
      apply Ensures.bind ((along_sound state).expression_stays fuel hnoted)
      intro _ read hread
      have hread : state.Along state.nesting read := hread
      have hbreak : Ensures (expect .newline) read
          (fun _ after => after.errors = state.errors → ∃ line newline,
            state.Takes after (line ++ [newline]) ∧ (∀ token ∈ line, token.kind.isInline = true) ∧
              newline.kind = .newline) fun _ _ => True := by
        apply Ensures.currentToken_bind
        split
        · rename_i hmem
          have hkind : read.current.kind = .newline := by simpa using hmem
          have heof : read.current.kind ≠ .eof := by simp [hkind]
          rcases State.advance_cases heof with ⟨after, hadvance, hconsumes⟩ |
            ⟨failure, after, hadvance, -⟩
          · apply Ensures.of_advance hadvance
            intro hsame
            rw [hconsumes.errors] at hsame
            obtain ⟨spent, htakes, hspent⟩ := hread.spent hsame
            have htaken : read.Takes after [read.current] :=
              ⟨hconsumes.ahead, hconsumes.consumed, hconsumes.openBlocks⟩
            exact ⟨spent, read.current, htakes.trans htaken, hspent, hkind⟩
          · exact .of_advance hadvance trivial
        · exact .of_throw trivial
      apply Ensures.bind hbreak
      exact fun _ _ hafter => .of_pure hafter

/-- Statements that are read without an error are none, or one and the rest. -/
theorem statements_clean (hsettled : state.Settled) :
    Ensures (statements fuel) state
      (fun block after => after.errors = state.errors →
        (state.current.kind = .dedent ∨ state.current.kind = .eof) ∧ block = [] ∨
          ∃ stmt rest middle less, block = stmt :: rest ∧
            (statement less).run state = some (.ok stmt, middle) ∧ middle.errors = state.errors ∧
              (statements less).run middle = some (.ok rest, after))
      fun _ _ => True := by
  cases fuel with
  | zero => exact .of_exhausted
  | succ fuel =>
      rw [statements]
      apply Ensures.get_bind
      split
      · rename_i hkind
        exact .of_pure fun _ => .inl ⟨by simpa using hkind, rfl⟩
      · have hmoves := (statementsMoving fuel).statement state hsettled
        apply Ensures.bind hmoves.traced.attempt
        intro result middle hmiddle
        cases result with
        | ok stmt =>
            obtain ⟨hmoved, hrun⟩ := hmiddle
            have hrest := (statementsMoving fuel).statements middle (hmoved.settled hsettled)
            apply Ensures.bind (hrest.traced.weaken (fun _ _ => id) fun _ _ _ => trivial)
            rintro rest last ⟨hlater, hrun'⟩
            refine .of_pure fun hsame => .inr ⟨stmt, rest, middle, fuel, rfl, hrun, ?_, hrun'⟩
            have hgrown := hlater.errors
            rw [hsame] at hgrown
            exact (hgrown.eq_of_length_le hmoved.errors.length_le)
        | error error =>
            apply Ensures.bind ((recover_later hsettled hmiddle.1).weaken (fun _ _ => id)
              fun _ _ _ => trivial)
            rintro _ skipped ⟨hmoved, hmore⟩
            have hrest := (statementsMoving fuel).statements skipped (hmoved.settled hsettled)
            apply (hrest.weaken (fun _ _ => id) fun _ _ _ => trivial).weaken ?_ fun _ _ => id
            intro rest last hlater hsame
            have hgrown := hlater.errors
            rw [hsame] at hgrown
            exact absurd (hgrown.eq_of_length_le hmoved.errors.length_le) hmore

/-- A single statement that is read without an error and starts with no keyword is one line. -/
theorem Parser.CleanRun.exists_line {config : Config} {tokens : List Token} {stmt : Stmt}
    (run : CleanRun config tokens [stmt])
    (hstarts : ∀ token ∈ tokens.head?, token.kind.startsStatement = false) :
    ∃ line newline rest, tokens = line ++ newline :: rest ∧
      (∀ token ∈ line, token.kind.isInline = true) ∧ newline.kind = .newline ∧
      ∀ token ∈ rest.head?, token.kind = .dedent ∨ token.kind = .eof := by
  have hsettled := run.sees.settled
  have hstarts : run.opened.current.kind.startsStatement = false := by
    obtain ⟨rest, htokens⟩ := run.sees.exists_cons
    exact hstarts _ (congrArg List.head? htokens)
  rcases (statements_clean hsettled).ok run.statements run.errors_read with ⟨-, hnil⟩ |
    ⟨_, rest, middle, less, hblock, hrun, herrors, hrest⟩
  · contradiction
  obtain ⟨rfl, rfl⟩ : _ = stmt ∧ rest = [] := by simpa using hblock.symm
  obtain ⟨line, newline, htakes, hline, hnewline⟩ :=
    (statement_line hsettled hstarts).ok hrun herrors
  have hmoved := (statementsMoving less).statement.of_run hsettled hrun (.of_ok _)
  have hclean : run.read.errors = middle.errors := run.errors_read.trans herrors.symm
  rcases (statements_clean (hmoved.settled hsettled)).ok hrest hclean with ⟨hkind, -⟩ |
    ⟨_, _, _, _, hcons, -⟩
  · have hahead := htakes.ahead
    rw [run.sees.ahead] at hahead
    obtain ⟨front, rest, rfl, hfront, hbehind⟩ := List.map_eq_append_iff.1 hahead
    obtain rfl := (List.map_inj_right fun _ _ => Except.ok.inj).1 hfront
    refine ⟨line, newline, rest, by simp, hline, hnewline, fun token htoken => ?_⟩
    have hhead := middle.head_ahead
    rw [← hbehind, List.head?_map, htoken] at hhead
    obtain rfl : token = middle.current := by simpa using hhead
    exact hkind
  · cases hcons

/-! ## Skipping a line -/

theorem depthBehind_of_flat (h : ∀ token ∈ front, token.kind ≠ .indent ∧ token.kind ≠ .dedent) :
    depthBehind depth front = depth := by
  induction front with
  | nil => rfl
  | cons token front ih =>
      obtain ⟨⟨hindent, hdedent⟩, hfront⟩ := List.forall_mem_cons.1 h
      have hlevel : token.kind.blocksBehind depth = depth := by
        unfold TokenKind.blocksBehind
        split <;> first | contradiction | rfl
      rw [depthBehind_cons, hlevel]
      exact ih hfront

theorem StaysInside.behind (h : StaysInside depth (front ++ tail)) :
    StaysInside (depthBehind depth front) tail := by
  induction front generalizing depth with
  | nil => exact h
  | cons token front ih => exact ih h.2

theorem flat_of_isInline (h : ∀ token ∈ line, token.kind.isInline = true) :
    ∀ token ∈ line, token.kind ≠ .indent ∧ token.kind ≠ .dedent := by
  intro token htoken
  have hcontent := TokenKind.content_of_isInline (h token htoken)
  constructor <;>
  · intro hkind
    rw [hkind] at hcontent
    contradiction

/-- Inside of an expression there is no boundary, and none in front of the line break behind it. -/
theorem not_atBoundary {skipped : List Token}
    (hskipped : ∀ token ∈ skipped, token.kind.isInline = true)
    (hcurrent : after.current.kind.isInline = true ∨ after.current.kind = .newline) :
    ¬AtBoundary 0 true skipped after := by
  rintro (heof | ⟨-, hdedent | ⟨hkeyword, -⟩ | ⟨last, hlast, hkind⟩⟩)
  · rw [heof] at hcurrent
    rcases hcurrent with hcurrent | hcurrent <;> contradiction
  · rw [hdedent] at hcurrent
    rcases hcurrent with hcurrent | hcurrent <;> contradiction
  · rcases hcurrent with hcurrent | hcurrent
    · simp [TokenKind.isInline, hkeyword] at hcurrent
    · rw [hcurrent] at hkeyword
      contradiction
  · have hinline := hskipped last (List.mem_of_getLast? hlast)
    rcases hkind with hkind | hkind <;>
    · rw [hkind] at hinline
      contradiction

/-- Skipping that starts in front of a line of an expression ends behind its line break. -/
theorem Lands.behind_line (h : Lands 0 true failed after)
    (hahead : failed.ahead = (line ++ newline :: dedent :: tail).map .ok)
    (hline : ∀ token ∈ line, token.kind.isInline = true) (hnewline : newline.kind = .newline)
    (hdedent : dedent.kind = .dedent) : after.ahead = (dedent :: tail).map .ok := by
  obtain ⟨skipped, hskips, hboundary⟩ := h
  have hsplit := hskips.ahead
  rw [hahead] at hsplit
  obtain ⟨front, rest, happend, hfront, hrest⟩ := List.map_eq_append_iff.1 hsplit
  obtain rfl := (List.map_inj_right fun _ _ => Except.ok.inj).1 hfront
  have hcurrent : ∀ token more, rest = token :: more → after.current = token := by
    rintro token more rfl
    exact State.current_of_ahead hrest.symm
  have hinside := hskips.inside
  rcases List.append_eq_append_iff.1 happend with ⟨beyond, rfl, hbeyond⟩ | ⟨under, rfl, hunder⟩
  · match beyond with
    | [] =>
        have hhere := hcurrent newline _ hbeyond.symm
        rw [List.append_nil] at hboundary
        exact absurd hboundary (not_atBoundary hline (.inr (hhere ▸ hnewline)))
    | [_] =>
        obtain ⟨rfl, rfl⟩ := List.cons.inj hbeyond
        exact hrest.symm
    | _ :: _ :: beyond =>
        simp only [List.cons_append, List.cons.injEq] at hbeyond
        obtain ⟨rfl, rfl, -⟩ := hbeyond
        have hbehind := hinside.behind
        rw [depthBehind_of_flat (flat_of_isInline hline)] at hbehind
        have hzero := hbehind.2.1 hdedent
        rw [hnewline] at hzero
        exact absurd rfl hzero
  · obtain ⟨hskipped, hbehind⟩ := List.forall_mem_append.1 hline
    match under with
    | [] =>
        have hhere := hcurrent newline _ hunder
        exact absurd hboundary (not_atBoundary hskipped (.inr (hhere ▸ hnewline)))
    | token :: under =>
        have hhere := hcurrent token _ hunder
        exact absurd hboundary
          (not_atBoundary hskipped (.inl (hhere ▸ hbehind token List.mem_cons_self)))

/-! ## Announced lines -/

theorem announce_ensures {heading : Heading} (h : state.Sees (marker :: newline :: tail))
    (hmarker : marker.kind ∈ heading.markers) (hnewline : newline.kind = .newline) :
    Ensures (announce heading) state (fun _ after => after.Sees tail) fun _ _ => False := by
  have hcontent := Heading.isStructural_of_mem hmarker
  have hexpect : Ensures (expectOneOf heading.markers) state
      (fun _ after => after.Sees (newline :: tail)) fun _ _ => False := by
    apply Ensures.currentToken_bind
    rw [h.current, if_pos (by simpa using hmarker)]
    obtain ⟨after, hadvance, -, hafter⟩ := h.exists_consumes (by
      intro heof
      rw [heof] at hcontent
      contradiction)
    exact .of_advance hadvance hafter
  apply Ensures.bind hexpect
  intro _ middle hmiddle
  have hbreak : Ensures (expect .newline) middle (fun _ after => after.Sees tail)
      fun _ _ => False := by
    apply Ensures.currentToken_bind
    rw [hmiddle.current, if_pos (by simp [hnewline])]
    obtain ⟨after, hadvance, -, hafter⟩ := hmiddle.exists_consumes (by simp [hnewline])
    exact .of_advance hadvance hafter
  exact Ensures.bind hbreak fun _ _ hlast => .of_pure hlast

/-- A statement whose line announces a block that is not there is broken behind the line. -/
theorem statement_announced (h : state.Announces after) (hsees : state.Sees (front ++ tail))
    (hafter : after.Sees (marker :: newline :: tail))
    (htail : ∀ token ∈ tail.head?, token.kind ≠ .indent) :
    Ensures (statement fuel) state (fun _ _ => False) fun _ failed => failed.Sees tail := by
  intro result failed hrun
  rcases run_statement_of_startsHeading fuel h.startsHeading with hnone | ⟨less, hsame⟩
  · rw [hnone] at hrun
    cases hrun
  rw [hsame] at hrun
  have hclears : after.Clears tail := by
    rw [State.Clears, hafter.ahead, List.length_map]
    exact Nat.le_refl _
  obtain ⟨read, ⟨fuel', heading, hheading, hmarker, hnewline⟩, hread⟩ := h.beside
    ((State.Beside.refl hsees).note (.began state.current.kind state.current.position.line)) hclears
  have hread : read.Sees (marker :: newline :: tail) := by
    obtain ⟨ahead, hhere, hthere⟩ := hread.sees
    have hsame := hhere.ahead.symm.trans hafter.ahead
    rwa [(List.map_inj_right fun _ _ => Except.ok.inj).1 hsame] at hthere
  rw [hread.current] at hmarker
  rw [State.next_of_ahead hread.ahead] at hnewline
  have hheads : Ensures (Parser.heading less)
      (state.note (.began state.current.kind state.current.position.line))
      (fun value middle => value = heading ∧ middle = read) fun _ _ => False := by
    intro outcome middle hless
    cases heading_unique hheading hless
    exact ⟨rfl, rfl⟩
  have hbroken : Ensures (do
      let heading ← Parser.heading less
      announce heading
      body less heading) (state.note (.began state.current.kind state.current.position.line))
      (fun _ _ => False) fun _ failed => failed.Sees tail := by
    apply Ensures.bind (hheads.weaken (fun _ _ => id) fun _ _ => False.elim)
    rintro _ _ ⟨rfl, rfl⟩
    apply Ensures.bind ((announce_ensures hread hmarker hnewline).weaken (fun _ _ => id)
      fun _ _ => False.elim)
    intro _ behind hbehind
    obtain ⟨rest, htokens⟩ := hbehind.exists_cons
    have hindent : behind.current.kind ≠ .indent := htail _ (by rw [htokens]; rfl)
    apply (body_of_ne_indent hindent _).weaken (fun _ _ => id)
    rintro _ _ ⟨-, rfl⟩
    exact hbehind
  exact hbroken result failed hrun

theorem kind_ne_indent_of_line (hline : ∀ token ∈ line, token.kind.isInline = true)
    (hnewline : newline.kind = .newline) :
    ∀ token ∈ (line ++ newline :: tail).head?, token.kind ≠ .indent := by
  intro token htoken
  cases line with
  | nil =>
      obtain rfl : newline = token := by simpa using htoken
      simp [hnewline]
  | cons first line =>
      obtain rfl : first = token := by simpa using htoken
      exact (flat_of_isInline hline first List.mem_cons_self).1

/-- A statement that is broken in front of the line of an expression, with no block left open, takes
the line along. -/
theorem Lands.takes_line (hsees : state.Sees (front ++ (line ++ newline :: dedent :: tail)))
    (hfront : front ≠ []) (hflat : ∀ token ∈ front, token.kind ≠ .indent ∧ token.kind ≠ .dedent)
    (hmoves : state.Moves failed) (hfailed : failed.Sees (line ++ newline :: dedent :: tail))
    (hlands : Lands (failed.openBlocks - state.openBlocks) (failed.consumed != state.consumed)
      failed last)
    (hline : ∀ token ∈ line, token.kind.isInline = true) (hnewline : newline.kind = .newline)
    (hdedent : dedent.kind = .dedent) : last.current.kind = .dedent := by
  obtain ⟨spent, htakes⟩ := hmoves.takes
  have hspent : spent = front := by
    have hahead := htakes.ahead
    rw [hsees.ahead, hfailed.ahead, List.map_append] at hahead
    have hsame := List.append_cancel_right hahead
    exact ((List.map_inj_right fun _ _ => Except.ok.inj).1 hsame).symm
  have hlevel : failed.openBlocks - state.openBlocks = 0 := by
    rw [htakes.openBlocks, hspent, depthBehind_of_flat hflat, Nat.sub_self]
  have hprogressed : (failed.consumed != state.consumed) = true := by
    have hlength := List.length_pos_iff.2 hfront
    rw [htakes.consumed, hspent, bne_iff_ne]
    omega
  rw [hlevel, hprogressed] at hlands
  have hahead := hlands.behind_line hfailed.ahead hline hnewline hdedent
  rw [State.current_of_ahead hahead, hdedent]

/-- Where a line announces a block and the line of an expression follows, the latter is skipped, and
nothing is read up to the end of the block around them. -/
theorem statements_announced (h : state.Announces after)
    (hsees : state.Sees (front ++ (line ++ newline :: dedent :: tail))) (hfront : front ≠ [])
    (hflat : ∀ token ∈ front, token.kind ≠ .indent ∧ token.kind ≠ .dedent) {ending : Token}
    (hafter : after.Sees (marker :: ending :: (line ++ newline :: dedent :: tail)))
    (hline : ∀ token ∈ line, token.kind.isInline = true) (hnewline : newline.kind = .newline)
    (hdedent : dedent.kind = .dedent) :
    Ensures (statements fuel) state (fun block _ => block = []) fun _ _ => True := by
  cases fuel with
  | zero => exact .of_exhausted
  | succ fuel =>
      have hstarts := h.startsHeading
      unfold statements
      apply Ensures.get_bind
      rw [if_neg (by
        intro hclosing
        simp only [Bool.or_eq_true, decide_eq_true_eq] at hclosing
        rcases hclosing with hkind | hkind <;>
        · rw [hkind] at hstarts
          contradiction)]
      apply Ensures.bind (statement_announced h hsees hafter
        (kind_ne_indent_of_line hline hnewline)).traced.attempt
      intro result failed hfailed
      cases result with
      | ok stmt => exact hfailed.1.elim
      | error error =>
          obtain ⟨hfailed, hrun⟩ := hfailed
          apply Ensures.bind (recover_skips.weaken (fun _ _ => id) fun _ _ _ => trivial)
          rintro _ last ⟨hgoes, hlands⟩
          have hmoves := (statementsMoving fuel).statement.of_run hsees.settled hrun
            (by rintro _ ⟨⟩; exact hgoes)
          have hkind := hlands.takes_line hsees hfront hflat hmoves hfailed hline hnewline hdedent
          cases fuel with
          | zero => exact .of_exhausted
          | succ fuel =>
              unfold statements
              apply Ensures.get_bind
              rw [if_pos (by simp [hkind])]
              exact .of_pure rfl

/-! ## Behind dropped statements -/

theorem statements_of_drops {good : Block → State → Prop} (h : state.Drops after)
    (hkind : state.current.kind ≠ .dedent ∧ state.current.kind ≠ .eof)
    (hrest : ∀ fuel, Ensures (statements fuel) after good fun _ _ => True) (fuel : Nat) :
    Ensures (statements fuel) state good fun _ _ => True := by
  obtain ⟨fuel', fuel'', error, failed, hrun, hrecover⟩ := h
  cases fuel with
  | zero => exact .of_exhausted
  | succ fuel =>
      have hstatement : Ensures (statement fuel) state (fun _ _ => False)
          fun error' failed' => error' = error ∧ failed' = failed := by
        intro result middle hless
        cases statement_unique hrun hless
        exact ⟨rfl, rfl⟩
      unfold statements
      apply Ensures.get_bind
      rw [if_neg (by simp [hkind])]
      apply Ensures.bind hstatement.attempt
      intro result middle hmiddle
      cases result with
      | ok stmt => exact hmiddle.elim
      | error error' =>
          obtain ⟨rfl, rfl⟩ := hmiddle
          have hrecovers : Ensures (recover fuel error' state.consumed state.openBlocks) middle
              (fun _ last => last = after) fun _ _ => True := by
            intro result last hless
            cases recover_unique hrecover hless
            rfl
          apply Ensures.bind hrecovers
          rintro _ _ rfl
          exact hrest fuel

/-- What the statements behind dropped ones give, these give with them. -/
theorem statements_of_way {good : Block → State → Prop} (h : ReflTransGen State.Drops start state)
    (hsettled : start.Settled)
    (hkind : ∀ middle, start.Moves middle → middle.Moves state →
      middle.current.kind ≠ .dedent ∧ middle.current.kind ≠ .eof)
    (hrest : ∀ fuel, Ensures (statements fuel) state good fun _ _ => True) :
    ∀ fuel, Ensures (statements fuel) start good fun _ _ => True := by
  induction h using ReflTransGen.head_induction_on with
  | refl => exact hrest
  | @head start middle hdrops hway ih =>
      have hmoves := hdrops.moves hsettled
      have hlater := State.drops_moves hway (hmoves.settled hsettled)
      apply statements_of_drops hdrops (hkind start (.refl start) (hmoves.trans hlater))
      exact ih (hmoves.settled hsettled) fun between hbetween =>
        hkind between (hmoves.trans hbetween)

end Offside.Parse
