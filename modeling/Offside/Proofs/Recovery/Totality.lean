import Offside.FrontEnd
import Offside.Proofs.Parsing.Run
import Offside.Proofs.Recovery.Sweep

/-!
# Recovery leaves two ways to stop

With recovery on, a text is parsed to its end unless a line is indented to no open level or there
are too many errors.  The blocks of a text are balanced, and every broken statement is skipped up to
a place inside of its own block, so the end of each block and of the text is found.
-/

namespace Offside

namespace Parse

open Scan (Scanner TokenStream)
open Parse.Parser

variable {state : State} {barrier : Barrier}

namespace Barrier

theorem advance_opening {stream : TokenStream} {opening : Token} {items front : List Item}
    (hfresh : state.Fresh stream barrier.config)
    (hitems : untilEof stream.items = .ok opening :: items) (hopening : opening.kind = .indent)
    (hfaithful : ∀ token, .ok token ∈ items → token.Faithful) (hcloses : Closes items 1)
    (hfront : items = front ++ barrier.tail) (hnear : ∀ token, .ok token ∈ front → barrier.near token) :
    Ensures advance state (fun _ after => barrier.At 1 0 after ∧ after.ahead = items)
      fun error _ => error.Aborts := by
  have hahead : state.ahead = .ok opening :: items := by rw [hfresh.ahead, hitems]
  have hcurrent := State.current_of_ahead hahead
  have hkind : state.current.kind ≠ .eof := by
    rw [hcurrent, hopening]
    simp
  rcases State.advance_cases hkind with ⟨after, hadvance, hconsumes⟩ |
    ⟨failure, after, hadvance, _, _, hnext, hnone⟩
  · apply Ensures.of_advance hadvance
    have hafter : after.ahead = items := by
      have hbehind := hconsumes.ahead
      rw [hahead, List.cons.injEq] at hbehind
      exact hbehind.2.symm
    refine ⟨⟨⟨hconsumes.settled, ?_, ?_, ⟨front, ?_, hnear⟩, ?_, ?_⟩, ?_, ?_⟩, hafter⟩
    · rw [hafter]
      exact hfaithful
    · rw [hafter, hconsumes.openBlocks, hcurrent, hopening, hfresh.openBlocks]
      exact hcloses
    · rw [hafter, hfront]
    · rw [hconsumes.errors, hfresh.errors]
      simp
    · rw [hconsumes.config, hfresh.config]
    · rw [hconsumes.openBlocks, hcurrent, hopening, hfresh.openBlocks]
      rfl
    · rw [hconsumes.nesting, hfresh.nesting]
  · apply Ensures.of_advance hadvance
    rcases hnone with ⟨rest, hnone⟩ | hnone
    · rw [hahead, List.cons.injEq] at hnone
      rw [hnone.2] at hcloses
      exact .inl ⟨failure, rfl, (hcloses.tail hnext).2.2⟩
    · rw [hahead, List.cons.injEq] at hnone
      rw [hnone.2] at hcloses
      exact absurd (hcloses.tail hnext).2 (by simp [Closes])

theorem closing_ensures {blocks nesting : Nat} (h : barrier.At blocks nesting state)
    (hblocks : blocks = 1) (hkind : state.current.kind = .dedent) {block : Block}
    {bad : Error → State → Prop} (hbad : ∀ error after, error.Aborts → bad error after) :
    Ensures
      (do
        let _ ← expect .dedent
        let _ ← expect .eof
        modify fun state => state.note (.finished block.length state.errors.length)
        return block)
      state (fun result _ => result = block) bad := by
  have hdedent : Ensures (expect .dedent) state (fun _ after => barrier.At 0 nesting after) bad := by
    apply Ensures.currentToken_bind
    rw [hkind, if_pos (by simp)]
    have hfront : state.ahead ≠ barrier.tail := ahead_ne_of_kind (by rw [hkind]; rfl)
    apply (advance_ensures h (by simp [hkind]) hfront).weaken
    · rintro _ after ⟨-, hafter⟩
      rw [hkind, hblocks] at hafter
      exact hafter
    · exact fun error after haborts => hbad error after haborts
  apply Ensures.bind hdedent
  intro _ closed hclosed
  have heof : closed.current.kind = .eof := by
    by_cases heof : closed.current.kind = .eof
    · exact heof
    · exact absurd hclosed.openBlocks (hclosed.within.openBlocks_ne_zero heof)
  have hend : Ensures (expect .eof) closed (fun _ _ => True) bad := by
    apply Ensures.currentToken_bind
    rw [heof, if_pos (by simp)]
    exact .of_advance (State.advance_of_eof hclosed.within.settled heof) trivial
  apply Ensures.bind hend
  exact fun _ _ _ => Ensures.modify_bind (.of_pure rfl)

end Barrier

def Barrier.none (config : Config) : Barrier where
  config := config
  tail := []
  near := fun _ => True
  keyword := fun _ _ h => by cases h
  outermost := fun h => absurd rfl h

theorem program_ensures {stream : TokenStream} {config : Config} {opening : Token}
    {items : List Item} {fuel : Nat} (hfresh : state.Fresh stream config)
    (hitems : untilEof stream.items = .ok opening :: items) (hopening : opening.kind = .indent)
    (hfaithful : ∀ token, .ok token ∈ items → token.Faithful) (hcloses : Closes items 1)
    (hrecover : config.recover = true) :
    Ensures (program fuel) state (fun _ _ => True) fun error _ => error.Aborts := by
  have hcurrent : state.current = opening := by
    apply State.current_of_ahead
    rw [hfresh.ahead, hitems]
  apply Ensures.currentToken_bind
  rw [hcurrent, if_pos hopening]
  have hadvance : Ensures advance state
      (fun _ after => (Barrier.none config).At 1 0 after ∧ after.ahead = items)
      fun error _ => error.Aborts :=
    Barrier.advance_opening hfresh hitems hopening hfaithful hcloses (List.append_nil items).symm
      fun _ _ => trivial
  apply Ensures.bind hadvance
  rintro _ opened ⟨hopened, -⟩
  have hstatements := Barrier.statements_resume (Barrier.none config) fuel hopened (by simp) (.inl rfl)
  apply Ensures.bind (hstatements.weaken (fun _ _ hafter => hafter) ?_)
  · rintro block closed ⟨hclosed, hkind⟩
    apply (Barrier.closing_ensures hclosed rfl hkind fun _ _ haborts => haborts).weaken
    · exact fun _ _ _ => trivial
    · exact fun _ _ haborts => haborts
  · intro error after hafter
    rcases hafter with haborts | ⟨hoff, -⟩
    · exact haborts
    · have hoff : config.recover = false := hoff
      rw [hrecover] at hoff
      contradiction

theorem aborts_of_ofStream {stream : TokenStream} {config : Config} {opening : Token}
    {items : List Item} {error : Error} (hitems : stream.items = .ok opening :: items)
    (hopening : opening.kind = .indent) (hcloses : Closes items 1)
    (h : State.ofStream stream config = .error error) : error.Aborts := by
  have hkind : ¬ opening.kind = .eof := by
    rw [hopening]
    simp
  unfold State.ofStream TokenStream.next at h
  cases items with
  | nil => cases hcloses
  | cons item rest =>
      cases item with
      | error failure =>
          simp only [hitems, hkind, if_false, Except.error.injEq] at h
          exact .inl ⟨failure, by rw [← h]; rfl, hcloses.2⟩
      | ok next => simp [hitems, hkind] at h

end Parse

open Parse

theorem exists_items_ofText (text : String) (tabWidth : UInt64) :
    ∃ items, (Scan.TokenStream.ofText text tabWidth).items = .ok (.plain .indent .start) :: items ∧
      Closes items 1 ∧ ∀ token, .ok token ∈ items → token.Faithful := by
  obtain ⟨items, hitems, hcloses⟩ := Scan.Scanner.outcomes_ofText text tabWidth
  refine ⟨items, hitems, hcloses, fun token htoken => ?_⟩
  apply Scan.Scanner.faithful_of_mem_outcomes (.ofText text tabWidth)
  rw [hitems]
  exact List.mem_cons_of_mem _ htoken

/-- With recovery on, a parse that stops early has met a mismatched line or too many errors. -/
theorem aborts_of_parse {text : String} {config : RunConfig} {error : Error}
    (hrecover : config.parser.recover = true)
    (h : (parseText text config).result = .error error) : error.Aborts := by
  obtain ⟨items, hitems, hcloses, hfaithful⟩ := exists_items_ofText text config.tabWidth
  unfold parseText parseStream at h
  split at h
  · rename_i thrown hstate
    cases h
    exact aborts_of_ofStream hitems rfl hcloses hstate
  · rename_i state hstate
    have hfresh := State.fresh_of_ofStream hstate
    have hahead := untilEof_of_indent .start items
    rw [← hitems] at hahead
    have hmeets := State.run_program_meets hfresh.settled.wellFormed
      (program_ensures hfresh hahead rfl
        (fun token htoken => hfaithful token (mem_of_mem_untilEof htoken)) hcloses.untilEof hrecover)
    have h : (state.run Parser.program).1 = .error error := h
    rw [h] at hmeets
    exact hmeets

/-- With recovery on, no broken statement stops a parse: it gives a program, unless a line is
indented to no open level or there are too many errors. -/
theorem parse_of_recover (text : String) (config : RunConfig)
    (hrecover : config.parser.recover = true) :
    (∃ parsed, parse text config = .ok parsed) ∨
      (∃ width levels position,
        parse text config = .error (.lexer (.mismatchedIndent width levels position))) ∨
      ∃ count position, parse text config = .error (.parser ⟨.tooManyErrors count, position⟩) := by
  unfold parse Outcome.parsed
  cases hresult : (parseText text config).result with
  | ok block => exact .inl ⟨_, rfl⟩
  | error error =>
      obtain ⟨cause, position⟩ := error
      rcases aborts_of_parse hrecover hresult with ⟨failure, hcause, width, levels, place, hfailure⟩ |
        ⟨count, hcause⟩
      · obtain rfl : cause = .failed failure := hcause
        subst hfailure
        exact .inr (.inl ⟨width, levels, place, rfl⟩)
      · obtain rfl : cause = .tooManyErrors count := hcause
        exact .inr (.inr ⟨count, position, rfl⟩)

/-- A call that is never closed, followed by a condition without a block. -/
theorem parse_of_recover_unclosed :
    ∃ parsed, parse "f(x\nif y:\n" .default = .ok parsed := by
  have hok : (parse "f(x\nif y:\n" .default).isOk = true := by decide +kernel
  rcases parse_of_recover "f(x\nif y:\n" .default rfl with hparsed | ⟨_, _, _, herror⟩ |
    ⟨_, _, herror⟩
  · exact hparsed
  · rw [herror] at hok
    contradiction
  · rw [herror] at hok
    contradiction

end Offside
