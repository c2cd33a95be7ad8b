import Offside.Proofs.Grammar.Bare
import Offside.Proofs.Grammar.Source
import Offside.Proofs.Recovery.Totality
import Offside.Proofs.Scanning.Arrival

/-!
# Nothing hides the program behind it

A program that starts with a keyword of statements is found behind any text.  Its first token is a
barrier: the statements in front of it, however broken, are skipped up to it at most, so that the
block around all others goes on with the statements of the program.
-/

namespace Offside

def Grammar.Program.inside (program : Program) : List Token :=
  program.body.tokens ++ [.plain .dedent program.closing, .plain .eof program.last]

namespace Parse

open Grammar (Program)
open Parse.Parser

variable {state : State} {barrier : Barrier} {nesting fuel : Nat}

/-! ## Up to the barrier -/

theorem Closes.eq_of_zero {items : List Item} (h : Closes items 0) :
    ∃ last, items = [.ok last] ∧ last.kind = .eof := by
  cases items with
  | nil => contradiction
  | cons item rest =>
      cases item with
      | error failure => exact absurd rfl h.1
      | ok token =>
          by_cases hkind : token.kind = .eof
          · obtain ⟨-, rfl⟩ := h.eof hkind
            exact ⟨token, rfl, hkind⟩
          · exact absurd rfl (h.tail hkind).1

theorem Closes.unique {tokens tokens' : List Token} {openBlocks openBlocks' : Nat}
    (hkinds : tokens.map Token.kind = tokens'.map Token.kind)
    (h : Closes (tokens.map .ok) openBlocks) (h' : Closes (tokens'.map .ok) openBlocks') :
    openBlocks = openBlocks' := by
  induction tokens generalizing tokens' openBlocks openBlocks' with
  | nil => contradiction
  | cons token tokens ih =>
      cases tokens' with
      | nil => contradiction
      | cons token' tokens' =>
          simp only [List.map_cons, List.cons.injEq] at hkinds
          by_cases hkind : token.kind = .eof
          · rw [(h.eof hkind).1, (h'.eof (hkinds.1 ▸ hkind)).1]
          · obtain ⟨hopen, htail⟩ := h.tail hkind
            obtain ⟨hopen', htail'⟩ := h'.tail (hkinds.1 ▸ hkind)
            have hbehind := ih hkinds.2 htail htail'
            rw [← hkinds.1] at hbehind
            unfold TokenKind.blocksBehind at hbehind
            split at hbehind <;> omega

namespace Barrier

theorem At.not_closing (h : barrier.At 1 nesting state) (htail : barrier.tail ≠ [])
    (hfront : state.ahead ≠ barrier.tail) :
    state.current.kind ≠ .dedent ∧ state.current.kind ≠ .eof := by
  have heof : state.current.kind ≠ .eof := by
    intro heof
    have hopen := h.within.openBlocks_of_eof heof
    rw [h.openBlocks] at hopen
    contradiction
  refine ⟨?_, heof⟩
  intro hdedent
  obtain ⟨front, hahead, -⟩ := h.within.front
  have hcloses := h.within.closes
  rw [hahead, h.openBlocks] at hcloses
  cases front with
  | nil => exact hfront hahead
  | cons item front =>
      have hhead := state.head_ahead
      rw [hahead] at hhead
      simp only [List.cons_append, List.head?_cons, Option.some.injEq] at hhead
      subst hhead
      have hbehind : Closes (front ++ barrier.tail) 0 := by
        have htail := (hcloses.tail heof).2
        rwa [hdedent] at htail
      obtain ⟨last, hlast, hkind⟩ := Closes.eq_of_zero hbehind
      cases htokens : barrier.tail with
      | nil => exact htail htokens
      | cons item rest =>
          obtain ⟨token, rfl, hkeyword, -⟩ := barrier.keyword item rest htokens
          rw [List.append_eq_singleton_iff] at hlast
          rcases hlast with ⟨-, hlast⟩ | ⟨-, hlast⟩
          · rw [htokens, List.cons.injEq, Except.ok.injEq] at hlast
            rw [hlast.1, hkind] at hkeyword
            contradiction
          · exact htail hlast

theorem statements_arrive {behind : Program} (fuel : Nat)
    (htail : barrier.tail = behind.inside.map .ok)
    (hroom : behind.depth ≤ barrier.config.maxDepth) :
    ∀ {state : State}, barrier.At 1 0 state →
      Ensures (statements fuel) state
        (fun block after => (∃ before, block = before ++ behind.tree) ∧
          after.Sees [.plain .dedent behind.closing, .plain .eof behind.last] ∧
          ∀ error ∈ after.errors, barrier.Noted error)
        fun _ _ => True := by
  have hne : barrier.tail ≠ [] := by
    simp [htail, Program.inside]
  have hended : Ended behind.inside := ⟨.plain .eof behind.last, by simp [Program.inside], rfl⟩
  induction fuel with
  | zero => exact fun _ => Ensures.of_exhausted
  | succ fuel ih =>
      intro state h
      -- At the barrier the program behind it is read; in front of it every statement, read or broken,
      -- leaves the parser at the barrier at most.
      by_cases hahead : state.ahead = barrier.tail
      · have hawaits : Grammar.Awaits behind.body state
            [.plain .dedent behind.closing, .plain .eof behind.last] := by
          refine ⟨⟨h.within.settled, hahead.trans htail, hended⟩, Grammar.heads_cons.2 rfl, ?_⟩
          rw [State.room, h.within.config, h.nesting]
          exact hroom
        apply ((Grammar.acceptsClauses (fuel + 1)).statements behind.body state _ hawaits).weaken
        · rintro _ after ⟨rfl, hafter⟩
          refine ⟨⟨[], rfl⟩, hafter.sees, ?_⟩
          rw [hafter.errors]
          exact h.within.errors
        · exact fun _ _ _ => trivial
      · obtain ⟨hdedent, heof⟩ := h.not_closing hne hahead
        unfold statements
        apply Ensures.get_bind
        rw [if_neg (by simp [hdedent, heof])]
        apply statement_resumes (fun less _ => statements_resume barrier less) h (by simp) hahead
        · intro stmt after hafter
          apply Ensures.bind (ih hafter)
          rintro _ middle ⟨⟨before, rfl⟩, hmiddle⟩
          exact .of_pure ⟨⟨stmt :: before, rfl⟩, hmiddle⟩
        · intro error after hbroken hstart
          rw [h.openBlocks]
          apply Ensures.bind ((recover_keeps hbroken (by simp) hstart).weaken
            (fun _ _ hafter => hafter) fun _ _ _ => trivial)
          intro _ middle hmiddle
          exact ih hmiddle
        · intro error after haborts
          apply Ensures.bind (Parser.recover_of_fatal haborts.isFatal trivial)
          exact fun _ _ hfalse => hfalse.elim

theorem program_arrives {stream : Scan.TokenStream} {opening : Token} {items front : List Item}
    {behind : Program} (hfresh : state.Fresh stream barrier.config)
    (hitems : untilEof stream.items = .ok opening :: items) (hopening : opening.kind = .indent)
    (hfaithful : ∀ token, .ok token ∈ items → token.Faithful) (hcloses : Closes items 1)
    (hfront : items = front ++ barrier.tail)
    (hnear : ∀ token, .ok token ∈ front → barrier.near token)
    (htail : barrier.tail = behind.inside.map .ok)
    (hroom : behind.depth ≤ barrier.config.maxDepth) :
    Ensures (program fuel) state
      (fun block after => (∃ before, block = before ++ behind.tree) ∧
        ∀ error ∈ after.errors, barrier.Noted error)
      fun _ _ => True := by
  have hcurrent : state.current = opening := by
    apply State.current_of_ahead
    rw [hfresh.ahead, hitems]
  apply Ensures.currentToken_bind
  rw [hcurrent, if_pos hopening]
  have hopened := advance_opening hfresh hitems hopening hfaithful hcloses hfront hnear
  apply Ensures.bind (hopened.weaken (fun _ _ hafter => hafter) fun _ _ _ => trivial)
  rintro _ opened ⟨hopened, -⟩
  apply Ensures.bind (statements_arrive fuel htail hroom hopened)
  rintro block read ⟨hblock, hsees, herrors⟩
  apply (closing_accepts hsees).weaken
  · rintro _ after ⟨rfl, hafter⟩
    refine ⟨hblock, ?_⟩
    rw [hafter.errors]
    exact herrors
  · exact fun _ _ _ => trivial

end Barrier

/-! ## Items further down -/

theorem untilEof_append {front items : List Item}
    (h : ∀ token, .ok token ∈ front → token.kind ≠ .eof) :
    untilEof (front ++ items) = front ++ untilEof items := by
  induction front with
  | nil => rfl
  | cons item front ih =>
      have hfront := ih fun token htoken => h token (List.mem_cons_of_mem _ htoken)
      cases item with
      | error failure => rw [List.cons_append, untilEof, hfront, List.cons_append]
      | ok token =>
          have hkind := h token List.mem_cons_self
          rw [List.cons_append, untilEof, if_neg hkind, hfront, List.cons_append]

theorem untilEof_map_item (down : Displacement) (items : List Item) :
    untilEof (items.map down.item) = (untilEof items).map down.item := by
  induction items with
  | nil => rfl
  | cons item items ih =>
      cases item with
      | error failure => simp [Displacement.item, untilEof, ih]
      | ok token =>
          by_cases hkind : token.kind = .eof <;> simp [Displacement.item, untilEof, hkind, ih]

end Parse

open Grammar (Program)
open Parse

/-- The items of a text with a program behind it, from where on nothing but the program is read. -/
structure Trailing (items : List Item) (start : Nat) (behind : Program) : Prop where
  front : ∃ front, items = front ++ behind.inside.map .ok ∧
    ∀ token, .ok token ∈ front → token.position.offset ≤ start
  keyword : ∃ kind position rest, behind.inside = .plain kind position :: rest ∧
    kind.startsStatement = true ∧ position.offset = start
  outermost : ∀ openBlocks, Closes (behind.inside.map .ok) openBlocks → openBlocks = 1

/-- A program that starts with a keyword of statements is not changed by a text in front of it. -/
theorem exists_trailing {behind : String} {config : RunConfig} {block : Block} (text : String)
    (hstarts : StartsStatement behind.toList) (h : parse behind config = .ok ⟨block, []⟩) :
    ∃ (items : List Item) (program : Program),
      untilEof (Scan.TokenStream.ofText (text ++ "\n" ++ behind) config.tabWidth).items =
          .ok (.plain .indent .start) :: items ∧
        Trailing items (text ++ "\n").utf8ByteSize program ∧
        Block.bare program.tree = Block.bare block ∧ program.depth ≤ config.parser.maxDepth := by
  obtain ⟨kind, more, front, down, down', hkind, hbytes, halone, hboth, hfront⟩ :=
    Scan.exists_items_behind hstarts text config.tabWidth
  obtain ⟨alone, rfl, htokens, hdepth⟩ := exists_program_of_parse h
  have hkeyword : kind ≠ .eof := by
    rintro rfl
    contradiction
  have hinside : (untilEof (.ok (.plain kind Scan.Scanner.origin) :: more)).map down.item =
      alone.inside.map .ok := by
    have hitems : (Scan.TokenStream.ofText behind config.tabWidth).items = _ := halone
    rw [hitems, untilEof_of_indent, untilEof_map_item] at htokens
    simpa [Program.tokens, Program.inside] using (List.cons.inj htokens).2
  obtain ⟨tokens, hmore, hspelled⟩ := exists_tokens_of_map_item hinside
  have hrespelled : Grammar.Respelled alone.tokens
      (.plain .indent .start :: tokens.map down'.token) := by
    have hopening : alone.tokens = .plain .indent alone.opening :: alone.inside := rfl
    rw [hopening, hspelled]
    exact Grammar.respelled_plain.2 ⟨_, _, rfl, respelled_map_token down down' tokens⟩
  obtain ⟨program, htokens', htree, hdepth'⟩ := alone.exists_respelled hrespelled
  have hinside' : program.inside = tokens.map down'.token := (List.cons.inj htokens').2
  refine ⟨front ++ program.inside.map .ok, program, ?_, ⟨⟨front, rfl, fun token htoken =>
    (hfront token htoken).1⟩, ?_, ?_⟩, htree, ?_⟩
  · have hitems : (Scan.TokenStream.ofText (text ++ "\n" ++ behind) config.tabWidth).items = _ :=
      hboth
    rw [hitems, untilEof_of_indent, untilEof_append fun token htoken => (hfront token htoken).2,
      untilEof_map_item, hmore, map_item_tokens, hinside']
  · rw [untilEof, if_neg (by simpa [Token.plain] using hkeyword)] at hmore
    cases tokens with
    | nil => simp at hmore
    | cons first rest =>
        simp only [List.map_cons, List.cons.injEq, Except.ok.injEq] at hmore
        obtain ⟨rfl, -⟩ := hmore
        refine ⟨kind, down'.position Scan.Scanner.origin, rest.map down'.token, hinside', hkind, ?_⟩
        rw [← hbytes]
        exact Nat.zero_add _
  · intro openBlocks hcloses
    obtain ⟨items, hitems, hcloses', -⟩ := exists_items_ofText behind config.tabWidth
    have hcloses' := hcloses'.untilEof
    have halone' := untilEof_of_indent .start items
    rw [← hitems] at halone'
    rw [halone'] at htokens
    have htail : untilEof items = alone.inside.map .ok := (List.cons.inj htokens).2
    rw [htail] at hcloses'
    apply Closes.unique ?_ hcloses hcloses'
    simp [hinside', hspelled, Function.comp_def]
  · rw [Program.depth, hdepth']
    exact hdepth

/-- Behind any text, a program that starts with a keyword of statements is read as if it stood alone,
and no error is recorded behind its first token. -/
theorem parse_behind {text behind : String} {config : RunConfig} {block : Block} {parsed : Parsed}
    (hstarts : StartsStatement behind.toList) (hbehind : parse behind config = .ok ⟨block, []⟩)
    (h : parse (text ++ "\n" ++ behind) config = .ok parsed) :
    (∃ before last, parsed.block = before ++ last ∧ Block.bare last = Block.bare block) ∧
      ∀ error ∈ parsed.errors, error.position.offset ≤ (text ++ "\n").utf8ByteSize := by
  obtain ⟨items, program, hitems, htrailing, htree, hdepth⟩ :=
    exists_trailing text hstarts hbehind
  obtain ⟨front, hfront, hnear⟩ := htrailing.front
  obtain ⟨state, hfresh, hblock, herrors⟩ := parsed_eq_ok (parsed_of_parse h)
  let barrier : Barrier :=
    { config := config.parser
      tail := program.inside.map .ok
      near := fun token => token.position.offset ≤ (text ++ "\n").utf8ByteSize
      keyword := by
        intro item rest htail
        obtain ⟨kind, position, more, hinside, hkind, hoffset⟩ := htrailing.keyword
        rw [hinside, List.map_cons, List.cons.injEq] at htail
        exact ⟨_, htail.1.symm, hkind, Nat.le_of_eq hoffset⟩
      outermost := fun _ => htrailing.outermost }
  have hopening : ∀ item, item ∈ items →
      item ∈ (Scan.TokenStream.ofText (text ++ "\n" ++ behind) config.tabWidth).items := by
    intro item hitem
    apply mem_of_mem_untilEof
    rw [hitems]
    exact List.mem_cons_of_mem _ hitem
  have hcloses : Closes items 1 := by
    obtain ⟨all, hall, hcloses, -⟩ := exists_items_ofText (text ++ "\n" ++ behind) config.tabWidth
    rw [hall, untilEof_of_indent, List.cons.injEq] at hitems
    rw [← hitems.2]
    exact hcloses.untilEof
  have harrives : Ensures (Parser.program state.fuel) state
      (fun block after => (∃ before, block = before ++ program.tree) ∧
        ∀ error ∈ after.errors, barrier.Noted error)
      fun _ _ => True :=
    Barrier.program_arrives hfresh hitems rfl
      (fun token htoken => Scan.Scanner.faithful_of_mem_outcomes _ token (hopening _ htoken))
      hcloses hfront hnear rfl hdepth
  have hmeets := State.run_program_meets hfresh.settled.wellFormed harrives
  rw [hblock] at hmeets
  obtain ⟨⟨before, hbefore⟩, hnoted⟩ := hmeets
  rw [herrors] at hnoted
  refine ⟨⟨before, program.tree, hbefore, htree⟩, ?_⟩
  intro error herror
  obtain ⟨token, htoken, hposition⟩ := hnoted error herror
  rw [hposition]
  exact htoken

/-- A `return` behind a call that is never closed. -/
theorem parse_behind_unclosed :
    ∃ block parsed, parse "return\n" .default = .ok ⟨block, []⟩ ∧
      parse ("f(x" ++ "\n" ++ "return\n") .default = .ok parsed ∧
      (∃ before last, parsed.block = before ++ last ∧ Block.bare last = Block.bare block) ∧
      ∀ error ∈ parsed.errors, error.position.offset ≤ ("f(x" ++ "\n").utf8ByteSize := by
  have hstarts : StartsStatement "return\n".toList := ⟨.returnKeyword, by decide, rfl⟩
  have hclean : (match parse "return\n" .default with
      | .ok parsed => parsed.isClean
      | .error _ => false) = true := by decide +kernel
  have hok : (parse ("f(x" ++ "\n" ++ "return\n") .default).isOk = true := by decide +kernel
  cases hbehind : parse "return\n" .default with
  | error failure => simp [hbehind] at hclean
  | ok alone =>
      cases hparsed : parse ("f(x" ++ "\n" ++ "return\n") .default with
      | error failure =>
          rw [hparsed] at hok
          contradiction
      | ok parsed =>
          obtain ⟨block, errors⟩ := alone
          rw [hbehind] at hclean
          obtain rfl : errors = [] := by simpa [Parsed.isClean] using hclean
          exact ⟨block, parsed, rfl, rfl, parse_behind hstarts hbehind hparsed⟩

end Offside
