import Offside.Proofs.Parsing.Gathering

/-!
# All grammar functions gather their leaves

The grammar functions are put together from those that are known to gather the leaves of their values,
so each of them does, with any amount of fuel.
-/

namespace Offside.Parse

namespace Parser

open State (Breaks)

variable {items : List Item} {fuel : Nat}

/-! ## Expressions -/

structure ExpressionsGather (items : List Item) (fuel : Nat) : Prop where
  expression : Gathers items [] Expr.leaves (expression fuel)
  level : ∀ here, Gathers items [] Expr.leaves (level fuel here)
  suffixes : ∀ object, Gathers items object.leaves Expr.leaves (suffixes fuel object)
  arguments : Gathers items [] Expr.leavesAll (arguments fuel)
  moreArguments : Gathers items [] Expr.leavesAll (moreArguments fuel)
  atom : Gathers items [] Expr.leaves (atom fuel)
  parenthesized? : Seeks items [.leftParen] (parenthesized? fuel)

private theorem binaryLevel_gathers (ih : ExpressionsGather items fuel) (here : Level) :
    Gathers items [] Expr.leaves
      (do
        let left ← level fuel here.tighter
        match here.operator? (← currentKind) with
        | some op =>
            let _ ← advance
            return .binary left op (← level fuel here.right)
        | none => return left) := by
  apply Gathers.bind (ih.level _)
  intro left
  apply Gathers.skip currentKind_passes
  intro kind
  split
  · apply Gathers.skip advance_passes
    intro _
    exact Gathers.bind (ih.level _) fun _ => .of_value rfl
  · exact .of_value rfl

private theorem sign_gathers (ih : ExpressionsGather items fuel) :
    Gathers items [] Expr.leaves (level (fuel + 1) .sign) := by
  intro state hstate
  apply Ensures.bind (signAhead?_ensures hstate)
  rintro op? middle ⟨hmiddle, hleaves⟩
  rw [← hleaves]
  cases op? with
  | some op =>
      apply Ensures.bind (advance_ensures hmiddle)
      rintro token after ⟨-, hafter, hgathered⟩
      have hoperand : Gathers items [] Expr.leaves
          (do return .unary op (← nested (level fuel .sign))) :=
        Gathers.bind (ih.level _).nested fun _ => .of_value rfl
      exact hoperand.within hafter ((List.sublist_append_right _ _).trans hgathered)
  | none => exact ih.level _ middle hmiddle

private theorem suffixes_gathers (ih : ExpressionsGather items fuel) (object : Expr) :
    Gathers items object.leaves Expr.leaves (suffixes (fuel + 1) object) := by
  apply Gathers.skip currentKind_passes
  intro kind
  split
  · apply Gathers.skip advance_passes
    intro _
    apply Gathers.bind ih.arguments
    intro arguments
    exact Gathers.skip (expect_passes _) fun _ => ih.suffixes _
  · apply Gathers.skip advance_passes
    intro _
    exact Gathers.bind identifier_gathers fun _ => ih.suffixes _
  · apply Gathers.skip advance_passes
    intro _
    apply Gathers.bind ih.expression
    intro index
    exact Gathers.skip (expect_passes _) fun _ => ih.suffixes _
  · exact .of_value rfl

private theorem atom_gathers (ih : ExpressionsGather items fuel) :
    Gathers items [] Expr.leaves (atom (fuel + 1)) := by
  intro state hstate
  apply Ensures.bind (literal?_seeks state hstate)
  intro value? middle hmiddle
  cases value? with
  | some value => exact .of_pure hmiddle
  | none =>
      obtain ⟨rfl, hliteral⟩ := hmiddle
      apply Ensures.currentKind_bind
      split
      · have hname : Gathers items [] Expr.leaves (do return .identifier (← identifier)) :=
          Gathers.bind identifier_gathers fun _ => .of_value rfl
        exact hname middle hstate
      · rename_i hname
        apply Ensures.bind (ih.parenthesized? middle hstate)
        intro inner? after hafter
        cases inner? with
        | some inner => exact .of_pure hafter
        | none =>
            obtain ⟨rfl, hparen⟩ := hafter
            apply Ensures.get_bind
            apply Ensures.of_throw
            apply hstate.breaks
            apply Error.noticedAt_expectedExpression hstate.faithful_current
            cases hkind : after.current.kind <;> simp_all [literalKinds, Grammar.startsAtom]

private theorem parenthesized?_seeks (ih : ExpressionsGather items fuel) :
    Seeks items [.leftParen] (parenthesized? (fuel + 1)) := by
  intro state hstate
  apply Ensures.currentKind_bind
  split
  · apply Ensures.bind (advance_passes state hstate)
    rintro _ opened ⟨hopened, hless⟩
    apply Ensures.bind (ih.expression.within hopened hless)
    rintro inner middle ⟨hmiddle, hinner⟩
    have hbehind := (List.sublist_append_right _ _).trans hinner
    apply Ensures.bind ((expect_passes _ middle hmiddle).weaken (fun _ _ hlast => hlast)
      fun _ _ hbreaks => hbreaks.weaken hbehind)
    rintro _ after ⟨hafter, hlast⟩
    exact .of_pure ⟨hafter, (hlast.append_left inner.leaves).trans hinner⟩
  · rename_i hkind
    exact .of_pure ⟨rfl, by simpa using hkind⟩

theorem expressionsGather (fuel : Nat) : ExpressionsGather items fuel := by
  induction fuel with
  | zero =>
      constructor
      case parenthesized? => exact fun _ _ => .of_exhausted
      all_goals intros; exact .of_exhausted _ _
  | succ fuel ih =>
      constructor
      case expression => exact (ih.level _).nested
      case level =>
        intro here
        cases here
        case atom => exact ih.atom
        case suffix => exact Gathers.bind (ih.level _) fun _ => ih.suffixes _
        case negation =>
          apply Gathers.skip currentKind_passes
          intro kind
          split
          · apply Gathers.skip advance_passes
            intro _
            exact Gathers.bind ((ih.level _).nested) fun _ => .of_value rfl
          · exact ih.level _
        case sign => exact sign_gathers ih
        all_goals exact binaryLevel_gathers ih _
      case suffixes => exact suffixes_gathers ih
      case arguments =>
        apply Gathers.skip currentKind_passes
        intro kind
        split
        · exact .of_value rfl
        · apply Gathers.bind ih.expression
          intro first
          exact Gathers.bind ih.moreArguments fun _ => .of_value rfl
      case moreArguments =>
        apply Gathers.skip currentKind_passes
        intro kind
        split
        · apply Gathers.skip advance_passes
          intro _
          apply Gathers.bind ih.expression
          intro argument
          exact Gathers.bind ih.moreArguments fun _ => .of_value rfl
        · exact .of_value rfl
      case atom => exact atom_gathers ih
      case parenthesized? => exact parenthesized?_seeks ih

/-! ## Headers and simple statements -/

theorem moreParameters_gathers (fuel : Nat) :
    Gathers items [] (List.map .name) (moreParameters fuel) := by
  induction fuel with
  | zero => exact .of_exhausted _ _
  | succ fuel ih =>
      apply Gathers.skip currentKind_passes
      intro kind
      split
      · apply Gathers.skip advance_passes
        intro _
        apply Gathers.bind identifier_gathers
        intro parameter
        exact Gathers.bind ih fun _ => .of_value rfl
      · exact .of_value rfl

theorem optionalParameters_gathers (fuel : Nat) :
    Gathers items [] (List.map .name) (optionalParameters fuel) := by
  apply Gathers.skip currentKind_passes
  intro kind
  split
  · apply Gathers.bind identifier_gathers
    intro first
    exact Gathers.bind (moreParameters_gathers fuel) fun _ => .of_value rfl
  · exact .of_value rfl

theorem header_gathers (fuel : Nat) : Gathers items [] Header.leaves (header fuel) := by
  apply Gathers.skip (expect_passes _)
  intro _
  apply Gathers.bind identifier_gathers
  intro name
  apply Gathers.skip (expect_passes _)
  intro _
  apply Gathers.bind (optionalParameters_gathers fuel)
  intro parameters
  apply Gathers.skip (expect_passes _)
  intro _
  apply Gathers.skip currentKind_passes
  intro kind
  apply Gathers.skip nextKind_passes
  intro next
  split
  · apply Gathers.skip advance_passes
    intro _
    exact Gathers.bind identifier_gathers fun _ => .of_value (by simp [Header.leaves, Header.names])
  · exact .of_value (by simp [Header.leaves, Header.names])

theorem fields_gathers (fuel : Nat) : Gathers items [] (List.map .name) (fields fuel) := by
  induction fuel with
  | zero => exact .of_exhausted _ _
  | succ fuel ih =>
      apply Gathers.skip currentKind_passes
      intro kind
      split
      · apply Gathers.bind identifier_gathers
        intro field
        apply Gathers.skip (expect_passes _)
        intro _
        exact Gathers.bind ih fun _ => .of_value rfl
      · exact .of_value rfl

theorem expressionStatement_gathers (fuel : Nat) :
    Gathers items [] Stmt.leaves (expressionStatement fuel) := by
  apply Gathers.bind (expressionsGather fuel).expression
  intro value
  exact Gathers.skip (expect_passes _) fun _ => .of_value (by simp)

theorem returnStatement_gathers (fuel : Nat) :
    Gathers items [] Stmt.leaves (returnStatement fuel) := by
  have hvalue : Gathers items [] (fun value? => (Stmt.ret value?).leaves) (returnValue? fuel) := by
    apply Gathers.skip currentKind_passes
    intro kind
    split
    · exact .of_value (by simp)
    · exact Gathers.bind (expressionsGather fuel).expression fun _ => .of_value (by simp)
  apply Gathers.skip (expect_passes _)
  intro _
  apply Gathers.bind hvalue
  intro value?
  exact Gathers.skip (expect_passes _) fun _ => .of_value rfl

theorem recordStatement_gathers (fuel : Nat) :
    Gathers items [] Stmt.leaves (recordStatement fuel) := by
  apply Gathers.skip (expect_passes _)
  intro _
  apply Gathers.bind identifier_gathers
  intro name
  apply Gathers.skip (expect_passes _)
  intro _
  apply Gathers.skip (expect_passes _)
  intro _
  apply Gathers.skip (expect_passes _)
  intro _
  apply Gathers.bind (fields_gathers fuel)
  intro fields
  exact Gathers.skip (expect_passes _) fun _ => .of_value (by simp)

/-! ## Blocks -/

def branchLeaves (branch : Expr × Block × Alternative) : List Leaf :=
  branch.1.leaves ++ (Block.leaves branch.2.1 ++ branch.2.2.leaves)

structure StatementsGather (items : List Item) (fuel : Nat) : Prop where
  statements : Gathers items [] Block.leaves (statements fuel)
  statement : Gathers items [] Stmt.leaves (statement fuel)
  block : Gathers items [] Block.leaves (block fuel)
  function : Gathers items [] Stmt.leaves (function fuel)
  conditional : Gathers items [] Stmt.leaves (conditional fuel)
  branch : Gathers items [] branchLeaves (branch fuel)
  loop : Gathers items [] Stmt.leaves (loop fuel)

theorem statementsGather (fuel : Nat) : StatementsGather items fuel := by
  induction fuel with
  | zero => constructor <;> exact .of_exhausted _ _
  | succ fuel ih =>
      constructor
      case statements =>
        rw [statements_succ]
        apply Gathers.skip currentKind_passes
        intro kind
        split
        · exact .of_value (by simp)
        · apply Gathers.guarded ih.statement _ ih.statements
          intro stmt
          exact Gathers.bind ih.statements fun _ => .of_value (by simp)
      case statement =>
        apply Gathers.skip currentToken_passes
        intro token
        apply Gathers.skip (note_passes fun _ => .began token.kind token.position.line)
        intro _
        split
        · exact ih.function
        · exact ih.conditional
        · exact ih.loop
        · exact returnStatement_gathers fuel
        · exact recordStatement_gathers fuel
        · exact expressionStatement_gathers fuel
      case block =>
        apply Gathers.skip (expect_passes _)
        intro _
        apply Gathers.bind ih.statements.nested
        intro body
        exact Gathers.skip (expect_passes _) fun _ => .of_value rfl
      case function =>
        apply Gathers.bind (header_gathers fuel)
        intro header
        apply Gathers.skip (expectOneOf_passes _)
        intro _
        apply Gathers.skip (expect_passes _)
        intro _
        exact Gathers.bind ih.block fun _ => .of_value (by simp)
      case conditional =>
        apply Gathers.skip (expect_passes _)
        intro _
        exact Gathers.bind ih.branch fun _ => .of_value (by simp [branchLeaves])
      case branch =>
        apply Gathers.bind (expressionsGather fuel).expression
        intro condition
        apply Gathers.skip (expect_passes _)
        intro _
        apply Gathers.skip (expect_passes _)
        intro _
        apply Gathers.bind ih.block
        intro body
        apply Gathers.skip currentKind_passes
        intro kind
        split
        · apply Gathers.skip advance_passes
          intro _
          exact Gathers.bind ih.branch fun _ => .of_value (by simp [branchLeaves])
        · apply Gathers.skip advance_passes
          intro _
          apply Gathers.skip (expect_passes _)
          intro _
          apply Gathers.skip (expect_passes _)
          intro _
          exact Gathers.bind ih.block fun _ => .of_value (by simp [branchLeaves])
        · exact .of_value (by simp [branchLeaves])
      case loop =>
        apply Gathers.skip (expect_passes _)
        intro _
        apply Gathers.bind (expressionsGather fuel).expression
        intro condition
        apply Gathers.skip (expect_passes _)
        intro _
        apply Gathers.skip (expect_passes _)
        intro _
        exact Gathers.bind ih.block fun _ => .of_value (by simp)

theorem program_gathers (fuel : Nat) : Gathers items [] Block.leaves (program fuel) := by
  intro state hstate
  apply Ensures.currentToken_bind
  split
  · have hblock : Gathers items [] Block.leaves (do
        let _ ← advance
        let block ← statements fuel
        let _ ← expect .dedent
        let _ ← expect .eof
        modify fun state => state.note (.finished block.length state.errors.length)
        return block) := by
      apply Gathers.skip advance_passes
      intro _
      apply Gathers.bind (statementsGather fuel).statements
      intro block
      apply Gathers.skip (expect_passes _)
      intro _
      apply Gathers.skip (expect_passes _)
      intro _
      apply Gathers.skip (note_passes fun state => .finished block.length state.errors.length)
      exact fun _ => .of_value rfl
    exact hblock state hstate
  · rename_i hkind
    apply Ensures.modify_bind
    apply Ensures.of_throw
    have herror : (Error.unexpected [.indent] state.current).NoticedAt state.current :=
      Error.noticedAt_unexpected hstate.faithful_current (by simpa using hkind)
    exact .inr ⟨hstate.note _, herror, .refl _⟩

end Parser

/-! ## Whole parses -/

open Scan (TokenStream)

theorem State.unmentioned_of_ofStream {stream : TokenStream} {config : Config} {state : State}
    (hstate : ofStream stream config = .ok state) (hterminated : Terminated stream.items)
    (hfaithful : ∀ token, .ok token ∈ stream.items → token.Faithful) :
    state.Unmentioned (untilEof stream.items) := by
  have hfresh := fresh_of_ofStream hstate
  refine ⟨[], ⟨fun token htoken => hfaithful token (mem_of_mem_untilEof htoken), hfresh.settled, ?_,
    ?_, ?_, List.forall_mem_nil _⟩, List.forall_mem_nil _⟩
  · rw [hfresh.ahead, hfresh.consumed, List.drop_zero]
  · rw [hfresh.ahead]
    exact hterminated.untilEof
  · exact ⟨hfresh.errors, List.forall_mem_nil _, .nil⟩

theorem State.mem_of_ofStream {stream : TokenStream} {config : Config} {error : Error}
    (hstate : ofStream stream config = .error error) (hterminated : Terminated stream.items) :
    ∃ failure, .error failure ∈ stream.items ∧ error = .ofFailure failure := by
  unfold ofStream TokenStream.next at hstate
  cases hitems : stream.items with
  | nil =>
      rw [hitems] at hterminated
      exact hterminated.elim
  | cons first rest =>
      cases first with
      | error failure =>
          simp only [hitems, Except.error.injEq] at hstate
          exact ⟨failure, by simp, hstate.symm⟩
      | ok current =>
          rw [hitems] at hterminated
          by_cases hcurrent : current.kind = .eof
          · simp [hitems, hcurrent] at hstate
          · cases hrest : rest with
            | nil =>
                rw [hrest] at hterminated
                exact (hterminated.tail hcurrent).elim
            | cons second rest =>
                cases second with
                | error failure =>
                    simp only [hitems, hcurrent, hrest, if_false, Except.error.injEq] at hstate
                    exact ⟨failure, by simp, hstate.symm⟩
                | ok next => simp [hitems, hcurrent, hrest] at hstate

/-- What the result of a parse and its recorded errors have to do with the outcomes of the stream. -/
structure Outcome.Tells (items : List Item) (outcome : Outcome) : Prop where
  mentioned : ∃ mentions, Mentioned items mentions outcome.errors
  leaves : ∀ block, outcome.result = .ok block →
    (Block.leaves block).Sublist (items.filterMap Item.leaf?)
  placed : ∀ error, outcome.result = .error error → error.PlacedIn items

theorem Outcome.Tells.longer {items : List Item} {outcome : Outcome} (h : outcome.Tells items)
    (behind : List Item) : outcome.Tells (items ++ behind) where
  mentioned := h.mentioned.imp fun _ hmentioned => hmentioned.longer behind
  leaves block hresult := by
    rw [List.filterMap_append]
    exact (h.leaves block hresult).trans (List.sublist_append_left _ _)
  placed error hresult := (h.placed error hresult).longer behind

theorem parseStream_tells {stream : TokenStream} (config : Config)
    (hterminated : Terminated stream.items)
    (hfaithful : ∀ token, .ok token ∈ stream.items → token.Faithful) :
    (parseStream stream config).Tells stream.items := by
  unfold parseStream
  cases hstate : State.ofStream stream config with
  | error error =>
      obtain ⟨failure, hfailure, rfl⟩ := State.mem_of_ofStream hstate hterminated
      refine ⟨⟨[], rfl, List.forall_mem_nil _, .nil⟩, nofun, fun error herror => ?_⟩
      rw [← Except.error.inj herror]
      exact Error.placedIn_ofFailure hfailure
  | ok state =>
      have hopen := State.unmentioned_of_ofStream hstate hterminated hfaithful
      have hfresh := State.fresh_of_ofStream hstate
      have hmeets := State.run_program_meets hopen.settled.wellFormed
        (Parser.program_gathers state.fuel state hopen)
      obtain ⟨behind, hbehind⟩ := exists_untilEof_append stream.items
      rw [hbehind]
      apply Outcome.Tells.longer
      cases hresult : (state.run Parser.program).1 with
      | ok block =>
          rw [hresult] at hmeets
          have hgathered := (List.sublist_append_left _ _).trans hmeets.2
          rw [List.nil_append, State.leavesAhead, hfresh.ahead] at hgathered
          refine ⟨hmeets.1.mentioned, fun _ hblock => ?_, fun _ herror => ?_⟩
          · rwa [← Except.ok.inj (hresult.symm.trans hblock)]
          · cases hresult.symm.trans herror
      | error error =>
          rw [hresult] at hmeets
          have hbreaks : State.Breaks _ _ error _ := hmeets
          refine ⟨hbreaks.mentioned, fun _ hblock => ?_, fun _ herror => ?_⟩
          · cases hresult.symm.trans hblock
          · rw [← Except.error.inj (hresult.symm.trans herror)]
            exact hbreaks.placed

theorem parseText_tells (text : String) (config : RunConfig) :
    (parseText text config).Tells (Scan.Scanner.ofText text config.tabWidth).outcomes := by
  have htells : (parseText text config).Tells (TokenStream.ofText text config.tabWidth).items :=
    parseStream_tells config.parser (terminated_ofText text config.tabWidth)
      (Scan.Scanner.faithful_of_mem_outcomes (.ofText text config.tabWidth))
  exact htells

end Offside.Parse
