import Offside.Parse.Run
import Offside.Proofs.Parsing.Alike

/-!
# Parses do not depend on positions

Every grammar function is like itself, by the recursion of the grammar functions.  So streams of the
same tokens, possibly at other positions, are parsed to the same program and the same errors, up to
positions, whatever is wrong with the tokens.
-/

namespace Offside.Parse

namespace Parser

/-! ## Names and literals -/

theorem identifier_alike : Alike Identifier.bare identifier identifier := by
  apply Alike.bind (.expect _)
  intro token token' htoken
  rw [Token.payload?_of_bare htoken]
  have hunexpected := Error.bare_unexpected htoken [.identifier]
  cases token.payload? with
  | none => exact .of_throw hunexpected
  | some payload =>
      cases payload with
      | identifier name => exact .of_pure rfl
      | integer | float | string | error => exact .of_throw hunexpected

theorem literalOf?_of_bare {token token' : Token} (h : token'.bare = token.bare)
    (kind : TokenKind) : literalOf? kind token' = literalOf? kind token := by
  unfold literalOf?
  rw [Token.kind_of_bare h, Token.payload?_of_bare h]

theorem literal?_alike (kinds : List TokenKind) :
    Alike (Option.map Expr.bare) (literal? kinds) (literal? kinds) := by
  apply Alike.currentToken_bind
  intro token token' htoken
  simp only [literalOf?_of_bare htoken]
  split
  · exact Alike.bind .advance fun _ _ _ => .of_pure rfl
  · exact .of_pure rfl

/-! ## Recorded errors -/

theorem record_alike {error error' : Error} (h : error'.bare = error.bare) :
    Alike (id : PUnit → PUnit) (record error) (record error') := by
  apply Alike.modify_bind fun _ _ hstate => hstate.keep h
  apply Alike.get_bind
  intro state state' hstate
  rw [hstate.config, hstate.length_errors]
  split
  · exact .of_throw rfl
  · exact .of_pure rfl

theorem signAhead?_alike : Alike (id : Option UnaryOp → Option UnaryOp) signAhead? signAhead? := by
  apply Alike.get_bind
  intro state state' hstate
  rw [Token.kind_of_bare hstate.current, Token.fault?_of_bare hstate.current, hstate.config]
  split
  · exact .of_pure rfl
  · split
    · split
      · exact Alike.bind (record_alike rfl) fun _ _ _ => .of_pure rfl
      · exact .of_throw rfl
    · exact .of_pure rfl

/-! ## Expressions -/

structure ExpressionsAlike (fuel : Nat) : Prop where
  expression : Alike Expr.bare (expression fuel) (expression fuel)
  level : ∀ here, Alike Expr.bare (level fuel here) (level fuel here)
  suffixes : ∀ object object' : Expr, object'.bare = object.bare →
    Alike Expr.bare (suffixes fuel object) (suffixes fuel object')
  arguments : Alike Expr.bareAll (arguments fuel) (arguments fuel)
  moreArguments : Alike Expr.bareAll (moreArguments fuel) (moreArguments fuel)
  atom : Alike Expr.bare (atom fuel) (atom fuel)
  parenthesized? : Alike (Option.map Expr.bare) (parenthesized? fuel) (parenthesized? fuel)

private theorem binaryLevel_alike {fuel : Nat} (ih : ExpressionsAlike fuel) (here : Level) :
    Alike Expr.bare
      (do
        let left ← level fuel here.tighter
        match here.operator? (← currentKind) with
        | some op =>
            let _ ← advance
            return .binary left op (← level fuel here.right)
        | none => return left)
      (do
        let left ← level fuel here.tighter
        match here.operator? (← currentKind) with
        | some op =>
            let _ ← advance
            return .binary left op (← level fuel here.right)
        | none => return left) := by
  apply Alike.bind (ih.level _)
  intro left left' hleft
  apply Alike.currentKind_bind
  intro kind
  split
  · apply Alike.bind .advance
    intro _ _ _
    apply Alike.bind (ih.level _)
    intro right right' hright
    exact .of_pure (by simp [Expr.bare, hleft, hright])
  · exact .of_pure hleft

private theorem suffixes_alike {fuel : Nat} (ih : ExpressionsAlike fuel) {object object' : Expr}
    (hobject : object'.bare = object.bare) :
    Alike Expr.bare (suffixes (fuel + 1) object) (suffixes (fuel + 1) object') := by
  apply Alike.currentKind_bind
  intro kind
  split
  · apply Alike.bind .advance
    intro _ _ _
    apply Alike.bind ih.arguments
    intro arguments arguments' harguments
    apply Alike.bind (.expect _)
    intro _ _ _
    exact ih.suffixes _ _ (by simp [Expr.bare, hobject, harguments])
  · apply Alike.bind .advance
    intro _ _ _
    apply Alike.bind identifier_alike
    intro name name' hname
    exact ih.suffixes _ _ (by simp [Expr.bare, hobject, hname])
  · apply Alike.bind .advance
    intro _ _ _
    apply Alike.bind ih.expression
    intro index index' hindex
    apply Alike.bind (.expect _)
    intro _ _ _
    exact ih.suffixes _ _ (by simp [Expr.bare, hobject, hindex])
  · exact .of_pure hobject

private theorem atom_alike {fuel : Nat} (ih : ExpressionsAlike fuel) :
    Alike Expr.bare (atom (fuel + 1)) (atom (fuel + 1)) := by
  apply Alike.bind (literal?_alike _)
  intro value? value?' hvalue
  cases value? <;> cases value?' <;>
    simp only [Option.map_some, Option.map_none, Option.some.injEq, reduceCtorEq] at hvalue
  · apply Alike.currentKind_bind
    intro kind
    split
    · apply Alike.bind identifier_alike
      intro name name' hname
      exact .of_pure (by simp [Expr.bare, hname])
    · apply Alike.bind ih.parenthesized?
      intro inner? inner?' hinner
      cases inner? <;> cases inner?' <;>
        simp only [Option.map_some, Option.map_none, Option.some.injEq, reduceCtorEq] at hinner
      · apply Alike.get_bind
        intro state state' hstate
        exact .of_throw (Error.bare_expectedExpression hstate.current)
      · exact .of_pure hinner
  · exact .of_pure hvalue

theorem expressionsAlike (fuel : Nat) : ExpressionsAlike fuel := by
  induction fuel with
  | zero => constructor <;> intros <;> exact .of_exhausted
  | succ fuel ih =>
      constructor
      case expression => exact (ih.level _).nested
      case level =>
        intro here
        cases here
        case atom => exact ih.atom
        case suffix => exact Alike.bind (ih.level _) ih.suffixes
        case negation =>
          apply Alike.currentKind_bind
          intro kind
          split
          · apply Alike.bind .advance
            intro _ _ _
            apply Alike.bind (ih.level _).nested
            intro operand operand' hoperand
            exact .of_pure (by simp [Expr.bare, hoperand])
          · exact ih.level _
        case sign =>
          apply Alike.bind signAhead?_alike
          intro op? op?' hop
          obtain rfl : op?' = op? := hop
          split
          · apply Alike.bind .advance
            intro _ _ _
            apply Alike.bind (ih.level _).nested
            intro operand operand' hoperand
            exact .of_pure (by simp [Expr.bare, hoperand])
          · exact ih.level _
        all_goals exact binaryLevel_alike ih _
      case suffixes => exact fun _ _ => suffixes_alike ih
      case arguments =>
        apply Alike.currentKind_bind
        intro kind
        split
        · exact .of_pure rfl
        · apply Alike.bind ih.expression
          intro first first' hfirst
          apply Alike.bind ih.moreArguments
          intro more more' hmore
          exact .of_pure (by simp [Expr.bareAll, hfirst, hmore])
      case moreArguments =>
        apply Alike.currentKind_bind
        intro kind
        split
        · apply Alike.bind .advance
          intro _ _ _
          apply Alike.bind ih.expression
          intro argument argument' hargument
          apply Alike.bind ih.moreArguments
          intro more more' hmore
          exact .of_pure (by simp [Expr.bareAll, hargument, hmore])
        · exact .of_pure rfl
      case atom => exact atom_alike ih
      case parenthesized? =>
        apply Alike.currentKind_bind
        intro kind
        split
        · apply Alike.bind .advance
          intro _ _ _
          apply Alike.bind ih.expression
          intro inner inner' hinner
          apply Alike.bind (.expect _)
          intro _ _ _
          exact .of_pure (congrArg some hinner)
        · exact .of_pure rfl

/-! ## Headers and simple statements -/

theorem moreParameters_alike (fuel : Nat) :
    Alike (List.map Identifier.bare) (moreParameters fuel) (moreParameters fuel) := by
  induction fuel with
  | zero => exact .of_exhausted
  | succ fuel ih =>
      apply Alike.currentKind_bind
      intro kind
      split
      · apply Alike.bind .advance
        intro _ _ _
        apply Alike.bind identifier_alike
        intro parameter parameter' hparameter
        apply Alike.bind ih
        intro more more' hmore
        exact .of_pure (by rw [List.map_cons, hparameter, hmore, List.map_cons])
      · exact .of_pure rfl

theorem optionalParameters_alike (fuel : Nat) :
    Alike (List.map Identifier.bare) (optionalParameters fuel) (optionalParameters fuel) := by
  apply Alike.currentKind_bind
  intro kind
  split
  · apply Alike.bind identifier_alike
    intro first first' hfirst
    apply Alike.bind (moreParameters_alike fuel)
    intro more more' hmore
    exact .of_pure (by rw [List.map_cons, hfirst, hmore, List.map_cons])
  · exact .of_pure rfl

theorem header_alike (fuel : Nat) : Alike Header.bare (header fuel) (header fuel) := by
  apply Alike.bind (.expect _)
  intro _ _ _
  apply Alike.bind identifier_alike
  intro name name' hname
  apply Alike.bind (.expect _)
  intro _ _ _
  apply Alike.bind (optionalParameters_alike fuel)
  intro parameters parameters' hparameters
  apply Alike.bind (.expect _)
  intro _ _ _
  apply Alike.currentKind_bind
  intro kind
  apply Alike.nextKind_bind
  intro next
  split
  · apply Alike.bind .advance
    intro _ _ _
    apply Alike.bind identifier_alike
    intro type type' htype
    exact .of_pure (by simp [Header.bare, hname, hparameters, htype])
  · exact .of_pure (by simp [Header.bare, hname, hparameters])

theorem fields_alike (fuel : Nat) :
    Alike (List.map Identifier.bare) (fields fuel) (fields fuel) := by
  induction fuel with
  | zero => exact .of_exhausted
  | succ fuel ih =>
      apply Alike.currentKind_bind
      intro kind
      split
      · apply Alike.bind identifier_alike
        intro field field' hfield
        apply Alike.bind (.expect _)
        intro _ _ _
        apply Alike.bind ih
        intro more more' hmore
        exact .of_pure (by rw [List.map_cons, hfield, hmore, List.map_cons])
      · exact .of_pure rfl

theorem expressionStatement_alike (fuel : Nat) :
    Alike Stmt.bare (expressionStatement fuel) (expressionStatement fuel) := by
  apply Alike.bind (expressionsAlike fuel).expression
  intro value value' hvalue
  apply Alike.bind (.expect _)
  intro _ _ _
  exact .of_pure (by simp [Stmt.bare, hvalue])

theorem returnStatement_alike (fuel : Nat) :
    Alike Stmt.bare (returnStatement fuel) (returnStatement fuel) := by
  apply Alike.bind (.expect _)
  intro _ _ _
  have hvalue : Alike (Option.map Expr.bare) (returnValue? fuel) (returnValue? fuel) := by
    apply Alike.currentKind_bind
    intro kind
    split
    · exact .of_pure rfl
    · apply Alike.bind (expressionsAlike fuel).expression
      intro value value' hvalue
      exact .of_pure (congrArg some hvalue)
  apply Alike.bind hvalue
  intro value? value?' hvalue
  apply Alike.bind (.expect _)
  intro _ _ _
  exact .of_pure (by simp [Stmt.bare, hvalue])

theorem recordStatement_alike (fuel : Nat) :
    Alike Stmt.bare (recordStatement fuel) (recordStatement fuel) := by
  apply Alike.bind (.expect _)
  intro _ _ _
  apply Alike.bind identifier_alike
  intro name name' hname
  apply Alike.bind (.expect _)
  intro _ _ _
  apply Alike.bind (.expect _)
  intro _ _ _
  apply Alike.bind (.expect _)
  intro _ _ _
  apply Alike.bind (fields_alike fuel)
  intro fields fields' hfields
  apply Alike.bind (.expect _)
  intro _ _ _
  exact .of_pure (by simp [Stmt.bare, hname, hfields])

/-! ## Recovery -/

theorem skipToBoundary_alike (fuel : Nat) (progressed : Bool) (depth : Nat) :
    Alike (id : PUnit → PUnit) (skipToBoundary fuel progressed depth)
      (skipToBoundary fuel progressed depth) := by
  induction fuel generalizing progressed depth with
  | zero => exact .of_exhausted
  | succ fuel ih =>
      unfold skipToBoundary
      apply Alike.currentKind_bind
      intro kind
      split
      · exact .of_pure rfl
      · split
        · exact .of_pure rfl
        · apply Alike.bind .advance
          intro _ _ _
          split
          · exact .of_pure rfl
          · exact ih _ _
      · exact Alike.bind .advance fun _ _ _ => ih _ _
      · apply Alike.bind .advance
        intro _ _ _
        split
        · apply Alike.currentKind_bind
          intro kind
          split
          · exact ih _ _
          · exact .of_pure rfl
        · exact ih _ _
      · split
        · exact .of_pure rfl
        · exact Alike.bind .advance fun _ _ _ => ih _ _

theorem recover_alike {error error' : Error} (h : error'.bare = error.bare)
    (fuel start openBlocks : Nat) :
    Alike (id : PUnit → PUnit) (recover fuel error start openBlocks)
      (recover fuel error' start openBlocks) := by
  apply Alike.get_bind
  intro state state' hstate
  rw [Error.isFatal_of_bare h, hstate.config]
  split
  · exact .of_throw h
  · apply Alike.bind (record_alike h)
    intro _ _ _
    apply Alike.get_bind
    intro kept kept' hkept
    rw [hkept.openBlocks]
    apply Alike.get_bind
    intro last last' hlast
    rw [hlast.consumed]
    apply Alike.bind (skipToBoundary_alike fuel _ _)
    intro _ _ _
    exact .of_modify fun _ _ hafter => hafter.note _ _

/-! ## Blocks -/

structure StatementsAlike (fuel : Nat) : Prop where
  statements : Alike Block.bare (statements fuel) (statements fuel)
  statement : Alike Stmt.bare (statement fuel) (statement fuel)
  block : Alike Block.bare (block fuel) (block fuel)
  function : Alike Stmt.bare (function fuel) (function fuel)
  conditional : Alike Stmt.bare (conditional fuel) (conditional fuel)
  branch : Alike (fun tree : Expr × Block × Alternative =>
    Alternative.bare (.conditional tree.1 tree.2.1 tree.2.2)) (branch fuel) (branch fuel)
  loop : Alike Stmt.bare (loop fuel) (loop fuel)

private theorem statements_alike {fuel : Nat} (ih : StatementsAlike fuel) :
    Alike Block.bare (statements (fuel + 1)) (statements (fuel + 1)) := by
  unfold statements
  apply Alike.get_bind
  intro state state' hstate
  rw [Token.kind_of_bare hstate.current, hstate.consumed, hstate.openBlocks]
  split
  · exact .of_pure rfl
  · apply Alike.bind ih.statement.attempt
    intro result result' hresult
    cases result <;> cases result' <;>
      simp only [bareResult, Except.ok.injEq, Except.error.injEq,
        reduceCtorEq] at hresult
    · apply Alike.bind (recover_alike hresult _ _ _)
      intro _ _ _
      exact ih.statements
    · apply Alike.bind ih.statements
      intro rest rest' hrest
      exact .of_pure (by simp [Block.bare, hresult, hrest])

private theorem branch_alike {fuel : Nat} (ih : StatementsAlike fuel) :
    Alike (fun tree : Expr × Block × Alternative =>
      Alternative.bare (.conditional tree.1 tree.2.1 tree.2.2)) (branch (fuel + 1))
      (branch (fuel + 1)) := by
  apply Alike.bind (expressionsAlike fuel).expression
  intro condition condition' hcondition
  apply Alike.bind (.expect _)
  intro _ _ _
  apply Alike.bind (.expect _)
  intro _ _ _
  apply Alike.bind ih.block
  intro body body' hbody
  apply Alike.currentKind_bind
  intro kind
  split
  · apply Alike.bind .advance
    intro _ _ _
    apply Alike.bind ih.branch
    intro tree tree' htree
    refine .of_pure ?_
    simp only [Alternative.bare, hcondition, hbody] at htree ⊢
    rw [htree]
  · apply Alike.bind .advance
    intro _ _ _
    apply Alike.bind (.expect _)
    intro _ _ _
    apply Alike.bind (.expect _)
    intro _ _ _
    apply Alike.bind ih.block
    intro other other' hother
    exact .of_pure (by simp [Alternative.bare, hcondition, hbody, hother])
  · exact .of_pure (by simp [Alternative.bare, hcondition, hbody])

theorem statementsAlike (fuel : Nat) : StatementsAlike fuel := by
  induction fuel with
  | zero => constructor <;> exact .of_exhausted
  | succ fuel ih =>
      constructor
      case statements => exact statements_alike ih
      case statement =>
        apply Alike.currentToken_bind
        intro token token' htoken
        apply Alike.modify_bind fun _ _ hstate => hstate.note _ _
        rw [Token.kind_of_bare htoken]
        split
        · exact ih.function
        · exact ih.conditional
        · exact ih.loop
        · exact returnStatement_alike fuel
        · exact recordStatement_alike fuel
        · exact expressionStatement_alike fuel
      case block =>
        apply Alike.bind (.expect _)
        intro _ _ _
        apply Alike.bind ih.statements.nested
        intro body body' hbody
        apply Alike.bind (.expect _)
        intro _ _ _
        exact .of_pure hbody
      case function =>
        apply Alike.bind (header_alike fuel)
        intro header header' hheader
        apply Alike.bind (.expectOneOf _)
        intro _ _ _
        apply Alike.bind (.expect _)
        intro _ _ _
        apply Alike.bind ih.block
        intro body body' hbody
        exact .of_pure (by simp [Stmt.bare, hheader, hbody])
      case conditional =>
        apply Alike.bind (.expect _)
        intro _ _ _
        apply Alike.bind ih.branch
        intro tree tree' htree
        refine .of_pure ?_
        simp only [Alternative.bare, Alternative.conditional.injEq] at htree
        simp only [Stmt.bare, htree]
      case branch => exact branch_alike ih
      case loop =>
        apply Alike.bind (.expect _)
        intro _ _ _
        apply Alike.bind (expressionsAlike fuel).expression
        intro condition condition' hcondition
        apply Alike.bind (.expect _)
        intro _ _ _
        apply Alike.bind (.expect _)
        intro _ _ _
        apply Alike.bind ih.block
        intro body body' hbody
        exact .of_pure (by simp [Stmt.bare, hcondition, hbody])

theorem program_alike (fuel : Nat) : Alike Block.bare (program fuel) (program fuel) := by
  apply Alike.currentToken_bind
  intro token token' htoken
  rw [Token.kind_of_bare htoken]
  split
  · apply Alike.bind .advance
    intro _ _ _
    apply Alike.bind (statementsAlike fuel).statements
    intro block block' hblock
    apply Alike.bind (.expect _)
    intro _ _ _
    apply Alike.bind (.expect _)
    intro _ _ _
    apply Alike.modify_bind fun _ _ hstate => hstate.note _ _
    exact .of_pure hblock
  · apply Alike.modify_bind fun _ _ hstate => hstate.note _ _
    exact .of_throw (Error.bare_unexpected htoken _)

end Parser

/-! ## Whole parses -/

open Scan (TokenStream bareItem)

theorem State.Alike.run {α β : Type} {bare : α → β} {parser : Nat → Parser α}
    (hparser : ∀ fuel, Parser.Alike bare (parser fuel) (parser fuel)) {state state' : State}
    (h : state.Alike state') :
    bareResult bare (state'.run parser).1 = bareResult bare (state.run parser).1 ∧
      (state.run parser).2.Alike (state'.run parser).2 := by
  unfold State.run
  rw [h.fuel]
  have hrun := hparser state.fuel h
  generalize (parser state.fuel).run state = outcome at hrun
  generalize (parser state.fuel).run state' = outcome' at hrun
  cases hrun with
  | exhausted => exact ⟨rfl, h⟩
  | value hvalue hafter => exact ⟨congrArg Except.ok hvalue, hafter⟩
  | error herror hafter => exact ⟨congrArg Except.error herror, hafter⟩

theorem State.ofStream_alike {stream stream' : TokenStream}
    (h : stream'.items.map bareItem = stream.items.map bareItem) (config : Config) :
    (∃ state state', ofStream stream config = .ok state ∧ ofStream stream' config = .ok state' ∧
      state.Alike state') ∨
    ∃ error error' : Error, ofStream stream config = .error error ∧
      ofStream stream' config = .error error' ∧ error'.bare = error.bare := by
  obtain ⟨item, item', rest, rest', hfirst, hfirst', hitem, hrest⟩ := exists_next_of_bareItem h
  unfold ofStream
  rw [hfirst, hfirst']
  rcases bareItem_cases hitem with ⟨current, current', rfl, rfl, hcurrent⟩ |
    ⟨failure, failure', rfl, rfl, hfailure⟩
  · simp only [Token.kind_of_bare hcurrent]
    by_cases heof : current.kind = .eof
    · rw [if_pos heof, if_pos heof]
      exact .inl ⟨_, _, rfl, rfl, hrest, hcurrent, hcurrent, rfl, rfl, rfl, rfl, rfl⟩
    · rw [if_neg heof, if_neg heof]
      obtain ⟨item, item', last, last', hsecond, hsecond', hitem, hlast⟩ :=
        exists_next_of_bareItem hrest
      rw [hsecond, hsecond']
      rcases bareItem_cases hitem with ⟨next, next', rfl, rfl, hnext⟩ |
        ⟨failure, failure', rfl, rfl, hfailure⟩
      · exact .inl ⟨_, _, rfl, rfl, hlast, hcurrent, hnext, rfl, rfl, rfl, rfl, rfl⟩
      · exact .inr ⟨_, _, rfl, rfl, Error.bare_ofFailure hfailure⟩
  · exact .inr ⟨_, _, rfl, rfl, Error.bare_ofFailure hfailure⟩

theorem parseStream_alike {stream stream' : TokenStream}
    (h : stream'.items.map bareItem = stream.items.map bareItem) (config : Config) :
    bareResult Block.bare (parseStream stream' config).result =
        bareResult Block.bare (parseStream stream config).result ∧
      (parseStream stream' config).errors.map Error.bare =
        (parseStream stream config).errors.map Error.bare := by
  unfold parseStream
  rcases State.ofStream_alike h config with ⟨state, state', hstate, hstate', halike⟩ |
    ⟨error, error', herror, herror', hbare⟩
  · rw [hstate, hstate']
    obtain ⟨hresult, hafter⟩ := halike.run Parser.program_alike
    exact ⟨hresult, hafter.errors⟩
  · rw [herror, herror']
    exact ⟨congrArg Except.error hbare, rfl⟩

def Parsed.bare (parsed : Parsed) : Parsed := ⟨Block.bare parsed.block, parsed.errors.map Error.bare⟩

theorem parsed_alike {stream stream' : TokenStream}
    (h : stream'.items.map bareItem = stream.items.map bareItem) (config : Config) :
    bareResult Parsed.bare (parseStream stream' config).parsed =
      bareResult Parsed.bare (parseStream stream config).parsed := by
  obtain ⟨hresult, herrors⟩ := parseStream_alike h config
  unfold Outcome.parsed
  generalize parseStream stream config = outcome at *
  generalize parseStream stream' config = outcome' at *
  obtain ⟨result, errors, journal⟩ := outcome
  obtain ⟨result', errors', journal'⟩ := outcome'
  cases result <;> cases result' <;>
    simp only [bareResult, Except.map, Except.ok.injEq, Except.error.injEq,
      reduceCtorEq, Parsed.bare, Parsed.mk.injEq] at hresult herrors ⊢
  · exact hresult
  · exact ⟨hresult, herrors⟩

end Offside.Parse
