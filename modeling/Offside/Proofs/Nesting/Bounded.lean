import Offside.Proofs.Nesting.Levels

/-!
# Every grammar function restores the depth of nesting

By the recursion of the grammar functions, each of them is bounded by what is allowed where it
starts.  So a whole parse, which starts outside of all levels, gives a tree with as many levels as
the limit at most, however many errors it has recovered from.
-/

namespace Offside.Parse.Parser

variable {room fuel : Nat}

/-! ## Names, literals and signs -/

theorem identifier_bounded : Bounded room uncounted identifier := by
  apply Bounded.bind (.expect _)
  intro token _
  split
  · exact .of_value (Nat.zero_le _)
  · exact .of_throw _ _

abbrev levels? (value? : Option Expr) : Nat := (value?.map Expr.levels).getD 0

theorem literal?_bounded (kinds : List TokenKind) : Bounded room levels? (literal? kinds) := by
  apply Bounded.bind .currentToken
  intro token _
  split
  · apply Bounded.bind .advance
    intro _ _
    exact .of_value (Nat.zero_le _)
  · exact .of_value (Nat.zero_le _)

theorem signAhead?_bounded : Bounded room uncounted signAhead? := by
  rw [signAhead?_eq]
  apply Bounded.bind .currentToken
  intro token _
  split
  · exact .of_value (Nat.zero_le _)
  · split
    · exact Bounded.bind (.surface _) fun _ _ => .of_value (Nat.zero_le _)
    · exact .of_value (Nat.zero_le _)

/-! ## Expressions -/

structure ExpressionsBounded (fuel : Nat) : Prop where
  expression : ∀ room, Bounded room (fun value => value.levels + 1) (expression fuel)
  level : ∀ room here, Bounded room Expr.levels (level fuel here)
  suffixes : ∀ room object, object.levels ≤ room → Bounded room Expr.levels (suffixes fuel object)
  arguments : ∀ room, Bounded room Expr.levelsAll (arguments fuel)
  moreArguments : ∀ room, Bounded room Expr.levelsAll (moreArguments fuel)
  atom : ∀ room, Bounded room Expr.levels (atom fuel)
  parenthesized? : ∀ room, Bounded room levels? (parenthesized? fuel)

private theorem prefixed_bounded (ih : ExpressionsBounded fuel) (here : Level) (op : UnaryOp) :
    Bounded room Expr.levels (do
      let _ ← advance
      return .unary op (← nested (level fuel here))) := by
  apply Bounded.bind .advance
  intro _ _
  apply Bounded.bind (.nested fun room => ih.level room here)
  intro operand hoperand
  exact .of_value hoperand

private theorem binaryLevel_bounded (ih : ExpressionsBounded fuel) (here : Level) :
    Bounded room Expr.levels (do
      let left ← level fuel here.tighter
      match here.operator? (← currentKind) with
      | some op =>
          let _ ← advance
          return .binary left op (← level fuel here.right)
      | none => return left) := by
  apply Bounded.bind (ih.level room _)
  intro left hleft
  apply Bounded.bind .currentKind
  intro kind _
  split
  · apply Bounded.bind .advance
    intro _ _
    apply Bounded.bind (ih.level room _)
    intro right hright
    exact .of_value (Nat.max_le.2 ⟨hleft, hright⟩)
  · exact .of_value hleft

private theorem level_bounded (ih : ExpressionsBounded fuel) (here : Level) :
    Bounded room Expr.levels (level (fuel + 1) here) := by
  cases here
  case atom => exact ih.atom room
  case suffix => exact Bounded.bind (ih.level room _) fun object hobject => ih.suffixes room _ hobject
  case negation =>
    apply Bounded.bind .currentKind
    intro kind _
    split
    · exact prefixed_bounded ih _ _
    · exact ih.level room _
  case sign =>
    apply Bounded.bind signAhead?_bounded
    intro op? _
    split
    · exact prefixed_bounded ih _ _
    · exact ih.level room _
  all_goals exact binaryLevel_bounded ih _

private theorem suffixes_bounded (ih : ExpressionsBounded fuel) {object : Expr}
    (hobject : object.levels ≤ room) : Bounded room Expr.levels (suffixes (fuel + 1) object) := by
  apply Bounded.bind .currentKind
  intro kind _
  split
  · apply Bounded.bind .advance
    intro _ _
    apply Bounded.bind (ih.arguments room)
    intro arguments harguments
    apply Bounded.bind (.expect _)
    intro _ _
    exact ih.suffixes room _ (Nat.max_le.2 ⟨hobject, harguments⟩)
  · apply Bounded.bind .advance
    intro _ _
    apply Bounded.bind identifier_bounded
    intro name _
    exact ih.suffixes room _ hobject
  · apply Bounded.bind .advance
    intro _ _
    apply Bounded.bind (ih.expression room)
    intro index hindex
    apply Bounded.bind (.expect _)
    intro _ _
    exact ih.suffixes room _ (Nat.max_le.2 ⟨hobject, hindex⟩)
  · exact .of_value hobject

private theorem moreArguments_bounded (ih : ExpressionsBounded fuel) :
    Bounded room Expr.levelsAll (moreArguments (fuel + 1)) := by
  apply Bounded.bind .currentKind
  intro kind _
  split
  · apply Bounded.bind .advance
    intro _ _
    apply Bounded.bind (ih.expression room)
    intro argument hargument
    apply Bounded.bind (ih.moreArguments room)
    intro more hmore
    exact .of_value (Nat.max_le.2 ⟨hargument, hmore⟩)
  · exact .of_value (Nat.zero_le _)

private theorem arguments_bounded (ih : ExpressionsBounded fuel) :
    Bounded room Expr.levelsAll (arguments (fuel + 1)) := by
  apply Bounded.bind .currentKind
  intro kind _
  split
  · exact .of_value (Nat.zero_le _)
  · apply Bounded.bind (ih.expression room)
    intro first hfirst
    apply Bounded.bind (ih.moreArguments room)
    intro more hmore
    exact .of_value (Nat.max_le.2 ⟨hfirst, hmore⟩)

private theorem atom_bounded (ih : ExpressionsBounded fuel) :
    Bounded room Expr.levels (atom (fuel + 1)) := by
  apply Bounded.bind (literal?_bounded _)
  intro value? hvalue
  split
  · exact .of_value hvalue
  · apply Bounded.bind .currentKind
    intro kind _
    split
    · exact Bounded.bind identifier_bounded fun _ _ => .of_value (Nat.zero_le _)
    · apply Bounded.bind (ih.parenthesized? room)
      intro inner? hinner
      split
      · exact .of_value hinner
      · change Bounded room _ (currentToken >>= fun token => throw (.expectedExpression token))
        exact Bounded.bind .currentToken fun _ _ => .of_throw _ _

private theorem parenthesized?_bounded (ih : ExpressionsBounded fuel) :
    Bounded room levels? (parenthesized? (fuel + 1)) := by
  apply Bounded.bind .currentKind
  intro kind _
  split
  · apply Bounded.bind .advance
    intro _ _
    apply Bounded.bind (ih.expression room)
    intro inner hinner
    apply Bounded.bind (.expect _)
    intro _ _
    exact .of_value (Nat.le_of_succ_le hinner)
  · exact .of_value (Nat.zero_le _)

theorem expressionsBounded (fuel : Nat) : ExpressionsBounded fuel := by
  induction fuel with
  | zero => constructor <;> intros <;> exact .of_exhausted _
  | succ fuel ih =>
      constructor
      case expression => exact fun room => .nested fun room => ih.level room _
      case level => exact fun _ => level_bounded ih
      case suffixes => exact fun _ _ => suffixes_bounded ih
      case arguments => exact fun _ => arguments_bounded ih
      case moreArguments => exact fun _ => moreArguments_bounded ih
      case atom => exact fun _ => atom_bounded ih
      case parenthesized? => exact fun _ => parenthesized?_bounded ih

/-! ## Headers and simple statements -/

theorem moreParameters_bounded (fuel : Nat) : Bounded room uncounted (moreParameters fuel) := by
  induction fuel with
  | zero => exact .of_exhausted _
  | succ fuel ih =>
      apply Bounded.bind .currentKind
      intro kind _
      split
      · apply Bounded.bind .advance
        intro _ _
        apply Bounded.bind identifier_bounded
        intro parameter _
        exact Bounded.bind ih fun _ _ => .of_value (Nat.zero_le _)
      · exact .of_value (Nat.zero_le _)

theorem parameters_bounded (fuel : Nat) : Bounded room uncounted (parameters fuel) := by
  apply Bounded.bind identifier_bounded
  intro first _
  exact Bounded.bind (moreParameters_bounded fuel) fun _ _ => .of_value (Nat.zero_le _)

theorem optionalParameters_bounded (fuel : Nat) :
    Bounded room uncounted (optionalParameters fuel) := by
  apply Bounded.bind .currentKind
  intro kind _
  split
  · exact parameters_bounded fuel
  · exact .of_value (Nat.zero_le _)

theorem header_bounded (fuel : Nat) : Bounded room uncounted (header fuel) := by
  apply Bounded.bind (.expect _)
  intro _ _
  apply Bounded.bind identifier_bounded
  intro name _
  apply Bounded.bind (.expect _)
  intro _ _
  apply Bounded.bind (optionalParameters_bounded fuel)
  intro parameters _
  apply Bounded.bind (.expect _)
  intro _ _
  apply Bounded.bind .currentKind
  intro kind _
  apply Bounded.bind .nextKind
  intro next _
  split
  · apply Bounded.bind .advance
    intro _ _
    exact Bounded.bind identifier_bounded fun _ _ => .of_value (Nat.zero_le _)
  · exact .of_value (Nat.zero_le _)

theorem fields_bounded (fuel : Nat) : Bounded room uncounted (fields fuel) := by
  induction fuel with
  | zero => exact .of_exhausted _
  | succ fuel ih =>
      apply Bounded.bind .currentKind
      intro kind _
      split
      · apply Bounded.bind identifier_bounded
        intro field _
        apply Bounded.bind (.expect _)
        intro _ _
        exact Bounded.bind ih fun _ _ => .of_value (Nat.zero_le _)
      · exact .of_value (Nat.zero_le _)

theorem expressionStatement_bounded (fuel : Nat) :
    Bounded room Stmt.levels (expressionStatement fuel) := by
  apply Bounded.bind ((expressionsBounded fuel).expression room)
  intro value hvalue
  apply Bounded.bind (.expect _)
  intro _ _
  exact .of_value (by simpa using hvalue)

theorem returnValue?_bounded (fuel : Nat) :
    Bounded room (fun value? => (Stmt.ret value?).levels) (returnValue? fuel) := by
  apply Bounded.bind .currentKind
  intro kind _
  split
  · exact .of_value (by simp)
  · apply Bounded.bind ((expressionsBounded fuel).expression room)
    intro value hvalue
    exact .of_value (by simpa using hvalue)

theorem returnStatement_bounded (fuel : Nat) : Bounded room Stmt.levels (returnStatement fuel) := by
  apply Bounded.bind (.expect _)
  intro _ _
  apply Bounded.bind (returnValue?_bounded fuel)
  intro value? hvalue
  apply Bounded.bind (.expect _)
  intro _ _
  exact .of_value hvalue

theorem recordStatement_bounded (fuel : Nat) : Bounded room Stmt.levels (recordStatement fuel) := by
  apply Bounded.bind (.expect _)
  intro _ _
  apply Bounded.bind identifier_bounded
  intro name _
  apply Bounded.bind (.expect _)
  intro _ _
  apply Bounded.bind (.expect _)
  intro _ _
  apply Bounded.bind (.expect _)
  intro _ _
  apply Bounded.bind (fields_bounded fuel)
  intro fields _
  apply Bounded.bind (.expect _)
  intro _ _
  exact .of_value (by simp)

/-! ## Recovery -/

theorem skipToBoundary_bounded (fuel : Nat) (progressed : Bool) (depth : Nat) :
    Bounded room uncounted (skipToBoundary fuel progressed depth) := by
  induction fuel generalizing progressed depth with
  | zero => exact .of_exhausted _
  | succ fuel ih =>
      apply Bounded.bind .currentKind
      intro kind _
      split
      · exact .of_value (Nat.zero_le _)
      · split
        · exact .of_value (Nat.zero_le _)
        · apply Bounded.bind .advance
          intro _ _
          split
          · exact .of_value (Nat.zero_le _)
          · exact ih _ _
      · exact Bounded.bind .advance fun _ _ => ih _ _
      · apply Bounded.bind .advance
        intro _ _
        split
        · apply Bounded.bind .currentKind
          intro kind _
          split
          · exact ih _ _
          · exact .of_value (Nat.zero_le _)
        · exact ih _ _
      · split
        · exact .of_value (Nat.zero_le _)
        · exact Bounded.bind .advance fun _ _ => ih _ _

theorem resume_bounded (fuel start openBlocks : Nat) :
    Bounded room uncounted (resume fuel start openBlocks) := by
  apply Bounded.bind .counts
  intro now _
  apply Bounded.bind (skipToBoundary_bounded fuel _ _)
  intro _ _
  exact .note _

theorem recover_bounded (fuel : Nat) (error : Error) (start openBlocks : Nat) :
    Bounded room uncounted (recover fuel error start openBlocks) := by
  rw [recover_eq]
  exact Bounded.bind (.surface error) fun _ _ => resume_bounded fuel start openBlocks

/-! ## Blocks -/

abbrev branchLevels (parts : Expr × Block × Alternative) : Nat :=
  (Alternative.conditional parts.1 parts.2.1 parts.2.2).levels

structure StatementsBounded (fuel : Nat) : Prop where
  statements : ∀ room, Bounded room Block.levels (statements fuel)
  statement : ∀ room, Bounded room Stmt.levels (statement fuel)
  block : ∀ room, Bounded room (fun body => Block.levels body + 1) (block fuel)
  function : ∀ room, Bounded room Stmt.levels (function fuel)
  conditional : ∀ room, Bounded room Stmt.levels (conditional fuel)
  branch : ∀ room, Bounded room branchLevels (branch fuel)
  loop : ∀ room, Bounded room Stmt.levels (loop fuel)

private theorem statements_bounded (ih : StatementsBounded fuel) :
    Bounded room Block.levels (statements (fuel + 1)) := by
  rw [statements_succ]
  apply Bounded.bind .currentKind
  intro kind _
  split
  · exact .of_value (by simp)
  · apply Bounded.bind .counts
    intro start _
    apply Bounded.recovering (ih.statement room)
    · intro stmt hstmt
      apply Bounded.bind (ih.statements room)
      intro rest hrest
      exact .of_value (by rw [Block.levels]; exact Nat.max_le.2 ⟨hstmt, hrest⟩)
    · exact Bounded.bind (resume_bounded fuel _ _) fun _ _ => ih.statements room

private theorem statement_bounded (ih : StatementsBounded fuel) :
    Bounded room Stmt.levels (statement (fuel + 1)) := by
  apply Bounded.bind .currentToken
  intro token _
  apply Bounded.bind (.note fun _ => .began token.kind token.position.line)
  intro _ _
  split
  · exact ih.function room
  · exact ih.conditional room
  · exact ih.loop room
  · exact returnStatement_bounded fuel
  · exact recordStatement_bounded fuel
  · exact expressionStatement_bounded fuel

private theorem block_bounded (ih : StatementsBounded fuel) :
    Bounded room (fun body => Block.levels body + 1) (block (fuel + 1)) := by
  apply Bounded.bind (.expect _)
  intro _ _
  apply Bounded.bind (.nested ih.statements)
  intro body hbody
  apply Bounded.bind (.expect _)
  intro _ _
  exact .of_value hbody

private theorem function_bounded (ih : StatementsBounded fuel) :
    Bounded room Stmt.levels (function (fuel + 1)) := by
  apply Bounded.bind (header_bounded fuel)
  intro header _
  apply Bounded.bind (.expectOneOf _)
  intro _ _
  apply Bounded.bind (.expect _)
  intro _ _
  apply Bounded.bind (ih.block room)
  intro body hbody
  exact .of_value (by simpa using hbody)

private theorem branch_bounded (ih : StatementsBounded fuel) :
    Bounded room branchLevels (branch (fuel + 1)) := by
  apply Bounded.bind ((expressionsBounded fuel).expression room)
  intro condition hcondition
  apply Bounded.bind (.expect _)
  intro _ _
  apply Bounded.bind (.expect _)
  intro _ _
  apply Bounded.bind (ih.block room)
  intro body hbody
  have hparts {alternative : Alternative} (halternative : alternative.levels ≤ room) :
      branchLevels (condition, body, alternative) ≤ room := by
    simp only [branchLevels, Alternative.levels]
    omega
  apply Bounded.bind .currentKind
  intro kind _
  split
  · apply Bounded.bind .advance
    intro _ _
    apply Bounded.bind (ih.branch room)
    intro inner hinner
    exact .of_value (hparts hinner)
  · apply Bounded.bind .advance
    intro _ _
    apply Bounded.bind (.expect _)
    intro _ _
    apply Bounded.bind (.expect _)
    intro _ _
    apply Bounded.bind (ih.block room)
    intro other hother
    exact .of_value (hparts (by simpa using hother))
  · exact .of_value (hparts (by simp only [Alternative.levels, Block.levels]; omega))

private theorem conditional_bounded (ih : StatementsBounded fuel) :
    Bounded room Stmt.levels (conditional (fuel + 1)) := by
  apply Bounded.bind (.expect _)
  intro _ _
  apply Bounded.bind (ih.branch room)
  intro parts hparts
  exact .of_value hparts

private theorem loop_bounded (ih : StatementsBounded fuel) :
    Bounded room Stmt.levels (loop (fuel + 1)) := by
  apply Bounded.bind (.expect _)
  intro _ _
  apply Bounded.bind ((expressionsBounded fuel).expression room)
  intro condition hcondition
  apply Bounded.bind (.expect _)
  intro _ _
  apply Bounded.bind (.expect _)
  intro _ _
  apply Bounded.bind (ih.block room)
  intro body hbody
  exact .of_value (by rw [Stmt.levels]; exact Nat.max_le.2 ⟨hcondition, hbody⟩)

theorem statementsBounded (fuel : Nat) : StatementsBounded fuel := by
  induction fuel with
  | zero => constructor <;> intros <;> exact .of_exhausted _
  | succ fuel ih =>
      constructor
      case statements => exact fun _ => statements_bounded ih
      case statement => exact fun _ => statement_bounded ih
      case block => exact fun _ => block_bounded ih
      case function => exact fun _ => function_bounded ih
      case conditional => exact fun _ => conditional_bounded ih
      case branch => exact fun _ => branch_bounded ih
      case loop => exact fun _ => loop_bounded ih

theorem program_bounded (fuel : Nat) : Bounded room Block.levels (program fuel) := by
  apply Bounded.bind .currentToken
  intro token _
  split
  · apply Bounded.bind .advance
    intro _ _
    apply Bounded.bind ((statementsBounded fuel).statements room)
    intro block hblock
    apply Bounded.bind (.expect _)
    intro _ _
    apply Bounded.bind (.expect _)
    intro _ _
    apply Bounded.bind (.note fun state => .finished block.length state.errors.length)
    intro _ _
    exact .of_value hblock
  · apply Bounded.bind (.note fun _ => .startMissing (.unexpected [.indent] token))
    intro _ _
    exact .of_throw _ _

/-! ## All grammar functions -/

/-- The grammar functions, from a name to a whole program, and the recovery from their errors. -/
inductive Production : {α : Type} → (Nat → Parser α) → Prop where
  | identifier : Production fun _ => identifier
  | literal? (kinds : List TokenKind) : Production fun _ => literal? kinds
  | expression : Production expression
  | level (here : Level) : Production (level · here)
  | arguments : Production arguments
  | atom : Production atom
  | parenthesized? : Production parenthesized?
  | parameters : Production parameters
  | header : Production header
  | fields : Production fields
  | expressionStatement : Production expressionStatement
  | returnStatement : Production returnStatement
  | recordStatement : Production recordStatement
  | statements : Production statements
  | statement : Production statement
  | block : Production block
  | function : Production function
  | conditional : Production conditional
  | branch : Production branch
  | loop : Production loop
  | program : Production program
  | recover (error : Error) (start openBlocks : Nat) :
      Production (recover · error start openBlocks)

theorem Production.bounded {α : Type} {parser : Nat → Parser α} (h : Production parser)
    (room fuel : Nat) : ∃ measure, Bounded room measure (parser fuel) := by
  cases h with
  | identifier => exact ⟨_, identifier_bounded⟩
  | literal? kinds => exact ⟨_, literal?_bounded kinds⟩
  | expression => exact ⟨_, (expressionsBounded fuel).expression room⟩
  | level here => exact ⟨_, (expressionsBounded fuel).level room here⟩
  | arguments => exact ⟨_, (expressionsBounded fuel).arguments room⟩
  | atom => exact ⟨_, (expressionsBounded fuel).atom room⟩
  | parenthesized? => exact ⟨_, (expressionsBounded fuel).parenthesized? room⟩
  | parameters => exact ⟨_, parameters_bounded fuel⟩
  | header => exact ⟨_, header_bounded fuel⟩
  | fields => exact ⟨_, fields_bounded fuel⟩
  | expressionStatement => exact ⟨_, expressionStatement_bounded fuel⟩
  | returnStatement => exact ⟨_, returnStatement_bounded fuel⟩
  | recordStatement => exact ⟨_, recordStatement_bounded fuel⟩
  | statements => exact ⟨_, (statementsBounded fuel).statements room⟩
  | statement => exact ⟨_, (statementsBounded fuel).statement room⟩
  | block => exact ⟨_, (statementsBounded fuel).block room⟩
  | function => exact ⟨_, (statementsBounded fuel).function room⟩
  | conditional => exact ⟨_, (statementsBounded fuel).conditional room⟩
  | branch => exact ⟨_, (statementsBounded fuel).branch room⟩
  | loop => exact ⟨_, (statementsBounded fuel).loop room⟩
  | program => exact ⟨_, program_bounded fuel⟩
  | recover error start openBlocks => exact ⟨_, recover_bounded fuel error start openBlocks⟩

/-- Every grammar function leaves the depth of nesting as it has found it, on success and on
failure. -/
theorem Production.restored {α : Type} {parser : Nat → Parser α} (h : Production parser)
    {fuel : Nat} {state after : State} {result : Except Error α}
    (hrun : (parser fuel).run state = some (result, after)) : state.Restored after := by
  obtain ⟨measure, hbounded⟩ := h.bounded state.room fuel
  have hmeets := hbounded state rfl result after hrun
  cases result with
  | ok value => exact hmeets.2
  | error error => exact hmeets

end Offside.Parse.Parser

namespace Offside.Parse

/-- A tree that a parse gives has no more levels than the limit, whatever the parser has recovered
from. -/
theorem levels_of_parseStream {stream : Scan.TokenStream} {config : Config} {block : Block}
    (h : (parseStream stream config).result = .ok block) :
    Block.levels block ≤ config.maxDepth := by
  unfold parseStream at h
  split at h
  · cases h
  · rename_i state hstate
    have hfresh := State.fresh_of_ofStream hstate
    have hmeets := State.run_program_meets hfresh.settled.wellFormed
      (Parser.program_bounded state.fuel state rfl)
    change (state.run Parser.program).1 = .ok block at h
    rw [h] at hmeets
    have hroom : state.room = config.maxDepth := by
      rw [State.room, hfresh.config, hfresh.nesting, Nat.sub_zero]
    exact hroom ▸ hmeets.1

end Offside.Parse
