import Offside.Parse.Statement
import Offside.Proofs.Parsing.Ensures
import Offside.Proofs.Parsing.Leaves

/-!
# Grammar functions as compositions

Grammar functions are put together from a few commands: they look at tokens, consume one, note an
event, go deeper, and surface an error.  A relation between grammar functions that the commands and
the ways to put them together keep relates every grammar function to itself, and to itself with more
fuel.  The relation may depend on a property of the values, and it is kept for values that are drawn
from the tokens of the stream.
-/

namespace Offside.Parse.Parser

/-! ## Commands -/

def counts : Parser (Nat × Nat) := do return ((← get).consumed, (← get).openBlocks)

def note (event : State → Event) : Parser Unit := modify fun state => state.note (event state)

def surface (error : Error) : Parser Unit := do
  if error.isFatal || !(← get).config.recover then throw error else record error

def recovering {α β : Type} (parser : Parser α) (next : α → Parser β) (elsewhere : Parser β) :
    Parser β := do
  match ← attempt parser with
  | .ok value => next value
  | .error error =>
      surface error
      elsewhere

/-- Goes on behind the statement that began when `start` tokens were consumed and `openBlocks` blocks
were open. -/
def resume (fuel start openBlocks : Nat) : Parser Unit := do
  let now ← counts
  skipToBoundary fuel (now.1 != start) (now.2 - openBlocks)
  note fun state => .resynchronized state.current.position state.current.kind

theorem surface_of_stop {error : Error} {state : State}
    (h : (error.isFatal || !state.config.recover) = true) :
    (surface error).run state = some (.error error, state) := by
  change ExceptT.run (if _ then _ else _ : Parser Unit) state = _
  rw [if_pos h]
  rfl

theorem surface_of_record {error : Error} {state : State}
    (h : (error.isFatal || !state.config.recover) = false) :
    (surface error).run state = (record error).run state := by
  change ExceptT.run (if _ then _ else _ : Parser Unit) state = _
  rw [if_neg (by simp [h])]

theorem signAhead?_eq :
    signAhead? = (do
      let token ← currentToken
      if token.kind = .minus then return some .negate
      else if token.fault? = some .strayBang then
        surface ⟨.lexical .strayBang, token.position⟩
        return some .not
      else return none) := by
  funext state
  change (if _ then _ else _ : Parser (Option UnaryOp)) state =
    (if _ then _ else _ : Parser (Option UnaryOp)) state
  by_cases hminus : state.current.kind = .minus
  · simp only [if_pos hminus]
  · by_cases hbang : state.current.fault? = some .strayBang
    · simp only [if_neg hminus, if_pos hbang]
      change _ = ((surface _).run state >>= _)
      cases hrecover : state.config.recover
      · rw [surface_of_stop (by simp [hrecover])]
        rfl
      · rw [surface_of_record (by simp [hrecover, Error.isFatal])]
        rfl
    · simp only [if_neg hminus, if_neg hbang]

theorem recover_eq (fuel : Nat) (error : Error) (start openBlocks : Nat) :
    recover fuel error start openBlocks = (do
      surface error
      resume fuel start openBlocks) := by
  funext state
  change (ite _ _ _ : Parser Unit) state = ((surface error).run state >>= _)
  cases hstop : error.isFatal || !state.config.recover
  · rw [surface_of_record hstop]
    rfl
  · rw [surface_of_stop hstop]
    rfl

/-- Goes on with the value of a statement, or with the rest behind the boundary of a broken one. -/
def guarded {α β : Type} (fuel : Nat) (parser : Parser α) (next : α → Parser β) (rest : Parser β) :
    Parser β := do
  let start ← counts
  recovering parser next do
    resume fuel start.1 start.2
    rest

theorem statements_succ (fuel : Nat) :
    statements (fuel + 1) = (do
      let kind ← currentKind
      if kind = .dedent || kind = .eof then return []
      else
        guarded fuel (statement fuel) (fun stmt => do return stmt :: (← statements fuel))
          (statements fuel)) := by
  rw [statements]
  simp only [recover_eq, bind_assoc]
  funext state
  change (ite _ _ _ : Parser Block) state = (ite _ _ _ : Parser Block) state
  split
  · rfl
  · refine congrArg (fun next => (attempt (statement fuel) >>= next : Parser Block) state) ?_
    funext result
    cases result <;> rfl

/-! ## Compositional relations -/

/-- A relation between grammar functions, for what is good about their values, that the commands keep
and the ways to put grammar functions together, apart from the recovery from errors. -/
structure Sequential (tokens : Token → Prop)
    (Related : ∀ {α : Type}, (α → Prop) → Parser α → Parser α → Prop) : Prop where
  exhausted {α : Type} (good : α → Prop) : Related good exhausted exhausted
  /-- A grammar function may run out of fuel where another one does not. -/
  cut {α : Type} {good : α → Prop} {parser : Parser α} (h : Related good parser parser) :
    Related good Parser.exhausted parser
  value {α : Type} {good : α → Prop} {value : α} (h : good value) :
    Related good (pure value) (pure value)
  throw {α : Type} (good : α → Prop) (error : Error) (h : error.isFatal = false) :
    Related good (throw error) (throw error)
  bind {α β : Type} {good : α → Prop} {good' : β → Prop} {parser parser' : Parser α}
    {next next' : α → Parser β} (h : Related good parser parser')
    (hnext : ∀ value, good value → Related good' (next value) (next' value)) :
    Related good' (parser >>= next) (parser' >>= next')
  currentToken : Related tokens currentToken currentToken
  nextKind : Related (fun _ => True) nextKind nextKind
  advance : Related tokens advance advance
  note (event : State → Event)
    (h : ∀ state stream config, event { state with stream, config } = event state)
    (hpulled : ∀ state, event state ≠ .pulled) : Related (fun _ => True) (note event) (note event)
  nested {α : Type} {good : α → Prop} {parser parser' : Parser α} (h : Related good parser parser') :
    Related good (nested parser) (nested parser')
  surface (error : Error) (h : error.isFatal = false) :
    Related (fun _ => True) (surface error) (surface error)

structure Guarding (tokens : Token → Prop)
    (Related : ∀ {α : Type}, (α → Prop) → Parser α → Parser α → Prop) : Prop
    extends Sequential tokens Related where
  guarded {α β : Type} {good : α → Prop} {good' : β → Prop} {parser parser' : Parser α}
    {next next' : α → Parser β} {rest rest' : Parser β} {fuel fuel' : Nat} (hle : fuel ≤ fuel')
    (h : Related good parser parser')
    (hnext : ∀ value, good value → Related good' (next value) (next' value))
    (hrest : Related good' rest rest') :
    Related good' (guarded fuel parser next rest) (guarded fuel' parser' next' rest')

structure Compositional (tokens : Token → Prop)
    (Related : ∀ {α : Type}, (α → Prop) → Parser α → Parser α → Prop) : Prop
    extends Sequential tokens Related where
  counts : Related (fun _ => True) counts counts
  recovering {α β : Type} {good : α → Prop} {good' : β → Prop} {parser parser' : Parser α}
    {next next' : α → Parser β} {elsewhere elsewhere' : Parser β}
    (h : Related good parser parser')
    (hnext : ∀ value, good value → Related good' (next value) (next' value))
    (helsewhere : Related good' elsewhere elsewhere') :
    Related good' (recovering parser next elsewhere) (recovering parser' next' elsewhere')

namespace Sequential

variable {tokens : Token → Prop} {Related : ∀ {α : Type}, (α → Prop) → Parser α → Parser α → Prop}
  (related : Sequential tokens Related)

include related

theorem currentKind : Related (fun _ => True) Parser.currentKind Parser.currentKind := by
  change Related _ (Parser.currentToken >>= fun token => pure token.kind)
    (Parser.currentToken >>= fun token => pure token.kind)
  exact related.bind related.currentToken fun _ _ => related.value trivial

theorem expectOneOf (kinds : List TokenKind) :
    Related tokens (Parser.expectOneOf kinds) (Parser.expectOneOf kinds) := by
  apply related.bind related.currentToken
  intro token _
  split
  · exact related.advance
  · exact related.throw _ _ (Error.unexpected_recoverable kinds token).1

theorem expect (kind : TokenKind) : Related tokens (Parser.expect kind) (Parser.expect kind) :=
  related.expectOneOf [kind]

/-! ### Names, literals and signs -/

theorem identifier :
    Related (Identifier.DrawnFrom tokens) Parser.identifier Parser.identifier := by
  apply related.bind (related.expect _)
  intro token htoken
  split
  · rename_i name hname
    exact related.value ⟨token, htoken, hname, rfl⟩
  · exact related.throw _ _ (Error.unexpected_recoverable [.identifier] token).1

theorem literal? (kinds : List TokenKind) :
    Related (fun value? => ∀ value ∈ value?, Expr.DrawnFrom tokens value)
      (Parser.literal? kinds) (Parser.literal? kinds) := by
  apply related.bind related.currentToken
  intro token htoken
  split
  · rename_i value hvalue
    obtain ⟨kind, -, hliteral⟩ := List.exists_of_findSome?_eq_some hvalue
    apply related.bind related.advance
    intro _ _
    apply related.value
    rintro _ ⟨⟩
    exact Expr.drawnFrom_literal ⟨token, kind, htoken, hliteral⟩
  · exact related.value (by simp)

theorem signAhead? : Related (fun _ => True) Parser.signAhead? Parser.signAhead? := by
  rw [signAhead?_eq]
  apply related.bind related.currentToken
  intro token _
  split
  · exact related.value trivial
  · split
    · exact related.bind (related.surface _ rfl) fun _ _ => related.value trivial
    · exact related.value trivial

end Sequential

theorem of_fuel_le {P : Nat → Nat → Prop} (zero : P 0 0) (cut : ∀ fuel, P fuel fuel → P 0 fuel)
    (succ : ∀ fuel fuel', fuel ≤ fuel' → P fuel fuel' → P (fuel + 1) (fuel' + 1))
    {fuel fuel' : Nat} (h : fuel ≤ fuel') : P fuel fuel' := by
  have same : ∀ fuel, P fuel fuel := by
    intro fuel
    induction fuel with
    | zero => exact zero
    | succ fuel ih => exact succ fuel fuel (Nat.le_refl fuel) ih
  induction fuel generalizing fuel' with
  | zero => exact cut fuel' (same fuel')
  | succ fuel ih =>
      obtain ⟨less, rfl⟩ := Nat.exists_eq_add_of_le' h
      exact succ fuel (less + fuel) (Nat.le_add_left fuel less) (ih (Nat.le_add_left fuel less))

variable {tokens : Token → Prop} {Related : ∀ {α : Type}, (α → Prop) → Parser α → Parser α → Prop}
  {fuel fuel' : Nat}

/-! ## Expressions -/

structure ExpressionsRelated (tokens : Token → Prop)
    (Related : ∀ {α : Type}, (α → Prop) → Parser α → Parser α → Prop) (fuel fuel' : Nat) : Prop where
  expression : Related (Expr.DrawnFrom tokens) (expression fuel) (expression fuel')
  level : ∀ here, Related (Expr.DrawnFrom tokens) (level fuel here) (level fuel' here)
  suffixes : ∀ object, Expr.DrawnFrom tokens object →
    Related (Expr.DrawnFrom tokens) (suffixes fuel object) (suffixes fuel' object)
  arguments : Related (Expr.AllDrawnFrom tokens) (arguments fuel) (arguments fuel')
  moreArguments : Related (Expr.AllDrawnFrom tokens) (moreArguments fuel) (moreArguments fuel')
  atom : Related (Expr.DrawnFrom tokens) (atom fuel) (atom fuel')
  parenthesized? : Related (fun value? => ∀ value ∈ value?, Expr.DrawnFrom tokens value)
    (parenthesized? fuel) (parenthesized? fuel')

private theorem binaryLevel_related (related : Sequential tokens Related)
    (ih : ExpressionsRelated tokens Related fuel fuel') (here : Level) :
    Related (Expr.DrawnFrom tokens)
      (do
        let left ← level fuel here.tighter
        match here.operator? (← currentKind) with
        | some op =>
            let _ ← advance
            return .binary left op (← level fuel here.right)
        | none => return left)
      (do
        let left ← level fuel' here.tighter
        match here.operator? (← currentKind) with
        | some op =>
            let _ ← advance
            return .binary left op (← level fuel' here.right)
        | none => return left) := by
  apply related.bind (ih.level _)
  intro left hleft
  apply related.bind related.currentKind
  intro kind _
  split
  · apply related.bind related.advance
    intro _ _
    apply related.bind (ih.level _)
    intro right hright
    exact related.value (hleft.binary _ hright)
  · exact related.value hleft

private theorem level_related (related : Sequential tokens Related)
    (ih : ExpressionsRelated tokens Related fuel fuel') (here : Level) :
    Related (Expr.DrawnFrom tokens) (level (fuel + 1) here) (level (fuel' + 1) here) := by
  cases here
  case atom => exact ih.atom
  case suffix => exact related.bind (ih.level _) ih.suffixes
  case negation =>
    apply related.bind related.currentKind
    intro kind _
    split
    · apply related.bind related.advance
      intro _ _
      apply related.bind (related.nested (ih.level _))
      intro operand hoperand
      exact related.value (hoperand.unary _)
    · exact ih.level _
  case sign =>
    apply related.bind related.signAhead?
    intro op? _
    split
    · apply related.bind related.advance
      intro _ _
      apply related.bind (related.nested (ih.level _))
      intro operand hoperand
      exact related.value (hoperand.unary _)
    · exact ih.level _
  all_goals exact binaryLevel_related related ih _

private theorem suffixes_related (related : Sequential tokens Related)
    (ih : ExpressionsRelated tokens Related fuel fuel') {object : Expr}
    (hobject : object.DrawnFrom tokens) :
    Related (Expr.DrawnFrom tokens) (suffixes (fuel + 1) object) (suffixes (fuel' + 1) object) := by
  apply related.bind related.currentKind
  intro kind _
  split
  · apply related.bind related.advance
    intro _ _
    apply related.bind ih.arguments
    intro arguments harguments
    apply related.bind (related.expect _)
    intro _ _
    exact ih.suffixes _ (hobject.call harguments)
  · apply related.bind related.advance
    intro _ _
    apply related.bind related.identifier
    intro name hname
    exact ih.suffixes _ (hobject.field hname)
  · apply related.bind related.advance
    intro _ _
    apply related.bind ih.expression
    intro index hindex
    apply related.bind (related.expect _)
    intro _ _
    exact ih.suffixes _ (hobject.subscript hindex)
  · exact related.value hobject

private theorem atom_related (related : Sequential tokens Related)
    (ih : ExpressionsRelated tokens Related fuel fuel') :
    Related (Expr.DrawnFrom tokens) (atom (fuel + 1)) (atom (fuel' + 1)) := by
  apply related.bind (related.literal? _)
  intro value? hvalue
  split
  · exact related.value (hvalue _ rfl)
  · apply related.bind related.currentKind
    intro kind _
    split
    · apply related.bind related.identifier
      intro name hname
      exact related.value (Expr.drawnFrom_identifier hname)
    · apply related.bind ih.parenthesized?
      intro inner? hinner
      split
      · exact related.value (hinner _ rfl)
      · change Related _ (currentToken >>= fun token => throw (.expectedExpression token))
          (currentToken >>= fun token => throw (.expectedExpression token))
        exact related.bind related.currentToken fun token _ =>
          related.throw _ _ (Error.expectedExpression_recoverable token).1

private theorem expressionsRelated_succ (related : Sequential tokens Related)
    (ih : ExpressionsRelated tokens Related fuel fuel') :
    ExpressionsRelated tokens Related (fuel + 1) (fuel' + 1) := by
  constructor
  case expression => exact related.nested (ih.level _)
  case level => exact level_related related ih
  case suffixes => exact fun _ => suffixes_related related ih
  case arguments =>
    apply related.bind related.currentKind
    intro kind _
    split
    · exact related.value Expr.allDrawnFrom_nil
    · apply related.bind ih.expression
      intro first hfirst
      apply related.bind ih.moreArguments
      intro more hmore
      exact related.value (hfirst.cons hmore)
  case moreArguments =>
    apply related.bind related.currentKind
    intro kind _
    split
    · apply related.bind related.advance
      intro _ _
      apply related.bind ih.expression
      intro argument hargument
      apply related.bind ih.moreArguments
      intro more hmore
      exact related.value (hargument.cons hmore)
    · exact related.value Expr.allDrawnFrom_nil
  case atom => exact atom_related related ih
  case parenthesized? =>
    apply related.bind related.currentKind
    intro kind _
    split
    · apply related.bind related.advance
      intro _ _
      apply related.bind ih.expression
      intro inner hinner
      apply related.bind (related.expect _)
      intro _ _
      exact related.value (by simpa using hinner)
    · exact related.value (by simp)

theorem expressionsRelated (related : Sequential tokens Related) (h : fuel ≤ fuel') :
    ExpressionsRelated tokens Related fuel fuel' := by
  refine of_fuel_le ?zero ?cut ?succ h
  case zero => constructor <;> intros <;> exact related.exhausted _
  case cut =>
    intro fuel same
    constructor
    case expression => exact related.cut same.expression
    case level => exact fun here => related.cut (same.level here)
    case suffixes => exact fun object hobject => related.cut (same.suffixes object hobject)
    case arguments => exact related.cut same.arguments
    case moreArguments => exact related.cut same.moreArguments
    case atom => exact related.cut same.atom
    case parenthesized? => exact related.cut same.parenthesized?
  case succ => exact fun _ _ _ ih => expressionsRelated_succ related ih

/-! ## Headers and simple statements -/

theorem moreParameters_related (related : Sequential tokens Related) (h : fuel ≤ fuel') :
    Related (fun names => ∀ name ∈ names, Identifier.DrawnFrom tokens name)
      (moreParameters fuel) (moreParameters fuel') := by
  refine of_fuel_le (P := fun fuel fuel' => Related _ (moreParameters fuel) (moreParameters fuel'))
    ?zero ?cut ?succ h
  case zero => exact related.exhausted _
  case cut => exact fun _ same => related.cut same
  intro fuel fuel' _ ih
  apply related.bind related.currentKind
  intro kind _
  split
  · apply related.bind related.advance
    intro _ _
    apply related.bind related.identifier
    intro parameter hparameter
    apply related.bind ih
    intro more hmore
    exact related.value (List.forall_mem_cons.2 ⟨hparameter, hmore⟩)
  · exact related.value (by simp)

theorem optionalParameters_related (related : Sequential tokens Related) (h : fuel ≤ fuel') :
    Related (fun names => ∀ name ∈ names, Identifier.DrawnFrom tokens name)
      (optionalParameters fuel) (optionalParameters fuel') := by
  apply related.bind related.currentKind
  intro kind _
  split
  · apply related.bind related.identifier
    intro first hfirst
    apply related.bind (moreParameters_related related h)
    intro more hmore
    exact related.value (List.forall_mem_cons.2 ⟨hfirst, hmore⟩)
  · exact related.value (by simp)

theorem header_related (related : Sequential tokens Related) (h : fuel ≤ fuel') :
    Related (Header.DrawnFrom tokens) (header fuel) (header fuel') := by
  apply related.bind (related.expect _)
  intro _ _
  apply related.bind related.identifier
  intro name hname
  apply related.bind (related.expect _)
  intro _ _
  apply related.bind (optionalParameters_related related h)
  intro parameters hparameters
  apply related.bind (related.expect _)
  intro _ _
  apply related.bind related.currentKind
  intro kind _
  apply related.bind related.nextKind
  intro next _
  split
  · apply related.bind related.advance
    intro _ _
    apply related.bind related.identifier
    intro type htype
    exact related.value (Header.drawnFrom hname hparameters (by simpa using htype))
  · exact related.value (Header.drawnFrom hname hparameters (by simp))

theorem fields_related (related : Sequential tokens Related) (h : fuel ≤ fuel') :
    Related (fun names => ∀ name ∈ names, Identifier.DrawnFrom tokens name)
      (fields fuel) (fields fuel') := by
  refine of_fuel_le (P := fun fuel fuel' => Related _ (fields fuel) (fields fuel'))
    ?zero ?cut ?succ h
  case zero => exact related.exhausted _
  case cut => exact fun _ same => related.cut same
  intro fuel fuel' _ ih
  apply related.bind related.currentKind
  intro kind _
  split
  · apply related.bind related.identifier
    intro field hfield
    apply related.bind (related.expect _)
    intro _ _
    apply related.bind ih
    intro more hmore
    exact related.value (List.forall_mem_cons.2 ⟨hfield, hmore⟩)
  · exact related.value (by simp)

theorem expressionStatement_related (related : Sequential tokens Related) (h : fuel ≤ fuel') :
    Related (Stmt.DrawnFrom tokens) (expressionStatement fuel) (expressionStatement fuel') := by
  apply related.bind (expressionsRelated related h).expression
  intro value hvalue
  apply related.bind (related.expect _)
  intro _ _
  exact related.value (Stmt.drawnFrom_expression hvalue)

theorem returnValue?_related (related : Sequential tokens Related) (h : fuel ≤ fuel') :
    Related (fun value? => ∀ value ∈ value?, Expr.DrawnFrom tokens value)
      (returnValue? fuel) (returnValue? fuel') := by
  apply related.bind related.currentKind
  intro kind _
  split
  · exact related.value (by simp)
  · apply related.bind (expressionsRelated related h).expression
    intro value hvalue
    exact related.value (by simpa using hvalue)

theorem returnStatement_related (related : Sequential tokens Related) (h : fuel ≤ fuel') :
    Related (Stmt.DrawnFrom tokens) (returnStatement fuel) (returnStatement fuel') := by
  apply related.bind (related.expect _)
  intro _ _
  apply related.bind (returnValue?_related related h)
  intro value? hvalue
  apply related.bind (related.expect _)
  intro _ _
  exact related.value (Stmt.drawnFrom_ret hvalue)

theorem recordStatement_related (related : Sequential tokens Related) (h : fuel ≤ fuel') :
    Related (Stmt.DrawnFrom tokens) (recordStatement fuel) (recordStatement fuel') := by
  apply related.bind (related.expect _)
  intro _ _
  apply related.bind related.identifier
  intro name hname
  apply related.bind (related.expect _)
  intro _ _
  apply related.bind (related.expect _)
  intro _ _
  apply related.bind (related.expect _)
  intro _ _
  apply related.bind (fields_related related h)
  intro fields hfields
  apply related.bind (related.expect _)
  intro _ _
  exact related.value (Stmt.drawnFrom_record hname hfields)

/-! ## Recovery -/

theorem skipToBoundary_related (related : Sequential tokens Related) (h : fuel ≤ fuel') :
    ∀ (progressed : Bool) (depth : Nat),
      Related (fun _ => True) (skipToBoundary fuel progressed depth)
        (skipToBoundary fuel' progressed depth) := by
  refine of_fuel_le (P := fun fuel fuel' => ∀ progressed depth, Related (fun _ => True)
    (skipToBoundary fuel progressed depth) (skipToBoundary fuel' progressed depth)) ?zero ?cut ?succ h
  case zero => exact fun _ _ => related.exhausted _
  case cut => exact fun _ same progressed depth => related.cut (same progressed depth)
  intro fuel fuel' _ ih progressed depth
  have hstep : ∀ depth, Related (fun _ => True)
      (do let _ ← advance; skipToBoundary fuel true depth)
      (do let _ ← advance; skipToBoundary fuel' true depth) :=
    fun depth => related.bind related.advance fun _ _ => ih true depth
  apply related.bind related.currentKind
  intro kind _
  split
  · exact related.value trivial
  · split
    · exact related.value trivial
    · apply related.bind related.advance
      intro _ _
      split
      · exact related.value trivial
      · exact ih _ _
  · exact hstep _
  · apply related.bind related.advance
    intro _ _
    split
    · apply related.bind related.currentKind
      intro kind _
      split
      · exact ih _ _
      · exact related.value trivial
    · exact ih _ _
  · split
    · exact related.value trivial
    · exact hstep _

theorem resume_related (related : Compositional tokens Related) (h : fuel ≤ fuel')
    (start openBlocks : Nat) :
    Related (fun _ => True) (resume fuel start openBlocks) (resume fuel' start openBlocks) := by
  apply related.bind related.counts
  intro now _
  apply related.bind (skipToBoundary_related related.toSequential h _ _)
  intro _ _
  exact related.note _ (fun _ _ _ => rfl) fun _ => nofun

theorem Compositional.guarding (related : Compositional tokens Related) :
    Guarding tokens Related where
  toSequential := related.toSequential
  guarded hle h hnext hrest := by
    apply related.bind related.counts
    intro start _
    apply related.recovering h hnext
    exact related.bind (resume_related related hle start.1 start.2) fun _ _ => hrest

/-! ## Blocks -/

structure StatementsRelated (tokens : Token → Prop)
    (Related : ∀ {α : Type}, (α → Prop) → Parser α → Parser α → Prop) (fuel fuel' : Nat) : Prop where
  statements : Related (Block.DrawnFrom tokens) (statements fuel) (statements fuel')
  statement : Related (Stmt.DrawnFrom tokens) (statement fuel) (statement fuel')
  block : Related (Block.DrawnFrom tokens) (block fuel) (block fuel')
  function : Related (Stmt.DrawnFrom tokens) (function fuel) (function fuel')
  conditional : Related (Stmt.DrawnFrom tokens) (conditional fuel) (conditional fuel')
  branch : Related (fun parts => (Stmt.conditional parts.1 parts.2.1 parts.2.2).DrawnFrom tokens)
    (branch fuel) (branch fuel')
  loop : Related (Stmt.DrawnFrom tokens) (loop fuel) (loop fuel')

private theorem statements_related (related : Guarding tokens Related) (h : fuel ≤ fuel')
    (ih : StatementsRelated tokens Related fuel fuel') :
    Related (Block.DrawnFrom tokens) (statements (fuel + 1)) (statements (fuel' + 1)) := by
  rw [statements_succ, statements_succ]
  apply related.bind related.currentKind
  intro kind _
  split
  · exact related.value Block.drawnFrom_nil
  · apply related.guarded h ih.statement
    · intro stmt hstmt
      apply related.bind ih.statements
      intro rest hrest
      exact related.value (hstmt.cons hrest)
    · exact ih.statements

private theorem branch_related (related : Guarding tokens Related) (h : fuel ≤ fuel')
    (ih : StatementsRelated tokens Related fuel fuel') :
    Related (fun parts => (Stmt.conditional parts.1 parts.2.1 parts.2.2).DrawnFrom tokens)
      (branch (fuel + 1)) (branch (fuel' + 1)) := by
  apply related.bind (expressionsRelated related.toSequential h).expression
  intro condition hcondition
  apply related.bind (related.expect _)
  intro _ _
  apply related.bind (related.expect _)
  intro _ _
  apply related.bind ih.block
  intro body hbody
  have hparts {alternative : Alternative} (halternative : alternative.DrawnFrom tokens) :=
    Stmt.drawnFrom_conditional hcondition hbody halternative
  apply related.bind related.currentKind
  intro kind _
  split
  · apply related.bind related.advance
    intro _ _
    apply related.bind ih.branch
    rintro ⟨inner, innerBody, alternative⟩ hinner
    exact related.value (hparts (Alternative.drawnFrom_elif hinner))
  · apply related.bind related.advance
    intro _ _
    apply related.bind (related.expect _)
    intro _ _
    apply related.bind (related.expect _)
    intro _ _
    apply related.bind ih.block
    intro other hother
    exact related.value (hparts (Alternative.drawnFrom_block hother))
  · exact related.value (hparts (Alternative.drawnFrom_block Block.drawnFrom_nil))

private theorem statementsRelated_succ (related : Guarding tokens Related) (h : fuel ≤ fuel')
    (ih : StatementsRelated tokens Related fuel fuel') :
    StatementsRelated tokens Related (fuel + 1) (fuel' + 1) := by
  constructor
  case statements => exact statements_related related h ih
  case statement =>
    apply related.bind related.currentToken
    intro token _
    apply related.bind (related.note (fun _ => .began token.kind token.position.line)
      (fun _ _ _ => rfl) fun _ => nofun)
    intro _ _
    split
    · exact ih.function
    · exact ih.conditional
    · exact ih.loop
    · exact returnStatement_related related.toSequential h
    · exact recordStatement_related related.toSequential h
    · exact expressionStatement_related related.toSequential h
  case block =>
    apply related.bind (related.expect _)
    intro _ _
    apply related.bind (related.nested ih.statements)
    intro body hbody
    exact related.bind (related.expect _) fun _ _ => related.value hbody
  case function =>
    apply related.bind (header_related related.toSequential h)
    intro header hheader
    apply related.bind (related.expectOneOf _)
    intro _ _
    apply related.bind (related.expect _)
    intro _ _
    apply related.bind ih.block
    intro body hbody
    exact related.value (Stmt.drawnFrom_function hheader hbody)
  case conditional =>
    apply related.bind (related.expect _)
    intro _ _
    apply related.bind ih.branch
    rintro ⟨condition, body, alternative⟩ hparts
    exact related.value hparts
  case branch => exact branch_related related h ih
  case loop =>
    apply related.bind (related.expect _)
    intro _ _
    apply related.bind (expressionsRelated related.toSequential h).expression
    intro condition hcondition
    apply related.bind (related.expect _)
    intro _ _
    apply related.bind (related.expect _)
    intro _ _
    apply related.bind ih.block
    intro body hbody
    exact related.value (Stmt.drawnFrom_loop hcondition hbody)

theorem statementsRelated (related : Guarding tokens Related) (h : fuel ≤ fuel') :
    StatementsRelated tokens Related fuel fuel' := by
  refine of_fuel_le ?zero ?cut ?succ h
  case zero => constructor <;> exact related.exhausted _
  case cut =>
    intro fuel same
    constructor
    case statements => exact related.cut same.statements
    case statement => exact related.cut same.statement
    case block => exact related.cut same.block
    case function => exact related.cut same.function
    case conditional => exact related.cut same.conditional
    case branch => exact related.cut same.branch
    case loop => exact related.cut same.loop
  case succ => exact fun _ _ h ih => statementsRelated_succ related h ih

theorem program_related (related : Compositional tokens Related) (h : fuel ≤ fuel') :
    Related (Block.DrawnFrom tokens) (program fuel) (program fuel') := by
  apply related.bind related.currentToken
  intro token _
  split
  · apply related.bind related.advance
    intro _ _
    apply related.bind (statementsRelated related.guarding h).statements
    intro block hblock
    apply related.bind (related.expect _)
    intro _ _
    apply related.bind (related.expect _)
    intro _ _
    apply related.bind (related.note (fun state => .finished block.length state.errors.length)
      (fun _ _ _ => rfl) fun _ => nofun)
    intro _ _
    exact related.value hblock
  · apply related.bind (related.note (fun _ => .startMissing (.unexpected [.indent] token))
      (fun _ _ _ => rfl) fun _ => nofun)
    intro _ _
    exact related.throw _ _ (Error.unexpected_recoverable [.indent] token).1

end Offside.Parse.Parser
