import Offside.Proofs.Parsing.Moves

/-!
# All grammar functions move forward

The grammar functions are put together from those that are known to move forward, so each of them
does, with any amount of fuel.
-/

namespace Offside.Parse.Parser

/-! ## Expressions -/

theorem identifier_moving : Moving identifier := by
  apply Moving.bind (expect_moving _)
  intro token
  split
  · exact .of_pure _
  · exact .of_throw _

theorem literal?_moving (kinds : List TokenKind) : Moving (literal? kinds) := by
  apply Moving.bind .of_currentToken
  intro token
  split
  · exact Moving.bind .of_advance fun _ => .of_pure _
  · exact .of_pure _

theorem signAhead?_moving : Moving signAhead? := by
  apply Moving.bind .of_get
  intro state
  split
  · exact .of_pure _
  · split
    · split
      · exact Moving.bind (record_moving _) fun _ => .of_pure _
      · exact .of_throw _
    · exact .of_pure _

structure ExpressionsMoving (fuel : Nat) : Prop where
  expression : Moving (expression fuel)
  level : ∀ here, Moving (level fuel here)
  suffixes : ∀ object, Moving (suffixes fuel object)
  arguments : Moving (arguments fuel)
  moreArguments : Moving (moreArguments fuel)
  atom : Moving (atom fuel)
  parenthesized? : Moving (parenthesized? fuel)

private theorem binaryLevel_moving {fuel : Nat} (ih : ExpressionsMoving fuel) (here : Level) :
    Moving
      (do
        let left ← level fuel here.tighter
        match here.operator? (← currentKind) with
        | some op =>
            let _ ← advance
            return .binary left op (← level fuel here.right)
        | none => return left) := by
  apply Moving.bind (ih.level _)
  intro left
  apply Moving.bind .of_currentKind
  intro kind
  split
  · apply Moving.bind .of_advance
    intro _
    exact Moving.bind (ih.level _) fun _ => .of_pure _
  · exact .of_pure _

theorem expressionsMoving (fuel : Nat) : ExpressionsMoving fuel := by
  induction fuel with
  | zero => constructor <;> intros <;> exact .of_exhausted
  | succ fuel ih =>
      constructor
      case expression => exact Moving.nested (ih.level _)
      case level =>
        intro here
        cases here
        case atom => exact ih.atom
        case suffix => exact Moving.bind (ih.level _) fun _ => ih.suffixes _
        case negation =>
          apply Moving.bind .of_currentKind
          intro kind
          split
          · apply Moving.bind .of_advance
            intro _
            exact Moving.bind (Moving.nested (ih.level _)) fun _ => .of_pure _
          · exact ih.level _
        case sign =>
          apply Moving.bind signAhead?_moving
          intro op?
          split
          · apply Moving.bind .of_advance
            intro _
            exact Moving.bind (Moving.nested (ih.level _)) fun _ => .of_pure _
          · exact ih.level _
        all_goals exact binaryLevel_moving ih _
      case suffixes =>
        intro object
        apply Moving.bind .of_currentKind
        intro kind
        split
        · apply Moving.bind .of_advance
          intro _
          apply Moving.bind ih.arguments
          intro arguments
          exact Moving.bind (expect_moving _) fun _ => ih.suffixes _
        · apply Moving.bind .of_advance
          intro _
          exact Moving.bind identifier_moving fun _ => ih.suffixes _
        · apply Moving.bind .of_advance
          intro _
          apply Moving.bind ih.expression
          intro index
          exact Moving.bind (expect_moving _) fun _ => ih.suffixes _
        · exact .of_pure _
      case arguments =>
        apply Moving.bind .of_currentKind
        intro kind
        split
        · exact .of_pure _
        · apply Moving.bind ih.expression
          intro first
          exact Moving.bind ih.moreArguments fun _ => .of_pure _
      case moreArguments =>
        apply Moving.bind .of_currentKind
        intro kind
        split
        · apply Moving.bind .of_advance
          intro _
          apply Moving.bind ih.expression
          intro argument
          exact Moving.bind ih.moreArguments fun _ => .of_pure _
        · exact .of_pure _
      case atom =>
        apply Moving.bind (literal?_moving _)
        intro value?
        split
        · exact .of_pure _
        · apply Moving.bind .of_currentKind
          intro kind
          split
          · exact Moving.bind identifier_moving fun _ => .of_pure _
          · apply Moving.bind ih.parenthesized?
            intro inner?
            split
            · exact .of_pure _
            · exact Moving.bind .of_get fun _ => .of_throw _
      case parenthesized? =>
        apply Moving.bind .of_currentKind
        intro kind
        split
        · apply Moving.bind .of_advance
          intro _
          apply Moving.bind ih.expression
          intro inner
          exact Moving.bind (expect_moving _) fun _ => .of_pure _
        · exact .of_pure _

/-! ## Headers and simple statements -/

theorem moreParameters_moving (fuel : Nat) : Moving (moreParameters fuel) := by
  induction fuel with
  | zero => exact .of_exhausted
  | succ fuel ih =>
      apply Moving.bind .of_currentKind
      intro kind
      split
      · apply Moving.bind .of_advance
        intro _
        apply Moving.bind identifier_moving
        intro parameter
        exact Moving.bind ih fun _ => .of_pure _
      · exact .of_pure _

theorem optionalParameters_moving (fuel : Nat) : Moving (optionalParameters fuel) := by
  apply Moving.bind .of_currentKind
  intro kind
  split
  · apply Moving.bind identifier_moving
    intro first
    exact Moving.bind (moreParameters_moving fuel) fun _ => .of_pure _
  · exact .of_pure _

theorem header_moving (fuel : Nat) : Moving (header fuel) := by
  apply Moving.bind (expect_moving _)
  intro _
  apply Moving.bind identifier_moving
  intro name
  apply Moving.bind (expect_moving _)
  intro _
  apply Moving.bind (optionalParameters_moving fuel)
  intro parameters
  apply Moving.bind (expect_moving _)
  intro _
  apply Moving.bind .of_currentKind
  intro kind
  apply Moving.bind .of_nextKind
  intro next
  split
  · apply Moving.bind .of_advance
    intro _
    exact Moving.bind identifier_moving fun _ => .of_pure _
  · exact .of_pure _

theorem fields_moving (fuel : Nat) : Moving (fields fuel) := by
  induction fuel with
  | zero => exact .of_exhausted
  | succ fuel ih =>
      apply Moving.bind .of_currentKind
      intro kind
      split
      · apply Moving.bind identifier_moving
        intro field
        apply Moving.bind (expect_moving _)
        intro _
        exact Moving.bind ih fun _ => .of_pure _
      · exact .of_pure _

theorem expressionStatement_moving (fuel : Nat) : Moving (expressionStatement fuel) := by
  apply Moving.bind (expressionsMoving fuel).expression
  intro value
  exact Moving.bind (expect_moving _) fun _ => .of_pure _

theorem returnStatement_moving (fuel : Nat) : Moving (returnStatement fuel) := by
  apply Moving.bind (expect_moving _)
  intro _
  have hvalue : Moving (returnValue? fuel) := by
    apply Moving.bind .of_currentKind
    intro kind
    split
    · exact .of_pure _
    · exact Moving.bind (expressionsMoving fuel).expression fun _ => .of_pure _
  apply Moving.bind hvalue
  intro value?
  exact Moving.bind (expect_moving _) fun _ => .of_pure _

theorem recordStatement_moving (fuel : Nat) : Moving (recordStatement fuel) := by
  apply Moving.bind (expect_moving _)
  intro _
  apply Moving.bind identifier_moving
  intro name
  apply Moving.bind (expect_moving _)
  intro _
  apply Moving.bind (expect_moving _)
  intro _
  apply Moving.bind (expect_moving _)
  intro _
  apply Moving.bind (fields_moving fuel)
  intro fields
  exact Moving.bind (expect_moving _) fun _ => .of_pure _

/-! ## Blocks -/

structure StatementsMoving (fuel : Nat) : Prop where
  statements : Moving (statements fuel)
  statement : Moving (statement fuel)
  block : Moving (block fuel)
  function : Moving (function fuel)
  conditional : Moving (conditional fuel)
  branch : Moving (branch fuel)
  loop : Moving (loop fuel)

/-- Going on behind a broken statement moves forward too, because a fatal error is not recovered
from. -/
private theorem statements_moving {fuel : Nat} (ih : StatementsMoving fuel) :
    Moving (statements (fuel + 1)) := by
  intro state hsettled
  unfold statements
  apply Ensures.get_bind
  split
  · exact .of_pure (.refl state)
  · apply Ensures.bind (ih.statement state hsettled).attempt
    intro result after hafter
    cases result with
    | ok stmt =>
        apply Ensures.bind (ih.statements.later hsettled hafter)
        intro rest last hlast
        exact .of_pure hlast
    | error error =>
        apply Ensures.bind (recover_later hsettled hafter)
        rintro _ middle ⟨hmiddle, -⟩
        exact ih.statements.later hsettled hmiddle

theorem statementsMoving (fuel : Nat) : StatementsMoving fuel := by
  induction fuel with
  | zero => constructor <;> exact .of_exhausted
  | succ fuel ih =>
      constructor
      case statements => exact statements_moving ih
      case statement =>
        apply Moving.bind .of_currentToken
        intro token
        apply Moving.bind (.of_note fun _ => .began token.kind token.position.line)
        intro _
        split
        · exact ih.function
        · exact ih.conditional
        · exact ih.loop
        · exact returnStatement_moving fuel
        · exact recordStatement_moving fuel
        · exact expressionStatement_moving fuel
      case block =>
        apply Moving.bind (expect_moving _)
        intro _
        apply Moving.bind (Moving.nested ih.statements)
        intro body
        exact Moving.bind (expect_moving _) fun _ => .of_pure _
      case function =>
        apply Moving.bind (header_moving fuel)
        intro header
        apply Moving.bind (expectOneOf_moving _)
        intro _
        apply Moving.bind (expect_moving _)
        intro _
        exact Moving.bind ih.block fun _ => .of_pure _
      case conditional =>
        apply Moving.bind (expect_moving _)
        intro _
        exact Moving.bind ih.branch fun _ => .of_pure _
      case branch =>
        apply Moving.bind (expressionsMoving fuel).expression
        intro condition
        apply Moving.bind (expect_moving _)
        intro _
        apply Moving.bind (expect_moving _)
        intro _
        apply Moving.bind ih.block
        intro body
        apply Moving.bind .of_currentKind
        intro kind
        split
        · apply Moving.bind .of_advance
          intro _
          exact Moving.bind ih.branch fun _ => .of_pure _
        · apply Moving.bind .of_advance
          intro _
          apply Moving.bind (expect_moving _)
          intro _
          apply Moving.bind (expect_moving _)
          intro _
          exact Moving.bind ih.block fun _ => .of_pure _
        · exact .of_pure _
      case loop =>
        apply Moving.bind (expect_moving _)
        intro _
        apply Moving.bind (expressionsMoving fuel).expression
        intro condition
        apply Moving.bind (expect_moving _)
        intro _
        apply Moving.bind (expect_moving _)
        intro _
        exact Moving.bind ih.block fun _ => .of_pure _

end Offside.Parse.Parser
