import Offside.Proofs.Grammar.PhraseSoundness
import Offside.Proofs.Parsing.Ensures
import Offside.Proofs.Scanning.Outcomes

/-!
# Grammar functions inside of a line

An expression, a header or a list of names is read inside of one line: apart from the keyword in
front of a header, no token is consumed that opens or closes a block, ends a line or starts a
statement.  What consuming the other tokens keeps, these grammar functions keep.
-/

namespace Offside

namespace TokenKind

def isInline (kind : TokenKind) : Bool := !kind.isStructural && !kind.startsStatement

variable {kind : TokenKind}

theorem content_of_isInline (h : kind.isInline = true) : kind.isStructural = false := by
  simp only [isInline, Bool.and_eq_true, Bool.not_eq_eq_eq_not, Bool.not_true] at h
  exact h.1

theorem content_of_startsStatement (h : kind.startsStatement = true) :
    kind.isStructural = false := by
  cases kind <;> first | contradiction | rfl

theorem blocksBehind_of_content (h : kind.isStructural = false) (openBlocks : Nat) :
    kind.blocksBehind openBlocks = openBlocks := by
  unfold blocksBehind
  split <;> first | contradiction | rfl

theorem isInline_token (op : BinaryOp) : op.token.isInline = true := by
  cases op <;> rfl

end TokenKind

namespace Parse

structure LineInvariant where
  holds : Nat → State → Prop
  /-- In front of a prefix operator that has been noticed. -/
  signed : Nat → State → Prop
  /-- The errors that may be noticed. -/
  noted : Error → Prop
  /-- Behind an error. -/
  broken : Nat → Error → State → Prop

variable {line : LineInvariant} {state : State} {nesting fuel : Nat}

structure LineInvariant.Sound (line : LineInvariant) : Prop where
  inline {nesting : Nat} {state : State} (h : line.holds nesting state)
    (hkind : state.current.kind.isInline = true) :
    Ensures Parser.advance state
      (fun token after => token = state.current ∧ line.holds nesting after) (line.broken nesting)
  noted {nesting : Nat} {state : State} (h : line.holds nesting state) {error : Error}
    (hposition : error.position = state.current.position) : line.noted error
  throw {nesting : Nat} {state : State} (h : line.holds nesting state) {error : Error}
    (herror : error.isFatal = false) (hnoted : line.noted error) : line.broken nesting error state
  sign {nesting : Nat} {state : State} (h : line.holds nesting state) :
    Ensures Parser.signAhead? state
      (fun op? after => match op? with
        | some _ => line.signed nesting after
        | none => line.holds nesting after)
      (line.broken nesting)
  signed {nesting : Nat} {state : State} (h : line.signed nesting state) :
    Ensures Parser.advance state (fun _ after => line.holds nesting after) (line.broken nesting)
  nesting {nesting : Nat} {state : State} (h : line.holds nesting state) :
    state.nesting = nesting
  renest {nesting : Nat} {state : State} (h : line.holds nesting state) (nesting' : Nat) :
    line.holds nesting' { state with nesting := nesting' }
  renestBroken {nesting : Nat} {error : Error} {state : State}
    (h : line.broken (nesting + 1) error state) :
    line.broken nesting error { state with nesting := state.nesting - 1 }

namespace LineInvariant

def Reads {α : Type} (line : LineInvariant) (nesting : Nat) (parser : Parser α) (state : State) :
    Prop :=
  Ensures parser state (fun _ after => line.holds nesting after) (line.broken nesting)

namespace Reads

variable {α β : Type} {parser : Parser α}

theorem of_pure {value : α} (h : line.holds nesting state) :
    line.Reads nesting (pure value) state :=
  Ensures.of_pure h

theorem of_exhausted : line.Reads nesting (Parser.exhausted : Parser α) state :=
  Ensures.of_exhausted

theorem bind {next : α → Parser β} (h : line.Reads nesting parser state)
    (hnext : ∀ value middle, line.holds nesting middle → line.Reads nesting (next value) middle) :
    line.Reads nesting (parser >>= next) state :=
  Ensures.bind h hnext

theorem get_bind {next : State → Parser β} (h : line.Reads nesting (next state) state) :
    line.Reads nesting (get >>= next) state :=
  h

theorem currentToken_bind {next : Token → Parser β}
    (h : line.Reads nesting (next state.current) state) :
    line.Reads nesting (Parser.currentToken >>= next) state :=
  h

theorem currentKind_bind {next : TokenKind → Parser β}
    (h : line.Reads nesting (next state.current.kind) state) :
    line.Reads nesting (Parser.currentKind >>= next) state :=
  h

theorem nextKind_bind {next : TokenKind → Parser β}
    (h : line.Reads nesting (next state.next.kind) state) :
    line.Reads nesting (Parser.nextKind >>= next) state :=
  h

end Reads

def Stays {α : Type} (line : LineInvariant) (parser : Parser α) : Prop :=
  ∀ {nesting : Nat} {state : State}, line.holds nesting state → line.Reads nesting parser state

namespace Sound

open Parse.Parser

variable (sound : line.Sound)

include sound

/-! ## Single tokens -/

theorem consume (h : line.holds nesting state) {kind : TokenKind}
    (hcurrent : state.current.kind = kind) (hinline : kind.isInline = true) :
    line.Reads nesting Parser.advance state := by
  apply (sound.inline h (hcurrent ▸ hinline)).weaken
  · exact fun _ _ hafter => hafter.2
  · exact fun _ _ hbroken => hbroken

theorem expect_ensures (h : line.holds nesting state) {kind : TokenKind}
    (hinline : kind.isInline = true) :
    Ensures (Parser.expect kind) state
      (fun token after => token = state.current ∧ line.holds nesting after)
      (line.broken nesting) := by
  apply Ensures.currentToken_bind
  split
  · rename_i hmem
    have hkind : state.current.kind = kind := by simpa using hmem
    exact sound.inline h (hkind ▸ hinline)
  · obtain ⟨herror, hposition⟩ := Error.unexpected_recoverable [kind] state.current
    exact .of_throw (sound.throw h herror (sound.noted h hposition))

theorem expect_reads (h : line.holds nesting state) {kind : TokenKind}
    (hinline : kind.isInline = true) : line.Reads nesting (Parser.expect kind) state := by
  apply (sound.expect_ensures h hinline).weaken
  · exact fun _ _ hafter => hafter.2
  · exact fun _ _ hbroken => hbroken

theorem identifier_stays : line.Stays identifier := by
  intro nesting state h
  apply Ensures.bind (sound.expect_ensures h rfl)
  rintro token middle ⟨rfl, hmiddle⟩
  split
  · exact Reads.of_pure hmiddle
  · obtain ⟨herror, hposition⟩ := Error.unexpected_recoverable [.identifier] state.current
    exact .of_throw (sound.throw hmiddle herror (sound.noted h hposition))

theorem literal?_stays {kinds : List TokenKind} (hkinds : ∀ kind ∈ kinds, kind.isInline = true) :
    line.Stays (literal? kinds) := by
  intro nesting state h
  apply Reads.currentToken_bind
  split
  · rename_i value hvalue
    obtain ⟨kind, hmem, hliteral⟩ := List.exists_of_findSome?_eq_some hvalue
    apply Reads.bind (sound.consume h (kind_of_literalOf? hliteral) (hkinds kind hmem))
    exact fun _ _ hlast => Reads.of_pure hlast
  · exact Reads.of_pure h

theorem nested_stays {α : Type} {parser : Parser α} (hparser : line.Stays parser) :
    line.Stays (Parser.nested parser) := by
  intro nesting state h
  apply Ensures.get_bind
  split
  · exact .of_throw (sound.throw h rfl (sound.noted h rfl))
  · apply Ensures.set_bind
    have hdeeper := sound.renest h (state.nesting + 1)
    rw [sound.nesting h] at hdeeper ⊢
    apply Ensures.bind (hparser hdeeper).attempt
    intro result after hafter
    apply Ensures.modify_bind
    cases result with
    | ok value =>
        have hafter : line.holds (nesting + 1) after := hafter
        have hback := sound.renest hafter (after.nesting - 1)
        apply Reads.of_pure
        rwa [sound.nesting hafter, Nat.add_sub_cancel] at hback ⊢
    | error error => exact .of_throw (sound.renestBroken hafter)

end Sound

/-! ## Expressions -/

structure ExpressionsStay (line : LineInvariant) (fuel : Nat) : Prop where
  expression : line.Stays (Parser.expression fuel)
  level : ∀ here, line.Stays (Parser.level fuel here)
  suffixes : ∀ object, line.Stays (Parser.suffixes fuel object)
  arguments : line.Stays (Parser.arguments fuel)
  moreArguments : line.Stays (Parser.moreArguments fuel)
  atom : line.Stays (Parser.atom fuel)
  parenthesized? : line.Stays (Parser.parenthesized? fuel)

namespace Sound

open Parse.Parser

variable (sound : line.Sound)

include sound

private theorem binaryLevel_stays (ih : line.ExpressionsStay fuel) (here : Level) :
    line.Stays
      (do
        let left ← level fuel here.tighter
        match here.operator? (← currentKind) with
        | some op =>
            let _ ← advance
            return .binary left op (← level fuel here.right)
        | none => return left) := by
  intro nesting state h
  apply Reads.bind (ih.level _ h)
  intro left middle hmiddle
  apply Reads.currentKind_bind
  split
  · rename_i op hop
    have hkind := (Grammar.level_of_operator? hop).1
    apply Reads.bind (sound.consume hmiddle hkind.symm (TokenKind.isInline_token op))
    intro _ behind hbehind
    apply Reads.bind (ih.level _ hbehind)
    exact fun _ _ hlast => Reads.of_pure hlast
  · exact Reads.of_pure hmiddle

private theorem level_stays (ih : line.ExpressionsStay fuel) (here : Level) :
    line.Stays (level (fuel + 1) here) := by
  intro nesting state h
  cases here
  case atom => exact ih.atom h
  case suffix =>
    apply Reads.bind (ih.level .atom h)
    exact fun object middle hmiddle => ih.suffixes object hmiddle
  case negation =>
    apply Reads.currentKind_bind
    split
    · rename_i hkind
      apply Reads.bind (sound.consume h hkind rfl)
      intro _ middle hmiddle
      apply Reads.bind (sound.nested_stays (ih.level .negation) hmiddle)
      exact fun _ _ hlast => Reads.of_pure hlast
    · exact ih.level .comparison h
  case sign =>
    apply Ensures.bind (sound.sign h)
    intro op? middle hmiddle
    cases op? with
    | none => exact ih.level .power hmiddle
    | some op =>
        apply Ensures.bind (sound.signed hmiddle)
        intro _ behind hbehind
        apply Reads.bind (sound.nested_stays (ih.level .sign) hbehind)
        exact fun _ _ hlast => Reads.of_pure hlast
  all_goals exact sound.binaryLevel_stays ih _ h

private theorem suffixes_stays (ih : line.ExpressionsStay fuel) (object : Expr) :
    line.Stays (suffixes (fuel + 1) object) := by
  intro nesting state h
  apply Reads.currentKind_bind
  split
  · rename_i hkind
    apply Reads.bind (sound.consume h hkind rfl)
    intro _ opened hopened
    apply Reads.bind (ih.arguments hopened)
    intro arguments listed hlisted
    apply Reads.bind (sound.expect_reads hlisted rfl)
    exact fun _ last hlast => ih.suffixes _ hlast
  · rename_i hkind
    apply Reads.bind (sound.consume h hkind rfl)
    intro _ behind hbehind
    apply Reads.bind (sound.identifier_stays hbehind)
    exact fun _ last hlast => ih.suffixes _ hlast
  · rename_i hkind
    apply Reads.bind (sound.consume h hkind rfl)
    intro _ opened hopened
    apply Reads.bind (ih.expression hopened)
    intro index read hread
    apply Reads.bind (sound.expect_reads hread rfl)
    exact fun _ last hlast => ih.suffixes _ hlast
  · exact Reads.of_pure h

private theorem atom_stays (ih : line.ExpressionsStay fuel) : line.Stays (atom (fuel + 1)) := by
  intro nesting state h
  apply Reads.bind (sound.literal?_stays (by decide) h)
  intro value? middle hmiddle
  cases value? with
  | some value => exact Reads.of_pure hmiddle
  | none =>
      apply Reads.currentKind_bind
      split
      · apply Reads.bind (sound.identifier_stays hmiddle)
        exact fun _ _ hlast => Reads.of_pure hlast
      · apply Reads.bind (ih.parenthesized? hmiddle)
        intro inner? last hlast
        cases inner? with
        | some inner => exact Reads.of_pure hlast
        | none =>
            apply Reads.get_bind
            obtain ⟨herror, hposition⟩ := Error.expectedExpression_recoverable last.current
            exact .of_throw (sound.throw hlast herror (sound.noted hlast hposition))

theorem expressions_stay (fuel : Nat) : line.ExpressionsStay fuel := by
  induction fuel with
  | zero => constructor <;> intros <;> intro _ _ _ <;> exact Reads.of_exhausted
  | succ fuel ih =>
      constructor
      case expression => exact sound.nested_stays (ih.level .assignment)
      case level => exact sound.level_stays ih
      case suffixes => exact sound.suffixes_stays ih
      case arguments =>
        intro nesting state h
        apply Reads.currentKind_bind
        split
        · exact Reads.of_pure h
        · apply Reads.bind (ih.expression h)
          intro first middle hmiddle
          apply Reads.bind (ih.moreArguments hmiddle)
          exact fun _ _ hlast => Reads.of_pure hlast
      case moreArguments =>
        intro nesting state h
        apply Reads.currentKind_bind
        split
        · rename_i hkind
          apply Reads.bind (sound.consume h hkind rfl)
          intro _ behind hbehind
          apply Reads.bind (ih.expression hbehind)
          intro argument middle hmiddle
          apply Reads.bind (ih.moreArguments hmiddle)
          exact fun _ _ hlast => Reads.of_pure hlast
        · exact Reads.of_pure h
      case atom => exact sound.atom_stays ih
      case parenthesized? =>
        intro nesting state h
        apply Reads.currentKind_bind
        split
        · rename_i hkind
          apply Reads.bind (sound.consume h hkind rfl)
          intro _ opened hopened
          apply Reads.bind (ih.expression hopened)
          intro inner read hread
          apply Reads.bind (sound.expect_reads hread rfl)
          exact fun _ _ hlast => Reads.of_pure hlast
        · exact Reads.of_pure h

theorem expression_stays (fuel : Nat) : line.Stays (expression fuel) :=
  (sound.expressions_stay fuel).expression

/-! ## Headers and values -/

theorem moreParameters_stays (fuel : Nat) : line.Stays (moreParameters fuel) := by
  induction fuel with
  | zero =>
      intro _ _ _
      exact Reads.of_exhausted
  | succ fuel ih =>
      intro nesting state h
      apply Reads.currentKind_bind
      split
      · rename_i hkind
        apply Reads.bind (sound.consume h hkind rfl)
        intro _ behind hbehind
        apply Reads.bind (sound.identifier_stays hbehind)
        intro parameter middle hmiddle
        apply Reads.bind (ih hmiddle)
        exact fun _ _ hlast => Reads.of_pure hlast
      · exact Reads.of_pure h

theorem optionalParameters_stays (fuel : Nat) : line.Stays (optionalParameters fuel) := by
  intro nesting state h
  apply Reads.currentKind_bind
  split
  · apply Reads.bind (sound.identifier_stays h)
    intro first middle hmiddle
    apply Reads.bind (sound.moreParameters_stays fuel hmiddle)
    exact fun _ _ hlast => Reads.of_pure hlast
  · exact Reads.of_pure h

theorem header_reads (fuel : Nat)
    (hkeyword : line.Reads nesting (Parser.expect .funcKeyword) state) :
    line.Reads nesting (header fuel) state := by
  apply Reads.bind hkeyword
  intro _ begun hbegun
  apply Reads.bind (sound.identifier_stays hbegun)
  intro name named hnamed
  apply Reads.bind (sound.expect_reads hnamed rfl)
  intro _ opened hopened
  apply Reads.bind (sound.optionalParameters_stays fuel hopened)
  intro parameters listed hlisted
  apply Reads.bind (sound.expect_reads hlisted rfl)
  intro _ closed hclosed
  apply Reads.currentKind_bind
  apply Reads.nextKind_bind
  split
  · rename_i hcolon
    simp only [Bool.and_eq_true, decide_eq_true_eq] at hcolon
    apply Reads.bind (sound.consume hclosed hcolon.1 rfl)
    intro _ behind hbehind
    apply Reads.bind (sound.identifier_stays hbehind)
    exact fun _ _ hlast => Reads.of_pure hlast
  · exact Reads.of_pure hclosed

theorem returnValue?_stays (fuel : Nat) : line.Stays (returnValue? fuel) := by
  intro nesting state h
  apply Reads.currentKind_bind
  split
  · exact Reads.of_pure h
  · apply Reads.bind (sound.expression_stays fuel h)
    exact fun _ _ hlast => Reads.of_pure hlast

end Sound

end LineInvariant

end Parse

end Offside
