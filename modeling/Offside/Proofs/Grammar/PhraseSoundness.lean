import Offside.Parse.Progress.Expression
import Offside.Proofs.Grammar.Derives

/-!
# Clean runs read phrases

Every value that a grammar function of expressions gives without recording an error is the tree of a
phrase, whose tokens are the consumed ones.
-/

namespace Offside.Grammar

open Parse (Derives Ensures State)

def Spelled (symbol : Symbol) (tree : symbol.Tree) (tokens : List Token) (depth : Nat) : Prop :=
  ∃ phrase : Phrase symbol, phrase.tree = tree ∧ phrase.tokens = tokens ∧ phrase.depth = depth

structure ReadsPhrases (fuel : Nat) : Prop where
  expression : ∀ state : State, state.Settled →
    Derives (Parse.Parser.expression fuel) state (Spelled .expression)
  level : ∀ (here : Level) (state : State), state.Settled →
    Derives (Parse.Parser.level fuel here) state (Spelled (.level here))
  suffixes : ∀ (object : Expr) (state : State), state.Settled →
    Derives (Parse.Parser.suffixes fuel object) state fun value tokens depth =>
      ∃ more, value = more object ∧ Spelled .suffixes more tokens depth
  arguments : ∀ state : State, state.Settled →
    Derives (Parse.Parser.arguments fuel) state (Spelled .arguments)
  moreArguments : ∀ state : State, state.Settled →
    Derives (Parse.Parser.moreArguments fuel) state (Spelled .moreArguments)
  atom : ∀ state : State, state.Settled →
    Derives (Parse.Parser.atom fuel) state (Spelled (.level .atom))
  parenthesized? : ∀ state : State, state.Settled →
    Derives (Parse.Parser.parenthesized? fuel) state fun value? tokens depth =>
      ∀ value, value? = some value → Spelled (.level .atom) value tokens depth

open Parse.Parser

theorem level_of_operator? {here : Level} {kind : TokenKind} {op : BinaryOp}
    (h : here.operator? kind = some op) : op.token = kind ∧ op.level = here := by
  simp only [Level.operator?, Option.filter_eq_some_iff] at h
  exact ⟨BinaryOp.token_of_ofKind? h.1, by simpa using h.2⟩

theorem BinaryOp.carriesPayload_token (op : BinaryOp) :
    op.token.carriesPayload = false := by
  cases op <;> rfl

theorem BinaryOp.token_ne_eof (op : BinaryOp) : op.token ≠ .eof := by
  cases op <;> simp [BinaryOp.token]

private theorem binaryLevel_derives {fuel : Nat} (ih : ReadsPhrases fuel) {here : Level}
    (hpasses : Level.passesOn here = true) {state : State} (hsettled : state.Settled) :
    Derives
      (do
        let left ← level fuel here.tighter
        match here.operator? (← currentKind) with
        | some op =>
            let _ ← advance
            return .binary left op (← level fuel here.right)
        | none => return left)
      state (Spelled (.level here)) := by
  apply Derives.bind hsettled (ih.level _ _ hsettled)
  intro left middle hmiddle
  apply Derives.currentKind_bind
  split
  · rename_i op hop
    obtain ⟨htoken, hlevel⟩ := level_of_operator? hop
    apply Derives.bind hmiddle (Derives.advance_plain htoken.symm (BinaryOp.token_ne_eof op)
      (BinaryOp.carriesPayload_token op))
    intro _ behind hbehind
    apply Derives.bind hbehind (ih.level _ _ hbehind)
    intro right last hlast
    apply Derives.of_pure
    rintro _ _ ⟨right, rfl, rfl, rfl⟩ _ _ ⟨position, rfl, rfl⟩ _ _ ⟨left, rfl, rfl, rfl⟩
    exact ⟨.binary left op hlevel position right, rfl, by simp [Phrase.tokens],
      by simp [Phrase.depth]⟩
  · apply Derives.of_pure
    rintro _ _ ⟨left, rfl, rfl, rfl⟩
    exact ⟨.operand hpasses left, rfl, by simp [Phrase.tokens], by simp [Phrase.depth]⟩

theorem token_of_literalOf? {kind : TokenKind} {token : Token} {value : Literal}
    (h : literalOf? kind token = some value) (hfaithful : token.Faithful) :
    value.token token.position = token := by
  obtain ⟨found, position, payload?⟩ := token
  unfold literalOf? at h
  split at h
  · rename_i hkind
    simp only at hkind
    subst hkind
    split at h <;> cases h
    · rename_i hpayload
      cases hpayload
      rfl
    · rename_i hpayload
      cases hpayload
      rfl
    · rename_i hpayload
      cases hpayload
      rfl
    · exact (hfaithful.eq_plain rfl).symm
    · exact (hfaithful.eq_plain rfl).symm
  · cases h

theorem literal?_derives {kinds : List TokenKind} {state : State} (hsettled : state.Settled)
    (hkinds : TokenKind.eof ∉ kinds) :
    Derives (literal? kinds) state fun value? tokens depth =>
      match value? with
      | some value => Spelled (.level .atom) value tokens depth
      | none => tokens = [] ∧ depth = 0 := by
  apply Derives.currentToken_bind
  split
  · rename_i value hvalue
    obtain ⟨kind, hmem, hliteral⟩ := List.exists_of_findSome?_eq_some hvalue
    have hkind := kind_of_literalOf? hliteral
    apply Derives.bind hsettled (Derives.advance fun heof => hkinds (heof ▸ hkind ▸ hmem))
    intro _ last _
    apply Derives.of_pure
    rintro _ _ ⟨rfl, hfaithful, rfl, rfl⟩
    exact ⟨.literal value state.current.position, rfl,
      by simp [Phrase.tokens, token_of_literalOf? hliteral hfaithful], rfl⟩
  · exact Derives.of_pure ⟨rfl, rfl⟩

/-- Either a minus is ahead, or nothing is recorded and there is no sign, or a stray mark is
recorded. -/
theorem signAhead?_ensures (state : State) :
    Ensures signAhead? state
      (fun op? after =>
        (op? = some .negate ∧ after = state ∧ state.current.kind = .minus) ∨
          (op? = none ∧ after = state) ∨
          ∃ error, op? = some .not ∧ after = state.keep error)
      fun error after => error.isFatal = true ∨ state.Moves after := by
  apply Ensures.get_bind
  split
  · rename_i hminus
    exact .of_pure (.inl ⟨rfl, rfl, hminus⟩)
  · split
    · split
      · apply record_bind
        · exact fun _ _ _ => .inr (.of_step (.keep state _))
        · exact .of_pure (.inr (.inr ⟨_, rfl, rfl⟩))
      · exact .of_throw (.inr (.refl state))
    · exact .of_pure (.inr (.inl ⟨rfl, rfl⟩))

private theorem sign_derives {fuel : Nat} (ih : ReadsPhrases fuel) {state : State}
    (hsettled : state.Settled) :
    Derives (level (fuel + 1) .sign) state (Spelled (.level .sign)) := by
  have hmoving := expressionsMoving fuel
  apply Ensures.bind (signAhead?_ensures state)
  rintro op? after (⟨rfl, rfl, hminus⟩ | ⟨rfl, rfl⟩ | ⟨error, rfl, rfl⟩)
  · apply Derives.bind hsettled (Derives.advance_plain hminus (by simp) rfl)
    intro _ middle hmiddle
    apply Derives.bind hmiddle (Derives.nested hmiddle fun deeper hdeeper =>
      ih.level .sign deeper hdeeper)
    intro body last _
    apply Derives.of_pure
    rintro _ _ ⟨_, ⟨body, rfl, rfl, rfl⟩, rfl⟩ _ _ ⟨position, rfl, rfl⟩
    exact ⟨.sign position body, rfl, by simp [Phrase.tokens], by simp [Phrase.depth]⟩
  · apply (ih.level .power _ hsettled).weaken
    rintro _ _ _ ⟨body, rfl, rfl, rfl⟩
    exact ⟨.operand rfl body, rfl, rfl, rfl⟩
  · have hkeep : state.Moves (state.keep error) := .of_step (.keep state error)
    apply Derives.of_recorded hsettled hkeep (State.Moves.errors_keep_ne (.refl _))
    apply Moving.bind .of_advance
    intro _
    exact Moving.bind (Moving.nested (hmoving.level _)) fun _ => .of_pure _

section

variable {fuel : Nat} (ih : ReadsPhrases fuel) {state : State}

include ih

private theorem negation_derives (hsettled : state.Settled) :
    Derives (level (fuel + 1) .negation) state (Spelled (.level .negation)) := by
  apply Derives.currentKind_bind
  split
  · rename_i hkind
    apply Derives.bind hsettled (Derives.advance_plain hkind (by simp) rfl)
    intro _ middle hmiddle
    apply Derives.bind hmiddle (Derives.nested hmiddle fun deeper hdeeper =>
      ih.level .negation deeper hdeeper)
    intro body last _
    apply Derives.of_pure
    rintro _ _ ⟨_, ⟨body, rfl, rfl, rfl⟩, rfl⟩ _ _ ⟨position, rfl, rfl⟩
    exact ⟨.negation position body, rfl, by simp [Phrase.tokens], by simp [Phrase.depth]⟩
  · apply (ih.level .comparison state hsettled).weaken
    rintro _ _ _ ⟨body, rfl, rfl, rfl⟩
    exact ⟨.operand rfl body, rfl, rfl, rfl⟩

private theorem level_derives (here : Level) (hsettled : state.Settled) :
    Derives (level (fuel + 1) here) state (Spelled (.level here)) := by
  cases here
  case atom => exact ih.atom state hsettled
  case suffix =>
    apply Derives.bind hsettled (ih.level .atom state hsettled)
    intro object middle hmiddle
    apply (ih.suffixes object middle hmiddle).weaken
    rintro _ _ _ ⟨_, rfl, more, rfl, rfl, rfl⟩ _ _ ⟨object, rfl, rfl, rfl⟩
    exact ⟨.chain object more, rfl, rfl, rfl⟩
  case negation => exact negation_derives ih hsettled
  case sign => exact sign_derives ih hsettled
  all_goals exact binaryLevel_derives ih rfl hsettled

private theorem suffixes_derives (object : Expr) (hsettled : state.Settled) :
    Derives (suffixes (fuel + 1) object) state fun value tokens depth =>
      ∃ more, value = more object ∧ Spelled .suffixes more tokens depth := by
  apply Derives.currentKind_bind
  split
  · rename_i hkind
    apply Derives.bind hsettled (Derives.advance_plain hkind (by simp) rfl)
    intro _ opened hopened
    apply Derives.bind hopened (ih.arguments opened hopened)
    intro arguments listed hlisted
    apply Derives.bind hlisted (Derives.expect (by simp) rfl)
    intro _ last hlast
    apply (ih.suffixes _ last hlast).weaken
    rintro _ _ _ ⟨_, rfl, more, rfl, rfl, rfl⟩ _ _ ⟨closer, rfl, rfl⟩
      _ _ ⟨arguments, rfl, rfl, rfl⟩ _ _ ⟨opener, rfl, rfl⟩
    exact ⟨_, rfl, .call opener arguments closer more, rfl, by simp [Phrase.tokens],
      by simp [Phrase.depth]⟩
  · rename_i hkind
    apply Derives.bind hsettled (Derives.advance_plain hkind (by simp) rfl)
    intro _ behind hbehind
    apply Derives.bind hbehind (Derives.identifier hbehind)
    intro name last hlast
    apply (ih.suffixes _ last hlast).weaken
    rintro _ _ _ ⟨_, rfl, more, rfl, rfl, rfl⟩ _ _ ⟨rfl, rfl⟩ _ _ ⟨dot, rfl, rfl⟩
    exact ⟨_, rfl, .field dot name more, rfl, by simp [Phrase.tokens],
      by simp [Phrase.depth]⟩
  · rename_i hkind
    apply Derives.bind hsettled (Derives.advance_plain hkind (by simp) rfl)
    intro _ opened hopened
    apply Derives.bind hopened (ih.expression opened hopened)
    intro index read hread
    apply Derives.bind hread (Derives.expect (by simp) rfl)
    intro _ last hlast
    apply (ih.suffixes _ last hlast).weaken
    rintro _ _ _ ⟨_, rfl, more, rfl, rfl, rfl⟩ _ _ ⟨closer, rfl, rfl⟩
      _ _ ⟨index, rfl, rfl, rfl⟩ _ _ ⟨opener, rfl, rfl⟩
    exact ⟨_, rfl, .subscript opener index closer more, rfl, by simp [Phrase.tokens],
      by simp [Phrase.depth]⟩
  · exact Derives.of_pure ⟨_, rfl, .noSuffix, rfl, rfl, rfl⟩

private theorem arguments_derives (hsettled : state.Settled) :
    Derives (arguments (fuel + 1)) state (Spelled .arguments) := by
  apply Derives.currentKind_bind
  split
  · exact Derives.of_pure ⟨.noArgument, rfl, rfl, rfl⟩
  · apply Derives.bind hsettled (ih.expression state hsettled)
    intro first middle hmiddle
    apply Derives.bind hmiddle (ih.moreArguments middle hmiddle)
    intro more last _
    apply Derives.of_pure
    rintro _ _ ⟨more, rfl, rfl, rfl⟩ _ _ ⟨first, rfl, rfl, rfl⟩
    exact ⟨.firstArgument first more, rfl, by simp [Phrase.tokens], by simp [Phrase.depth]⟩

private theorem moreArguments_derives (hsettled : state.Settled) :
    Derives (moreArguments (fuel + 1)) state (Spelled .moreArguments) := by
  apply Derives.currentKind_bind
  split
  · rename_i hkind
    apply Derives.bind hsettled (Derives.advance_plain hkind (by simp) rfl)
    intro _ behind hbehind
    apply Derives.bind hbehind (ih.expression behind hbehind)
    intro argument middle hmiddle
    apply Derives.bind hmiddle (ih.moreArguments middle hmiddle)
    intro more last _
    apply Derives.of_pure
    rintro _ _ ⟨more, rfl, rfl, rfl⟩ _ _ ⟨argument, rfl, rfl, rfl⟩
      _ _ ⟨comma, rfl, rfl⟩
    exact ⟨.nextArgument comma argument more, rfl, by simp [Phrase.tokens],
      by simp [Phrase.depth]⟩
  · exact Derives.of_pure ⟨.lastArgument, rfl, rfl, rfl⟩

private theorem atom_derives (hsettled : state.Settled) :
    Derives (atom (fuel + 1)) state (Spelled (.level .atom)) := by
  apply Derives.bind hsettled (literal?_derives hsettled (by simp))
  intro value? middle hmiddle
  cases value? with
  | some value =>
      apply Derives.of_pure
      rintro _ _ ⟨phrase, rfl, rfl, rfl⟩
      exact ⟨phrase, rfl, by simp, by simp⟩
  | none =>
      apply Derives.currentKind_bind
      split
      · apply Derives.bind hmiddle (Derives.identifier hmiddle)
        intro name last _
        apply Derives.of_pure
        rintro _ _ ⟨rfl, rfl⟩ _ _ ⟨rfl, rfl⟩
        exact ⟨.identifier name, rfl, by simp [Phrase.tokens], rfl⟩
      · apply Derives.bind hmiddle (ih.parenthesized? middle hmiddle)
        intro inner? last _
        cases inner? with
        | some inner =>
            apply Derives.of_pure
            rintro _ _ hinner _ _ ⟨rfl, rfl⟩
            obtain ⟨phrase, htree, rfl, rfl⟩ := hinner inner rfl
            exact ⟨phrase, htree, by simp, by simp⟩
        | none => exact Derives.of_throw

private theorem parenthesized?_derives (hsettled : state.Settled) :
    Derives (parenthesized? (fuel + 1)) state fun value? tokens depth =>
      ∀ value, value? = some value → Spelled (.level .atom) value tokens depth := by
  apply Derives.currentKind_bind
  split
  · rename_i hkind
    apply Derives.bind hsettled (Derives.advance_plain hkind (by simp) rfl)
    intro _ opened hopened
    apply Derives.bind hopened (ih.expression opened hopened)
    intro inner read hread
    apply Derives.bind hread (Derives.expect (by simp) rfl)
    intro _ last _
    apply Derives.of_pure
    rintro _ _ ⟨closer, rfl, rfl⟩ _ _ ⟨body, rfl, rfl, rfl⟩ _ _ ⟨opener, rfl, rfl⟩ _ ⟨⟩
    exact ⟨.parenthesized opener body closer, rfl, by simp [Phrase.tokens],
      by simp [Phrase.depth]⟩
  · apply Derives.of_pure
    rintro _ ⟨⟩

end

theorem readsPhrases (fuel : Nat) : ReadsPhrases fuel := by
  induction fuel with
  | zero => constructor <;> intros <;> exact Derives.of_exhausted
  | succ fuel ih =>
      constructor
      case expression =>
        intro state hsettled
        apply (Derives.nested hsettled fun deeper hdeeper =>
          ih.level .assignment deeper hdeeper).weaken
        rintro _ _ _ ⟨_, ⟨body, rfl, rfl, rfl⟩, rfl⟩
        exact ⟨.whole body, rfl, rfl, rfl⟩
      case level => exact fun here _ hsettled => level_derives ih here hsettled
      case suffixes => exact fun object _ hsettled => suffixes_derives ih object hsettled
      case arguments => exact fun _ hsettled => arguments_derives ih hsettled
      case moreArguments => exact fun _ hsettled => moreArguments_derives ih hsettled
      case atom => exact fun _ hsettled => atom_derives ih hsettled
      case parenthesized? => exact fun _ hsettled => parenthesized?_derives ih hsettled

end Offside.Grammar
