import Offside.Proofs.Grammar.Accepts
import Offside.Proofs.Grammar.Follow
import Offside.Proofs.Grammar.PhraseSoundness

/-!
# Phrases are read

A grammar function of expressions in front of the tokens of a phrase gives the tree of the phrase,
if the token behind the phrase does not belong to it and there is room for its depth.
-/

namespace Offside.Grammar

open Parse (Accepts Ensures State)
open Parse.Parser

/-- The parser is in front of the tokens of a phrase, and the phrase ends in front of the rest. -/
structure Ready {symbol : Symbol} (phrase : Phrase symbol) (state : State) (rest : List Token) :
    Prop where
  sees : state.Sees (phrase.tokens ++ rest)
  ends : Heads symbol.endsBefore rest
  room : phrase.depth ≤ state.room

structure AcceptsPhrases (fuel : Nat) : Prop where
  expression : ∀ (phrase : Phrase .expression) (state : State) (rest : List Token),
    Ready phrase state rest → Accepts (expression fuel) state phrase.tree rest
  level : ∀ (here : Level) (phrase : Phrase (.level here)) (state : State) (rest : List Token),
    Ready phrase state rest → Accepts (level fuel here) state phrase.tree rest
  suffixes : ∀ (object : Expr) (phrase : Phrase .suffixes) (state : State) (rest : List Token),
    Ready phrase state rest → Accepts (suffixes fuel object) state (phrase.tree object) rest
  arguments : ∀ (phrase : Phrase .arguments) (state : State) (rest : List Token),
    Ready phrase state rest → Accepts (arguments fuel) state phrase.tree rest
  moreArguments : ∀ (phrase : Phrase .moreArguments) (state : State) (rest : List Token),
    Ready phrase state rest → Accepts (moreArguments fuel) state phrase.tree rest
  atom : ∀ (phrase : Phrase (.level .atom)) (state : State) (rest : List Token),
    Ready phrase state rest → Accepts (atom fuel) state phrase.tree rest
  parenthesized? : ∀ (opener closer : Text.Position) (body : Phrase .expression) (state : State)
    (rest : List Token), Ready (.parenthesized opener body closer) state rest →
      Accepts (parenthesized? fuel) state (some body.tree) rest

theorem operator?_token (op : BinaryOp) : op.level.operator? op.token = some op := by
  simp [Level.operator?, BinaryOp.ofKind?_token]

theorem operator?_of_endsBefore {here : Level} {kind : TokenKind}
    (h : (Symbol.level here).endsBefore kind = true) : here.operator? kind = none := by
  cases hop : here.operator? kind with
  | none => rfl
  | some op =>
      obtain ⟨rfl, rfl⟩ := level_of_operator? hop
      simp [Symbol.endsBefore, Level.goesOnWith_op] at h

variable {fuel : Nat} {state : State} {rest : List Token}

private theorem Ready.operand {here : Level} {h : Level.passesOn here = true}
    {body : Phrase (.level here.tighter)} (hready : Ready (.operand h body) state rest) :
    Ready body state rest :=
  ⟨hready.sees, hready.ends.tighter, hready.room⟩

private theorem binaryLevel_accepts (ih : AcceptsPhrases fuel) {here : Level}
    (hnegation : here ≠ .negation) (hsign : here ≠ .sign) (hpasses : Level.passesOn here = true)
    (phrase : Phrase (.level here)) (hready : Ready phrase state rest) :
    Accepts
      (do
        let left ← level fuel here.tighter
        match here.operator? (← currentKind) with
        | some op =>
            let _ ← advance
            return .binary left op (← level fuel here.right)
        | none => return left)
      state phrase.tree rest := by
  cases phrase with
  | operand _ body =>
      apply Accepts.bind (ih.level _ body state rest hready.operand)
      intro middle hmiddle
      apply Accepts.currentKind_bind
      obtain ⟨more, rfl⟩ := hmiddle.sees.exists_cons
      rw [operator?_of_endsBefore (heads_cons.1 hready.ends)]
      exact .of_pure hmiddle.sees
  | binary left op hop position right =>
      have hsees := hready.sees
      have hroom : max left.depth right.depth ≤ state.room := hready.room
      simp only [Phrase.tokens, List.append_assoc, List.cons_append] at hsees
      apply Accepts.bind (ih.level _ left state _
        ⟨hsees, heads_operator hop hpasses position _, by omega⟩)
      intro middle hmiddle
      apply Accepts.currentKind_bind
      rw [hmiddle.sees.current]
      simp only [Token.plain]
      subst hop
      rw [operator?_token]
      apply Accepts.bind (Accepts.advance hmiddle.sees (BinaryOp.token_ne_eof op))
      intro behind hbehind
      have hroom' : right.depth ≤ behind.room := by
        rw [hbehind.room_eq, hmiddle.room_eq]
        omega
      apply Accepts.bind (ih.level _ right behind rest
        ⟨hbehind.sees, hready.ends.right, hroom'⟩)
      intro last hlast
      exact .of_pure hlast.sees
  | negation | sign | chain | literal | identifier | parenthesized => contradiction

private theorem deeper_accepts (ih : AcceptsPhrases fuel) {here : Level}
    (body : Phrase (.level here)) (hsees : state.Sees (body.tokens ++ rest))
    (hends : Heads (Symbol.level here).endsBefore rest) (hroom : body.depth + 1 ≤ state.room) :
    Accepts (nested (level fuel here)) state body.tree rest := by
  apply Accepts.nested hsees (by omega)
  intro deeper hdeeper hless
  exact ih.level here body deeper rest ⟨hdeeper, hends, by omega⟩

private theorem literal?_accepts {value : Literal} {position : Text.Position}
    (hsees : state.Sees (value.token position :: rest)) :
    Accepts (literal? [.float, .integer, .trueKeyword, .falseKeyword, .string]) state
      (some (.literal value)) rest := by
  apply Accepts.currentToken_bind
  have hliteral : ([.float, .integer, .trueKeyword, .falseKeyword, .string] : List TokenKind).findSome?
      (fun kind => literalOf? kind (value.token position)) = some value := by
    cases value with
    | boolean value => cases value <;> rfl
    | _ => rfl
  have heof : (value.token position).kind ≠ .eof := by
    cases value with
    | boolean value => cases value <;> simp [Literal.token, Token.plain]
    | _ => simp [Literal.token, Token.integer, Token.float, Token.string]
  rw [hsees.current, hliteral]
  apply Accepts.bind (Accepts.advance hsees heof)
  intro last hlast
  exact .of_pure hlast.sees

private theorem literal?_declines {token : Token} {tokens : List Token}
    (hsees : state.Sees (token :: tokens)) {kinds : List TokenKind} (hkind : token.kind ∉ kinds) :
    Accepts (literal? kinds) state none (token :: tokens) := by
  apply Accepts.currentToken_bind
  have hnone : kinds.findSome? (fun kind => literalOf? kind token) = none := by
    rw [List.findSome?_eq_none_iff]
    intro kind hmem
    have hne : token.kind ≠ kind := by
      rintro rfl
      contradiction
    unfold literalOf?
    exact if_neg hne
  rw [hsees.current, hnone]
  exact .of_pure hsees

private theorem signAhead?_declines {token : Token} {tokens : List Token}
    (hsees : state.Sees (token :: tokens)) (hkind : token.kind ≠ .minus)
    (hfault : token.fault? = none) :
    Accepts signAhead? state none (token :: tokens) := by
  apply Accepts.get_bind
  rw [hsees.current, if_neg hkind, if_neg (by simp [hfault])]
  exact .of_pure hsees

private theorem negation_accepts (ih : AcceptsPhrases fuel) (phrase : Phrase (.level .negation))
    (hready : Ready phrase state rest) :
    Accepts (level (fuel + 1) .negation) state phrase.tree rest := by
  have hsees := hready.sees
  apply Accepts.currentKind_bind
  cases phrase with
  | operand _ body =>
      obtain ⟨more, hmore⟩ := hsees.exists_cons
      have hhead : Heads (Symbol.level .comparison).startsWith (state.current :: more) := by
        rw [← hmore]
        exact body.heads.append_of_ne_nil (body.tokens_ne_nil rfl)
      rw [if_neg]
      · exact ih.level .comparison body state rest hready.operand
      · intro hnot
        rw [heads_cons, hnot] at hhead
        contradiction
  | negation keyword body =>
      have hkind : state.current.kind = .notKeyword := by rw [hsees.current]; rfl
      rw [if_pos hkind]
      apply Accepts.bind (Accepts.advance hsees (by simp [Token.plain]))
      intro middle hmiddle
      have hroom : body.depth + 1 ≤ middle.room := by
        rw [hmiddle.room_eq]
        exact hready.room
      apply Accepts.bind (deeper_accepts ih body hmiddle.sees hready.ends hroom)
      intro last hlast
      exact .of_pure hlast.sees
  | binary _ op => cases op <;> contradiction

private theorem sign_accepts (ih : AcceptsPhrases fuel) (phrase : Phrase (.level .sign))
    (hready : Ready phrase state rest) :
    Accepts (level (fuel + 1) .sign) state phrase.tree rest := by
  have hsees := hready.sees
  cases phrase with
  | operand _ body =>
      obtain ⟨more, hmore⟩ := hsees.exists_cons
      have hhead : Heads (Symbol.level .power).startsWith (state.current :: more) := by
        rw [← hmore]
        exact body.heads.append_of_ne_nil (body.tokens_ne_nil rfl)
      have hminus : state.current.kind ≠ .minus := by
        intro hminus
        rw [heads_cons, hminus] at hhead
        contradiction
      have hfault : state.current.fault? = none := by
        apply body.fault?_head
        have hne := body.tokens_ne_nil rfl
        simp only [Phrase.tokens] at hmore
        cases htokens : body.tokens with
        | nil => contradiction
        | cons token tokens =>
            rw [htokens, List.cons_append, List.cons.injEq] at hmore
            rw [hmore.1]
            rfl
      rw [hmore] at hsees
      apply Accepts.bind (signAhead?_declines hsees hminus hfault)
      intro middle hmiddle
      rw [← hmore] at hmiddle
      exact ih.level .power body middle rest
        ⟨hmiddle.sees, hready.ends.tighter, hmiddle.room_eq ▸ hready.room⟩
  | sign minus body =>
      have hsign : Accepts signAhead? state (some .negate)
          (.plain .minus minus :: (body.tokens ++ rest)) := by
        apply Accepts.get_bind
        have hkind : state.current.kind = .minus := by rw [hsees.current]; rfl
        rw [if_pos hkind]
        exact .of_pure hsees
      apply Accepts.bind hsign
      intro begun hbegun
      apply Accepts.bind (Accepts.advance hbegun.sees (by simp [Token.plain]))
      intro middle hmiddle
      have hroom : body.depth + 1 ≤ middle.room := by
        rw [hmiddle.room_eq, hbegun.room_eq]
        exact hready.room
      apply Accepts.bind (deeper_accepts ih body hmiddle.sees hready.ends hroom)
      intro last hlast
      exact .of_pure hlast.sees
  | binary _ op => cases op <;> contradiction

private theorem suffixes_accepts (ih : AcceptsPhrases fuel) (object : Expr)
    (phrase : Phrase .suffixes) (hready : Ready phrase state rest) :
    Accepts (suffixes (fuel + 1) object) state (phrase.tree object) rest := by
  have hsees := hready.sees
  have hends := hready.ends
  have hroom := hready.room
  apply Accepts.currentKind_bind
  cases phrase with
  | noSuffix =>
      obtain ⟨more, hmore⟩ := hsees.exists_cons
      obtain rfl : rest = state.current :: more := hmore
      rw [heads_cons] at hends
      split
      · rename_i hkind
        rw [hkind] at hends
        contradiction
      · rename_i hkind
        rw [hkind] at hends
        contradiction
      · rename_i hkind
        rw [hkind] at hends
        contradiction
      · exact .of_pure hsees
  | call opener arguments closer more =>
      simp only [Phrase.tokens, List.cons_append, List.append_assoc] at hsees
      simp only [Phrase.depth] at hroom
      rw [hsees.current]
      apply Accepts.bind (Accepts.advance hsees (by simp [Token.plain]))
      intro opened hopened
      apply Accepts.bind (ih.arguments arguments opened _
        ⟨hopened.sees, heads_cons.2 rfl, by rw [hopened.room_eq]; omega⟩)
      intro listed hlisted
      apply Accepts.bind (Accepts.expect hlisted.sees (by simp))
      intro closed hclosed
      apply ih.suffixes _ more closed rest
      exact ⟨hclosed.sees, hends, by rw [hclosed.room_eq, hlisted.room_eq, hopened.room_eq]; omega⟩
  | field dot name more =>
      rw [hsees.current]
      apply Accepts.bind (Accepts.advance hsees (by simp [Token.plain]))
      intro behind hbehind
      apply Accepts.bind (Accepts.identifier hbehind.sees)
      intro named hnamed
      apply ih.suffixes _ more named rest
      exact ⟨hnamed.sees, hends, by rwa [hnamed.room_eq, hbehind.room_eq]⟩
  | subscript opener index closer more =>
      simp only [Phrase.tokens, List.cons_append, List.append_assoc] at hsees
      simp only [Phrase.depth] at hroom
      rw [hsees.current]
      apply Accepts.bind (Accepts.advance hsees (by simp [Token.plain]))
      intro opened hopened
      apply Accepts.bind (ih.expression index opened _
        ⟨hopened.sees, heads_cons.2 rfl, by rw [hopened.room_eq]; omega⟩)
      intro read hread
      apply Accepts.bind (Accepts.expect hread.sees (by simp))
      intro closed hclosed
      apply ih.suffixes _ more closed rest
      exact ⟨hclosed.sees, hends, by rw [hclosed.room_eq, hread.room_eq, hopened.room_eq]; omega⟩

private theorem arguments_accepts (ih : AcceptsPhrases fuel) (phrase : Phrase .arguments)
    (hready : Ready phrase state rest) :
    Accepts (arguments (fuel + 1)) state phrase.tree rest := by
  have hsees := hready.sees
  have hroom := hready.room
  obtain ⟨more, hmore⟩ := hsees.exists_cons
  apply Accepts.currentKind_bind
  cases phrase with
  | noArgument =>
      have hends := hready.ends
      obtain rfl : rest = state.current :: more := hmore
      have hkind : state.current.kind = .rightParen := by simpa [Symbol.endsBefore] using hends
      rw [if_pos hkind]
      exact .of_pure hsees
  | firstArgument first further =>
      simp only [Phrase.tokens, List.append_assoc] at hsees hmore
      simp only [Phrase.depth] at hroom
      have hhead : Heads Symbol.expression.startsWith (state.current :: more) := by
        rw [← hmore]
        exact first.heads.append_of_ne_nil (first.tokens_ne_nil rfl)
      have hkind : state.current.kind ≠ .rightParen := by
        intro hkind
        rw [heads_cons, hkind] at hhead
        contradiction
      rw [if_neg hkind]
      apply Accepts.bind (ih.expression first state _ ⟨hsees, further.heads_argument hready.ends, by omega⟩)
      intro middle hmiddle
      apply Accepts.bind (ih.moreArguments further middle rest
        ⟨hmiddle.sees, hready.ends, by rw [hmiddle.room_eq]; omega⟩)
      intro last hlast
      exact .of_pure hlast.sees

private theorem moreArguments_accepts (ih : AcceptsPhrases fuel) (phrase : Phrase .moreArguments)
    (hready : Ready phrase state rest) :
    Accepts (moreArguments (fuel + 1)) state phrase.tree rest := by
  have hsees := hready.sees
  have hroom := hready.room
  apply Accepts.currentKind_bind
  cases phrase with
  | lastArgument =>
      have hends := hready.ends
      obtain ⟨more, hmore⟩ := hsees.exists_cons
      obtain rfl : rest = state.current :: more := hmore
      have hkind : state.current.kind = .rightParen := by simpa [Symbol.endsBefore] using hends
      rw [if_neg (by simp [hkind])]
      exact .of_pure hsees
  | nextArgument comma argument further =>
      simp only [Phrase.tokens, List.cons_append, List.append_assoc] at hsees
      simp only [Phrase.depth] at hroom
      have hkind : state.current.kind = .comma := by rw [hsees.current]; rfl
      rw [if_pos hkind]
      apply Accepts.bind (Accepts.advance hsees (by simp [Token.plain]))
      intro behind hbehind
      apply Accepts.bind (ih.expression argument behind _
        ⟨hbehind.sees, further.heads_argument hready.ends, by rw [hbehind.room_eq]; omega⟩)
      intro middle hmiddle
      apply Accepts.bind (ih.moreArguments further middle rest
        ⟨hmiddle.sees, hready.ends, by rw [hmiddle.room_eq, hbehind.room_eq]; omega⟩)
      intro last hlast
      exact .of_pure hlast.sees

private theorem atom_accepts (ih : AcceptsPhrases fuel) (phrase : Phrase (.level .atom))
    (hready : Ready phrase state rest) :
    Accepts (atom (fuel + 1)) state phrase.tree rest := by
  have hsees := hready.sees
  cases phrase with
  | literal value position =>
      apply Accepts.bind (literal?_accepts hsees)
      intro last hlast
      exact .of_pure hlast.sees
  | identifier name =>
      have hkind : name.token.kind = .identifier := rfl
      apply Accepts.bind (literal?_declines hsees (by simp [hkind]))
      intro middle hmiddle
      apply Accepts.currentKind_bind
      rw [if_pos (by rw [hmiddle.sees.current, hkind])]
      apply Accepts.bind (Accepts.identifier hmiddle.sees)
      intro last hlast
      exact .of_pure hlast.sees
  | parenthesized opener body closer =>
      have hsees : state.Sees (.plain .leftParen opener ::
          (body.tokens ++ [.plain .rightParen closer] ++ rest)) := hsees
      apply Accepts.bind (literal?_declines hsees (by simp [Token.plain]))
      intro middle hmiddle
      apply Accepts.currentKind_bind
      rw [if_neg (by rw [hmiddle.sees.current]; simp [Token.plain])]
      apply Accepts.bind (ih.parenthesized? opener closer body middle rest
        ⟨hmiddle.sees, hready.ends, by rw [hmiddle.room_eq]; exact hready.room⟩)
      intro last hlast
      exact .of_pure hlast.sees
  | operand => contradiction
  | binary _ op => cases op <;> contradiction

private theorem parenthesized?_accepts (ih : AcceptsPhrases fuel) {opener closer : Text.Position}
    {body : Phrase .expression} (hready : Ready (.parenthesized opener body closer) state rest) :
    Accepts (parenthesized? (fuel + 1)) state (some body.tree) rest := by
  have hsees := hready.sees
  simp only [Phrase.tokens, List.cons_append, List.append_assoc] at hsees
  apply Accepts.currentKind_bind
  have hkind : state.current.kind = .leftParen := by rw [hsees.current]; rfl
  rw [if_pos hkind]
  apply Accepts.bind (Accepts.advance hsees (by simp [Token.plain]))
  intro opened hopened
  apply Accepts.bind (ih.expression body opened _
    ⟨hopened.sees, heads_cons.2 rfl, by rw [hopened.room_eq]; exact hready.room⟩)
  intro read hread
  apply Accepts.bind (Accepts.expect hread.sees (by simp))
  intro last hlast
  exact .of_pure hlast.sees

theorem acceptsPhrases (fuel : Nat) : AcceptsPhrases fuel := by
  induction fuel with
  | zero => constructor <;> intros <;> exact Accepts.of_exhausted
  | succ fuel ih =>
      constructor
      case expression =>
        rintro ⟨body⟩ state rest hready
        exact deeper_accepts ih body hready.sees hready.ends hready.room
      case level =>
        intro here phrase state rest hready
        cases here
        case atom => exact ih.atom phrase state rest hready
        case suffix =>
          cases phrase with
          | chain object more =>
              have hsees := hready.sees
              have hroom : max object.depth more.depth ≤ state.room := hready.room
              simp only [Phrase.tokens, List.append_assoc] at hsees
              have hends : Heads (Symbol.level .atom).endsBefore (more.tokens ++ rest) :=
                fun token _ => by simp [Symbol.endsBefore, Level.goesOnWith_atom]
              apply Accepts.bind (ih.level .atom object state _ ⟨hsees, hends, by omega⟩)
              intro middle hmiddle
              apply ih.suffixes _ more middle rest
              exact ⟨hmiddle.sees, hready.ends.suffixes, by rw [hmiddle.room_eq]; omega⟩
          | operand => contradiction
          | binary _ op => cases op <;> contradiction
        case negation => exact negation_accepts ih phrase hready
        case sign => exact sign_accepts ih phrase hready
        all_goals exact binaryLevel_accepts ih (by simp) (by simp) rfl phrase hready
      case suffixes =>
        exact fun object phrase state rest hready => suffixes_accepts ih object phrase hready
      case arguments => exact fun phrase state rest hready => arguments_accepts ih phrase hready
      case moreArguments =>
        exact fun phrase state rest hready => moreArguments_accepts ih phrase hready
      case atom => exact fun phrase state rest hready => atom_accepts ih phrase hready
      case parenthesized? =>
        exact fun opener closer body state rest hready => parenthesized?_accepts ih hready

end Offside.Grammar
