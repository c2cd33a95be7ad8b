import Offside.Proofs.Grammar.Clause

/-!
# First and following tokens

The kinds of token that a phrase or a clause may start with, and those that may stand behind it so
that it ends there.  A phrase of a level goes on with the operators of this level and of the tighter
ones, and with the suffixes of an object.
-/

namespace Offside

theorem Literal.fault?_token (value : Literal) (position : Text.Position) :
    (value.token position).fault? = none := by
  cases value with
  | boolean value => cases value <;> rfl
  | _ => rfl

namespace Grammar

/-! ## Levels -/

def Level.height : Level → Nat
  | .atom => 0
  | .suffix => 1
  | .power => 2
  | .sign => 3
  | .product => 4
  | .sum => 5
  | .comparison => 6
  | .negation => 7
  | .conjunction => 8
  | .disjunction => 9
  | .assignment => 10

theorem Level.height_tighter_lt {here : Level} (h : here ≠ .atom) :
    Level.height here.tighter < Level.height here := by
  cases here <;> first | contradiction | decide

def opensSuffix : TokenKind → Bool
  | .leftParen | .dot | .leftSquare => true
  | _ => false

def Level.goesOnWith (here : Level) (kind : TokenKind) : Bool :=
  match BinaryOp.ofKind? kind with
  | some op => Level.height op.level ≤ Level.height here
  | none => here ≠ .atom && opensSuffix kind

theorem Level.goesOnWith_atom (kind : TokenKind) : Level.goesOnWith .atom kind = false := by
  cases kind <;> rfl

theorem Level.goesOnWith_op {here : Level} {op : BinaryOp} :
    Level.goesOnWith here op.token = decide (Level.height op.level ≤ Level.height here) := by
  simp [goesOnWith, BinaryOp.ofKind?_token]

theorem Level.goesOnWith_of_tighter {here : Level} {kind : TokenKind}
    (h : Level.goesOnWith here.tighter kind = true) : Level.goesOnWith here kind = true := by
  by_cases hatom : here = .atom
  · subst hatom
    exact h
  · have hheight := Level.height_tighter_lt hatom
    unfold Level.goesOnWith at h ⊢
    split at h
    · simp only [decide_eq_true_eq] at h ⊢
      omega
    · simp only [Bool.and_eq_true] at h
      simp [hatom, h.2]

theorem Level.goesOnWith_of_right {here : Level} {kind : TokenKind}
    (h : Level.goesOnWith here.right kind = true) : Level.goesOnWith here kind = true := by
  cases here
  case power =>
    unfold Level.goesOnWith at h ⊢
    split at h
    · rename_i op _
      cases op <;> first | rfl | contradiction
    · exact h
  all_goals exact h

def startsAtom : TokenKind → Bool
  | .integer | .float | .string | .trueKeyword | .falseKeyword | .identifier | .leftParen => true
  | _ => false

def Level.startsWith (here : Level) (kind : TokenKind) : Bool :=
  startsAtom kind || (kind = .minus && Level.height .sign ≤ Level.height here) ||
    (kind = .notKeyword && Level.height .negation ≤ Level.height here)

theorem Level.startsWith_of_tighter {here : Level} {kind : TokenKind}
    (h : Level.startsWith here.tighter kind = true) : Level.startsWith here kind = true := by
  by_cases hatom : here = .atom
  · subst hatom
    exact h
  · have hheight := Level.height_tighter_lt hatom
    simp only [Level.startsWith, Bool.or_eq_true, Bool.and_eq_true, decide_eq_true_eq] at h ⊢
    rcases h with (hatom | ⟨hminus, hsign⟩) | ⟨hnot, hnegation⟩
    · exact .inl (.inl hatom)
    · exact .inl (.inr ⟨hminus, by omega⟩)
    · exact .inr ⟨hnot, by omega⟩

/-! ## Phrases -/

def Symbol.startsWith : Symbol → TokenKind → Bool
  | .expression, kind | .arguments, kind => Level.startsWith .assignment kind
  | .level here, kind => Level.startsWith here kind
  | .suffixes, kind => opensSuffix kind
  | .moreArguments, kind => kind = .comma

def Symbol.endsBefore : Symbol → TokenKind → Bool
  | .expression, kind => !Level.goesOnWith .assignment kind
  | .level here, kind => !Level.goesOnWith here kind
  | .suffixes, kind => !opensSuffix kind
  | .arguments, kind | .moreArguments, kind => kind = .rightParen

def Heads (test : TokenKind → Bool) (tokens : List Token) : Prop :=
  ∀ token ∈ tokens.head?, test token.kind = true

@[simp]
theorem heads_cons {test : TokenKind → Bool} {token : Token} {tokens : List Token} :
    Heads test (token :: tokens) ↔ test token.kind = true := by
  simp [Heads]

theorem Heads.append {test : TokenKind → Bool} {tokens rest : List Token}
    (h : Heads test tokens) (hrest : Heads test rest) : Heads test (tokens ++ rest) := by
  cases tokens with
  | nil => exact hrest
  | cons token tokens => exact h

theorem Heads.append_of_ne_nil {test : TokenKind → Bool} {tokens rest : List Token}
    (h : Heads test tokens) (hne : tokens ≠ []) : Heads test (tokens ++ rest) := by
  cases tokens with
  | nil => contradiction
  | cons token tokens => exact h

theorem Heads.weaken {test test' : TokenKind → Bool} {tokens : List Token} (h : Heads test tokens)
    (htest : ∀ kind, test kind = true → test' kind = true) : Heads test' tokens :=
  fun token htoken => htest _ (h token htoken)

def Symbol.isSolid : Symbol → Bool
  | .expression | .level _ => true
  | _ => false

theorem Phrase.tokens_ne_nil {symbol : Symbol} (phrase : Phrase symbol)
    (h : symbol.isSolid = true) : phrase.tokens ≠ [] := by
  induction phrase with
  | whole body ih => exact ih rfl
  | operand _ body ih => exact ih rfl
  | chain object more ih => exact List.append_ne_nil_of_left_ne_nil (ih rfl) _
  | binary | negation | sign | literal | identifier | parenthesized => simp [tokens]
  | noSuffix | call | field | subscript | noArgument | firstArgument | lastArgument
  | nextArgument => contradiction

private theorem startsWith_literal (value : Literal) (position : Text.Position) :
    startsAtom (value.token position).kind = true := by
  cases value with
  | boolean value => cases value <;> rfl
  | _ => rfl

theorem Phrase.heads {symbol : Symbol} (phrase : Phrase symbol) :
    Heads symbol.startsWith phrase.tokens := by
  induction phrase with
  | whole body ih => exact ih
  | operand _ body ih => exact ih.weaken fun _ => Level.startsWith_of_tighter
  | binary left _ _ _ _ ih =>
      apply Heads.append_of_ne_nil _ (left.tokens_ne_nil rfl)
      exact ih.weaken fun _ => Level.startsWith_of_tighter
  | chain object more ih =>
      apply Heads.append_of_ne_nil _ (object.tokens_ne_nil rfl)
      exact ih.weaken fun kind => @Level.startsWith_of_tighter .suffix kind
  | literal value position =>
      simp [tokens, Symbol.startsWith, Level.startsWith, startsWith_literal]
  | firstArgument first more ih =>
      exact Heads.append_of_ne_nil ih (first.tokens_ne_nil rfl)
  | noSuffix | noArgument | lastArgument => simp [tokens, Heads]
  | negation | sign | identifier | parenthesized | call | field | subscript | nextArgument =>
      simp [tokens]
      rfl

theorem Heads.tighter {here : Level} {rest : List Token}
    (h : Heads (Symbol.level here).endsBefore rest) :
    Heads (Symbol.level here.tighter).endsBefore rest := by
  apply h.weaken
  intro kind hkind
  simp only [Symbol.endsBefore, Bool.not_eq_eq_eq_not, Bool.not_true] at hkind ⊢
  apply Bool.eq_false_iff.2
  intro hmore
  rw [Level.goesOnWith_of_tighter hmore] at hkind
  contradiction

theorem Heads.right {here : Level} {rest : List Token}
    (h : Heads (Symbol.level here).endsBefore rest) :
    Heads (Symbol.level here.right).endsBefore rest := by
  apply h.weaken
  intro kind hkind
  simp only [Symbol.endsBefore, Bool.not_eq_eq_eq_not, Bool.not_true] at hkind ⊢
  apply Bool.eq_false_iff.2
  intro hmore
  rw [Level.goesOnWith_of_right hmore] at hkind
  contradiction

theorem Heads.suffixes {rest : List Token}
    (h : Heads (Symbol.level .suffix).endsBefore rest) : Heads Symbol.suffixes.endsBefore rest := by
  apply h.weaken
  intro kind hkind
  cases kind <;> first | rfl | contradiction

theorem heads_operator {here : Level} {op : BinaryOp} (hop : op.level = here)
    (hpasses : Level.passesOn here = true) (position : Text.Position) (rest : List Token) :
    Heads (Symbol.level here.tighter).endsBefore (.plain op.token position :: rest) := by
  have hheight : Level.height here.tighter < Level.height here :=
    Level.height_tighter_lt (by rintro rfl; contradiction)
  rw [heads_cons]
  show (!Level.goesOnWith here.tighter op.token) = true
  simp only [Level.goesOnWith_op, hop, Bool.not_eq_eq_eq_not, Bool.not_true,
    decide_eq_false_iff_not]
  omega

theorem Phrase.heads_argument (more : Phrase .moreArguments) {rest : List Token}
    (hrest : Heads Symbol.moreArguments.endsBefore rest) :
    Heads Symbol.expression.endsBefore (more.tokens ++ rest) := by
  apply Heads.append
  · apply more.heads.weaken
    intro kind hkind
    obtain rfl : kind = .comma := by simpa [Symbol.startsWith] using hkind
    rfl
  · apply hrest.weaken
    intro kind hkind
    obtain rfl : kind = .rightParen := by simpa [Symbol.endsBefore] using hkind
    rfl

theorem Phrase.fault?_head {symbol : Symbol} (phrase : Phrase symbol) :
    ∀ token ∈ phrase.tokens.head?, token.fault? = none := by
  have hfirst : ∀ {tokens rest : List Token}, tokens ≠ [] →
      (∀ token ∈ tokens.head?, token.fault? = none) →
      ∀ token ∈ (tokens ++ rest).head?, token.fault? = none := by
    intro tokens rest hne h
    cases tokens with
    | nil => contradiction
    | cons token tokens => exact h
  induction phrase with
  | whole body ih => exact ih
  | operand _ body ih => exact ih
  | binary left _ _ _ _ ih => exact hfirst (left.tokens_ne_nil rfl) ih
  | chain object more ih => exact hfirst (object.tokens_ne_nil rfl) ih
  | literal value position => simp [tokens, Literal.fault?_token]
  | firstArgument first more ih => exact hfirst (first.tokens_ne_nil rfl) ih
  | noSuffix | noArgument | lastArgument => simp [tokens]
  | negation | sign | identifier | parenthesized | call | field | subscript | nextArgument =>
      simp [tokens]
      rfl

/-! ## Clauses -/

def Construct.startsWith : Construct → TokenKind → Bool
  | .statements, kind | .statement, kind => kind.startsStatement || Level.startsWith .assignment kind
  | .block, kind => kind = .indent
  | .branch, kind => Level.startsWith .assignment kind
  | .alternative, kind => kind = .elifKeyword || kind = .elseKeyword

def Construct.endsBefore : Construct → TokenKind → Bool
  | .statements, kind => kind = .dedent
  | .block, _ => true
  | .statement, kind | .branch, kind | .alternative, kind =>
      kind ≠ .elifKeyword && kind ≠ .elseKeyword

def Construct.isSolid : Construct → Bool
  | .statements | .alternative => false
  | _ => true

theorem Clause.tokens_ne_nil {construct : Construct} (clause : Clause construct)
    (h : construct.isSolid = true) : clause.tokens ≠ [] := by
  cases clause with
  | expression value line => simp [tokens]
  | branch condition =>
      simp only [tokens]
      exact List.append_ne_nil_of_left_ne_nil (condition.tokens_ne_nil rfl) _
  | ret | record | function | loop | conditional | block => simp [tokens, Heading.tokens]
  | noStatement | nextStatement | noAlternative | elif | otherwise => contradiction

theorem Clause.heads {construct : Construct} (clause : Clause construct) :
    Heads construct.startsWith clause.tokens := by
  induction clause with
  | nextStatement first more ih => exact ih.append_of_ne_nil (first.tokens_ne_nil rfl)
  | expression value line =>
      apply Heads.append_of_ne_nil _ (value.tokens_ne_nil rfl)
      apply value.heads.weaken
      intro kind hkind
      exact Bool.or_eq_true_iff.2 (.inr hkind)
  | branch condition =>
      exact condition.heads.append_of_ne_nil (condition.tokens_ne_nil rfl)
  | noStatement | noAlternative => simp [tokens, Heads]
  | ret | record | function | loop | conditional | block | elif | otherwise =>
      simp [tokens, Heading.tokens]
      rfl

theorem Clause.heads_more (more : Clause .statements) {rest : List Token}
    (hrest : Heads Construct.statements.endsBefore rest) :
    Heads Construct.statement.endsBefore (more.tokens ++ rest) := by
  apply Heads.append
  · apply more.heads.weaken
    intro kind hkind
    cases kind <;> first | rfl | contradiction
  · apply hrest.weaken
    intro kind hkind
    obtain rfl : kind = .dedent := by simpa [Construct.endsBefore] using hkind
    rfl

/-! ## Headers -/

def Heading.EndsBefore (rest : List Token) : Prop :=
  ∀ first second more, rest = first :: second :: more →
    ¬ (first.kind = .colon ∧ second.kind = .identifier)

theorem Heading.endsBefore_marker (marker line : Token) (rest : List Token)
    (h : line.kind = .newline) : Heading.EndsBefore (marker :: line :: rest) := by
  rintro first second more ⟨⟩ ⟨-, hsecond⟩
  rw [h] at hsecond
  contradiction

end Grammar

end Offside
