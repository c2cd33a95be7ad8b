import Offside.Proofs.Grammar.Follow

/-!
# The grammar is unambiguous

Two derivations of the same symbol or construct whose tokens are the same up to where they end are
the same derivation.  Both are compared from the left: the first token tells the productions apart,
and so does the token behind the first operand.
-/

namespace Offside

theorem Identifier.token_inj {name name' : Identifier} :
    name.token = name'.token ↔ name = name' := by
  obtain ⟨word, position⟩ := name
  obtain ⟨word', position'⟩ := name'
  simp [Identifier.token, Token.identifier, and_comm]

theorem Token.plain_inj {kind kind' : TokenKind} {position position' : Text.Position} :
    Token.plain kind position = .plain kind' position' ↔ kind = kind' ∧ position = position' := by
  simp [Token.plain]

theorem Literal.token_inj {value value' : Literal} {position position' : Text.Position}
    (h : value.token position = value'.token position') : value = value' ∧ position = position' := by
  cases value with
  | boolean value =>
      cases value <;> cases value' with
      | boolean value' =>
          cases value' <;> cases h
          exact ⟨rfl, rfl⟩
      | integer | float | string => cases h
  | integer value =>
      cases value' with
      | boolean value' => cases value' <;> cases h
      | integer | float | string => cases h <;> exact ⟨rfl, rfl⟩
  | float value =>
      cases value' with
      | boolean value' => cases value' <;> cases h
      | integer | float | string => cases h <;> exact ⟨rfl, rfl⟩
  | string content =>
      cases value' with
      | boolean value' => cases value' <;> cases h
      | integer | float | string => cases h <;> exact ⟨rfl, rfl⟩

namespace Grammar

variable {rest rest' : List Token}

/-! ## Phrases -/

theorem Phrase.startsWith_of_tokens {symbol : Symbol} (phrase : Phrase symbol)
    (hsolid : symbol.isSolid = true) {token : Token} (h : phrase.tokens ++ rest = token :: rest') :
    symbol.startsWith token.kind = true := by
  have hheads : Heads symbol.startsWith (phrase.tokens ++ rest) :=
    phrase.heads.append_of_ne_nil (phrase.tokens_ne_nil hsolid)
  rwa [h, heads_cons] at hheads

theorem not_endsBefore_operator (op : BinaryOp) (position : Text.Position) :
    ¬ Heads (Symbol.level op.level).endsBefore (.plain op.token position :: rest) := by
  rw [heads_cons]
  show ¬ (!Level.goesOnWith op.level op.token) = true
  simp [Level.goesOnWith_op]

theorem BinaryOp.passesOn_level (op : BinaryOp) : Level.passesOn op.level = true := by
  cases op <;> rfl

theorem BinaryOp.token_inj {op op' : BinaryOp} (h : op.token = op'.token) : op = op' := by
  have hkind := BinaryOp.ofKind?_token op
  rw [h, BinaryOp.ofKind?_token] at hkind
  exact (Option.some.inj hkind).symm

def Phrase.Unambiguous {symbol : Symbol} (phrase : Phrase symbol) : Prop :=
  ∀ (phrase' : Phrase symbol) (rest rest' : List Token), Heads symbol.endsBefore rest →
    Heads symbol.endsBefore rest' → phrase.tokens ++ rest = phrase'.tokens ++ rest' →
    phrase = phrase' ∧ rest = rest'

namespace Phrase

private theorem operand_unambiguous {here : Level} {h : Level.passesOn here = true}
    {body : Phrase (.level here.tighter)} (ih : body.Unambiguous) :
    (operand h body).Unambiguous := by
  intro phrase' rest rest' hends hends' heq
  cases phrase' with
  | operand _ body' =>
      obtain ⟨rfl, rfl⟩ := ih body' rest rest' hends.tighter hends'.tighter heq
      exact ⟨rfl, rfl⟩
  | binary left op hop position right =>
      simp only [tokens, List.append_assoc, List.cons_append] at heq
      obtain ⟨rfl, rfl⟩ := ih left rest _ hends.tighter (heads_operator hop h position _) heq
      subst hop
      exact absurd hends (not_endsBefore_operator op position)
  | negation keyword body' =>
      have hfirst := body.startsWith_of_tokens rfl heq
      contradiction
  | sign minus body' =>
      have hfirst := body.startsWith_of_tokens rfl heq
      contradiction
  | chain | literal | identifier | parenthesized => contradiction

private theorem binary_unambiguous {here : Level} {left : Phrase (.level here.tighter)}
    {op : BinaryOp} {hop : op.level = here} {position : Text.Position}
    {right : Phrase (.level here.right)} (ihleft : left.Unambiguous)
    (ihright : right.Unambiguous) : (binary left op hop position right).Unambiguous := by
  have hpasses : Level.passesOn here = true := hop ▸ BinaryOp.passesOn_level op
  intro phrase' rest rest' hends hends' heq
  cases phrase' with
  | operand _ left' =>
      simp only [tokens, List.append_assoc, List.cons_append] at heq
      obtain ⟨rfl, rfl⟩ := ihleft left' _ rest' (heads_operator hop hpasses position _)
        hends'.tighter heq
      subst hop
      exact absurd hends' (not_endsBefore_operator op position)
  | binary left' op' hop' position' right' =>
      simp only [tokens, List.append_assoc, List.cons_append] at heq
      obtain ⟨rfl, hbehind⟩ := ihleft left' _ _ (heads_operator hop hpasses position _)
        (heads_operator hop' hpasses position' _) heq
      rw [List.cons.injEq, Token.plain_inj] at hbehind
      obtain ⟨⟨htoken, rfl⟩, hbehind⟩ := hbehind
      obtain rfl := BinaryOp.token_inj htoken
      obtain ⟨rfl, rfl⟩ := ihright right' rest rest' hends.right hends'.right hbehind
      exact ⟨rfl, rfl⟩
  | negation | sign => cases op <;> contradiction
  | chain | literal | identifier | parenthesized => contradiction

private theorem negation_unambiguous {keyword : Text.Position} {body : Phrase (.level .negation)}
    (ih : body.Unambiguous) : (negation keyword body).Unambiguous := by
  intro phrase' rest rest' hends hends' heq
  cases phrase' with
  | operand _ body' =>
      have hfirst := body'.startsWith_of_tokens rfl heq.symm
      contradiction
  | binary _ op => cases op <;> contradiction
  | negation keyword' body' =>
      simp only [tokens, List.cons_append, List.cons.injEq, Token.plain_inj] at heq
      obtain ⟨⟨-, rfl⟩, heq⟩ := heq
      obtain ⟨rfl, rfl⟩ := ih body' rest rest' hends hends' heq
      exact ⟨rfl, rfl⟩

private theorem sign_unambiguous {minus : Text.Position} {body : Phrase (.level .sign)}
    (ih : body.Unambiguous) : (sign minus body).Unambiguous := by
  intro phrase' rest rest' hends hends' heq
  cases phrase' with
  | operand _ body' =>
      have hfirst := body'.startsWith_of_tokens rfl heq.symm
      contradiction
  | binary _ op => cases op <;> contradiction
  | sign minus' body' =>
      simp only [tokens, List.cons_append, List.cons.injEq, Token.plain_inj] at heq
      obtain ⟨⟨-, rfl⟩, heq⟩ := heq
      obtain ⟨rfl, rfl⟩ := ih body' rest rest' hends hends' heq
      exact ⟨rfl, rfl⟩

private theorem chain_unambiguous {object : Phrase (.level .atom)} {more : Phrase .suffixes}
    (ihobject : object.Unambiguous) (ihmore : more.Unambiguous) :
    (chain object more).Unambiguous := by
  intro phrase' rest rest' hends hends' heq
  have hatom : ∀ tokens : List Token, Heads (Symbol.level .atom).endsBefore tokens :=
    fun _ _ _ => by simp [Symbol.endsBefore, Level.goesOnWith_atom]
  cases phrase' with
  | operand => contradiction
  | binary _ op => cases op <;> contradiction
  | chain object' more' =>
      simp only [tokens, List.append_assoc] at heq
      obtain ⟨rfl, hmore⟩ := ihobject object' _ _ (hatom _) (hatom _) heq
      obtain ⟨rfl, rfl⟩ := ihmore more' rest rest' hends.suffixes hends'.suffixes hmore
      exact ⟨rfl, rfl⟩

private theorem literal_unambiguous (value : Literal) (position : Text.Position) :
    (literal value position).Unambiguous := by
  intro phrase' rest rest' _ _ heq
  cases phrase' with
  | operand => contradiction
  | binary _ op => cases op <;> contradiction
  | literal value' position' =>
      simp only [tokens, List.cons_append, List.nil_append, List.cons.injEq] at heq
      obtain ⟨rfl, rfl⟩ := Literal.token_inj heq.1
      exact ⟨rfl, heq.2⟩
  | identifier | parenthesized =>
      simp only [tokens, List.cons_append, List.nil_append, List.cons.injEq] at heq
      cases value with
      | boolean value => cases value <;> cases heq.1
      | _ => cases heq.1

private theorem identifier_unambiguous (name : Identifier) : (identifier name).Unambiguous := by
  intro phrase' rest rest' _ _ heq
  cases phrase' with
  | operand => contradiction
  | binary _ op => cases op <;> contradiction
  | literal value' position' =>
      simp only [tokens, List.cons_append, List.nil_append, List.cons.injEq] at heq
      cases value' with
      | boolean value => cases value <;> cases heq.1
      | _ => cases heq.1
  | identifier name' =>
      simp only [tokens, List.cons_append, List.nil_append, List.cons.injEq,
        Identifier.token_inj] at heq
      obtain ⟨rfl, rfl⟩ := heq
      exact ⟨rfl, rfl⟩
  | parenthesized => cases heq

private theorem parenthesized_unambiguous {opener closer : Text.Position}
    {body : Phrase .expression} (ih : body.Unambiguous) :
    (parenthesized opener body closer).Unambiguous := by
  intro phrase' rest rest' _ _ heq
  cases phrase' with
  | operand => contradiction
  | binary _ op => cases op <;> contradiction
  | literal value' position' =>
      simp only [tokens, List.cons_append, List.nil_append, List.cons.injEq] at heq
      cases value' with
      | boolean value => cases value <;> cases heq.1
      | _ => cases heq.1
  | identifier => cases heq
  | parenthesized opener' body' closer' =>
      simp only [tokens, List.cons_append, List.append_assoc, List.nil_append, List.cons.injEq,
        Token.plain_inj] at heq
      obtain ⟨⟨-, rfl⟩, heq⟩ := heq
      obtain ⟨rfl, hcloser⟩ := ih body' _ _ (heads_cons.2 rfl) (heads_cons.2 rfl) heq
      rw [List.cons.injEq, Token.plain_inj] at hcloser
      obtain ⟨⟨-, rfl⟩, rfl⟩ := hcloser
      exact ⟨rfl, rfl⟩

private theorem suffix_absurd {kind : TokenKind} {position : Text.Position} {tokens : List Token}
    {Goal : Prop} (hends : Heads Symbol.suffixes.endsBefore rest)
    (heq : rest = .plain kind position :: tokens) (hkind : opensSuffix kind = true) : Goal := by
  rw [heq, heads_cons] at hends
  have hends : (!opensSuffix kind) = true := hends
  rw [hkind] at hends
  contradiction

private theorem noSuffix_unambiguous : noSuffix.Unambiguous := by
  intro phrase' rest rest' hends _ heq
  cases phrase' with
  | noSuffix => exact ⟨rfl, heq⟩
  | call | field | subscript => exact suffix_absurd hends heq rfl

private theorem call_unambiguous {opener closer : Text.Position} {arguments : Phrase .arguments}
    {more : Phrase .suffixes} (iharguments : arguments.Unambiguous) (ihmore : more.Unambiguous) :
    (call opener arguments closer more).Unambiguous := by
  intro phrase' rest rest' hends hends' heq
  cases phrase' with
  | noSuffix => exact suffix_absurd hends' heq.symm rfl
  | call opener' arguments' closer' more' =>
      simp only [tokens, List.cons_append, List.append_assoc, List.cons.injEq,
        Token.plain_inj] at heq
      obtain ⟨⟨-, rfl⟩, heq⟩ := heq
      obtain ⟨rfl, hcloser⟩ :=
        iharguments arguments' _ _ (heads_cons.2 rfl) (heads_cons.2 rfl) heq
      rw [List.cons.injEq, Token.plain_inj] at hcloser
      obtain ⟨⟨-, rfl⟩, hmore⟩ := hcloser
      obtain ⟨rfl, rfl⟩ := ihmore more' rest rest' hends hends' hmore
      exact ⟨rfl, rfl⟩
  | field | subscript => cases heq

private theorem field_unambiguous {dot : Text.Position} {name : Identifier}
    {more : Phrase .suffixes} (ih : more.Unambiguous) : (field dot name more).Unambiguous := by
  intro phrase' rest rest' hends hends' heq
  cases phrase' with
  | noSuffix => exact suffix_absurd hends' heq.symm rfl
  | field dot' name' more' =>
      simp only [tokens, List.cons_append, List.cons.injEq, Token.plain_inj,
        Identifier.token_inj] at heq
      obtain ⟨⟨-, rfl⟩, rfl, heq⟩ := heq
      obtain ⟨rfl, rfl⟩ := ih more' rest rest' hends hends' heq
      exact ⟨rfl, rfl⟩
  | call | subscript => cases heq

private theorem subscript_unambiguous {opener closer : Text.Position} {index : Phrase .expression}
    {more : Phrase .suffixes} (ihindex : index.Unambiguous) (ihmore : more.Unambiguous) :
    (subscript opener index closer more).Unambiguous := by
  intro phrase' rest rest' hends hends' heq
  cases phrase' with
  | noSuffix => exact suffix_absurd hends' heq.symm rfl
  | subscript opener' index' closer' more' =>
      simp only [tokens, List.cons_append, List.append_assoc, List.cons.injEq,
        Token.plain_inj] at heq
      obtain ⟨⟨-, rfl⟩, heq⟩ := heq
      obtain ⟨rfl, hcloser⟩ := ihindex index' _ _ (heads_cons.2 rfl) (heads_cons.2 rfl) heq
      rw [List.cons.injEq, Token.plain_inj] at hcloser
      obtain ⟨⟨-, rfl⟩, hmore⟩ := hcloser
      obtain ⟨rfl, rfl⟩ := ihmore more' rest rest' hends hends' hmore
      exact ⟨rfl, rfl⟩
  | call | field => cases heq

private theorem argument_absurd {first : Phrase .expression} {tokens : List Token} {Goal : Prop}
    (hends : Heads Symbol.arguments.endsBefore rest) (heq : rest = first.tokens ++ tokens) :
    Goal := by
  have hhead : Heads Symbol.expression.startsWith rest := by
    rw [heq]
    exact first.heads.append_of_ne_nil (first.tokens_ne_nil rfl)
  cases rest with
  | nil =>
      have hnil := List.nil_eq_append_iff.1 heq
      exact absurd hnil.1 (first.tokens_ne_nil rfl)
  | cons token rest =>
      have hkind : token.kind = .rightParen := by simpa [Symbol.endsBefore] using hends
      rw [heads_cons, hkind] at hhead
      contradiction

private theorem noArgument_unambiguous : noArgument.Unambiguous := by
  intro phrase' rest rest' hends _ heq
  cases phrase' with
  | noArgument => exact ⟨rfl, heq⟩
  | firstArgument first more =>
      simp only [tokens, List.nil_append, List.append_assoc] at heq
      exact argument_absurd hends heq

private theorem firstArgument_unambiguous {first : Phrase .expression}
    {more : Phrase .moreArguments} (ihfirst : first.Unambiguous) (ihmore : more.Unambiguous) :
    (firstArgument first more).Unambiguous := by
  intro phrase' rest rest' hends hends' heq
  cases phrase' with
  | noArgument =>
      simp only [tokens, List.nil_append, List.append_assoc] at heq
      exact argument_absurd hends' heq.symm
  | firstArgument first' more' =>
      simp only [tokens, List.append_assoc] at heq
      obtain ⟨rfl, hmore⟩ :=
        ihfirst first' _ _ (more.heads_argument hends) (more'.heads_argument hends') heq
      obtain ⟨rfl, rfl⟩ := ihmore more' rest rest' hends hends' hmore
      exact ⟨rfl, rfl⟩

private theorem lastArgument_unambiguous : lastArgument.Unambiguous := by
  intro phrase' rest rest' hends _ heq
  cases phrase' with
  | lastArgument => exact ⟨rfl, heq⟩
  | nextArgument =>
      simp only [tokens, List.nil_append, List.cons_append] at heq
      rw [heq, heads_cons] at hends
      contradiction

private theorem nextArgument_unambiguous {comma : Text.Position} {argument : Phrase .expression}
    {more : Phrase .moreArguments} (ihargument : argument.Unambiguous)
    (ihmore : more.Unambiguous) : (nextArgument comma argument more).Unambiguous := by
  intro phrase' rest rest' hends hends' heq
  cases phrase' with
  | lastArgument =>
      simp only [tokens, List.nil_append, List.cons_append] at heq
      rw [← heq, heads_cons] at hends'
      contradiction
  | nextArgument comma' argument' more' =>
      simp only [tokens, List.cons_append, List.append_assoc, List.cons.injEq,
        Token.plain_inj] at heq
      obtain ⟨⟨-, rfl⟩, heq⟩ := heq
      obtain ⟨rfl, hmore⟩ :=
        ihargument argument' _ _ (more.heads_argument hends) (more'.heads_argument hends') heq
      obtain ⟨rfl, rfl⟩ := ihmore more' rest rest' hends hends' hmore
      exact ⟨rfl, rfl⟩

theorem unambiguous {symbol : Symbol} (phrase : Phrase symbol) : phrase.Unambiguous := by
  induction phrase with
  | whole body ih =>
      rintro ⟨body'⟩ rest rest' hends hends' heq
      obtain ⟨rfl, rfl⟩ := ih body' rest rest' hends hends' heq
      exact ⟨rfl, rfl⟩
  | operand _ _ ih => exact operand_unambiguous ih
  | binary _ _ _ _ _ ihleft ihright => exact binary_unambiguous ihleft ihright
  | negation _ _ ih => exact negation_unambiguous ih
  | sign _ _ ih => exact sign_unambiguous ih
  | chain _ _ ihobject ihmore => exact chain_unambiguous ihobject ihmore
  | literal value position => exact literal_unambiguous value position
  | identifier name => exact identifier_unambiguous name
  | parenthesized _ _ _ ih => exact parenthesized_unambiguous ih
  | noSuffix => exact noSuffix_unambiguous
  | call _ _ _ _ iharguments ihmore => exact call_unambiguous iharguments ihmore
  | field _ _ _ ih => exact field_unambiguous ih
  | subscript _ _ _ _ ihindex ihmore => exact subscript_unambiguous ihindex ihmore
  | noArgument => exact noArgument_unambiguous
  | firstArgument _ _ ihfirst ihmore => exact firstArgument_unambiguous ihfirst ihmore
  | lastArgument => exact lastArgument_unambiguous
  | nextArgument _ _ _ ihargument ihmore => exact nextArgument_unambiguous ihargument ihmore

end Phrase

/-! ## Headers -/

private theorem moreNames_unambiguous {more more' : List (Text.Position × Identifier)}
    (hends : Heads (fun kind => kind ≠ .comma) rest)
    (hends' : Heads (fun kind => kind ≠ .comma) rest')
    (heq : more.flatMap (fun further => [.plain .comma further.1, further.2.token]) ++ rest =
      more'.flatMap (fun further => [.plain .comma further.1, further.2.token]) ++ rest') :
    more = more' ∧ rest = rest' := by
  induction more generalizing more' with
  | nil =>
      cases more' with
      | nil => exact ⟨rfl, heq⟩
      | cons further more' =>
          obtain rfl : rest = _ := heq
          simp [Token.plain] at hends
  | cons further more ih =>
      cases more' with
      | nil =>
          obtain rfl : rest' = _ := heq.symm
          simp [Token.plain] at hends'
      | cons further' more' =>
          simp only [List.flatMap_cons, List.cons_append, List.nil_append, List.cons.injEq,
            Token.plain_inj, Identifier.token_inj] at heq
          obtain ⟨⟨-, hcomma⟩, hname, heq⟩ := heq
          obtain ⟨rfl, rfl⟩ := ih heq
          exact ⟨by rw [Prod.ext hcomma hname], rfl⟩

private theorem parameters_unambiguous {parameters? parameters?' : Option NameList}
    (hends : Heads (fun kind => kind = .rightParen) rest)
    (hends' : Heads (fun kind => kind = .rightParen) rest')
    (heq : Heading.parameterTokens parameters? ++ rest =
      Heading.parameterTokens parameters?' ++ rest') :
    parameters? = parameters?' ∧ rest = rest' := by
  have hcomma : ∀ tokens : List Token, Heads (fun kind => kind = .rightParen) tokens →
      Heads (fun kind => kind ≠ .comma) tokens := by
    intro tokens h
    apply h.weaken
    intro kind hkind
    simp_all
  cases parameters? with
  | none =>
      cases parameters?' with
      | none => exact ⟨rfl, heq⟩
      | some names =>
          obtain rfl : rest = _ := heq
          simp [Heading.parameterTokens, NameList.tokens, Identifier.token, Token.identifier] at hends
  | some names =>
      cases parameters?' with
      | none =>
          obtain rfl : rest' = _ := heq.symm
          simp [Heading.parameterTokens, NameList.tokens, Identifier.token,
            Token.identifier] at hends'
      | some names' =>
          obtain ⟨first, more⟩ := names
          obtain ⟨first', more'⟩ := names'
          simp only [Heading.parameterTokens, NameList.tokens, List.cons_append, List.cons.injEq,
            Identifier.token_inj] at heq
          obtain ⟨rfl, heq⟩ := heq
          obtain ⟨rfl, rfl⟩ := moreNames_unambiguous (hcomma _ hends) (hcomma _ hends') heq
          exact ⟨rfl, rfl⟩

theorem Heading.unambiguous {heading heading' : Heading} (hends : EndsBefore rest)
    (hends' : EndsBefore rest') (heq : heading.tokens ++ rest = heading'.tokens ++ rest') :
    heading = heading' ∧ rest = rest' := by
  obtain ⟨keyword, name, opener, parameters?, closer, returnType?⟩ := heading
  obtain ⟨keyword', name', opener', parameters?', closer', returnType?'⟩ := heading'
  simp only [tokens, List.cons_append, List.append_assoc, List.cons.injEq, Token.plain_inj,
    Identifier.token_inj] at heq
  obtain ⟨⟨-, rfl⟩, rfl, ⟨-, rfl⟩, heq⟩ := heq
  obtain ⟨rfl, hcloser⟩ :=
    parameters_unambiguous (by simp [Token.plain]) (by simp [Token.plain]) heq
  rw [List.cons.injEq, Token.plain_inj] at hcloser
  obtain ⟨⟨-, rfl⟩, htype⟩ := hcloser
  cases returnType? with
  | none =>
      cases returnType?' with
      | none => exact ⟨rfl, htype⟩
      | some type => exact absurd ⟨rfl, rfl⟩ (hends _ _ _ htype)
  | some type =>
      cases returnType?' with
      | none => exact absurd ⟨rfl, rfl⟩ (hends' _ _ _ htype.symm)
      | some type' =>
          simp only [typeTokens, List.cons_append, List.nil_append, List.cons.injEq,
            Token.plain_inj, Identifier.token_inj] at htype
          obtain ⟨⟨-, hcolon⟩, hname, rfl⟩ := htype
          exact ⟨by rw [Prod.ext hcolon hname], rfl⟩

private theorem fields_unambiguous {fields fields' : List (Identifier × Text.Position)}
    (hends : Heads (fun kind => kind ≠ .identifier) rest)
    (hends' : Heads (fun kind => kind ≠ .identifier) rest')
    (heq : fieldTokens fields ++ rest = fieldTokens fields' ++ rest') :
    fields = fields' ∧ rest = rest' := by
  induction fields generalizing fields' with
  | nil =>
      cases fields' with
      | nil => exact ⟨rfl, heq⟩
      | cons field fields' =>
          obtain rfl : rest = _ := heq
          simp [fieldTokens, Identifier.token, Token.identifier] at hends
  | cons field fields ih =>
      cases fields' with
      | nil =>
          obtain rfl : rest' = _ := heq.symm
          simp [fieldTokens, Identifier.token, Token.identifier] at hends'
      | cons field' fields' =>
          simp only [fieldTokens, List.flatMap_cons, List.cons_append, List.nil_append,
            List.cons.injEq, Token.plain_inj, Identifier.token_inj] at heq
          obtain ⟨hname, ⟨-, hline⟩, heq⟩ := heq
          obtain ⟨rfl, rfl⟩ := ih heq
          exact ⟨by rw [Prod.ext hname hline], rfl⟩

/-! ## Clauses -/

def Clause.Unambiguous {construct : Construct} (clause : Clause construct) : Prop :=
  ∀ (clause' : Clause construct) (rest rest' : List Token), Heads construct.endsBefore rest →
    Heads construct.endsBefore rest' → clause.tokens ++ rest = clause'.tokens ++ rest' →
    clause = clause' ∧ rest = rest'

namespace Clause

private theorem statement_absurd {first : Clause .statement} {tokens : List Token} {Goal : Prop}
    (hends : Heads Construct.statements.endsBefore rest) (heq : rest = first.tokens ++ tokens) :
    Goal := by
  have hhead : Heads Construct.statement.startsWith rest := by
    rw [heq]
    exact first.heads.append_of_ne_nil (first.tokens_ne_nil rfl)
  cases rest with
  | nil =>
      have hnil := List.nil_eq_append_iff.1 heq
      exact absurd hnil.1 (first.tokens_ne_nil rfl)
  | cons token rest =>
      have hkind : token.kind = .dedent := by simpa [Construct.endsBefore] using hends
      rw [heads_cons, hkind] at hhead
      contradiction

private theorem noStatement_unambiguous : noStatement.Unambiguous := by
  intro clause' rest rest' hends _ heq
  cases clause' with
  | noStatement => exact ⟨rfl, heq⟩
  | nextStatement first more =>
      simp only [tokens, List.nil_append, List.append_assoc] at heq
      exact statement_absurd hends heq

private theorem nextStatement_unambiguous {first : Clause .statement} {more : Clause .statements}
    (ihfirst : first.Unambiguous) (ihmore : more.Unambiguous) :
    (nextStatement first more).Unambiguous := by
  intro clause' rest rest' hends hends' heq
  cases clause' with
  | noStatement =>
      simp only [tokens, List.nil_append, List.append_assoc] at heq
      exact statement_absurd hends' heq.symm
  | nextStatement first' more' =>
      simp only [tokens, List.append_assoc] at heq
      obtain ⟨rfl, hmore⟩ :=
        ihfirst first' _ _ (more.heads_more hends) (more'.heads_more hends') heq
      obtain ⟨rfl, rfl⟩ := ihmore more' rest rest' hends hends' hmore
      exact ⟨rfl, rfl⟩

private theorem keyword_absurd {value : Phrase .expression} {kind : TokenKind}
    {position : Text.Position} {tokens : List Token} {Goal : Prop}
    (heq : value.tokens ++ rest = .plain kind position :: tokens)
    (hkind : Level.startsWith .assignment kind = false) : Goal := by
  have hfirst : Level.startsWith .assignment kind = true := value.startsWith_of_tokens rfl heq
  rw [hkind] at hfirst
  contradiction

private theorem expression_unambiguous (value : Phrase .expression) (line : Text.Position) :
    (expression value line).Unambiguous := by
  intro clause' rest rest' _ _ heq
  cases clause' with
  | expression value' line' =>
      simp only [tokens, List.append_assoc, List.cons_append, List.nil_append] at heq
      obtain ⟨rfl, hline⟩ :=
        value.unambiguous value' _ _ (heads_cons.2 rfl) (heads_cons.2 rfl) heq
      rw [List.cons.injEq, Token.plain_inj] at hline
      obtain ⟨⟨-, rfl⟩, rfl⟩ := hline
      exact ⟨rfl, rfl⟩
  | ret | record | function | loop | conditional =>
      simp only [tokens, List.append_assoc, Heading.tokens, List.cons_append] at heq
      exact keyword_absurd heq rfl

private theorem ret_unambiguous (keyword : Text.Position) (value? : Option (Phrase .expression))
    (line : Text.Position) : (ret keyword value? line).Unambiguous := by
  intro clause' rest rest' _ _ heq
  cases clause' with
  | expression =>
      simp only [tokens, List.append_assoc, List.cons_append] at heq
      exact keyword_absurd heq.symm rfl
  | ret keyword' value?' line' =>
      simp only [tokens, List.append_assoc, List.cons_append, List.nil_append, List.cons.injEq,
        Token.plain_inj] at heq
      obtain ⟨⟨-, rfl⟩, heq⟩ := heq
      cases value? with
      | none =>
          cases value?' with
          | none =>
              simp only [valueTokens, List.nil_append, List.cons.injEq, Token.plain_inj] at heq
              obtain ⟨⟨-, rfl⟩, rfl⟩ := heq
              exact ⟨rfl, rfl⟩
          | some value' => exact keyword_absurd heq.symm rfl
      | some value =>
          cases value?' with
          | none => exact keyword_absurd heq rfl
          | some value' =>
              obtain ⟨rfl, hline⟩ :=
                value.unambiguous value' _ _ (heads_cons.2 rfl) (heads_cons.2 rfl) heq
              rw [List.cons.injEq, Token.plain_inj] at hline
              obtain ⟨⟨-, rfl⟩, rfl⟩ := hline
              exact ⟨rfl, rfl⟩
  | record | function | loop | conditional => cases heq

private theorem record_unambiguous (keyword : Text.Position) (name : Identifier)
    (colon line opening : Text.Position) (fields : List (Identifier × Text.Position))
    (closing : Text.Position) :
    (record keyword name colon line opening fields closing).Unambiguous := by
  intro clause' rest rest' _ _ heq
  cases clause' with
  | expression =>
      simp only [tokens, List.append_assoc, List.cons_append] at heq
      exact keyword_absurd heq.symm rfl
  | record keyword' name' colon' line' opening' fields' closing' =>
      simp only [tokens, colonLine, List.append_assoc, List.cons_append, List.nil_append,
        List.cons.injEq, Token.plain_inj, Identifier.token_inj] at heq
      obtain ⟨⟨-, rfl⟩, rfl, ⟨-, rfl⟩, ⟨-, rfl⟩, ⟨-, rfl⟩, heq⟩ := heq
      obtain ⟨rfl, hclosing⟩ :=
        fields_unambiguous (by simp [Token.plain]) (by simp [Token.plain]) heq
      rw [List.cons.injEq, Token.plain_inj] at hclosing
      obtain ⟨⟨-, rfl⟩, rfl⟩ := hclosing
      exact ⟨rfl, rfl⟩
  | ret | function | loop | conditional => cases heq

private theorem colonLine_append_inj {colon line colon' line' : Text.Position} :
    colonLine colon line ++ rest = colonLine colon' line' ++ rest' ↔
      colon = colon' ∧ line = line' ∧ rest = rest' := by
  simp [colonLine, Token.plain_inj]

private theorem function_unambiguous {heading : Heading} {marker : TokenKind}
    {h : marker ∈ bodyMarkers} {position line : Text.Position} {body : Clause .block}
    (ih : body.Unambiguous) : (function heading marker h position line body).Unambiguous := by
  intro clause' rest rest' _ _ heq
  cases clause' with
  | expression =>
      simp only [tokens, Heading.tokens, List.append_assoc, List.cons_append] at heq
      exact keyword_absurd heq.symm rfl
  | function heading' marker' h' position' line' body' =>
      simp only [tokens, List.append_assoc, List.cons_append] at heq
      obtain ⟨rfl, hmarker⟩ := Heading.unambiguous (Heading.endsBefore_marker _ _ _ rfl)
        (Heading.endsBefore_marker _ _ _ rfl) heq
      simp only [List.cons.injEq, Token.plain_inj] at hmarker
      obtain ⟨⟨rfl, rfl⟩, ⟨-, rfl⟩, hbody⟩ := hmarker
      obtain ⟨rfl, rfl⟩ := ih body' rest rest' (fun _ _ => rfl) (fun _ _ => rfl) hbody
      exact ⟨rfl, rfl⟩
  | ret | record | loop | conditional => cases heq

private theorem loop_unambiguous {keyword colon line : Text.Position}
    {condition : Phrase .expression} {body : Clause .block} (ih : body.Unambiguous) :
    (loop keyword condition colon line body).Unambiguous := by
  intro clause' rest rest' _ _ heq
  cases clause' with
  | expression =>
      simp only [tokens, List.append_assoc, List.cons_append] at heq
      exact keyword_absurd heq.symm rfl
  | loop keyword' condition' colon' line' body' =>
      simp only [tokens, List.append_assoc, List.cons_append, List.cons.injEq,
        Token.plain_inj] at heq
      obtain ⟨⟨-, rfl⟩, heq⟩ := heq
      obtain ⟨rfl, hcolon⟩ :=
        condition.unambiguous condition' _ _ (heads_cons.2 rfl) (heads_cons.2 rfl) heq
      obtain ⟨rfl, rfl, hbody⟩ := colonLine_append_inj.1 hcolon
      obtain ⟨rfl, rfl⟩ := ih body' rest rest' (fun _ _ => rfl) (fun _ _ => rfl) hbody
      exact ⟨rfl, rfl⟩
  | ret | record | function | conditional => cases heq

private theorem conditional_unambiguous {keyword : Text.Position} {chosen : Clause .branch}
    (ih : chosen.Unambiguous) : (conditional keyword chosen).Unambiguous := by
  intro clause' rest rest' hends hends' heq
  cases clause' with
  | expression =>
      simp only [tokens, List.append_assoc, List.cons_append] at heq
      exact keyword_absurd heq.symm rfl
  | conditional keyword' chosen' =>
      simp only [tokens, List.cons_append, List.cons.injEq, Token.plain_inj] at heq
      obtain ⟨⟨-, rfl⟩, heq⟩ := heq
      obtain ⟨rfl, rfl⟩ := ih chosen' rest rest' hends hends' heq
      exact ⟨rfl, rfl⟩
  | ret | record | function | loop => cases heq

private theorem block_unambiguous {opening closing : Text.Position} {body : Clause .statements}
    (ih : body.Unambiguous) : (block opening body closing).Unambiguous := by
  intro clause' rest rest' _ _ heq
  cases clause' with
  | block opening' body' closing' =>
      simp only [tokens, List.append_assoc, List.cons_append, List.nil_append, List.cons.injEq,
        Token.plain_inj] at heq
      obtain ⟨⟨-, rfl⟩, heq⟩ := heq
      obtain ⟨rfl, hclosing⟩ := ih body' _ _ (heads_cons.2 rfl) (heads_cons.2 rfl) heq
      rw [List.cons.injEq, Token.plain_inj] at hclosing
      obtain ⟨⟨-, rfl⟩, rfl⟩ := hclosing
      exact ⟨rfl, rfl⟩

private theorem branch_unambiguous {condition : Phrase .expression} {colon line : Text.Position}
    {body : Clause .block} {alternative : Clause .alternative} (ihbody : body.Unambiguous)
    (ihalternative : alternative.Unambiguous) :
    (branch condition colon line body alternative).Unambiguous := by
  intro clause' rest rest' hends hends' heq
  cases clause' with
  | branch condition' colon' line' body' alternative' =>
      simp only [tokens, List.append_assoc] at heq
      obtain ⟨rfl, hcolon⟩ :=
        condition.unambiguous condition' _ _ (heads_cons.2 rfl) (heads_cons.2 rfl) heq
      obtain ⟨rfl, rfl, hbody⟩ := colonLine_append_inj.1 hcolon
      obtain ⟨rfl, halternative⟩ := ihbody body' _ _ (fun _ _ => rfl) (fun _ _ => rfl) hbody
      obtain ⟨rfl, rfl⟩ := ihalternative alternative' rest rest' hends hends' halternative
      exact ⟨rfl, rfl⟩

private theorem noAlternative_unambiguous : noAlternative.Unambiguous := by
  intro clause' rest rest' hends _ heq
  cases clause' with
  | noAlternative => exact ⟨rfl, heq⟩
  | elif | otherwise =>
      simp only [tokens, List.nil_append, List.cons_append] at heq
      rw [heq, heads_cons] at hends
      contradiction

private theorem elif_unambiguous {keyword : Text.Position} {chosen : Clause .branch}
    (ih : chosen.Unambiguous) : (elif keyword chosen).Unambiguous := by
  intro clause' rest rest' hends hends' heq
  cases clause' with
  | noAlternative =>
      simp only [tokens, List.nil_append, List.cons_append] at heq
      rw [← heq, heads_cons] at hends'
      contradiction
  | elif keyword' chosen' =>
      simp only [tokens, List.cons_append, List.cons.injEq, Token.plain_inj] at heq
      obtain ⟨⟨-, rfl⟩, heq⟩ := heq
      obtain ⟨rfl, rfl⟩ := ih chosen' rest rest' hends hends' heq
      exact ⟨rfl, rfl⟩
  | otherwise => cases heq

private theorem otherwise_unambiguous {keyword colon line : Text.Position} {body : Clause .block}
    (ih : body.Unambiguous) : (otherwise keyword colon line body).Unambiguous := by
  intro clause' rest rest' _ hends' heq
  cases clause' with
  | noAlternative =>
      simp only [tokens, List.nil_append, List.cons_append] at heq
      rw [← heq, heads_cons] at hends'
      contradiction
  | elif => cases heq
  | otherwise keyword' colon' line' body' =>
      simp only [tokens, List.cons_append, List.append_assoc, List.cons.injEq,
        Token.plain_inj] at heq
      obtain ⟨⟨-, rfl⟩, heq⟩ := heq
      obtain ⟨rfl, rfl, hbody⟩ := colonLine_append_inj.1 heq
      obtain ⟨rfl, rfl⟩ := ih body' rest rest' (fun _ _ => rfl) (fun _ _ => rfl) hbody
      exact ⟨rfl, rfl⟩

theorem unambiguous {construct : Construct} (clause : Clause construct) : clause.Unambiguous := by
  induction clause with
  | noStatement => exact noStatement_unambiguous
  | nextStatement _ _ ihfirst ihmore => exact nextStatement_unambiguous ihfirst ihmore
  | expression value line => exact expression_unambiguous value line
  | ret keyword value? line => exact ret_unambiguous keyword value? line
  | record => exact record_unambiguous _ _ _ _ _ _ _
  | function _ _ _ _ _ _ ih => exact function_unambiguous ih
  | loop _ _ _ _ _ ih => exact loop_unambiguous ih
  | conditional _ _ ih => exact conditional_unambiguous ih
  | block _ _ _ ih => exact block_unambiguous ih
  | branch _ _ _ _ _ ihbody ihalternative => exact branch_unambiguous ihbody ihalternative
  | noAlternative => exact noAlternative_unambiguous
  | elif _ _ ih => exact elif_unambiguous ih
  | otherwise _ _ _ _ ih => exact otherwise_unambiguous ih

end Clause

theorem Program.eq_of_tokens_eq {program program' : Program}
    (h : program.tokens = program'.tokens) : program = program' := by
  obtain ⟨opening, body, closing, last⟩ := program
  obtain ⟨opening', body', closing', last'⟩ := program'
  simp only [tokens, List.cons.injEq, Token.plain_inj] at h
  obtain ⟨⟨-, rfl⟩, hbody⟩ := h
  obtain ⟨rfl, hclosing⟩ :=
    body.unambiguous body' _ _ (heads_cons.2 rfl) (heads_cons.2 rfl) hbody
  simp only [List.cons.injEq, Token.plain_inj] at hclosing
  obtain ⟨⟨-, rfl⟩, ⟨-, rfl⟩, -⟩ := hclosing
  rfl

end Grammar

end Offside
