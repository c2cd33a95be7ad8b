import Offside.Proofs.Grammar.Unambiguity

/-!
# Trees and tokens up to positions

Positions do not matter to the grammar: if tokens are those of a phrase or a clause up to their
positions, they are the tokens of another one, which is as deep and stands for the same tree up to
positions.
-/

namespace Offside

open Text (Position)

/-! ## Bare trees -/

def Token.bare (token : Token) : Token := { token with position := .start }

def Identifier.bare (name : Identifier) : Identifier := { name with position := .start }

def Header.bare (header : Header) : Header :=
  ⟨header.name.bare, header.parameters.map Identifier.bare, header.returnType?.map Identifier.bare⟩

mutual

/-- The expression with all names at one position. -/
def Expr.bare : Expr → Expr
  | .literal value => .literal value
  | .identifier name => .identifier name.bare
  | .unary op operand => .unary op operand.bare
  | .binary left op right => .binary left.bare op right.bare
  | .call callee arguments => .call callee.bare (Expr.bareAll arguments)
  | .field object name => .field object.bare name.bare
  | .subscript object index => .subscript object.bare index.bare

def Expr.bareAll : List Expr → List Expr
  | [] => []
  | expr :: rest => expr.bare :: Expr.bareAll rest

end

mutual

def Stmt.bare : Stmt → Stmt
  | .expression value => .expression value.bare
  | .function header body => .function header.bare (Block.bare body)
  | .conditional condition body alternative =>
      .conditional condition.bare (Block.bare body) alternative.bare
  | .loop condition body => .loop condition.bare (Block.bare body)
  | .ret value? => .ret (value?.map Expr.bare)
  | .record name fields => .record name.bare (fields.map Identifier.bare)

def Block.bare : List Stmt → List Stmt
  | [] => []
  | stmt :: rest => stmt.bare :: Block.bare rest

def Alternative.bare : Alternative → Alternative
  | .block body => .block (Block.bare body)
  | .conditional condition body alternative =>
      .conditional condition.bare (Block.bare body) alternative.bare

end

namespace Grammar

/-! ## Tokens up to positions -/

/-- The same tokens, possibly at other positions. -/
def Respelled (tokens tokens' : List Token) : Prop :=
  tokens'.map Token.bare = tokens.map Token.bare

variable {tokens rest front : List Token} {kind : TokenKind} {position : Position}

@[simp] theorem respelled_nil : Respelled [] tokens ↔ tokens = [] := by
  simp [Respelled]

@[simp] theorem respelled_plain :
    Respelled (.plain kind position :: rest) tokens ↔
      ∃ position' rest', tokens = .plain kind position' :: rest' ∧ Respelled rest rest' := by
  unfold Respelled
  rw [List.map_cons, List.map_eq_cons_iff]
  constructor
  · rintro ⟨⟨kind', position', payload?⟩, rest', rfl, hbare, hrest⟩
    simp only [Token.bare, Token.plain, Token.mk.injEq, true_and] at hbare
    obtain ⟨rfl, rfl⟩ := hbare
    exact ⟨position', rest', rfl, hrest⟩
  · rintro ⟨position', rest', rfl, hrest⟩
    exact ⟨_, rest', rfl, rfl, hrest⟩

@[simp] theorem respelled_name {name : Identifier} :
    Respelled (name.token :: rest) tokens ↔
      ∃ name' : Identifier, ∃ rest', tokens = name'.token :: rest' ∧ name'.bare = name.bare ∧
        Respelled rest rest' := by
  unfold Respelled
  rw [List.map_cons, List.map_eq_cons_iff]
  constructor
  · rintro ⟨⟨kind', position', payload?⟩, rest', rfl, hbare, hrest⟩
    simp only [Token.bare, Identifier.token, Token.identifier, Token.mk.injEq, true_and] at hbare
    obtain ⟨rfl, rfl⟩ := hbare
    exact ⟨⟨name.name, position'⟩, rest', rfl, rfl, hrest⟩
  · rintro ⟨⟨name', position'⟩, rest', rfl, hbare, hrest⟩
    simp only [Identifier.bare, Identifier.mk.injEq, and_true] at hbare
    exact ⟨_, rest', rfl, by simp [Token.bare, Identifier.token, Token.identifier, hbare], hrest⟩

@[simp] theorem respelled_literal {value : Literal} :
    Respelled (value.token position :: rest) tokens ↔
      ∃ position' rest', tokens = value.token position' :: rest' ∧ Respelled rest rest' := by
  cases value with
  | boolean value => cases value <;> exact respelled_plain
  | integer | float | string =>
      unfold Respelled
      rw [List.map_cons, List.map_eq_cons_iff]
      constructor
      · rintro ⟨⟨kind', position', payload?⟩, rest', rfl, hbare, hrest⟩
        simp only [Token.bare, Literal.token, Token.integer, Token.float, Token.string,
          Token.mk.injEq, true_and] at hbare
        obtain ⟨rfl, rfl⟩ := hbare
        exact ⟨position', rest', rfl, hrest⟩
      · rintro ⟨position', rest', rfl, hrest⟩
        exact ⟨_, rest', rfl, rfl, hrest⟩

@[simp] theorem respelled_append :
    Respelled (front ++ rest) tokens ↔
      ∃ front' rest', tokens = front' ++ rest' ∧ Respelled front front' ∧
        Respelled rest rest' := by
  unfold Respelled
  rw [List.map_append, List.map_eq_append_iff]

/-! ## Phrases -/

def Symbol.Same : (symbol : Symbol) → symbol.Tree → symbol.Tree → Prop
  | .expression, tree, tree' => tree'.bare = tree.bare
  | .level _, tree, tree' => tree'.bare = tree.bare
  | .suffixes, tree, tree' =>
      ∀ object object' : Expr, object'.bare = object.bare →
        (tree' object').bare = (tree object).bare
  | .arguments, tree, tree' => Expr.bareAll tree' = Expr.bareAll tree
  | .moreArguments, tree, tree' => Expr.bareAll tree' = Expr.bareAll tree

theorem Phrase.exists_respelled {symbol : Symbol} (phrase : Phrase symbol) :
    ∀ {tokens : List Token}, Respelled phrase.tokens tokens →
      ∃ phrase' : Phrase symbol, phrase'.tokens = tokens ∧
        symbol.Same phrase.tree phrase'.tree ∧ phrase'.depth = phrase.depth := by
  induction phrase with
  | whole body ih =>
      intro tokens h
      obtain ⟨body', rfl, htree, hdepth⟩ := ih h
      exact ⟨.whole body', rfl, htree, by rw [depth, hdepth, depth]⟩
  | operand hlevel body ih =>
      intro tokens h
      obtain ⟨body', rfl, htree, hdepth⟩ := ih h
      exact ⟨.operand hlevel body', rfl, htree, by rw [depth, hdepth, depth]⟩
  | binary left op hop position right ihLeft ihRight =>
      intro tokens h
      simp only [Phrase.tokens, respelled_append, respelled_plain] at h
      obtain ⟨_, _, rfl, hleft, position', _, rfl, hright⟩ := h
      obtain ⟨left', rfl, hleft, hleftDepth⟩ := ihLeft hleft
      obtain ⟨right', rfl, hright, hrightDepth⟩ := ihRight hright
      refine ⟨.binary left' op hop position' right', rfl, ?_, ?_⟩
      · simp only [Symbol.Same] at hleft hright
        simp [Symbol.Same, tree, Expr.bare, hleft, hright]
      · simp [depth, hleftDepth, hrightDepth]
  | negation keyword body ih =>
      intro tokens h
      simp only [Phrase.tokens, respelled_plain] at h
      obtain ⟨keyword', _, rfl, h⟩ := h
      obtain ⟨body', rfl, htree, hdepth⟩ := ih h
      refine ⟨.negation keyword' body', rfl, ?_, by simp [depth, hdepth]⟩
      simp only [Symbol.Same] at htree
      simp [Symbol.Same, tree, Expr.bare, htree]
  | sign minus body ih =>
      intro tokens h
      simp only [Phrase.tokens, respelled_plain] at h
      obtain ⟨minus', _, rfl, h⟩ := h
      obtain ⟨body', rfl, htree, hdepth⟩ := ih h
      refine ⟨.sign minus' body', rfl, ?_, by simp [depth, hdepth]⟩
      simp only [Symbol.Same] at htree
      simp [Symbol.Same, tree, Expr.bare, htree]
  | chain object more ihObject ihMore =>
      intro tokens h
      simp only [Phrase.tokens, respelled_append] at h
      obtain ⟨_, _, rfl, hobject, hmore⟩ := h
      obtain ⟨object', rfl, hobject, hobjectDepth⟩ := ihObject hobject
      obtain ⟨more', rfl, hmore, hmoreDepth⟩ := ihMore hmore
      refine ⟨.chain object' more', rfl, ?_, by simp [depth, hobjectDepth, hmoreDepth]⟩
      exact hmore _ _ hobject
  | literal value position =>
      intro tokens h
      simp only [Phrase.tokens, respelled_literal, respelled_nil] at h
      obtain ⟨position', _, rfl, rfl⟩ := h
      exact ⟨.literal value position', rfl, rfl, rfl⟩
  | identifier name =>
      intro tokens h
      simp only [Phrase.tokens, respelled_name, respelled_nil] at h
      obtain ⟨name', _, rfl, hname, rfl⟩ := h
      exact ⟨.identifier name', rfl, by simp [Symbol.Same, tree, Expr.bare, hname], rfl⟩
  | parenthesized opener body closer ih =>
      intro tokens h
      simp only [Phrase.tokens, respelled_plain, respelled_append, respelled_nil] at h
      obtain ⟨opener', _, rfl, _, _, rfl, hbody, closer', _, rfl, rfl⟩ := h
      obtain ⟨body', rfl, htree, hdepth⟩ := ih hbody
      exact ⟨.parenthesized opener' body' closer', rfl, htree, by simp [depth, hdepth]⟩
  | noSuffix =>
      intro tokens h
      simp only [Phrase.tokens, respelled_nil] at h
      exact ⟨.noSuffix, h.symm, fun _ _ hobject => hobject, rfl⟩
  | call opener arguments closer more ihArguments ihMore =>
      intro tokens h
      simp only [Phrase.tokens, respelled_plain, respelled_append] at h
      obtain ⟨opener', _, rfl, _, _, rfl, harguments, closer', _, rfl, hmore⟩ := h
      obtain ⟨arguments', rfl, harguments, hargumentsDepth⟩ := ihArguments harguments
      obtain ⟨more', rfl, hmore, hmoreDepth⟩ := ihMore hmore
      refine ⟨.call opener' arguments' closer' more', rfl, ?_,
        by simp [depth, hargumentsDepth, hmoreDepth]⟩
      intro object object' hobject
      simp only [Symbol.Same] at harguments
      exact hmore _ _ (by simp [Expr.bare, hobject, harguments])
  | field dot name more ihMore =>
      intro tokens h
      simp only [Phrase.tokens, respelled_plain, respelled_name] at h
      obtain ⟨dot', _, rfl, name', _, rfl, hname, hmore⟩ := h
      obtain ⟨more', rfl, hmore, hmoreDepth⟩ := ihMore hmore
      refine ⟨.field dot' name' more', rfl, ?_, by simp [depth, hmoreDepth]⟩
      intro object object' hobject
      exact hmore _ _ (by simp [Expr.bare, hobject, hname])
  | subscript opener index closer more ihIndex ihMore =>
      intro tokens h
      simp only [Phrase.tokens, respelled_plain, respelled_append] at h
      obtain ⟨opener', _, rfl, _, _, rfl, hindex, closer', _, rfl, hmore⟩ := h
      obtain ⟨index', rfl, hindex, hindexDepth⟩ := ihIndex hindex
      obtain ⟨more', rfl, hmore, hmoreDepth⟩ := ihMore hmore
      refine ⟨.subscript opener' index' closer' more', rfl, ?_,
        by simp [depth, hindexDepth, hmoreDepth]⟩
      intro object object' hobject
      simp only [Symbol.Same] at hindex
      exact hmore _ _ (by simp [Expr.bare, hobject, hindex])
  | noArgument =>
      intro tokens h
      simp only [Phrase.tokens, respelled_nil] at h
      exact ⟨.noArgument, h.symm, rfl, rfl⟩
  | firstArgument first more ihFirst ihMore =>
      intro tokens h
      simp only [Phrase.tokens, respelled_append] at h
      obtain ⟨_, _, rfl, hfirst, hmore⟩ := h
      obtain ⟨first', rfl, hfirst, hfirstDepth⟩ := ihFirst hfirst
      obtain ⟨more', rfl, hmore, hmoreDepth⟩ := ihMore hmore
      refine ⟨.firstArgument first' more', rfl, ?_, by simp [depth, hfirstDepth, hmoreDepth]⟩
      simp only [Symbol.Same] at hfirst hmore
      simp [Symbol.Same, tree, Expr.bareAll, hfirst, hmore]
  | lastArgument =>
      intro tokens h
      simp only [Phrase.tokens, respelled_nil] at h
      exact ⟨.lastArgument, h.symm, rfl, rfl⟩
  | nextArgument comma argument more ihArgument ihMore =>
      intro tokens h
      simp only [Phrase.tokens, respelled_plain, respelled_append] at h
      obtain ⟨comma', _, rfl, _, _, rfl, hargument, hmore⟩ := h
      obtain ⟨argument', rfl, hargument, hargumentDepth⟩ := ihArgument hargument
      obtain ⟨more', rfl, hmore, hmoreDepth⟩ := ihMore hmore
      refine ⟨.nextArgument comma' argument' more', rfl, ?_,
        by simp [depth, hargumentDepth, hmoreDepth]⟩
      simp only [Symbol.Same] at hargument hmore
      simp [Symbol.Same, tree, Expr.bareAll, hargument, hmore]

/-! ## Headers and fields -/

private theorem exists_respelled_more (more : List (Position × Identifier)) :
    ∀ {tokens : List Token},
      Respelled (more.flatMap fun further => [.plain .comma further.1, further.2.token]) tokens →
      ∃ more' : List (Position × Identifier),
        (more'.flatMap fun further => [.plain .comma further.1, further.2.token]) = tokens ∧
          (more'.map Prod.snd).map Identifier.bare = (more.map Prod.snd).map Identifier.bare := by
  induction more with
  | nil =>
      intro tokens h
      exact ⟨[], (respelled_nil.1 h).symm, rfl⟩
  | cons further more ih =>
      intro tokens h
      simp only [List.flatMap_cons, List.cons_append, List.nil_append, respelled_plain,
        respelled_name] at h
      obtain ⟨comma', _, rfl, name', _, rfl, hname, hmore⟩ := h
      obtain ⟨more', rfl, hsame⟩ := ih hmore
      exact ⟨(comma', name') :: more', rfl, by simpa [hname] using hsame⟩

private theorem exists_respelled_fields (fields : List (Identifier × Position)) :
    ∀ {tokens : List Token}, Respelled (fieldTokens fields) tokens →
      ∃ fields', fieldTokens fields' = tokens ∧
        (fields'.map Prod.fst).map Identifier.bare = (fields.map Prod.fst).map Identifier.bare := by
  induction fields with
  | nil =>
      intro tokens h
      exact ⟨[], (respelled_nil.1 h).symm, rfl⟩
  | cons field fields ih =>
      intro tokens h
      simp only [fieldTokens, List.flatMap_cons, List.cons_append, List.nil_append, respelled_plain,
        respelled_name] at h
      obtain ⟨name', _, rfl, hname, line', _, rfl, hfields⟩ := h
      obtain ⟨fields', rfl, hsame⟩ := ih hfields
      exact ⟨(name', line') :: fields', rfl, by simpa [hname] using hsame⟩

private theorem exists_respelled_parameters (parameters? : Option NameList)
    (h : Respelled (Heading.parameterTokens parameters?) tokens) :
    ∃ parameters?' : Option NameList, Heading.parameterTokens parameters?' = tokens ∧
      ((parameters?'.map NameList.tree).getD []).map Identifier.bare =
        ((parameters?.map NameList.tree).getD []).map Identifier.bare := by
  cases parameters? with
  | none => exact ⟨none, (respelled_nil.1 h).symm, rfl⟩
  | some names =>
      simp only [Heading.parameterTokens, NameList.tokens, respelled_name] at h
      obtain ⟨first', _, rfl, hfirst, hmore⟩ := h
      obtain ⟨more', rfl, hsame⟩ := exists_respelled_more _ hmore
      exact ⟨some ⟨first', more'⟩, rfl, by simpa [NameList.tree, hfirst] using hsame⟩

private theorem exists_respelled_type (type? : Option (Position × Identifier))
    (h : Respelled (Heading.typeTokens type?) tokens) :
    ∃ type?' : Option (Position × Identifier), Heading.typeTokens type?' = tokens ∧
      (type?'.map Prod.snd).map Identifier.bare = (type?.map Prod.snd).map Identifier.bare := by
  cases type? with
  | none => exact ⟨none, (respelled_nil.1 h).symm, rfl⟩
  | some type =>
      simp only [Heading.typeTokens, respelled_plain, respelled_name, respelled_nil] at h
      obtain ⟨colon', _, rfl, name', _, rfl, hname, rfl⟩ := h
      exact ⟨some (colon', name'), rfl, by simp [hname]⟩

private theorem Heading.exists_respelled (heading : Heading)
    (h : Respelled heading.tokens tokens) :
    ∃ heading' : Heading, heading'.tokens = tokens ∧ heading'.tree.bare = heading.tree.bare := by
  simp only [Heading.tokens, respelled_plain, respelled_name, respelled_append] at h
  obtain ⟨keyword', _, rfl, name', _, rfl, hname, opener', _, rfl, _, _, rfl, hparameters, closer',
    _, rfl, htype⟩ := h
  obtain ⟨parameters', rfl, hnames⟩ := exists_respelled_parameters _ hparameters
  obtain ⟨type', rfl, hreturn⟩ := exists_respelled_type _ htype
  refine ⟨⟨keyword', name', opener', parameters', closer', type'⟩, rfl, ?_⟩
  simp only [Heading.tree, Header.bare, hname, hnames, hreturn]

/-! ## Clauses -/

def Construct.Same : (construct : Construct) → construct.Tree → construct.Tree → Prop
  | .statements, tree, tree' => Block.bare tree' = Block.bare tree
  | .block, tree, tree' => Block.bare tree' = Block.bare tree
  | .statement, tree, tree' => tree'.bare = tree.bare
  | .branch, tree, tree' =>
      tree'.1.bare = tree.1.bare ∧ Block.bare tree'.2.1 = Block.bare tree.2.1 ∧
        tree'.2.2.bare = tree.2.2.bare
  | .alternative, tree, tree' => tree'.bare = tree.bare

theorem Clause.exists_respelled {construct : Construct} (clause : Clause construct) :
    ∀ {tokens : List Token}, Respelled clause.tokens tokens →
      ∃ clause' : Clause construct, clause'.tokens = tokens ∧
        construct.Same clause.tree clause'.tree ∧ clause'.depth = clause.depth := by
  induction clause with
  | noStatement =>
      intro tokens h
      exact ⟨.noStatement, (respelled_nil.1 h).symm, rfl, rfl⟩
  | nextStatement first more ihFirst ihMore =>
      intro tokens h
      simp only [Clause.tokens, respelled_append] at h
      obtain ⟨_, _, rfl, hfirst, hmore⟩ := h
      obtain ⟨first', rfl, hfirst, hfirstDepth⟩ := ihFirst hfirst
      obtain ⟨more', rfl, hmore, hmoreDepth⟩ := ihMore hmore
      refine ⟨.nextStatement first' more', rfl, ?_, by simp [depth, hfirstDepth, hmoreDepth]⟩
      simp only [Construct.Same] at hfirst hmore
      simp [Construct.Same, tree, Block.bare, hfirst, hmore]
  | expression value line =>
      intro tokens h
      simp only [Clause.tokens, respelled_append, respelled_plain, respelled_nil] at h
      obtain ⟨_, _, rfl, hvalue, line', _, rfl, rfl⟩ := h
      obtain ⟨value', rfl, hvalue, hdepth⟩ := value.exists_respelled hvalue
      refine ⟨.expression value' line', rfl, ?_, by simp [depth, hdepth]⟩
      simp only [Symbol.Same] at hvalue
      simp [Construct.Same, tree, Stmt.bare, hvalue]
  | ret keyword value? line =>
      intro tokens h
      cases value? with
      | none =>
          simp only [Clause.tokens, valueTokens, List.nil_append, respelled_plain,
            respelled_nil] at h
          obtain ⟨keyword', _, rfl, line', _, rfl, rfl⟩ := h
          exact ⟨.ret keyword' none line', rfl, rfl, rfl⟩
      | some value =>
          simp only [Clause.tokens, valueTokens, respelled_append, respelled_plain,
            respelled_nil] at h
          obtain ⟨keyword', _, rfl, _, _, rfl, hvalue, line', _, rfl, rfl⟩ := h
          obtain ⟨value', rfl, hvalue, hdepth⟩ := value.exists_respelled hvalue
          refine ⟨.ret keyword' (some value') line', rfl, ?_, by simp [depth, valueDepth, hdepth]⟩
          simp only [Symbol.Same] at hvalue
          simp [Construct.Same, tree, Stmt.bare, hvalue]
  | record keyword name colon line opening fields closing =>
      intro tokens h
      simp only [Clause.tokens, colonLine, respelled_append, respelled_plain, respelled_name,
        respelled_nil, List.cons_append, List.nil_append] at h
      obtain ⟨keyword', _, rfl, name', _, rfl, hname, colon', _, rfl, line', _, rfl, opening', _,
        rfl, _, _, rfl, hfields, closing', _, rfl, rfl⟩ := h
      obtain ⟨fields', rfl, hnames⟩ := exists_respelled_fields _ hfields
      refine ⟨.record keyword' name' colon' line' opening' fields' closing', rfl, ?_, rfl⟩
      simp only [Construct.Same, tree, Stmt.bare, hname, hnames]
  | function heading marker hmarker position line body ih =>
      intro tokens h
      simp only [Clause.tokens, respelled_append, respelled_plain] at h
      obtain ⟨_, _, rfl, hheading, position', _, rfl, line', _, rfl, hbody⟩ := h
      obtain ⟨heading', rfl, hheader⟩ := heading.exists_respelled hheading
      obtain ⟨body', rfl, hbody, hdepth⟩ := ih hbody
      refine ⟨.function heading' marker hmarker position' line' body', rfl, ?_,
        by simp [depth, hdepth]⟩
      simp only [Construct.Same] at hbody
      simp only [Construct.Same, tree, Stmt.bare, hheader, hbody]
  | loop keyword condition colon line body ih =>
      intro tokens h
      simp only [Clause.tokens, colonLine, respelled_append, respelled_plain, List.cons_append,
        List.nil_append] at h
      obtain ⟨keyword', _, rfl, _, _, rfl, hcondition, colon', _, rfl, line', _, rfl, hbody⟩ := h
      obtain ⟨condition', rfl, hcondition, hconditionDepth⟩ :=
        condition.exists_respelled hcondition
      obtain ⟨body', rfl, hbody, hbodyDepth⟩ := ih hbody
      refine ⟨.loop keyword' condition' colon' line' body', rfl, ?_,
        by simp [depth, hconditionDepth, hbodyDepth]⟩
      simp only [Construct.Same, Symbol.Same] at hbody hcondition
      simp only [Construct.Same, tree, Stmt.bare, hcondition, hbody]
  | conditional keyword chosen ih =>
      intro tokens h
      simp only [Clause.tokens, respelled_plain] at h
      obtain ⟨keyword', _, rfl, hchosen⟩ := h
      obtain ⟨chosen', rfl, hchosen, hdepth⟩ := ih hchosen
      refine ⟨.conditional keyword' chosen', rfl, ?_, by simp [depth, hdepth]⟩
      obtain ⟨hcondition, hbody, halternative⟩ := hchosen
      simp only [Construct.Same, tree, Stmt.bare, hcondition, hbody, halternative]
  | block opening body closing ih =>
      intro tokens h
      simp only [Clause.tokens, respelled_append, respelled_plain, respelled_nil] at h
      obtain ⟨opening', _, rfl, _, _, rfl, hbody, closing', _, rfl, rfl⟩ := h
      obtain ⟨body', rfl, hbody, hdepth⟩ := ih hbody
      exact ⟨.block opening' body' closing', rfl, hbody, by simp [depth, hdepth]⟩
  | branch condition colon line body alternative ihBody ihAlternative =>
      intro tokens h
      simp only [Clause.tokens, colonLine, respelled_append, respelled_plain, List.cons_append,
        List.nil_append] at h
      obtain ⟨_, _, rfl, hcondition, colon', _, rfl, line', _, rfl, _, _, rfl, hbody,
        halternative⟩ := h
      obtain ⟨condition', rfl, hcondition, hconditionDepth⟩ :=
        condition.exists_respelled hcondition
      obtain ⟨body', rfl, hbody, hbodyDepth⟩ := ihBody hbody
      obtain ⟨alternative', rfl, halternative, halternativeDepth⟩ := ihAlternative halternative
      exact ⟨.branch condition' colon' line' body' alternative', rfl,
        ⟨hcondition, hbody, halternative⟩,
        by simp [depth, hconditionDepth, hbodyDepth, halternativeDepth]⟩
  | noAlternative =>
      intro tokens h
      exact ⟨.noAlternative, (respelled_nil.1 h).symm, rfl, rfl⟩
  | elif keyword chosen ih =>
      intro tokens h
      simp only [Clause.tokens, respelled_plain] at h
      obtain ⟨keyword', _, rfl, hchosen⟩ := h
      obtain ⟨chosen', rfl, hchosen, hdepth⟩ := ih hchosen
      refine ⟨.elif keyword' chosen', rfl, ?_, by simp [depth, hdepth]⟩
      obtain ⟨hcondition, hbody, halternative⟩ := hchosen
      simp only [Construct.Same, tree, Alternative.bare, hcondition, hbody, halternative]
  | otherwise keyword colon line body ih =>
      intro tokens h
      simp only [Clause.tokens, colonLine, respelled_plain, List.cons_append,
        List.nil_append] at h
      obtain ⟨keyword', _, rfl, colon', _, rfl, line', _, rfl, hbody⟩ := h
      obtain ⟨body', rfl, hbody, hdepth⟩ := ih hbody
      refine ⟨.otherwise keyword' colon' line' body', rfl, ?_, by simp [depth, hdepth]⟩
      simp only [Construct.Same] at hbody
      simp only [Construct.Same, tree, Alternative.bare, hbody]

theorem Program.exists_respelled (program : Program) (h : Respelled program.tokens tokens) :
    ∃ program' : Program, program'.tokens = tokens ∧
      Block.bare program'.tree = Block.bare program.tree ∧
        program'.body.depth = program.body.depth := by
  simp only [Program.tokens, respelled_plain, respelled_append, respelled_nil] at h
  obtain ⟨opening', _, rfl, _, _, rfl, hbody, closing', _, rfl, last', _, rfl, rfl⟩ := h
  obtain ⟨body', rfl, hbody, hdepth⟩ := program.body.exists_respelled hbody
  exact ⟨⟨opening', body', closing', last'⟩, rfl, hbody, hdepth⟩

end Grammar

end Offside
