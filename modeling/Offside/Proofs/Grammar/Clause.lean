import Offside.Proofs.Grammar.Phrase
import Offside.Tree.Stmt

/-!
# The grammar of statements

A clause is a derivation of a construct of the statement grammar, and a program is a block between
the tokens that open and close a file.  The depth counts the blocks that are entered on the way to a
token, together with the depth of the phrases.
-/

namespace Offside.Grammar

open Text (Position)

/-! ## Headers -/

structure NameList where
  first : Identifier
  more : List (Position × Identifier)

namespace NameList

def tokens (names : NameList) : List Token :=
  names.first.token ::
    names.more.flatMap fun further => [.plain .comma further.1, further.2.token]

def tree (names : NameList) : List Identifier := names.first :: names.more.map Prod.snd

end NameList

structure Heading where
  keyword : Position
  name : Identifier
  opener : Position
  parameters? : Option NameList
  closer : Position
  returnType? : Option (Position × Identifier)

namespace Heading

def typeTokens : Option (Position × Identifier) → List Token
  | none => []
  | some type => [.plain .colon type.1, type.2.token]

def parameterTokens : Option NameList → List Token
  | none => []
  | some names => names.tokens

def tokens (heading : Heading) : List Token :=
  .plain .funcKeyword heading.keyword :: heading.name.token :: .plain .leftParen heading.opener ::
    (parameterTokens heading.parameters? ++
      .plain .rightParen heading.closer :: typeTokens heading.returnType?)

def tree (heading : Heading) : Header :=
  ⟨heading.name, (heading.parameters?.map NameList.tree).getD [],
    heading.returnType?.map Prod.snd⟩

end Heading

def fieldTokens (fields : List (Identifier × Position)) : List Token :=
  fields.flatMap fun field => [field.1.token, .plain .newline field.2]

/-! ## Clauses -/

inductive Construct where
  | statements
  | statement
  | block
  | branch
  | alternative

abbrev Construct.Tree : Construct → Type
  | .statements | .block => Block
  | .statement => Stmt
  | .branch => Expr × Block × Alternative
  | .alternative => Alternative

/-- The tokens between the header of a function and the end of its line. -/
def bodyMarkers : List TokenKind := [.assign, .colon]

theorem carriesPayload_of_bodyMarker {marker : TokenKind} (h : marker ∈ bodyMarkers) :
    marker.carriesPayload = false := by
  simp only [bodyMarkers, List.mem_cons, List.not_mem_nil, or_false] at h
  rcases h with rfl | rfl <;> rfl

inductive Clause : Construct → Type where
  | noStatement : Clause .statements
  | nextStatement (first : Clause .statement) (more : Clause .statements) : Clause .statements
  | expression (value : Phrase .expression) (line : Position) : Clause .statement
  | ret (keyword : Position) (value? : Option (Phrase .expression)) (line : Position) :
      Clause .statement
  | record (keyword : Position) (name : Identifier) (colon line opening : Position)
      (fields : List (Identifier × Position)) (closing : Position) : Clause .statement
  | function (heading : Heading) (marker : TokenKind) (h : marker ∈ bodyMarkers)
      (position line : Position) (body : Clause .block) : Clause .statement
  | loop (keyword : Position) (condition : Phrase .expression) (colon line : Position)
      (body : Clause .block) : Clause .statement
  | conditional (keyword : Position) (chosen : Clause .branch) : Clause .statement
  | block (opening : Position) (body : Clause .statements) (closing : Position) : Clause .block
  | branch (condition : Phrase .expression) (colon line : Position) (body : Clause .block)
      (alternative : Clause .alternative) : Clause .branch
  | noAlternative : Clause .alternative
  | elif (keyword : Position) (chosen : Clause .branch) : Clause .alternative
  | otherwise (keyword colon line : Position) (body : Clause .block) : Clause .alternative

namespace Clause

def colonLine (colon line : Position) : List Token :=
  [.plain .colon colon, .plain .newline line]

def valueTokens : Option (Phrase .expression) → List Token
  | none => []
  | some value => value.tokens

def valueDepth : Option (Phrase .expression) → Nat
  | none => 0
  | some value => value.depth

def tokens : {construct : Construct} → Clause construct → List Token
  | _, noStatement => []
  | _, nextStatement first more => first.tokens ++ more.tokens
  | _, expression value line => value.tokens ++ [.plain .newline line]
  | _, ret keyword value? line =>
      .plain .returnKeyword keyword :: (valueTokens value? ++ [.plain .newline line])
  | _, record keyword name colon line opening fields closing =>
      .plain .structKeyword keyword :: name.token ::
        (colonLine colon line ++
          .plain .indent opening :: (fieldTokens fields ++ [.plain .dedent closing]))
  | _, function heading marker _ position line body =>
      heading.tokens ++ .plain marker position :: .plain .newline line :: body.tokens
  | _, loop keyword condition colon line body =>
      .plain .whileKeyword keyword :: (condition.tokens ++ (colonLine colon line ++ body.tokens))
  | _, conditional keyword chosen => .plain .ifKeyword keyword :: chosen.tokens
  | _, block opening body closing =>
      .plain .indent opening :: (body.tokens ++ [.plain .dedent closing])
  | _, branch condition colon line body alternative =>
      condition.tokens ++ (colonLine colon line ++ (body.tokens ++ alternative.tokens))
  | _, noAlternative => []
  | _, elif keyword chosen => .plain .elifKeyword keyword :: chosen.tokens
  | _, otherwise keyword colon line body =>
      .plain .elseKeyword keyword :: (colonLine colon line ++ body.tokens)

def tree : {construct : Construct} → Clause construct → construct.Tree
  | _, noStatement => []
  | _, nextStatement first more => List.cons first.tree more.tree
  | _, expression value _ => Stmt.expression value.tree
  | _, ret _ value? _ => Stmt.ret (value?.map Phrase.tree)
  | _, record _ name _ _ _ fields _ => Stmt.record name (fields.map Prod.fst)
  | _, function heading _ _ _ _ body => Stmt.function heading.tree body.tree
  | _, loop _ condition _ _ body => Stmt.loop condition.tree body.tree
  | _, conditional _ chosen =>
      Stmt.conditional chosen.tree.1 chosen.tree.2.1 chosen.tree.2.2
  | _, block _ body _ => body.tree
  | _, branch condition _ _ body alternative => (condition.tree, body.tree, alternative.tree)
  | _, noAlternative => Alternative.block []
  | _, elif _ chosen => Alternative.conditional chosen.tree.1 chosen.tree.2.1 chosen.tree.2.2
  | _, otherwise _ _ _ body => Alternative.block body.tree

def depth : {construct : Construct} → Clause construct → Nat
  | _, noStatement => 0
  | _, nextStatement first more => max first.depth more.depth
  | _, expression value _ => value.depth
  | _, ret _ value? _ => valueDepth value?
  | _, record .. => 0
  | _, function _ _ _ _ _ body => body.depth
  | _, loop _ condition _ _ body => max condition.depth body.depth
  | _, conditional _ chosen => chosen.depth
  | _, block _ body _ => body.depth + 1
  | _, branch condition _ _ body alternative =>
      max condition.depth (max body.depth alternative.depth)
  | _, noAlternative => 0
  | _, elif _ chosen => chosen.depth
  | _, otherwise _ _ _ body => body.depth

end Clause

/-! ## Programs -/

structure Program where
  opening : Position
  body : Clause .statements
  closing : Position
  last : Position

namespace Program

def tokens (program : Program) : List Token :=
  .plain .indent program.opening ::
    (program.body.tokens ++ [.plain .dedent program.closing, .plain .eof program.last])

def tree (program : Program) : Block := program.body.tree

end Program

end Offside.Grammar
