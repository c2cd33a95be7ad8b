import Offside.Token.Basic
import Offside.Tree.Expr

/-!
# The grammar of expressions

A phrase is a derivation of a nonterminal symbol of the expression grammar, one constructor for each
production.  It spells a list of tokens, stands for a tree and has a depth, which counts the whole
expressions and the operands of prefix operators that are entered on the way to a token.
-/

namespace Offside

/-! ## Tokens with their payload -/

def Payload.kind : Payload → TokenKind
  | .integer _ => .integer
  | .float _ => .float
  | .string _ => .string
  | .identifier _ => .identifier
  | .error _ => .error

def TokenKind.carriesPayload : TokenKind → Bool
  | .integer | .float | .string | .identifier | .error => true
  | _ => false

def Token.Faithful (token : Token) : Prop :=
  match token.payload? with
  | some payload => payload.kind = token.kind
  | none => token.kind.carriesPayload = false

theorem Token.Faithful.eq_plain {token : Token} (h : token.Faithful)
    (hkind : token.kind.carriesPayload = false) : token = .plain token.kind token.position := by
  obtain ⟨kind, position, payload?⟩ := token
  cases payload? with
  | none => rfl
  | some payload =>
      have hpayload : payload.kind = kind := h
      subst hpayload
      cases payload <;> simp [Payload.kind, TokenKind.carriesPayload] at hkind

def Identifier.token (name : Identifier) : Token := .identifier name.name name.position

def Literal.token (value : Literal) (position : Text.Position) : Token :=
  match value with
  | .integer value => .integer value position
  | .float value => .float value position
  | .boolean true => .plain .trueKeyword position
  | .boolean false => .plain .falseKeyword position
  | .string content => .string content position

namespace Grammar

open Text (Position)

inductive Symbol where
  | expression
  | level (here : Level)
  | suffixes
  | arguments
  | moreArguments

/-- What a phrase of a symbol stands for; suffixes stand for what they make of the object in front
of them. -/
abbrev Symbol.Tree : Symbol → Type
  | .expression | .level _ => Expr
  | .suffixes => Expr → Expr
  | .arguments | .moreArguments => List Expr

/-- A level that may consist of an operand of the next tighter level alone. -/
def Level.passesOn : Level → Bool
  | .suffix | .atom => false
  | _ => true

inductive Phrase : Symbol → Type where
  | whole (body : Phrase (.level .assignment)) : Phrase .expression
  | operand {here : Level} (h : Level.passesOn here = true) (body : Phrase (.level here.tighter)) :
      Phrase (.level here)
  | binary {here : Level} (left : Phrase (.level here.tighter)) (op : BinaryOp)
      (h : op.level = here) (position : Position) (right : Phrase (.level here.right)) :
      Phrase (.level here)
  | negation (keyword : Position) (body : Phrase (.level .negation)) : Phrase (.level .negation)
  | sign (minus : Position) (body : Phrase (.level .sign)) : Phrase (.level .sign)
  | chain (object : Phrase (.level .atom)) (more : Phrase .suffixes) : Phrase (.level .suffix)
  | literal (value : Literal) (position : Position) : Phrase (.level .atom)
  | identifier (name : Identifier) : Phrase (.level .atom)
  | parenthesized (opener : Position) (body : Phrase .expression) (closer : Position) :
      Phrase (.level .atom)
  | noSuffix : Phrase .suffixes
  | call (opener : Position) (arguments : Phrase .arguments) (closer : Position)
      (more : Phrase .suffixes) : Phrase .suffixes
  | field (dot : Position) (name : Identifier) (more : Phrase .suffixes) : Phrase .suffixes
  | subscript (opener : Position) (index : Phrase .expression) (closer : Position)
      (more : Phrase .suffixes) : Phrase .suffixes
  | noArgument : Phrase .arguments
  | firstArgument (first : Phrase .expression) (more : Phrase .moreArguments) : Phrase .arguments
  | lastArgument : Phrase .moreArguments
  | nextArgument (comma : Position) (argument : Phrase .expression)
      (more : Phrase .moreArguments) : Phrase .moreArguments

namespace Phrase

def tokens : {symbol : Symbol} → Phrase symbol → List Token
  | _, whole body => body.tokens
  | _, operand _ body => body.tokens
  | _, binary left op _ position right => left.tokens ++ .plain op.token position :: right.tokens
  | _, negation keyword body => .plain .notKeyword keyword :: body.tokens
  | _, sign minus body => .plain .minus minus :: body.tokens
  | _, chain object more => object.tokens ++ more.tokens
  | _, literal value position => [value.token position]
  | _, identifier name => [name.token]
  | _, parenthesized opener body closer =>
      .plain .leftParen opener :: (body.tokens ++ [.plain .rightParen closer])
  | _, noSuffix => []
  | _, call opener arguments closer more =>
      .plain .leftParen opener :: (arguments.tokens ++ .plain .rightParen closer :: more.tokens)
  | _, field dot name more => .plain .dot dot :: name.token :: more.tokens
  | _, subscript opener index closer more =>
      .plain .leftSquare opener :: (index.tokens ++ .plain .rightSquare closer :: more.tokens)
  | _, noArgument => []
  | _, firstArgument first more => first.tokens ++ more.tokens
  | _, lastArgument => []
  | _, nextArgument comma argument more =>
      .plain .comma comma :: (argument.tokens ++ more.tokens)

def kinds : List TokenKind :=
  [.notKeyword, .minus, .leftParen, .rightParen, .leftSquare, .rightSquare, .dot, .comma, .integer,
    .float, .string, .trueKeyword, .falseKeyword, .identifier]

theorem forall_kinds {P : TokenKind → Prop} {symbol : Symbol} (phrase : Phrase symbol)
    (hop : ∀ op : BinaryOp, P op.token) (hkinds : ∀ kind ∈ kinds, P kind) :
    ∀ token ∈ phrase.tokens, P token.kind := by
  induction phrase with
  | whole body ih | operand _ body ih => exact ih
  | literal value position =>
      simp only [tokens, List.forall_mem_singleton]
      cases value with
      | boolean value => cases value <;> exact hkinds _ (by simp [kinds, Literal.token, Token.plain])
      | _ =>
          exact hkinds _ (by simp [kinds, Literal.token, Token.integer, Token.float, Token.string])
  | identifier name =>
      simp only [tokens, List.forall_mem_singleton]
      exact hkinds .identifier (by simp [kinds])
  | noSuffix | noArgument | lastArgument => simp [tokens]
  | binary left op h position right ihLeft ihRight =>
      simp only [tokens, List.forall_mem_append, List.forall_mem_cons]
      exact ⟨ihLeft, hop op, ihRight⟩
  | negation keyword body ih | sign minus body ih =>
      simp only [tokens, List.forall_mem_cons]
      exact ⟨hkinds _ (by simp [kinds, Token.plain]), ih⟩
  | chain object more ihObject ihMore | firstArgument first more ihObject ihMore =>
      simp only [tokens, List.forall_mem_append]
      exact ⟨ihObject, ihMore⟩
  | parenthesized opener body closer ih =>
      simp only [tokens, List.forall_mem_append, List.forall_mem_cons]
      exact ⟨hkinds .leftParen (by simp [kinds]), ih, hkinds .rightParen (by simp [kinds]), by simp⟩
  | call opener body closer more ihBody ihMore | subscript opener body closer more ihBody ihMore =>
      simp only [tokens, List.forall_mem_append, List.forall_mem_cons]
      exact ⟨hkinds _ (by simp [kinds, Token.plain]), ihBody,
        hkinds _ (by simp [kinds, Token.plain]), ihMore⟩
  | field dot name more ih =>
      simp only [tokens, List.forall_mem_cons]
      exact ⟨hkinds .dot (by simp [kinds]), hkinds .identifier (by simp [kinds]), ih⟩
  | nextArgument comma argument more ihArgument ihMore =>
      simp only [tokens, List.forall_mem_append, List.forall_mem_cons]
      exact ⟨hkinds .comma (by simp [kinds]), ihArgument, ihMore⟩

def tree : {symbol : Symbol} → Phrase symbol → symbol.Tree
  | _, whole body => body.tree
  | _, operand _ body => body.tree
  | _, binary left op _ _ right => Expr.binary left.tree op right.tree
  | _, negation _ body => Expr.unary .not body.tree
  | _, sign _ body => Expr.unary .negate body.tree
  | _, chain object more => more.tree object.tree
  | _, literal value _ => Expr.literal value
  | _, identifier name => Expr.identifier name
  | _, parenthesized _ body _ => body.tree
  | _, noSuffix => id
  | _, call _ arguments _ more => fun object => more.tree (.call object arguments.tree)
  | _, field _ name more => fun object => more.tree (.field object name)
  | _, subscript _ index _ more => fun object => more.tree (.subscript object index.tree)
  | _, noArgument => []
  | _, firstArgument first more => List.cons first.tree more.tree
  | _, lastArgument => []
  | _, nextArgument _ argument more => List.cons argument.tree more.tree

def depth : {symbol : Symbol} → Phrase symbol → Nat
  | _, whole body => body.depth + 1
  | _, operand _ body => body.depth
  | _, binary left _ _ _ right => max left.depth right.depth
  | _, negation _ body => body.depth + 1
  | _, sign _ body => body.depth + 1
  | _, chain object more => max object.depth more.depth
  | _, literal .. => 0
  | _, identifier _ => 0
  | _, parenthesized _ body _ => body.depth
  | _, noSuffix => 0
  | _, call _ arguments _ more => max arguments.depth more.depth
  | _, field _ _ more => more.depth
  | _, subscript _ index _ more => max index.depth more.depth
  | _, noArgument => 0
  | _, firstArgument first more => max first.depth more.depth
  | _, lastArgument => 0
  | _, nextArgument _ argument more => max argument.depth more.depth

def ofAtom (atom : Phrase (.level .atom)) : Phrase .expression :=
  .whole (.operand rfl (.operand rfl (.operand rfl (.operand rfl (.operand rfl (.operand rfl
    (.operand rfl (.operand rfl (.operand rfl (.chain atom .noSuffix))))))))))

@[simp] theorem tokens_ofAtom (atom : Phrase (.level .atom)) :
    (ofAtom atom).tokens = atom.tokens := by
  simp [ofAtom, tokens]

end Phrase

end Grammar

end Offside
