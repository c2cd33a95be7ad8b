/-!
# Kinds of tokens

A kind is what the grammar sees of a token.  Keywords, operators and punctuation have one fixed
spelling each; structural tokens, literals and names have none.
-/

namespace Offside

inductive TokenKind where
  | indent | dedent | newline | eof | error
  | integer | float | string | identifier | trueKeyword | falseKeyword
  | funcKeyword | structKeyword | ifKeyword | elifKeyword | elseKeyword | whileKeyword
  | forKeyword | andKeyword | orKeyword | notKeyword | returnKeyword
  | plus | plusAssign | minus | minusAssign | times | timesAssign | divide | divideAssign
  | modulo | moduloAssign | power | powerAssign
  | equal | notEqual | less | greater | lessEqual | greaterEqual | assign
  | leftParen | rightParen | leftSquare | rightSquare | leftBrace | rightBrace | colon | comma
  | dot
deriving DecidableEq, Inhabited

namespace TokenKind

def all : List TokenKind :=
  [.indent, .dedent, .newline, .eof, .error, .integer, .float, .string, .identifier, .trueKeyword,
    .falseKeyword, .funcKeyword, .structKeyword, .ifKeyword, .elifKeyword, .elseKeyword,
    .whileKeyword, .forKeyword, .andKeyword, .orKeyword, .notKeyword, .returnKeyword, .plus,
    .plusAssign, .minus, .minusAssign, .times, .timesAssign, .divide, .divideAssign, .modulo,
    .moduloAssign, .power, .powerAssign, .equal, .notEqual, .less, .greater, .lessEqual,
    .greaterEqual, .assign, .leftParen, .rightParen, .leftSquare, .rightSquare, .leftBrace,
    .rightBrace, .colon, .comma, .dot]

def name : TokenKind → String
  | .indent => "Indent"
  | .dedent => "Dedent"
  | .newline => "Newline"
  | .eof => "Eof"
  | .error => "Error"
  | .integer => "Integer"
  | .float => "Float"
  | .string => "String"
  | .identifier => "Identifier"
  | .trueKeyword => "True"
  | .falseKeyword => "False"
  | .funcKeyword => "Function"
  | .structKeyword => "Struct"
  | .ifKeyword => "If"
  | .elifKeyword => "ElseIf"
  | .elseKeyword => "Else"
  | .whileKeyword => "While"
  | .forKeyword => "ForEach"
  | .andKeyword => "And"
  | .orKeyword => "Or"
  | .notKeyword => "Not"
  | .returnKeyword => "Return"
  | .plus => "Plus"
  | .plusAssign => "PlusAssign"
  | .minus => "Minus"
  | .minusAssign => "MinusAssign"
  | .times => "Multiply"
  | .timesAssign => "MultiplyAssign"
  | .divide => "Divide"
  | .divideAssign => "DivideAssign"
  | .modulo => "Modulo"
  | .moduloAssign => "ModuloAssign"
  | .power => "Exponent"
  | .powerAssign => "ExponentAssign"
  | .equal => "Equal"
  | .notEqual => "NotEqual"
  | .less => "LessThan"
  | .greater => "GreaterThan"
  | .lessEqual => "LessThanOrEqual"
  | .greaterEqual => "GreaterThanOrEqual"
  | .assign => "Assignment"
  | .leftParen => "LParen"
  | .rightParen => "RParen"
  | .leftSquare => "LSquare"
  | .rightSquare => "RSquare"
  | .leftBrace => "LBrace"
  | .rightBrace => "RBrace"
  | .colon => "Colon"
  | .comma => "Comma"
  | .dot => "Dot"

/-- The number of a kind; each group of kinds starts at a multiple of ten. -/
def code : TokenKind → Nat
  | .indent => 0
  | .dedent => 1
  | .newline => 2
  | .eof => 3
  | .error => 4
  | .integer => 10
  | .float => 11
  | .string => 12
  | .identifier => 13
  | .trueKeyword => 14
  | .falseKeyword => 15
  | .funcKeyword => 20
  | .structKeyword => 21
  | .ifKeyword => 22
  | .elifKeyword => 23
  | .elseKeyword => 24
  | .whileKeyword => 25
  | .forKeyword => 26
  | .andKeyword => 27
  | .orKeyword => 28
  | .notKeyword => 29
  | .returnKeyword => 30
  | .plus => 40
  | .plusAssign => 41
  | .minus => 42
  | .minusAssign => 43
  | .times => 44
  | .timesAssign => 45
  | .divide => 46
  | .divideAssign => 47
  | .modulo => 48
  | .moduloAssign => 49
  | .power => 50
  | .powerAssign => 51
  | .equal => 60
  | .notEqual => 61
  | .less => 62
  | .greater => 63
  | .lessEqual => 64
  | .greaterEqual => 65
  | .assign => 66
  | .leftParen => 80
  | .rightParen => 81
  | .leftSquare => 82
  | .rightSquare => 83
  | .leftBrace => 84
  | .rightBrace => 85
  | .colon => 86
  | .comma => 87
  | .dot => 88

def lexeme? : TokenKind → Option String
  | .trueKeyword => some "true"
  | .falseKeyword => some "false"
  | .funcKeyword => some "func"
  | .structKeyword => some "struct"
  | .ifKeyword => some "if"
  | .elifKeyword => some "elif"
  | .elseKeyword => some "else"
  | .whileKeyword => some "while"
  | .forKeyword => some "for"
  | .andKeyword => some "and"
  | .orKeyword => some "or"
  | .notKeyword => some "not"
  | .returnKeyword => some "return"
  | .plus => some "+"
  | .plusAssign => some "+="
  | .minus => some "-"
  | .minusAssign => some "-="
  | .times => some "*"
  | .timesAssign => some "*="
  | .divide => some "/"
  | .divideAssign => some "/="
  | .modulo => some "%"
  | .moduloAssign => some "%="
  | .power => some "**"
  | .powerAssign => some "**="
  | .equal => some "=="
  | .notEqual => some "!="
  | .less => some "<"
  | .greater => some ">"
  | .lessEqual => some "<="
  | .greaterEqual => some ">="
  | .assign => some "="
  | .leftParen => some "("
  | .rightParen => some ")"
  | .leftSquare => some "["
  | .rightSquare => some "]"
  | .leftBrace => some "\x7b"
  | .rightBrace => some "\x7d"
  | .colon => some ":"
  | .comma => some ","
  | .dot => some "."
  | _ => none

/-! ## Keywords -/

def keywords : List TokenKind :=
  [.funcKeyword, .structKeyword, .ifKeyword, .elifKeyword, .elseKeyword, .whileKeyword,
    .forKeyword, .andKeyword, .orKeyword, .notKeyword, .trueKeyword, .falseKeyword,
    .returnKeyword]

def isKeyword (kind : TokenKind) : Bool := keywords.contains kind

def keyword? (word : String) : Option TokenKind :=
  keywords.find? fun kind => kind.lexeme? == some word

/-- The keywords that stand only at the start of a statement. -/
def startsStatement : TokenKind → Bool
  | .funcKeyword | .ifKeyword | .whileKeyword | .structKeyword | .returnKeyword => true
  | _ => false

def isAssignment : TokenKind → Bool
  | .assign | .plusAssign | .minusAssign | .timesAssign | .divideAssign | .moduloAssign
  | .powerAssign => true
  | _ => false

def describe (kind : TokenKind) : String :=
  match kind.lexeme? with
  | some text => "'" ++ text ++ "'"
  | none =>
      match kind with
      | .indent => "indent"
      | .dedent => "dedent"
      | .newline => "newline"
      | .eof => "end of input"
      | .error => "invalid token"
      | .integer => "integer"
      | .float => "float"
      | .string => "string"
      | .identifier => "identifier"
      | other => other.name

theorem mem_all (kind : TokenKind) : kind ∈ all := by cases kind <;> decide

theorem keyword?_lexeme {kind : TokenKind} {word : String} (h : keyword? word = some kind) :
    kind.isKeyword = true ∧ kind.lexeme? = some word := by
  have mem := List.mem_of_find?_eq_some h
  have found := List.find?_some h
  exact ⟨List.contains_iff_mem.2 mem, beq_iff_eq.1 found⟩

end TokenKind

end Offside
