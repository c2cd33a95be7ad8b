import Offside.Token.Kind

/-!
# Operators and levels of precedence

Each binary operator belongs to one level of the expression grammar.  The levels are listed from the
loosest to the tightest.
-/

namespace Offside

inductive UnaryOp where
  | negate
  | not
deriving DecidableEq

def UnaryOp.name : UnaryOp → String
  | negate => "Negate"
  | not => "Not"

inductive BinaryOp where
  | assign | addAssign | subAssign | mulAssign | divAssign | modAssign | powAssign
  | or | and
  | eq | ne | lt | gt | le | ge
  | add | sub
  | mul | div | mod
  | pow
deriving DecidableEq

inductive BinaryKind where
  | assignment | logical | comparison | sum | product | power
deriving DecidableEq

def BinaryKind.name : BinaryKind → String
  | assignment => "Assignment"
  | logical => "Logical"
  | comparison => "Comparison"
  | sum => "Sum"
  | product => "Product"
  | power => "Power"

inductive Level where
  | assignment | disjunction | conjunction | negation | comparison | sum | product | sign | power
  | suffix | atom
deriving DecidableEq

namespace BinaryOp

def token : BinaryOp → TokenKind
  | assign => .assign
  | addAssign => .plusAssign
  | subAssign => .minusAssign
  | mulAssign => .timesAssign
  | divAssign => .divideAssign
  | modAssign => .moduloAssign
  | powAssign => .powerAssign
  | or => .orKeyword
  | and => .andKeyword
  | eq => .equal
  | ne => .notEqual
  | lt => .less
  | gt => .greater
  | le => .lessEqual
  | ge => .greaterEqual
  | add => .plus
  | sub => .minus
  | mul => .times
  | div => .divide
  | mod => .modulo
  | pow => .power

def ofKind? : TokenKind → Option BinaryOp
  | .assign => some assign
  | .plusAssign => some addAssign
  | .minusAssign => some subAssign
  | .timesAssign => some mulAssign
  | .divideAssign => some divAssign
  | .moduloAssign => some modAssign
  | .powerAssign => some powAssign
  | .orKeyword => some or
  | .andKeyword => some and
  | .equal => some eq
  | .notEqual => some ne
  | .less => some lt
  | .greater => some gt
  | .lessEqual => some le
  | .greaterEqual => some ge
  | .plus => some add
  | .minus => some sub
  | .times => some mul
  | .divide => some div
  | .modulo => some mod
  | .power => some pow
  | _ => none

def name : BinaryOp → String
  | assign => "Assign"
  | addAssign => "AddAssign"
  | subAssign => "SubAssign"
  | mulAssign => "MulAssign"
  | divAssign => "DivAssign"
  | modAssign => "ModAssign"
  | powAssign => "PowAssign"
  | or => "Or"
  | and => "And"
  | eq => "Eq"
  | ne => "Ne"
  | lt => "Lt"
  | gt => "Gt"
  | le => "Le"
  | ge => "Ge"
  | add => "Add"
  | sub => "Sub"
  | mul => "Mul"
  | div => "Div"
  | mod => "Mod"
  | pow => "Pow"

def symbol (op : BinaryOp) : String := op.token.lexeme?.getD ""

def kind : BinaryOp → BinaryKind
  | assign | addAssign | subAssign | mulAssign | divAssign | modAssign | powAssign => .assignment
  | or | and => .logical
  | eq | ne | lt | gt | le | ge => .comparison
  | add | sub => .sum
  | mul | div | mod => .product
  | pow => .power

def level : BinaryOp → Level
  | assign | addAssign | subAssign | mulAssign | divAssign | modAssign | powAssign => .assignment
  | or => .disjunction
  | and => .conjunction
  | eq | ne | lt | gt | le | ge => .comparison
  | add | sub => .sum
  | mul | div | mod => .product
  | pow => .power

theorem ofKind?_token (op : BinaryOp) : ofKind? op.token = some op := by cases op <;> rfl

theorem token_of_ofKind? {kind : TokenKind} {op : BinaryOp} (h : ofKind? kind = some op) :
    op.token = kind := by
  cases kind <;> first | (injection h with h; subst h; rfl) | exact absurd h (by simp [ofKind?])

end BinaryOp

namespace Level

/-- The level of the operands on the left of this level's operators. -/
def tighter : Level → Level
  | assignment => disjunction
  | disjunction => conjunction
  | conjunction => negation
  | negation => comparison
  | comparison => sum
  | sum => product
  | product => sign
  | sign => power
  | power => suffix
  | suffix => atom
  | atom => atom

/-- The level of the operand on the right: the level itself, so that operators associate to the
right, except that the exponent of a power may carry a sign. -/
def right : Level → Level
  | power => sign
  | level => level

def operator? (level : Level) (kind : TokenKind) : Option BinaryOp :=
  (BinaryOp.ofKind? kind).filter fun op => op.level = level

end Level

end Offside
