import Offside.Parse.Expression
import Offside.Proofs.Rendering.Legible

/-!
# The leaves of a tree

All that a tree keeps of its tokens are its names, with their positions, and its literals.  A tree is
drawn from tokens if each name and each literal of it is what one of these tokens carries.
-/

namespace Offside

/-! ## Names -/

mutual

/-- The names in an expression, from left to right. -/
def Expr.names : Expr → List Identifier
  | .literal _ => []
  | .identifier name => [name]
  | .unary _ operand => operand.names
  | .binary left _ right => left.names ++ right.names
  | .call callee arguments => callee.names ++ Expr.namesAll arguments
  | .field object name => object.names ++ [name]
  | .subscript object index => object.names ++ index.names

def Expr.namesAll : List Expr → List Identifier
  | [] => []
  | expr :: rest => expr.names ++ Expr.namesAll rest

end

attribute [simp] Expr.names Expr.namesAll

def Header.names (header : Header) : List Identifier :=
  header.name :: (header.parameters ++ header.returnType?.toList)

mutual

def Stmt.names : Stmt → List Identifier
  | .expression value => value.names
  | .function header body => header.names ++ Block.names body
  | .conditional condition body alternative =>
      condition.names ++ (Block.names body ++ alternative.names)
  | .loop condition body => condition.names ++ Block.names body
  | .ret (some value) => value.names
  | .ret none => []
  | .record name fields => name :: fields

def Block.names : List Stmt → List Identifier
  | [] => []
  | stmt :: rest => stmt.names ++ Block.names rest

def Alternative.names : Alternative → List Identifier
  | .block body => Block.names body
  | .conditional condition body alternative =>
      condition.names ++ (Block.names body ++ alternative.names)

end

attribute [simp] Stmt.names Block.names Alternative.names
attribute [simp] Expr.literals Expr.literalsAll Stmt.literals Block.literals Alternative.literals

/-! ## Where leaves come from -/

def Identifier.DrawnFrom (tokens : Token → Prop) (name : Identifier) : Prop :=
  ∃ token, tokens token ∧ token.payload? = some (.identifier name.name) ∧
    token.position = name.position

def Literal.DrawnFrom (tokens : Token → Prop) (value : Literal) : Prop :=
  ∃ token kind, tokens token ∧ Parse.Parser.literalOf? kind token = some value

structure DrawnFrom (tokens : Token → Prop) (names : List Identifier) (values : List Literal) :
    Prop where
  name : ∀ name ∈ names, name.DrawnFrom tokens
  literal : ∀ value ∈ values, value.DrawnFrom tokens

namespace DrawnFrom

variable {tokens : Token → Prop} {names names' : List Identifier} {values values' : List Literal}

theorem nil : DrawnFrom tokens [] [] := ⟨by simp, by simp⟩

theorem append (h : DrawnFrom tokens names values) (h' : DrawnFrom tokens names' values') :
    DrawnFrom tokens (names ++ names') (values ++ values') where
  name := List.forall_mem_append.2 ⟨h.name, h'.name⟩
  literal := List.forall_mem_append.2 ⟨h.literal, h'.literal⟩

theorem of_names (h : ∀ name ∈ names, name.DrawnFrom tokens) : DrawnFrom tokens names [] :=
  ⟨h, by simp⟩

end DrawnFrom

def Expr.DrawnFrom (tokens : Token → Prop) (expr : Expr) : Prop :=
  Offside.DrawnFrom tokens expr.names expr.literals

def Expr.AllDrawnFrom (tokens : Token → Prop) (exprs : List Expr) : Prop :=
  Offside.DrawnFrom tokens (Expr.namesAll exprs) (Expr.literalsAll exprs)

def Header.DrawnFrom (tokens : Token → Prop) (header : Header) : Prop :=
  ∀ name ∈ header.names, name.DrawnFrom tokens

def Stmt.DrawnFrom (tokens : Token → Prop) (stmt : Stmt) : Prop :=
  Offside.DrawnFrom tokens stmt.names stmt.literals

def Block.DrawnFrom (tokens : Token → Prop) (block : Block) : Prop :=
  Offside.DrawnFrom tokens (Block.names block) (Block.literals block)

def Alternative.DrawnFrom (tokens : Token → Prop) (alternative : Alternative) : Prop :=
  Offside.DrawnFrom tokens alternative.names alternative.literals

variable {tokens : Token → Prop}

/-! ## Expressions -/

namespace Expr

variable {expr left right callee object index : Expr} {arguments : List Expr}

theorem drawnFrom_literal {value : Literal} (h : value.DrawnFrom tokens) :
    (literal value).DrawnFrom tokens :=
  ⟨by simp, by simpa using h⟩

theorem drawnFrom_identifier {name : Identifier} (h : name.DrawnFrom tokens) :
    (identifier name).DrawnFrom tokens :=
  ⟨by simpa using h, by simp⟩

theorem DrawnFrom.unary (h : expr.DrawnFrom tokens) (op : UnaryOp) :
    (Expr.unary op expr).DrawnFrom tokens := by
  simpa only [Expr.DrawnFrom, names, literals] using h

theorem DrawnFrom.binary (hleft : left.DrawnFrom tokens) (op : BinaryOp)
    (hright : right.DrawnFrom tokens) : (Expr.binary left op right).DrawnFrom tokens := by
  simpa only [Expr.DrawnFrom, names, literals] using hleft.append hright

theorem DrawnFrom.call (hcallee : callee.DrawnFrom tokens)
    (harguments : AllDrawnFrom tokens arguments) :
    (Expr.call callee arguments).DrawnFrom tokens := by
  simpa only [Expr.DrawnFrom, names, literals] using hcallee.append harguments

theorem DrawnFrom.field {name : Identifier} (hobject : object.DrawnFrom tokens)
    (hname : name.DrawnFrom tokens) : (Expr.field object name).DrawnFrom tokens := by
  have hnames := Offside.DrawnFrom.of_names (List.forall_mem_singleton.2 hname)
  simpa only [Expr.DrawnFrom, names, literals, List.append_nil] using hobject.append hnames

theorem DrawnFrom.subscript (hobject : object.DrawnFrom tokens) (hindex : index.DrawnFrom tokens) :
    (Expr.subscript object index).DrawnFrom tokens := by
  simpa only [Expr.DrawnFrom, names, literals] using hobject.append hindex

theorem allDrawnFrom_nil : AllDrawnFrom tokens [] := .nil

theorem DrawnFrom.cons (h : expr.DrawnFrom tokens) (hrest : AllDrawnFrom tokens arguments) :
    AllDrawnFrom tokens (expr :: arguments) := by
  simpa only [AllDrawnFrom, namesAll, literalsAll] using h.append hrest

end Expr

/-! ## Statements -/

section

variable {stmt : Stmt} {condition value : Expr} {body rest : Block} {alternative : Alternative}
  {header : Header}

theorem Stmt.drawnFrom_expression (h : value.DrawnFrom tokens) :
    (Stmt.expression value).DrawnFrom tokens := by
  simpa only [Stmt.DrawnFrom, Expr.DrawnFrom, Stmt.names, Stmt.literals] using h

theorem Stmt.drawnFrom_function (hheader : header.DrawnFrom tokens)
    (hbody : Block.DrawnFrom tokens body) : (Stmt.function header body).DrawnFrom tokens := by
  have hnames := Offside.DrawnFrom.of_names hheader
  simpa only [Stmt.DrawnFrom, Stmt.names, Stmt.literals, List.nil_append] using hnames.append hbody

theorem Stmt.drawnFrom_conditional (hcondition : condition.DrawnFrom tokens)
    (hbody : Block.DrawnFrom tokens body) (halternative : alternative.DrawnFrom tokens) :
    (Stmt.conditional condition body alternative).DrawnFrom tokens := by
  simpa only [Stmt.DrawnFrom, Stmt.names, Stmt.literals] using
    hcondition.append (hbody.append halternative)

theorem Stmt.drawnFrom_loop (hcondition : condition.DrawnFrom tokens)
    (hbody : Block.DrawnFrom tokens body) : (Stmt.loop condition body).DrawnFrom tokens := by
  simpa only [Stmt.DrawnFrom, Stmt.names, Stmt.literals] using hcondition.append hbody

theorem Stmt.drawnFrom_ret {value? : Option Expr} (h : ∀ value ∈ value?, value.DrawnFrom tokens) :
    (Stmt.ret value?).DrawnFrom tokens := by
  cases value? with
  | none => simpa only [Stmt.DrawnFrom, Stmt.names, Stmt.literals] using .nil
  | some value =>
      simpa only [Stmt.DrawnFrom, Expr.DrawnFrom, Stmt.names, Stmt.literals] using h value rfl

theorem Stmt.drawnFrom_record {name : Identifier} {fields : List Identifier}
    (hname : name.DrawnFrom tokens) (hfields : ∀ field ∈ fields, field.DrawnFrom tokens) :
    (Stmt.record name fields).DrawnFrom tokens := by
  have hnames := Offside.DrawnFrom.of_names (List.forall_mem_cons.2 ⟨hname, hfields⟩)
  simpa only [Stmt.DrawnFrom, Stmt.names, Stmt.literals] using hnames

theorem Header.drawnFrom {name : Identifier} {parameters : List Identifier}
    {returnType? : Option Identifier} (hname : name.DrawnFrom tokens)
    (hparameters : ∀ parameter ∈ parameters, parameter.DrawnFrom tokens)
    (hreturn : ∀ type ∈ returnType?, type.DrawnFrom tokens) :
    Header.DrawnFrom tokens ⟨name, parameters, returnType?⟩ :=
  List.forall_mem_cons.2 ⟨hname, List.forall_mem_append.2 ⟨hparameters, by simpa using hreturn⟩⟩

theorem Block.drawnFrom_nil : Block.DrawnFrom tokens [] := by
  simpa only [Block.DrawnFrom, Block.names, Block.literals] using .nil

theorem Stmt.DrawnFrom.cons (hstmt : stmt.DrawnFrom tokens) (hrest : Block.DrawnFrom tokens rest) :
    Block.DrawnFrom tokens (stmt :: rest) := by
  simpa only [Block.DrawnFrom, Block.names, Block.literals] using hstmt.append hrest

theorem Alternative.drawnFrom_block (h : Block.DrawnFrom tokens body) :
    (Alternative.block body).DrawnFrom tokens := by
  simpa only [Alternative.DrawnFrom, Block.DrawnFrom, Alternative.names, Alternative.literals]
    using h

theorem Alternative.drawnFrom_elif
    (h : (Stmt.conditional condition body alternative).DrawnFrom tokens) :
    (Alternative.conditional condition body alternative).DrawnFrom tokens := by
  simpa only [Alternative.DrawnFrom, Alternative.names, Alternative.literals, Stmt.DrawnFrom,
    Stmt.names, Stmt.literals] using h

end

end Offside
