import Offside.Proofs.Grammar.WellFormed
import Offside.Proofs.Rendering.Legible

/-!
# Trees of texts are legible

A tree is legible if its names and literals are and every block of it has a statement.  Names of texts
are words, their integers have no sign, and no block in them is closed as soon as it is opened, so a
tree of a text is legible if its literals are exact.
-/

namespace Offside

/-! ## Expressions -/

mutual

theorem Expr.legible : ∀ expr : Expr, (∀ name ∈ expr.names, name.Legible) →
    (∀ value ∈ expr.literals, value.Legible) → expr.Legible
  | .literal _, _, hliterals => by simpa [Expr.Legible] using hliterals
  | .identifier _, hnames, _ => by simpa [Expr.Legible] using hnames
  | .unary _ operand, hnames, hliterals => by
      simp only [Expr.Legible]
      exact legible operand (by simpa using hnames) (by simpa using hliterals)
  | .binary left _ right, hnames, hliterals => by
      simp only [Expr.names, Expr.literals, List.forall_mem_append] at hnames hliterals
      simp only [Expr.Legible]
      exact ⟨legible left hnames.1 hliterals.1, legible right hnames.2 hliterals.2⟩
  | .call callee arguments, hnames, hliterals => by
      simp only [Expr.names, Expr.literals, List.forall_mem_append] at hnames hliterals
      simp only [Expr.Legible]
      exact ⟨legible callee hnames.1 hliterals.1, legibleAll arguments hnames.2 hliterals.2⟩
  | .field object name, hnames, hliterals => by
      simp only [Expr.names, List.forall_mem_append, List.forall_mem_singleton] at hnames
      simp only [Expr.Legible]
      exact ⟨legible object hnames.1 (by simpa using hliterals), hnames.2⟩
  | .subscript object index, hnames, hliterals => by
      simp only [Expr.names, Expr.literals, List.forall_mem_append] at hnames hliterals
      simp only [Expr.Legible]
      exact ⟨legible object hnames.1 hliterals.1, legible index hnames.2 hliterals.2⟩

theorem Expr.legibleAll : ∀ exprs : List Expr, (∀ name ∈ Expr.namesAll exprs, name.Legible) →
    (∀ value ∈ Expr.literalsAll exprs, value.Legible) → Expr.LegibleAll exprs
  | [], _, _ => by simp only [Expr.LegibleAll]
  | expr :: rest, hnames, hliterals => by
      simp only [Expr.namesAll, Expr.literalsAll, List.forall_mem_append] at hnames hliterals
      simp only [Expr.LegibleAll]
      exact ⟨legible expr hnames.1 hliterals.1, legibleAll rest hnames.2 hliterals.2⟩

end

/-! ## Statements -/

theorem Header.legible {header : Header} (h : ∀ name ∈ header.names, name.Legible) :
    header.Legible := by
  simp only [Header.names, List.forall_mem_cons, List.forall_mem_append] at h
  exact ⟨h.1, h.2.1, by simpa using h.2.2⟩

mutual

theorem Stmt.legible : ∀ stmt : Stmt, stmt.Filled → (∀ name ∈ stmt.names, name.Legible) →
    (∀ value ∈ stmt.literals, value.Legible) → stmt.Legible
  | .expression value, _, hnames, hliterals => by
      simp only [Stmt.Legible]
      exact value.legible (by simpa using hnames) (by simpa using hliterals)
  | .function header body, hfilled, hnames, hliterals => by
      simp only [Stmt.Filled] at hfilled
      simp only [Stmt.names, List.forall_mem_append] at hnames
      simp only [Stmt.Legible]
      exact ⟨Header.legible hnames.1, hfilled.1,
        Block.legible body hfilled.2 hnames.2 (by simpa using hliterals)⟩
  | .conditional condition body alternative, hfilled, hnames, hliterals => by
      simp only [Stmt.Filled] at hfilled
      simp only [Stmt.names, Stmt.literals, List.forall_mem_append] at hnames hliterals
      simp only [Stmt.Legible]
      exact ⟨condition.legible hnames.1 hliterals.1, hfilled.1,
        Block.legible body hfilled.2.1 hnames.2.1 hliterals.2.1,
        Alternative.legible alternative hfilled.2.2 hnames.2.2 hliterals.2.2⟩
  | .loop condition body, hfilled, hnames, hliterals => by
      simp only [Stmt.Filled] at hfilled
      simp only [Stmt.names, Stmt.literals, List.forall_mem_append] at hnames hliterals
      simp only [Stmt.Legible]
      exact ⟨condition.legible hnames.1 hliterals.1, hfilled.1,
        Block.legible body hfilled.2 hnames.2 hliterals.2⟩
  | .ret (some value), _, hnames, hliterals => by
      simp only [Stmt.Legible]
      exact value.legible (by simpa using hnames) (by simpa using hliterals)
  | .ret none, _, _, _ => by simp only [Stmt.Legible]
  | .record name fields, hfilled, hnames, _ => by
      simp only [Stmt.Filled] at hfilled
      simp only [Stmt.names, List.forall_mem_cons] at hnames
      simp only [Stmt.Legible]
      exact ⟨hnames.1, hfilled, hnames.2⟩

theorem Block.legible : ∀ block : List Stmt, Block.Filled block →
    (∀ name ∈ Block.names block, name.Legible) →
      (∀ value ∈ Block.literals block, value.Legible) → Block.Legible block
  | [], _, _, _ => by simp only [Block.Legible]
  | stmt :: rest, hfilled, hnames, hliterals => by
      simp only [Block.Filled] at hfilled
      simp only [Block.names, Block.literals, List.forall_mem_append] at hnames hliterals
      simp only [Block.Legible]
      exact ⟨Stmt.legible stmt hfilled.1 hnames.1 hliterals.1,
        Block.legible rest hfilled.2 hnames.2 hliterals.2⟩

theorem Alternative.legible : ∀ alternative : Alternative, alternative.Filled →
    (∀ name ∈ alternative.names, name.Legible) →
      (∀ value ∈ alternative.literals, value.Legible) → alternative.Legible
  | .block body, hfilled, hnames, hliterals => by
      simp only [Alternative.Filled] at hfilled
      simp only [Alternative.Legible]
      exact Block.legible body hfilled (by simpa using hnames) (by simpa using hliterals)
  | .conditional condition body alternative, hfilled, hnames, hliterals => by
      simp only [Alternative.Filled] at hfilled
      simp only [Alternative.names, Alternative.literals, List.forall_mem_append] at hnames hliterals
      simp only [Alternative.Legible]
      exact ⟨condition.legible hnames.1 hliterals.1, hfilled.1,
        Block.legible body hfilled.2.1 hnames.2.1 hliterals.2.1,
        Alternative.legible alternative hfilled.2.2 hnames.2.2 hliterals.2.2⟩

end

/-! ## Trees of texts -/

theorem Literal.Given.inRange {value : Literal} (h : value.Given) : value.InRange := by
  cases value with
  | integer value => exact h
  | _ => trivial

variable {text : String} {config : RunConfig} {block : Block}

/-- A text that is parsed without an error has a legible tree, if its literals are exact. -/
theorem legible_of_parse (h : parse text config = .ok ⟨block, []⟩)
    (hexact : ∀ value ∈ Block.literals block, value.Exact) : Block.Legible block := by
  apply Block.legible block (Block.filled_of_parse h)
  · exact fun name hname => Identifier.word_of_parse h hname
  · exact fun value hvalue => ⟨hexact value hvalue, (Literal.given_of_parse h hvalue).inRange⟩

end Offside
