import Offside.Proofs.Parsing.Invariants
import Offside.Proofs.Scanning.Shape
import Offside.Proofs.Scanning.Spelling

/-!
# Trees of texts are well-formed

The grammar has empty blocks, and its names and integers are any.  But a text opens a block only in
front of a line with content, and its tokens have words for names and sized numbers for integers, so
the trees that are read from texts do, too.
-/

namespace Offside

open Parse (Parsed)
open Scan (Scanner Word)

/-! ## Filled blocks -/

mutual

def Stmt.Filled : Stmt → Prop
  | .expression _ | .ret _ => True
  | .function _ body => body ≠ [] ∧ Block.Filled body
  | .conditional _ body alternative => body ≠ [] ∧ Block.Filled body ∧ alternative.Filled
  | .loop _ body => body ≠ [] ∧ Block.Filled body
  | .record _ fields => fields ≠ []

def Block.Filled : List Stmt → Prop
  | [] => True
  | stmt :: rest => stmt.Filled ∧ Block.Filled rest

def Alternative.Filled : Alternative → Prop
  | .block body => Block.Filled body
  | .conditional _ body alternative => body ≠ [] ∧ Block.Filled body ∧ alternative.Filled

end

namespace Grammar

variable {construct : Construct} {tokens front back : List Token} {token : Token}

def OpensFilled (tokens : List Token) : Prop :=
  ∀ first second, [first, second] <:+: tokens → first.kind = .indent → second.kind ≠ .dedent

namespace OpensFilled

theorem left (h : OpensFilled (front ++ back)) : OpensFilled front :=
  fun first second hpair => h first second (hpair.trans (List.prefix_append front back).isInfix)

theorem right (h : OpensFilled (front ++ back)) : OpensFilled back :=
  fun first second hpair => h first second (hpair.trans (List.suffix_append front back).isInfix)

theorem tail (h : OpensFilled (token :: back)) : OpensFilled back := @right [token] back h

theorem ne_nil {opening closing : Text.Position}
    (h : OpensFilled (.plain .indent opening :: (front ++ [.plain .dedent closing]))) :
    front ≠ [] := by
  rintro rfl
  exact h _ _ (List.infix_refl _) rfl rfl

end OpensFilled

def Construct.Filled : (construct : Construct) → construct.Tree → Prop
  | .statements, tree => Block.Filled tree
  | .statement, tree => Stmt.Filled tree
  | .block, tree => tree ≠ [] ∧ Block.Filled tree
  | .branch, tree => tree.2.1 ≠ [] ∧ Block.Filled tree.2.1 ∧ tree.2.2.Filled
  | .alternative, tree => Alternative.Filled tree

theorem Clause.filled (clause : Clause construct) (h : OpensFilled clause.tokens) :
    construct.Filled clause.tree := by
  induction clause with
  | noStatement => simp only [Construct.Filled, tree, Block.Filled]
  | nextStatement first more ihfirst ihmore =>
      simp only [Construct.Filled, tree, Block.Filled]
      exact ⟨ihfirst h.left, ihmore h.right⟩
  | expression value line => simp only [Construct.Filled, tree, Stmt.Filled]
  | ret keyword value? line => simp only [Construct.Filled, tree, Stmt.Filled]
  | record keyword name colon line opening fields closing =>
      simp only [Construct.Filled, tree, Stmt.Filled]
      intro hnil
      apply h.tail.tail.right.ne_nil
      rw [List.map_eq_nil_iff.1 hnil]
      rfl
  | function heading marker _ position line body ih =>
      simp only [Construct.Filled, tree, Stmt.Filled]
      exact ih h.right.tail.tail
  | loop keyword condition colon line body ih =>
      simp only [Construct.Filled, tree, Stmt.Filled]
      exact ih h.tail.right.right
  | conditional keyword chosen ih =>
      simp only [Construct.Filled, tree, Stmt.Filled]
      exact ih h.tail
  | block opening body closing ih =>
      refine ⟨?_, ih h.tail.left⟩
      cases body with
      | noStatement => exact absurd rfl h.ne_nil
      | nextStatement first more => simp [tree]
  | branch condition colon line body alternative ihbody ihalternative =>
      obtain ⟨hne, hbody⟩ := ihbody h.right.right.left
      exact ⟨hne, hbody, ihalternative h.right.right.right⟩
  | noAlternative => simp only [Construct.Filled, tree, Alternative.Filled, Block.Filled]
  | elif keyword chosen ih =>
      simp only [Construct.Filled, tree, Alternative.Filled]
      exact ih h.tail
  | otherwise keyword colon line body ih =>
      simp only [Construct.Filled, tree, Alternative.Filled]
      exact (ih h.tail.right).2

end Grammar

/-! ## Tokens of texts -/

namespace Scan

variable {place place' : Place} {front back : List Token} {first second : Token}

theorem Place.ne_start_behind {kind : TokenKind} (h : place.behind? kind = some place') :
    place' ≠ .start := by
  rintro rfl
  unfold Place.behind? at h
  grind

theorem Shaped.ne_dedent_behind_indent
    (h : Shaped place ((front ++ first :: second :: back).map .ok)) (hplace : place ≠ .start)
    (hindent : first.kind = .indent) : second.kind ≠ .dedent := by
  induction front generalizing place with
  | nil =>
      obtain ⟨middle, hfirst, after, hsecond, -⟩ := h
      intro hdedent
      rw [hindent] at hfirst
      rw [hdedent] at hsecond
      cases place <;> first | contradiction | (cases hfirst; contradiction)
  | cons token front ih =>
      obtain ⟨place', hbehind, hrest⟩ := h
      exact ih hrest (Place.ne_start_behind hbehind)

end Scan

/-! ## Literals of tokens -/

def Literal.Given : Literal → Prop
  | .integer value => 0 ≤ value ∧ value < Scan.integerLimit
  | .float value =>
      ∃ numerator denominator, 0 < denominator ∧ value = .ofQuotient false numerator denominator
  | .boolean _ | .string _ => True

theorem Literal.given_of_inRange {kind : TokenKind} {token : Token} {value : Literal}
    (h : token.InRange) (hvalue : Parse.Parser.literalOf? kind token = some value) :
    value.Given := by
  unfold Parse.Parser.literalOf? at hvalue
  split at hvalue
  · split at hvalue
    · cases hvalue
      exact h _ ‹token.payload? = some _›
    · cases hvalue
      exact h _ ‹token.payload? = some _›
    · cases hvalue
      trivial
    · cases hvalue
      trivial
    · cases hvalue
      trivial
    · cases hvalue
  · cases hvalue

/-! ## Trees of texts -/

variable {text : String} {config : RunConfig} {parsed : Parsed}

theorem Identifier.word_of_parse (h : parse text config = .ok parsed) {name : Identifier}
    (hname : name ∈ Block.names parsed.block) : Word name.name := by
  have hresult := (Parse.Outcome.of_parsed (parsed_of_parse h)).1
  obtain ⟨token, htoken, hpayload, -⟩ := (Parse.drawnFrom_of_parseStream hresult).name name hname
  exact (Scanner.given_of_mem_outcomes _ token htoken).inRange _ hpayload

/-- The literals of a program are those of its text, whatever the parser has recovered from. -/
theorem Literal.given_of_parse (h : parse text config = .ok parsed) {value : Literal}
    (hvalue : value ∈ Block.literals parsed.block) : value.Given := by
  have hresult := (Parse.Outcome.of_parsed (parsed_of_parse h)).1
  obtain ⟨token, kind, htoken, hliteral⟩ :=
    (Parse.drawnFrom_of_parseStream hresult).literal value hvalue
  exact Literal.given_of_inRange (Scanner.given_of_mem_outcomes _ token htoken).inRange hliteral

theorem Block.filled_of_parse {block : Block} (h : parse text config = .ok ⟨block, []⟩) :
    Block.Filled block := by
  obtain ⟨program, rfl, houtcomes, -⟩ := parse_eq_ok.1 h
  apply program.body.filled
  have hshaped := Scan.Scanner.outcomes_ofText_shaped text config.tabWidth
  rw [houtcomes] at hshaped
  obtain ⟨place, hplace, hrest⟩ := hshaped
  rintro first second ⟨front, back, htokens⟩ hindent
  rw [← htokens, List.append_assoc, List.append_assoc] at hrest
  exact hrest.ne_dedent_behind_indent (Scan.Place.ne_start_behind hplace) hindent

/-- Names of a program are words that are no keywords and integers are sized, also if the parser has
recovered from errors; if it has not, every block has a statement, and every record a field. -/
theorem wellFormed_of_parse (h : parse text config = .ok parsed) :
    (∀ name ∈ Block.names parsed.block,
      name.name ≠ "" ∧ (∀ c ∈ name.name.toList, isReserved c = false) ∧
        (∀ c ∈ name.name.toList.head?, c.isDigit = false) ∧
          TokenKind.keyword? name.name = none) ∧
      (∀ value, .integer value ∈ Block.literals parsed.block →
        0 ≤ value ∧ value ≤ 9223372036854775807) ∧
      (parsed.errors = [] → Block.Filled parsed.block) := by
  refine ⟨fun name hname => ?_, fun value hvalue => ?_, fun herrors => ?_⟩
  · obtain ⟨hchars, ⟨c, more, hfirst, hdigit⟩, hkeyword⟩ := Identifier.word_of_parse h hname
    refine ⟨?_, fun c hc => ?_, ?_, hkeyword⟩
    · intro hempty
      simp [hempty] at hfirst
    · simpa [isWordChar] using hchars c hc
    · simpa [hfirst] using hdigit
  · obtain ⟨hsign, hlimit⟩ := Literal.given_of_parse h hvalue
    exact ⟨hsign, Int.le_of_lt_add_one hlimit⟩
  · obtain ⟨block, errors⟩ := parsed
    obtain rfl : errors = [] := herrors
    exact Block.filled_of_parse h

/-- A function, a loop in it and a record. -/
theorem wellFormed_of_parse_clean :
    ∃ parsed, parse "func f(a) =\n    while a:\n        7\nstruct p:\n    x\n" .default = .ok parsed ∧
      (Block.names parsed.block).map (·.name) = ["f", "a", "a", "p", "x"] ∧
      (∀ name ∈ Block.names parsed.block, TokenKind.keyword? name.name = none) ∧
      Block.literals parsed.block = [.integer 7] ∧ (7 : Int) ≤ 9223372036854775807 ∧
      Block.Filled parsed.block := by
  have hvalue :
      (parse "func f(a) =\n    while a:\n        7\nstruct p:\n    x\n" .default).toOption.map
        (fun parsed => (parsed.errors, (Block.names parsed.block).map (·.name),
          Block.literals parsed.block)) = some ([], ["f", "a", "a", "p", "x"], [.integer 7]) := by
    decide +kernel
  cases hparse : parse "func f(a) =\n    while a:\n        7\nstruct p:\n    x\n" .default with
  | error failure =>
      rw [hparse] at hvalue
      contradiction
  | ok parsed =>
      rw [hparse] at hvalue
      obtain ⟨herrors, hrest⟩ := Prod.mk.inj (Option.some.inj hvalue)
      obtain ⟨hnames, hliterals⟩ := Prod.mk.inj hrest
      obtain ⟨hwords, hsized, hfilled⟩ := wellFormed_of_parse hparse
      have hseven : .integer 7 ∈ Block.literals parsed.block := by simp [hliterals]
      exact ⟨parsed, rfl, hnames, fun name hname => (hwords name hname).2.2.2, hliterals,
        (hsized 7 hseven).2, hfilled herrors⟩

end Offside
