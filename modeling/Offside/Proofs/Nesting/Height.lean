import Offside.Proofs.Nesting.Bounded
import Offside.Proofs.Rendering.RoundTrip

/-!
# The limit of nesting does not bound the height

Prefix operators, blocks and whole expressions enter a level of nesting.  Right operands of binary
operators, `elif` parts and suffixes do not, although each of them puts the tree before it, or the
tree behind it, one node deeper.  So there are programs as high as one likes that are nested one level
deep, and the limit bounds the height only where it forbids all expressions and blocks.
-/

namespace Offside

open Grammar (Clause Phrase Printed Level.Contains)
open Parse
open Scan

/-! ## Heights -/

mutual

/-- The most expressions that are nested in one another. -/
def Expr.height : Expr → Nat
  | .literal _ => 1
  | .identifier _ => 1
  | .unary _ operand => operand.height + 1
  | .binary left _ right => max left.height right.height + 1
  | .call callee arguments => max callee.height (Expr.heightAll arguments) + 1
  | .field object _ => object.height + 1
  | .subscript object index => max object.height index.height + 1

def Expr.heightAll : List Expr → Nat
  | [] => 0
  | expr :: rest => max expr.height (Expr.heightAll rest)

end

mutual

def Stmt.height : Stmt → Nat
  | .expression value => value.height + 1
  | .function _ body => Block.height body + 1
  | .conditional condition body alternative =>
      max condition.height (max (Block.height body) alternative.height) + 1
  | .loop condition body => max condition.height (Block.height body) + 1
  | .ret (some value) => value.height + 1
  | .ret none => 1
  | .record _ _ => 1

def Block.height : List Stmt → Nat
  | [] => 0
  | stmt :: rest => max stmt.height (Block.height rest)

def Alternative.height : Alternative → Nat
  | .block body => Block.height body
  | .conditional condition body alternative =>
      max condition.height (max (Block.height body) alternative.height) + 1

end

/-! ### Heights do not depend on positions -/

mutual

theorem Expr.height_bare : ∀ expr : Expr, expr.bare.height = expr.height
  | .literal _ => by simp only [Expr.bare]
  | .identifier _ => by simp only [Expr.bare, Expr.height]
  | .unary _ operand => by simp only [Expr.bare, Expr.height, height_bare operand]
  | .binary left _ right => by
      simp only [Expr.bare, Expr.height, height_bare left, height_bare right]
  | .call callee arguments => by
      simp only [Expr.bare, Expr.height, height_bare callee, heightAll_bareAll arguments]
  | .field object _ => by simp only [Expr.bare, Expr.height, height_bare object]
  | .subscript object index => by
      simp only [Expr.bare, Expr.height, height_bare object, height_bare index]

theorem Expr.heightAll_bareAll : ∀ exprs : List Expr,
    Expr.heightAll (Expr.bareAll exprs) = Expr.heightAll exprs
  | [] => by simp only [Expr.bareAll]
  | expr :: rest => by
      simp only [Expr.bareAll, Expr.heightAll, height_bare expr, heightAll_bareAll rest]

end

mutual

theorem Stmt.height_bare : ∀ stmt : Stmt, stmt.bare.height = stmt.height
  | .expression value => by simp only [Stmt.bare, Stmt.height, value.height_bare]
  | .function _ body => by simp only [Stmt.bare, Stmt.height, Block.height_bare body]
  | .conditional condition body alternative => by
      simp only [Stmt.bare, Stmt.height, condition.height_bare, Block.height_bare body,
        alternative.height_bare]
  | .loop condition body => by
      simp only [Stmt.bare, Stmt.height, condition.height_bare, Block.height_bare body]
  | .ret (some value) => by
      simp only [Stmt.bare, Option.map_some, Stmt.height, value.height_bare]
  | .ret none => by simp only [Stmt.bare, Option.map_none, Stmt.height]
  | .record _ _ => by simp only [Stmt.bare, Stmt.height]

theorem Block.height_bare : ∀ block : List Stmt, Block.height (Block.bare block) = Block.height block
  | [] => by simp only [Block.bare]
  | stmt :: rest => by
      simp only [Block.bare, Block.height, stmt.height_bare, Block.height_bare rest]

theorem Alternative.height_bare : ∀ alternative : Alternative,
    alternative.bare.height = alternative.height
  | .block body => by simp only [Alternative.bare, Alternative.height, Block.height_bare body]
  | .conditional condition body alternative => by
      simp only [Alternative.bare, Alternative.height, condition.height_bare,
        Block.height_bare body, alternative.height_bare]

end

theorem Stmt.height_of_levels {stmt : Stmt} (h : stmt.levels = 0) : stmt.height = 1 := by
  cases stmt with
  | ret value? =>
      cases value? with
      | none => simp only [Stmt.height]
      | some value => simp at h
  | record name fields => simp only [Stmt.height]
  | _ => simp at h

theorem Block.height_of_levels {block : Block} (h : Block.levels block = 0) :
    Block.height block ≤ 1 := by
  induction block with
  | nil => simp [Block.height]
  | cons stmt rest ih =>
      simp only [Block.levels, Nat.max_eq_zero_iff] at h
      rw [Block.height, Stmt.height_of_levels h.1]
      exact Nat.max_le.2 ⟨Nat.le_refl 1, ih h.2⟩

/-! ## Chains of operators -/

def chainName : Identifier := ⟨"x", .start⟩

theorem legible_chainName : chainName.Legible :=
  word_iff.2 (by decide)

/-- As many times an operator as given, with names for operands. -/
def BinaryOp.chain (op : BinaryOp) : Nat → String
  | 0 => "x"
  | count + 1 => "x " ++ op.symbol ++ " " ++ op.chain count

def BinaryOp.chainTree (op : BinaryOp) : Nat → Expr
  | 0 => .identifier chainName
  | count + 1 => .binary (.identifier chainName) op (op.chainTree count)

theorem BinaryOp.height_chainTree (op : BinaryOp) (count : Nat) :
    (op.chainTree count).height = count + 1 := by
  induction count with
  | zero => simp only [chainTree, Expr.height]
  | succ count ih =>
      rw [chainTree, Expr.height, ih, Expr.height]
      omega

theorem BinaryOp.printed_chain (op : BinaryOp) (count : Nat) :
    Printed (.level op.level) (op.chain count).toList (op.chainTree count) 0 := by
  have hname : Printed (.level .suffix) "x".toList (.identifier chainName) 0 :=
    Printed.identifier legible_chainName
  induction count with
  | zero => exact hname.lift (by cases op <;> decide)
  | succ count ih =>
      have hleft := hname.lift (show op.level.tighter ≠ .atom by cases op <;> decide)
      have hright : Level.Contains op.level.right op.level := by
        cases op <;> first | exact .self _ | exact .inner rfl (.self _)
      have htext : (op.chain (count + 1)).toList =
          "x".toList ++ ' ' :: (op.symbol.toList ++ ' ' :: (op.chain count).toList) := by
        simp [chain]
      rw [htext]
      exact hleft.operation (ih.contained hright)

/-! ## Chains of fields -/

def fieldChain : Nat → String
  | 0 => "x"
  | count + 1 => fieldChain count ++ ".x"

def fieldChainTree : Nat → Expr
  | 0 => .identifier chainName
  | count + 1 => .field (fieldChainTree count) chainName

theorem height_fieldChainTree (count : Nat) : (fieldChainTree count).height = count + 1 := by
  induction count with
  | zero => simp only [fieldChainTree, Expr.height]
  | succ count ih => rw [fieldChainTree, Expr.height, ih]

theorem printed_fieldChain (count : Nat) :
    Printed (.level .suffix) (fieldChain count).toList (fieldChainTree count) 0 := by
  induction count with
  | zero => exact Printed.identifier legible_chainName
  | succ count ih =>
      rw [fieldChain, String.toList_append]
      exact ih.field legible_chainName

/-! ## Lines of expressions -/

theorem parse_expressionLine {text : String} {tree : Expr} {here : Level} {config : RunConfig}
    (hbegins : Begins text.toList) (hhere : here ≠ .atom)
    (h : Printed (.level here) text.toList tree 0) (hlimit : 1 ≤ config.parser.maxDepth) :
    ∃ block, parse (text ++ "\n") config = .ok ⟨block, []⟩ ∧
      Block.height block = tree.height + 1 := by
  obtain ⟨phrase, rfl, hdepth, hreads⟩ := h.whole hhere
  let clause : Clause .statements := .nextStatement (.expression phrase .start) .noStatement
  have htext : (text ++ "\n").toList = written [margin 0 ++ text] := by
    simp [written, toList_margin]
  have hscans : Scans (AtMargin (written [margin 0 ++ text] ++ []) 0) clause.tokens (AtMargin [] 0) := by
    rw [show clause.tokens = phrase.tokens ++ [.plain .newline .start] by
      simp [clause, Clause.tokens]]
    exact scans_line (by decide) hbegins hreads.line margined_nil (Nat.le_refl 0)
  have hmargined := @margined_cons 0 text [] hbegins []
  rw [List.append_nil, ← htext] at hscans hmargined
  have hlimit' : clause.depth ≤ config.parser.maxDepth := by
    simp only [clause, Clause.depth]
    omega
  obtain ⟨block, hparse, hbare⟩ := clause.parse_of_scans hmargined hscans hlimit'
  refine ⟨block, hparse, ?_⟩
  rw [← Block.height_bare, hbare, Block.height_bare]
  simp [clause, Clause.tree, Block.height, Stmt.height]

/-! ### The chains are parsed -/

theorem BinaryOp.begins_chain (op : BinaryOp) (count : Nat) : Begins (op.chain count).toList := by
  cases count with
  | zero => exact ⟨'x', [], by simp [chain], by decide, by decide⟩
  | succ count =>
      have htext : (op.chain (count + 1)).toList =
          'x' :: (' ' :: (op.symbol ++ " " ++ op.chain count).toList) := by
        simp [chain]
      exact ⟨'x', _, htext, by decide, by decide⟩

theorem begins_fieldChain (count : Nat) : Begins (fieldChain count).toList := by
  induction count with
  | zero => exact ⟨'x', [], by simp [fieldChain], by decide, by decide⟩
  | succ count ih =>
      rw [fieldChain, String.toList_append]
      exact ih.append

theorem parse_operatorChain {config : RunConfig} (op : BinaryOp) (count : Nat)
    (hlimit : 1 ≤ config.parser.maxDepth) :
    ∃ block, parse (op.chain count ++ "\n") config = .ok ⟨block, []⟩ ∧
      Block.height block = count + 2 := by
  rw [show count + 2 = (op.chainTree count).height + 1 by rw [op.height_chainTree]]
  exact parse_expressionLine (op.begins_chain count) (by cases op <;> decide)
    (op.printed_chain count) hlimit

theorem parse_fieldChain {config : RunConfig} (count : Nat) (hlimit : 1 ≤ config.parser.maxDepth) :
    ∃ block, parse (fieldChain count ++ "\n") config = .ok ⟨block, []⟩ ∧
      Block.height block = count + 2 := by
  rw [show count + 2 = (fieldChainTree count).height + 1 by rw [height_fieldChainTree]]
  exact parse_expressionLine (begins_fieldChain count) (by decide) (printed_fieldChain count) hlimit

/-! ## Chains of conditions -/

def elifChain : Nat → Alternative
  | 0 => .block []
  | count + 1 => .conditional (.identifier chainName) [.ret none] (elifChain count)

def conditionalChain (count : Nat) : Stmt :=
  .conditional (.identifier chainName) [.ret none] (elifChain count)

theorem height_conditionalChain (count : Nat) : (conditionalChain count).height = count + 2 := by
  have helif : (elifChain count).height = if count = 0 then 0 else count + 1 := by
    induction count with
    | zero => simp [elifChain, Alternative.height, Block.height]
    | succ count ih =>
        rw [elifChain, Alternative.height, ih, if_neg (Nat.succ_ne_zero count)]
        simp only [Expr.height, Block.height, Stmt.height]
        split <;> omega
  rw [conditionalChain, Stmt.height, helif]
  simp only [Expr.height, Block.height, Stmt.height]
  split <;> omega

theorem exists_branch {kind : TokenKind} {word : String} {alternative : Clause .alternative}
    {lines : List String} {content : List Char}
    (hkeyword : TokenKind.keyword? word = some kind) (hword : Begins word.toList)
    (hdepth : alternative.depth ≤ 1) (hmargined : Margined (written lines) 0 content)
    (h : Scans (AtMargin (written lines) 0) alternative.tokens (AtMargin [] 0)) :
    ∃ chosen : Clause .branch,
      chosen.tree = (.identifier chainName, [.ret none], alternative.tree) ∧ chosen.depth ≤ 1 ∧
      (∃ content, Margined (written ((margin 0 ++ (word ++ " x:")) :: (margin 1 ++ "return") :: lines))
        0 content) ∧
      Scans (AtMargin (written ((margin 0 ++ (word ++ " x:")) :: (margin 1 ++ "return") :: lines)) 0)
        (.plain kind .start :: chosen.tokens) (AtMargin [] 0) := by
  obtain ⟨phrase, htree, hphrase, hreads⟩ :=
    Printed.whole (by decide) (Printed.identifier legible_chainName)
  have hcolon : Reads [':'] [.plain .colon .start] :=
    @Reads.mark _ _ _ (':', .colon) (by decide) .nil
  have hcondition := hreads.append hcolon
    fun _ _ => stops_of_ne_point (by decide) (by decide) (by decide)
  have hline : Reads (word ++ " x:").toList
      (.plain kind .start :: (phrase.tokens ++ [.plain .colon .start])) := by
    rw [String.toList_append]
    exact hcondition.behind_keyword hkeyword
  have hlead : Begins (word ++ " x:").toList := by
    rw [String.toList_append]
    exact hword.append
  have hbegins : Begins "return".toList := ⟨'r', _, rfl, by decide, by decide⟩
  have hreturn : Reads "return".toList [.plain .returnKeyword .start] := Reads.keyword (by decide)
  have hbody := @scans_line 1 _ _ _ _ _ .start (by decide) hbegins hreturn.line hmargined
    (Nat.zero_le 1)
  have hblock := @scans_block 0 _ _ _ _ _ _ _ .start .start .start (by decide) hlead hline.line
    (leads_cons hbegins) hbody hmargined (Nat.le_refl 0)
  refine ⟨.branch phrase .start .start
    (.block .start (.nextStatement (.ret .start none .start) .noStatement) .start) alternative,
    by simp [Clause.tree, htree], ?_, ?_, ?_⟩
  · simp only [Clause.depth, Clause.valueDepth]
    omega
  · have hwhole := @margined_cons 0 _ ((margin 1 ++ "return") :: lines) hlead []
    rw [List.append_nil] at hwhole
    exact ⟨_, hwhole⟩
  · have hscans := hblock.trans h
    rw [← written_append] at hscans
    simpa [Clause.tokens, Clause.colonLine, Clause.valueTokens] using hscans

theorem exists_elifs (count : Nat) :
    ∃ clause : Clause .alternative, clause.tree = elifChain count ∧ clause.depth ≤ 1 ∧
      (∃ content, Margined (written ((elifChain count).lines 0)) 0 content) ∧
      Scans (AtMargin (written ((elifChain count).lines 0)) 0) clause.tokens (AtMargin [] 0) := by
  induction count with
  | zero => exact ⟨.noAlternative, rfl, Nat.zero_le 1, ⟨[], margined_nil⟩, .refl _⟩
  | succ count ih =>
      obtain ⟨alternative, htree, hdepth, ⟨content, hmargined⟩, hscans⟩ := ih
      obtain ⟨chosen, hchosen, hdepth', hmargined', hscans'⟩ :=
        exists_branch (show TokenKind.keyword? "elif" = some .elifKeyword by decide)
          ⟨'e', _, rfl, by decide, by decide⟩ hdepth hmargined hscans
      have hlines : (elifChain (count + 1)).lines 0 =
          (margin 0 ++ ("elif" ++ " x:")) :: (margin 1 ++ "return") :: (elifChain count).lines 0 := by
        simp [elifChain, Alternative.lines, Block.lines, Stmt.lines, Expr.render, chainName]
        rfl
      rw [hlines]
      exact ⟨.elif .start chosen, by simp [Clause.tree, hchosen, htree, elifChain], hdepth',
        hmargined', hscans'⟩

theorem parse_conditionalChain {config : RunConfig} (count : Nat)
    (hlimit : 1 ≤ config.parser.maxDepth) :
    ∃ block, parse (conditionalChain count).render config = .ok ⟨block, []⟩ ∧
      Block.height block = count + 2 := by
  obtain ⟨alternative, htree, hdepth, ⟨content, hmargined⟩, hscans⟩ := exists_elifs count
  obtain ⟨chosen, hchosen, hdepth', ⟨content', hmargined'⟩, hscans'⟩ :=
    exists_branch (show TokenKind.keyword? "if" = some .ifKeyword by decide)
      ⟨'i', _, rfl, by decide, by decide⟩ hdepth hmargined hscans
  let clause : Clause .statements := .nextStatement (.conditional .start chosen) .noStatement
  have htext : (conditionalChain count).render.toList =
      written ((margin 0 ++ ("if" ++ " x:")) :: (margin 1 ++ "return") ::
        (elifChain count).lines 0) := by
    rw [Stmt.render, toList_unlines]
    simp [conditionalChain, Stmt.lines, Block.lines, Expr.render, chainName]
    rfl
  rw [← htext] at hmargined' hscans'
  have hlimit' : clause.depth ≤ config.parser.maxDepth := by
    simp only [clause, Clause.depth]
    omega
  obtain ⟨block, hparse, hbare⟩ := clause.parse_of_scans hmargined'
    (by simpa [clause, Clause.tokens] using hscans') hlimit'
  refine ⟨block, hparse, ?_⟩
  rw [← Block.height_bare, hbare, Block.height_bare]
  simpa [clause, Clause.tree, hchosen, htree, Block.height, conditionalChain] using
    height_conditionalChain count

/-! ## The limit and the height -/

/-- Where expressions are allowed at all, the height is bounded by no number; where they are not, there
is nothing but single statements. -/
theorem height_bounded_iff (config : RunConfig) :
    (∃ bound, ∀ text parsed, parse text config = .ok parsed →
      Block.height parsed.block ≤ bound) ↔ config.parser.maxDepth = 0 := by
  constructor
  · rintro ⟨bound, hbound⟩
    rcases Nat.eq_zero_or_pos config.parser.maxDepth with hnone | hlimit
    · exact hnone
    · obtain ⟨block, hparse, hheight⟩ := parse_operatorChain .add bound hlimit
      have hle := hbound _ _ hparse
      simp only [hheight] at hle
      omega
  · intro hlimit
    refine ⟨1, fun text parsed hparse => Block.height_of_levels ?_⟩
    have hlevels := levels_of_parseStream (Outcome.of_parsed (parsed_of_parse hparse)).1
    rw [hlimit] at hlevels
    exact Nat.le_zero.1 hlevels

/-- The sum of sixty names is nested one level deep and sixty-one nodes high, and no function of the
limit bounds the height. -/
theorem not_exists_height_bound :
    (∃ block, parse (BinaryOp.add.chain 59 ++ "\n") .default = .ok ⟨block, []⟩ ∧
      Block.height block = 61) ∧
    ¬∃ bound : Nat → Nat, ∀ text config parsed, parse text config = .ok parsed →
      Block.height parsed.block ≤ bound config.parser.maxDepth := by
  refine ⟨parse_operatorChain .add 59 (by decide), ?_⟩
  rintro ⟨bound, hbound⟩
  have hlimit : 1 ≤ RunConfig.default.parser.maxDepth := by decide
  obtain ⟨block, hparse, hheight⟩ :=
    parse_conditionalChain (bound RunConfig.default.parser.maxDepth) hlimit
  have hle := hbound _ _ _ hparse
  simp only [hheight] at hle
  omega

end Offside
