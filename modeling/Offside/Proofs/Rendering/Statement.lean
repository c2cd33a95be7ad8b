import Offside.Proofs.Grammar.Clause
import Offside.Proofs.Rendering.Lines

/-!
# Rendered statements are read back

The lines of a legible statement are read as a clause for that statement, which is not deeper than
the text is long.
-/

namespace Offside

namespace Scan.Reads

open Grammar (Heading NameList)

variable {text : List Char} {tokens : List Token} {names : List Identifier}
  {position position' : Text.Position}

/-! ## Headers -/

theorem further_names (h : ∀ name ∈ names, name.Legible) :
    Reads (names.flatMap fun name => ',' :: ' ' :: name.name.toList)
      (names.flatMap fun name => [.plain .comma position, name.token]) := by
  induction names with
  | nil => exact nil
  | cons first names ih =>
      have hfirst : Reads (',' :: ' ' :: first.name.toList) [.plain .comma position, first.token] :=
        (name (h first List.mem_cons_self)).comma
      have hmore := ih fun other hother => h other (List.mem_cons_of_mem _ hother)
      exact hfirst.append hmore fun _ => stops_further

theorem parameters (h : ∀ name ∈ names, name.Legible) :
    ∃ parameters? : Option NameList, (parameters?.map NameList.tree).getD [] = names ∧
      Reads ([',', ' '].intercalate (names.map fun name => name.name.toList))
        (Heading.parameterTokens parameters?) := by
  cases names with
  | nil => exact ⟨none, rfl, nil⟩
  | cons first names =>
      refine ⟨some ⟨first, names.map (Prod.mk .start)⟩, ?_, ?_⟩
      · simp [NameList.tree, Function.comp_def]
      · have hfirst := name (h first List.mem_cons_self)
        have hmore := @further_names names .start fun other hother =>
          h other (List.mem_cons_of_mem _ hother)
        rw [List.map_cons, intercalate_cons, List.flatMap_map, Heading.parameterTokens,
          NameList.tokens, List.flatMap_map]
        exact hfirst.append hmore fun _ => stops_further

def typeText : Option Identifier → List Char
  | some type => ':' :: ' ' :: type.name.toList
  | none => []

theorem returnType {type? : Option Identifier} (h : ∀ type ∈ type?, type.Legible) :
    Reads (typeText type?) (Heading.typeTokens (type?.map (Prod.mk .start))) := by
  cases type? with
  | none => exact nil
  | some type => exact @mark _ _ _ (':', .colon) (by decide) (name (h type rfl)).blank

theorem stops_typeText (type? : Option Identifier) {rest : List Char} (h : Stops rest) :
    Stops (typeText type? ++ rest) := by
  cases type? with
  | none => exact h
  | some type => exact stops_of_ne_point (by decide) (by decide) (by decide)

theorem toList_header (header : Header) :
    header.render.toList =
      ("func".toList ++ ' ' :: (header.name.name.toList ++
        (('(' :: ([',', ' '].intercalate (header.parameters.map fun name => name.name.toList) ++
          [')'])) ++ typeText header.returnType?))) ++ [' ', '='] := by
  cases hreturn : header.returnType? <;>
    simp [Header.render, hreturn, typeText, String.toList_intercalate, Function.comp_def]

theorem header {header : Header} (h : header.Legible) :
    ∃ heading : Heading, heading.tree = header ∧
      ReadsLine header.render.toList (heading.tokens ++ [.plain .assign position]) := by
  obtain ⟨parameters?, hparameters, hreads⟩ := parameters h.parameters
  refine ⟨⟨.start, header.name, .start, parameters?, .start,
    header.returnType?.map (Prod.mk .start)⟩, ?_, ?_⟩
  · simp [Heading.tree, hparameters, Function.comp_def]
  · have hlist : Reads ('(' :: ([',', ' '].intercalate
          (header.parameters.map fun name => name.name.toList) ++ [')']))
        (.plain .leftParen .start ::
          (Heading.parameterTokens parameters? ++ [.plain .rightParen .start])) :=
      @bracketed _ _ _ '(' _ rfl hreads
    have hbehind := hlist.append (returnType h.returnType) fun _ => stops_typeText _
    have hname := (name h.name).append hbehind fun _ _ => stops_opener rfl
    have hheader := @behind_keyword _ _ .start .funcKeyword "func" (by decide) hname
    rw [toList_header]
    simpa [Heading.tokens] using hheader.assign

end Scan.Reads

namespace Grammar

open Scan

def Composed (construct : Construct) (depth : Nat) (lines : List String) (tree : construct.Tree) :
    Prop :=
  ∃ clause : Clause construct, clause.tree = tree ∧ clause.depth ≤ (written lines).length ∧
    Laid depth lines clause.tokens

namespace Composed

variable {depth : Nat} {lines lines' : List String} {body : Block} {value condition : Expr}

/-! ## Lines without a block -/

theorem expression (h : value.Readable) (hbegins : Begins value.render.toList) :
    Composed .statement depth [margin depth ++ value.render] (.expression value) := by
  obtain ⟨phrase, rfl, hdepth, hreads⟩ := h.whole (Nat.lt_succ_self _)
  refine ⟨.expression phrase .start, rfl, ?_, .line hbegins hreads.line⟩
  simp only [Clause.depth, written_cons, String.toList_append, List.length_append, List.length_cons]
  omega

theorem ret (h : value.Readable) :
    Composed .statement depth [margin depth ++ ("return " ++ value.render)] (.ret (some value)) := by
  obtain ⟨phrase, rfl, hdepth, hreads⟩ := h.whole (Nat.lt_succ_self _)
  have hline := @Reads.behind_keyword _ _ .start .returnKeyword "return" (by decide) hreads
  have hlead : ("return " ++ phrase.tree.render).toList =
      "return".toList ++ ' ' :: phrase.tree.render.toList := by simp
  have hlaid := @Laid.line depth ("return " ++ phrase.tree.render) _ .start
    (by rw [hlead]; exact ⟨'r', _, rfl, by decide, by decide⟩) (by rw [hlead]; exact hline.line)
  refine ⟨.ret .start (some phrase) .start, rfl, ?_, hlaid⟩
  simp only [Clause.depth, Clause.valueDepth, written_cons, String.toList_append,
    List.length_append, List.length_cons]
  omega

theorem ret_none : Composed .statement depth [margin depth ++ "return"] (.ret none) := by
  have hline : Reads "return".toList [.plain .returnKeyword .start] :=
    .keyword (by decide)
  exact ⟨.ret .start none .start, rfl, Nat.zero_le _,
    .line ⟨'r', _, rfl, by decide, by decide⟩ hline.line⟩

theorem fields {names : List Identifier} (h : ∀ name ∈ names, name.Legible) :
    Laid depth (names.map fun name => margin depth ++ name.name)
      (fieldTokens (names.map fun name => (name, .start))) := by
  induction names with
  | nil => exact .nil
  | cons first names ih =>
      have hfirst := h first List.mem_cons_self
      have hline : Laid depth [margin depth ++ first.name]
          ([first.token] ++ [.plain .newline .start]) :=
        .line hfirst.begins (Reads.name hfirst).line
      have hmore := ih fun other hother => h other (List.mem_cons_of_mem _ hother)
      exact hline.append hmore

/-! ## Lines with a block -/

theorem laid_conditioned {kind : TokenKind} {word lead : String} {text : List Char}
    {tokens tokens' : List Token} (hkeyword : TokenKind.keyword? word = some kind)
    (hlead : lead.toList = word.toList ++ ' ' :: (text ++ [':'])) (h : Reads text tokens)
    (hbody : Laid (depth + 1) lines tokens') (hlines : lines ≠ []) :
    Laid depth ((margin depth ++ lead) :: lines)
      (.plain kind .start :: (tokens ++ (Clause.colonLine .start .start ++
        .plain .indent .start :: (tokens' ++ [.plain .dedent .start])))) := by
  have hcolon : Reads [':'] [.plain .colon .start] :=
    @Reads.mark _ _ _ (':', .colon) (by decide) .nil
  have hcondition := h.append hcolon fun _ _ => stops_of_ne_point (by decide) (by decide) (by decide)
  have hline : Reads lead.toList (.plain kind .start :: (tokens ++ [.plain .colon .start])) := by
    rw [hlead]
    exact hcondition.behind_keyword hkeyword
  have hbegins : Begins lead.toList := by
    obtain ⟨hne, hword⟩ := chars_of_keyword hkeyword
    obtain ⟨c, more, hcons⟩ := List.exists_cons_of_ne_nil hne
    rw [hlead, hcons]
    exact begins_of_isWordChar (hword c (by simp [hcons])).1
  have hlaid := @Laid.block depth _ _ _ _ .start .start .start hbegins hline.line hbody hlines
  simpa [Clause.colonLine] using hlaid

theorem record {name : Identifier} {names : List Identifier} (hname : name.Legible)
    (hnames : ∀ field ∈ names, field.Legible) (hne : names ≠ []) :
    Composed .statement depth
      ((margin depth ++ ("struct " ++ name.name ++ ":")) ::
        names.map fun field => margin (depth + 1) ++ field.name)
      (.record name names) := by
  have hlead : ("struct " ++ name.name ++ ":").toList =
      "struct".toList ++ ' ' :: (name.name.toList ++ [':']) := by simp
  have hkeyword : TokenKind.keyword? "struct" = some .structKeyword := by decide
  have hlaid := laid_conditioned hkeyword hlead (Reads.name hname) (@fields (depth + 1) _ hnames)
    (by simpa using hne)
  refine ⟨.record .start name .start .start .start (names.map fun name => (name, .start)) .start,
    ?_, Nat.zero_le _, hlaid⟩
  simp [Clause.tree, Function.comp_def]

theorem function {header : Header} (hheader : header.Legible)
    (hbody : Composed .statements (depth + 1) lines body) (hlines : lines ≠ []) :
    Composed .statement depth ((margin depth ++ header.render) :: lines)
      (.function header body) := by
  obtain ⟨clause, rfl, hdepth, hlaid⟩ := hbody
  obtain ⟨heading, htree, hline⟩ := @Reads.header .start header hheader
  have hbegins : Begins header.render.toList := by
    rw [Reads.toList_header]
    exact ⟨'f', _, rfl, by decide, by decide⟩
  have hblock := @Laid.block depth _ _ _ _ .start .start .start hbegins hline hlaid hlines
  refine ⟨.function heading .assign (by decide) .start .start (.block .start clause .start), ?_,
    ?_, ?_⟩
  · simp [Clause.tree, htree]
  · simp only [Clause.depth, written_cons, List.length_append, List.length_cons]
    omega
  · simpa [Clause.tokens] using hblock

theorem loop (h : condition.Readable) (hbody : Composed .statements (depth + 1) lines body)
    (hlines : lines ≠ []) :
    Composed .statement depth
      ((margin depth ++ ("while " ++ condition.render ++ ":")) :: lines)
      (.loop condition body) := by
  obtain ⟨clause, rfl, hdepth, hlaid⟩ := hbody
  obtain ⟨phrase, rfl, hphrase, hreads⟩ := h.whole (Nat.lt_succ_self _)
  have hlead : ("while " ++ phrase.tree.render ++ ":").toList =
      "while".toList ++ ' ' :: (phrase.tree.render.toList ++ [':']) := by simp
  refine ⟨.loop .start phrase .start .start (.block .start clause .start), rfl, ?_,
    laid_conditioned (by decide) hlead hreads hlaid hlines⟩
  simp only [Clause.depth, written_cons, String.toList_append, List.length_append, List.length_cons]
  omega

theorem branch {alternative : Alternative} (h : condition.Readable)
    (hbody : Composed .statements (depth + 1) lines body) (hlines : lines ≠ [])
    (halternative : Composed .alternative depth lines' alternative) {kind : TokenKind}
    {word lead : String} (hkeyword : TokenKind.keyword? word = some kind)
    (hlead : lead.toList = word.toList ++ ' ' :: (condition.render.toList ++ [':'])) :
    ∃ chosen : Clause .branch, chosen.tree = (condition, body, alternative) ∧
      chosen.depth ≤ (written ((margin depth ++ lead) :: (lines ++ lines'))).length ∧
      Laid depth ((margin depth ++ lead) :: (lines ++ lines'))
        (.plain kind .start :: chosen.tokens) := by
  obtain ⟨clause, rfl, hdepth, hlaid⟩ := hbody
  obtain ⟨otherwise, rfl, hotherwise, hlaid'⟩ := halternative
  obtain ⟨phrase, rfl, hphrase, hreads⟩ := h.whole (Nat.lt_succ_self _)
  have hblock := laid_conditioned hkeyword hlead hreads hlaid hlines
  refine ⟨.branch phrase .start .start (.block .start clause .start) otherwise, rfl, ?_, ?_⟩
  · simp only [Clause.depth, written_cons, written_append, String.toList_append, hlead,
      List.length_append, List.length_cons]
    omega
  · simpa [Clause.tokens, Clause.colonLine] using hblock.append hlaid'

theorem conditional {alternative : Alternative} (h : condition.Readable)
    (hbody : Composed .statements (depth + 1) lines body) (hlines : lines ≠ [])
    (halternative : Composed .alternative depth lines' alternative) :
    Composed .statement depth
      ((margin depth ++ ("if " ++ condition.render ++ ":")) :: (lines ++ lines'))
      (.conditional condition body alternative) := by
  have hlead : ("if " ++ condition.render ++ ":").toList =
      "if".toList ++ ' ' :: (condition.render.toList ++ [':']) := by simp
  have hkeyword : TokenKind.keyword? "if" = some .ifKeyword := by decide
  obtain ⟨chosen, htree, hdepth, hlaid⟩ := branch h hbody hlines halternative hkeyword hlead
  exact ⟨.conditional .start chosen, by simp [Clause.tree, htree], hdepth, hlaid⟩

/-! ## Alternatives -/

theorem noAlternative : Composed .alternative depth [] (.block []) :=
  ⟨.noAlternative, rfl, Nat.zero_le _, .nil⟩

theorem elif {alternative : Alternative} (h : condition.Readable)
    (hbody : Composed .statements (depth + 1) lines body) (hlines : lines ≠ [])
    (halternative : Composed .alternative depth lines' alternative) :
    Composed .alternative depth
      ((margin depth ++ ("elif " ++ condition.render ++ ":")) :: (lines ++ lines'))
      (.conditional condition body alternative) := by
  have hlead : ("elif " ++ condition.render ++ ":").toList =
      "elif".toList ++ ' ' :: (condition.render.toList ++ [':']) := by simp
  have hkeyword : TokenKind.keyword? "elif" = some .elifKeyword := by decide
  obtain ⟨chosen, htree, hdepth, hlaid⟩ := branch h hbody hlines halternative hkeyword hlead
  exact ⟨.elif .start chosen, by simp [Clause.tree, htree], hdepth, hlaid⟩

theorem otherwise (hbody : Composed .statements (depth + 1) lines body) (hlines : lines ≠ []) :
    Composed .alternative depth ((margin depth ++ "else:") :: lines) (.block body) := by
  obtain ⟨clause, rfl, hdepth, hlaid⟩ := hbody
  have hcolon : Reads [':'] [.plain .colon .start] :=
    @Reads.mark _ _ _ (':', .colon) (by decide) .nil
  have hline : Reads "else:".toList [.plain .elseKeyword .start, .plain .colon .start] :=
    (@Reads.keyword .start .elseKeyword "else" (by decide)).append hcolon
      fun _ _ => stops_of_ne_point (by decide) (by decide) (by decide)
  refine ⟨.otherwise .start .start .start (.block .start clause .start), rfl, ?_,
    .block ⟨'e', _, rfl, by decide, by decide⟩ hline.line hlaid hlines⟩
  simp only [Clause.depth, written_cons, List.length_append, List.length_cons]
  omega

/-! ## Blocks -/

theorem noStatement : Composed .statements depth [] [] :=
  ⟨.noStatement, rfl, Nat.zero_le _, .nil⟩

theorem nextStatement {stmt : Stmt} (h : Composed .statement depth lines stmt)
    (hmore : Composed .statements depth lines' body) :
    Composed .statements depth (lines ++ lines') (stmt :: body) := by
  obtain ⟨first, rfl, hdepth, hlaid⟩ := h
  obtain ⟨more, rfl, hdepth', hlaid'⟩ := hmore
  refine ⟨.nextStatement first more, rfl, ?_, hlaid.append hlaid'⟩
  simp only [Clause.depth, written_append, List.length_append]
  omega

end Composed

end Grammar

open Grammar (Composed)

/-! ## Statements -/

theorem Stmt.lines_ne_nil (depth : Nat) (stmt : Stmt) : stmt.lines depth ≠ [] := by
  cases stmt with
  | ret value? => cases value? <;> simp [Stmt.lines]
  | _ => simp [Stmt.lines]

theorem Block.lines_ne_nil (depth : Nat) {block : Block} (h : block ≠ []) :
    Block.lines depth block ≠ [] := by
  cases block with
  | nil => exact absurd rfl h
  | cons stmt rest => simp [Block.lines, Stmt.lines_ne_nil]

mutual

theorem Stmt.Legible.composed : ∀ (stmt : Stmt) (depth : Nat), stmt.Legible →
    Composed .statement depth (stmt.lines depth) stmt
  | .expression value, depth, h => by
      have hvalue : value.Legible := h
      simpa only [Stmt.lines] using
        Composed.expression (Expr.Legible.readable value hvalue) (value.begins hvalue)
  | .function header body, depth, h => by
      obtain ⟨hheader, hne, hbody⟩ := h
      exact .function hheader (Block.Legible.composed body _ hbody) (Block.lines_ne_nil _ hne)
  | .conditional condition body alternative, depth, h => by
      obtain ⟨hcondition, hne, hbody, halternative⟩ := h
      have hcomposed := Composed.conditional (Expr.Legible.readable condition hcondition)
        (Block.Legible.composed body (depth + 1) hbody) (Block.lines_ne_nil _ hne)
        (Alternative.Legible.composed alternative depth halternative)
      simpa only [Stmt.lines, String.append_assoc] using hcomposed
  | .loop condition body, depth, h => by
      obtain ⟨hcondition, hne, hbody⟩ := h
      have hcomposed := Composed.loop (Expr.Legible.readable condition hcondition)
        (Block.Legible.composed body (depth + 1) hbody) (Block.lines_ne_nil _ hne)
      simpa only [Stmt.lines, String.append_assoc] using hcomposed
  | .ret (some value), depth, h => by
      have hvalue : value.Legible := h
      have hcomposed := @Composed.ret depth _ (Expr.Legible.readable value hvalue)
      simpa only [Stmt.lines, String.append_assoc] using hcomposed
  | .ret none, depth, _ => .ret_none
  | .record name fields, depth, h => by
      obtain ⟨hname, hne, hfields⟩ := h
      have hcomposed := @Composed.record depth _ _ hname hfields hne
      simpa only [Stmt.lines, String.append_assoc] using hcomposed

theorem Block.Legible.composed : ∀ (block : List Stmt) (depth : Nat), Block.Legible block →
    Composed .statements depth (Block.lines depth block) block
  | [], _, _ => .noStatement
  | stmt :: rest, depth, h =>
      .nextStatement (Stmt.Legible.composed stmt depth h.1)
        (Block.Legible.composed rest depth h.2)

theorem Alternative.Legible.composed : ∀ (alternative : Alternative) (depth : Nat),
    alternative.Legible → Composed .alternative depth (alternative.lines depth) alternative
  | .block [], _, _ => .noAlternative
  | .block (first :: rest), depth, h => by
      have hcomposed := Composed.otherwise (Block.Legible.composed (first :: rest) (depth + 1) h)
        (Block.lines_ne_nil _ (List.cons_ne_nil first rest))
      simpa only [Alternative.lines, Block.lines] using hcomposed
  | .conditional condition body alternative, depth, h => by
      obtain ⟨hcondition, hne, hbody, halternative⟩ := h
      have hcomposed := Composed.elif (Expr.Legible.readable condition hcondition)
        (Block.Legible.composed body (depth + 1) hbody) (Block.lines_ne_nil _ hne)
        (Alternative.Legible.composed alternative depth halternative)
      simpa only [Alternative.lines, String.append_assoc] using hcomposed

end

end Offside
