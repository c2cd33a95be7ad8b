import Offside.Proofs.Rendering.Legibility
import Offside.Proofs.Rendering.Statement

/-!
# A rendered program is parsed to itself

The rendering of a legible block is a text of the grammar.  Its program stands for the same block up
to positions, and is rendered to the same text.  What a text without errors stands for is legible,
unless it has a literal that a rendering does not keep.
-/

namespace Offside

open Grammar (Program Respelled)
open Parse
open Scan

theorem Scan.Scanner.outcomes_of_scans {text : String} {content : List Char} {tokens : List Token}
    (hmargined : Margined text.toList 0 content)
    (h : Scans (AtMargin text.toList 0) tokens (AtMargin [] 0)) (tabWidth : UInt64) :
    ∃ spelled : List Token,
      Respelled (.plain .indent .start ::
        (tokens ++ [.plain .dedent .start, .plain .eof .start])) spelled ∧
      (Scanner.ofText text tabWidth).outcomes = spelled.map .ok := by
  have hstart : AtStart text.toList (widths 0) (Scanner.opened text tabWidth) :=
    ⟨rfl, rfl, rfl, rfl, rfl, rfl⟩
  have hsettle := scans_settle (by decide) hmargined (Nat.le_refl 0)
  have hover : Scans (AtMargin [] 0) [.plain .dedent .start, .plain .eof .start]
      fun scanner => scanner.outcomes = [] := scans_over
  obtain ⟨spelled, after, hspelled, houtcomes, -, hover⟩ :=
    hsettle.silent (h.trans hover) _ hstart
  refine ⟨.plain .indent .start :: spelled, Grammar.respelled_plain.2 ⟨_, _, rfl, hspelled⟩, ?_⟩
  rw [Scanner.outcomes_ofText_eq, houtcomes, hover, List.append_nil, List.map_cons]

theorem Scan.margined_line {lead : List Char}
    (h : ∃ c more, lead = c :: more ∧ Text.isBlank c = false) :
    Margined (lead ++ ['\n']) 0 (lead ++ ['\n']) := by
  obtain ⟨c, more, rfl, hblank⟩ := h
  refine ⟨rfl, by simp, ?_⟩
  rintro d hd
  cases hd
  exact hblank

def Scan.fileTokens (tokens : List Token) : List Token :=
  .plain .indent .start ::
    (tokens ++ [.plain .newline .start, .plain .dedent .start, .plain .eof .start])

theorem Scan.tokenize_line {text : String} {lead : List Char} {tokens : List Token}
    (hfirst : ∃ c more, lead = c :: more ∧ Text.isBlank c = false)
    (htext : text.toList = lead ++ ['\n'])
    (h : Scans (InLine (lead ++ ['\n']) [] [0]) tokens (InLine ['\n'] [] [0])) (config : RunConfig) :
    ∃ spelled, tokenize text config = .ok spelled ∧ Respelled (fileTokens tokens) spelled := by
  have hmargined := margined_line hfirst
  have hbehind : Scans (InLine ['\n'] [] (widths 0)) [.plain .newline .start] (AtMargin [] 0) :=
    scans_newline.trans (scans_settle (by decide) margined_nil (Nat.le_refl 0))
  have hscans := (scans_enter hmargined (by simp)).silent (h.trans hbehind)
  rw [← htext] at hmargined hscans
  obtain ⟨spelled, hspelled, houtcomes⟩ := Scanner.outcomes_of_scans hmargined hscans config.tabWidth
  rw [List.append_assoc] at hspelled
  exact ⟨spelled, tokenize_eq_ok.2 houtcomes, hspelled⟩

/-- A text that is scanned to the tokens of a clause is parsed to what the clause stands for. -/
theorem Grammar.Clause.parse_of_scans {text : String} {config : RunConfig} {content : List Char}
    (clause : Grammar.Clause .statements) (hmargined : Margined text.toList 0 content)
    (h : Scans (AtMargin text.toList 0) clause.tokens (AtMargin [] 0))
    (hdepth : clause.depth ≤ config.parser.maxDepth) :
    ∃ block, parse text config = .ok ⟨block, []⟩ ∧ Block.bare block = Block.bare clause.tree := by
  obtain ⟨spelled, hspelled, hitems⟩ := Scanner.outcomes_of_scans hmargined h config.tabWidth
  obtain ⟨program, htokens, htree, hprogram⟩ :=
    Program.exists_respelled ⟨.start, clause, .start, .start⟩ hspelled
  refine ⟨program.tree, parse_eq_ok.2 ⟨program, rfl, by rw [hitems, htokens], ?_⟩, htree⟩
  rw [Program.depth, hprogram]
  exact hdepth

theorem Block.Legible.parse_render {block : Block} {config : RunConfig} (h : Block.Legible block)
    (hroom : (Block.render block).length ≤ config.parser.maxDepth)
    (hsize : (Block.render block).length < 2 ^ 64) :
    ∃ block', parse (Block.render block) config = .ok ⟨block', []⟩ ∧
      Block.bare block' = Block.bare block := by
  obtain ⟨clause, rfl, hdepth, hlaid⟩ := Block.Legible.composed block 0 h
  have htext : (Block.render clause.tree).toList = written (Block.lines 0 clause.tree) :=
    toList_unlines _
  have hlength := congrArg List.length htext
  rw [String.length_toList] at hlength
  obtain ⟨inner, content, hinner, hmargined⟩ := hlaid.margined margined_nil (Nat.le_refl 0)
  have hscans := hlaid.scans (by omega) margined_nil (Nat.le_refl 0)
  rw [List.append_nil, ← htext] at hmargined hscans
  obtain rfl : inner = 0 := Nat.le_zero.1 hinner
  exact clause.parse_of_scans hmargined hscans (by omega)

/-! ## Texts that are parsed without an error -/

theorem unlines_append (lines lines' : List String) :
    unlines (lines ++ lines') = unlines lines ++ unlines lines' := by
  simp [unlines]

theorem Block.render_eq_join (block : Block) :
    Block.render block = String.join (block.map Stmt.render) := by
  induction block with
  | nil => simp [Block.render, Block.lines, unlines]
  | cons stmt rest ih =>
      rw [Block.render, Block.lines, unlines_append, List.map_cons, String.join_cons, ← ih]
      rfl

variable {text : String} {config config' : RunConfig} {block : Block}

/-- The rendering of a program without floats and code points is parsed to the same program, if the
nesting is not limited to less than its length.  Widths are machine words, so the text has to fit into
the memory of a machine. -/
theorem parse_rendered (h : parse text config = .ok ⟨block, []⟩)
    (hexact : ∀ value ∈ Block.literals block, value.Exact)
    (hroom : (String.join (block.map Stmt.render)).length ≤ config'.parser.maxDepth)
    (hsize : (String.join (block.map Stmt.render)).length < 2 ^ 64) :
    ∃ block', parse (String.join (block.map Stmt.render)) config' = .ok ⟨block', []⟩ ∧
      Block.bare block' = Block.bare block ∧
      String.join (block'.map Stmt.render) = String.join (block.map Stmt.render) := by
  rw [← Block.render_eq_join] at hroom hsize ⊢
  obtain ⟨block', hparse, hbare⟩ := (legible_of_parse h hexact).parse_render hroom hsize
  refine ⟨block', hparse, hbare, ?_⟩
  rw [← Block.render_eq_join]
  exact Block.render_eq_of_bare hbare

/-- A conditional with a string that is written with an escape. -/
theorem parse_rendered_conditional :
    ∃ block block', parse "if not x:\n  y = \"\\t\"\n" .default = .ok ⟨block, []⟩ ∧
      parse (String.join (block.map Stmt.render)) .default = .ok ⟨block', []⟩ ∧
      Block.bare block' = Block.bare block := by
  obtain ⟨block, hblock⟩ :=
    @exists_block_of_isClean "if not x:\n  y = \"\\t\"\n" .default (by decide +kernel)
  have hrendered : ((parse "if not x:\n  y = \"\\t\"\n" .default).toOption.any fun parsed =>
      (Block.literals parsed.block).all (fun value => decide value.Exact) &&
        decide ((String.join (parsed.block.map Stmt.render)).length ≤ 48)) = true := by
    decide +kernel
  simp only [hblock, Except.toOption, Option.any_some, Bool.and_eq_true, decide_eq_true_eq,
    List.all_eq_true] at hrendered
  obtain ⟨hexact, hlength⟩ := hrendered
  obtain ⟨block', hparse, hbare, -⟩ :=
    @parse_rendered _ _ .default block hblock hexact hlength (by omega)
  exact ⟨block, block', hblock, hparse, hbare⟩

end Offside
