import Mathlib.Algebra.Group.Nat.Defs
import Offside.Proofs.Scanning.Balance
import Offside.Proofs.Scanning.Reading

/-!
# The layout of a rendered program is read back

The lines of a rendered program are indented by four blanks for each block around them.  At the
start of a line the scanner opens at most one block, or closes blocks down to the depth of the line,
one token after the other; the rest of the blocks around the line stay open.
-/

namespace Offside.Scan

open Grammar (Respelled)
open Text (Cursor Position)

/-! ## Margins -/

structure Margined (text : List Char) (depth : Nat) (content : List Char) : Prop where
  text : text = List.replicate (4 * depth) ' ' ++ content
  ended : content = [] → depth = 0
  first : ∀ c ∈ content.head?, Text.isBlank c = false

variable {text content content' : List Char} {depth outer outer' : Nat}

theorem margined_nil : Margined [] 0 [] := ⟨rfl, fun _ => rfl, by simp⟩

theorem Margined.takeWhile (h : Margined text outer content) :
    text.takeWhile (· == ' ') = List.replicate (4 * outer) ' ' := by
  have hcontent : content.takeWhile (· == ' ') = [] := by
    cases content with
    | nil => rfl
    | cons c more =>
        have hblank := h.first c (by simp)
        apply List.takeWhile_cons_of_neg
        simp only [beq_iff_eq]
        rintro rfl
        contradiction
  rw [h.text, List.takeWhile_append_of_pos (by simp), hcontent, List.append_nil]

theorem Margined.unique (h : Margined text outer content) (h' : Margined text outer' content') :
    outer = outer' ∧ content = content' := by
  have hlength := congrArg List.length (h.takeWhile.symm.trans h'.takeWhile)
  simp only [List.length_replicate] at hlength
  obtain rfl : outer = outer' := by omega
  exact ⟨rfl, List.append_cancel_left (h.text.symm.trans h'.text)⟩

/-! ## Widths -/

def widths : Nat → List UInt64
  | 0 => [0]
  | depth + 1 => UInt64.ofNat (4 * (depth + 1)) :: widths depth

def columns (tabWidth : UInt64) (blanks : List Char) : Nat :=
  blanks.count ' ' + tabWidth.toNat * blanks.count '\t'

theorem columns_le_of_sublist (tabWidth : UInt64) {blanks wider : List Char}
    (h : blanks.Sublist wider) : columns tabWidth blanks ≤ columns tabWidth wider := by
  have htabs := Nat.mul_le_mul_left tabWidth.toNat (h.count_le '\t')
  exact Nat.add_le_add (h.count_le ' ') htabs

theorem columns_cons (tabWidth : UInt64) (c : Char) (blanks : List Char) :
    columns tabWidth (c :: blanks) = (blankWidth tabWidth c).toNat + columns tabWidth blanks := by
  by_cases hspace : c = ' '
  · subst hspace
    simp only [columns, List.count_cons_self, List.count_cons_of_ne (show ' ' ≠ '\t' by decide)]
    rw [Nat.add_right_comm, Nat.add_comm]
    rfl
  · by_cases htab : c = '\t'
    · subst htab
      simp only [columns, List.count_cons_self, List.count_cons_of_ne (show '\t' ≠ ' ' by decide)]
      rw [Nat.mul_succ, ← Nat.add_assoc, Nat.add_comm]
      rfl
    · simp [columns, blankWidth, hspace, htab]

theorem leadingWidth_eq (tabWidth : UInt64) (blanks : List Char) :
    leadingWidth tabWidth blanks = UInt64.ofNat (columns tabWidth blanks) := by
  have hfold : ∀ start : UInt64,
      blanks.foldl (fun width c => width + blankWidth tabWidth c) start =
        start + UInt64.ofNat (columns tabWidth blanks) := by
    induction blanks with
    | nil => simp [columns]
    | cons c blanks ih =>
        intro start
        rw [List.foldl_cons, ih, columns_cons, UInt64.ofNat_add, UInt64.ofNat_toNat, UInt64.add_assoc]
  exact (hfold 0).trans (UInt64.zero_add _)

theorem toNat_leadingWidth (tabWidth : UInt64) (blanks : List Char) :
    (leadingWidth tabWidth blanks).toNat = columns tabWidth blanks % 2 ^ 64 := by
  rw [leadingWidth_eq, UInt64.toNat_ofNat']

theorem leadingWidth_replicate (tabWidth : UInt64) (count : Nat) :
    leadingWidth tabWidth (List.replicate count ' ') = UInt64.ofNat count := by
  rw [leadingWidth_eq, columns, List.count_replicate_self, List.count_replicate,
    if_neg (by decide), Nat.mul_zero, Nat.add_zero]

theorem ofNat_lt_ofNat {small large : Nat} (hlarge : large < 2 ^ 64) (hsmall : small < 2 ^ 64) :
    UInt64.ofNat small < UInt64.ofNat large ↔ small < large := by
  rw [UInt64.lt_iff_toNat_lt, UInt64.toNat_ofNat', UInt64.toNat_ofNat',
    Nat.mod_eq_of_lt hsmall, Nat.mod_eq_of_lt hlarge]

theorem widths_eq_cons (depth : Nat) :
    widths depth = UInt64.ofNat (4 * depth) :: (widths depth).tail := by
  cases depth <;> rfl

theorem indent_of_widths {context : Context} (h : context.indents = widths depth) :
    context.indent = UInt64.ofNat (4 * depth) := by
  rw [Context.indent, h, widths_eq_cons]
  rfl

theorem mem_widths (h : outer ≤ depth) : UInt64.ofNat (4 * outer) ∈ widths depth := by
  induction depth with
  | zero =>
      obtain rfl : outer = 0 := by omega
      simp [widths]
  | succ depth ih =>
      by_cases hsame : outer = depth + 1
      · subst hsame
        exact List.mem_cons_self
      · exact List.mem_cons_of_mem _ (ih (by omega))

/-! ## Places between lines -/

structure AtStart (text : List Char) (indents : List UInt64) (scanner : Scanner) : Prop where
  mode : scanner.mode = .indent
  rest : scanner.context.cursor.rest = text
  column : scanner.context.cursor.position.column = 1
  openers : scanner.context.openers = []
  indents : scanner.context.indents = indents
  lineOpen : scanner.lineOpen = false

structure AtClose (indents : List UInt64) (scanner : Scanner) : Prop where
  mode : scanner.mode = .indent
  rest : scanner.context.cursor.rest = []
  column : scanner.context.cursor.position.column ≠ 0
  openers : scanner.context.openers = []
  indents : scanner.context.indents = indents
  lineOpen : scanner.lineOpen = false

theorem AtStart.atClose {indents : List UInt64} {scanner : Scanner} (h : AtStart [] indents scanner) :
    AtClose indents scanner :=
  ⟨h.mode, h.rest, by rw [h.column]; decide, h.openers, h.indents, h.lineOpen⟩

/-- A scanner behind the margin of a line, where blocks that the line is not in are still open. -/
structure Behind (outer : Nat) (content : List Char) (depth : Nat) (scanner : Scanner) : Prop where
  mode : scanner.mode = .dedent (UInt64.ofNat (4 * outer)) ∨
    (scanner.mode = .dispatch ∧ outer = depth)
  rest : scanner.context.cursor.rest = content
  column : scanner.context.cursor.position.column ≠ 0
  openers : scanner.context.openers = []
  indents : scanner.context.indents = widths depth

def AtMargin (text : List Char) (depth : Nat) (scanner : Scanner) : Prop :=
  ∃ outer content, Margined text outer content ∧ outer ≤ depth ∧
    (content = [] → scanner.mode ≠ .dispatch) ∧ Behind outer content depth scanner

/-! ## Rules between lines -/

variable {position : Position}

theorem scans_newline {indents : List UInt64} :
    Scans (InLine ('\n' :: text) [] indents) [.plain .newline position] (AtStart text indents) := by
  intro scanner hscanner
  have hrest := hscanner.rest
  have hread : scanner.context.cursor.read? =
      some ('\n', ⟨text, scanner.context.cursor.position.newline 1⟩) := by
    unfold Cursor.read?
    rw [hrest]
    rfl
  have hskip : skipBlanks scanner.tabWidth scanner.context.bracketIndent false
      scanner.context.cursor = (false, scanner.context.cursor) := by
    unfold skipBlanks
    split
    · rfl
    · rename_i c next hsource
      rw [hread] at hsource
      cases hsource
      rfl
  have hstep := @Scanner.step_of_lineBreak { scanner with mode := .dispatch } _ _ rfl
    (by rw [Context.inBrackets, hscanner.openers]; exact hskip) hread
  have houtcomes := Scanner.outcomes_of_token (by simp) hstep
  rw [← Scanner.outcomes_of_inLine hscanner (by simp)] at houtcomes
  exact ⟨[.plain .newline scanner.position], _, Grammar.respelled_plain.2 ⟨_, [], rfl, rfl⟩,
    houtcomes, ⟨.read hread (.refl _), rfl⟩, rfl, rfl, rfl, hscanner.openers, hscanner.indents, rfl⟩

theorem step_of_over {scanner : Scanner} {indents : List UInt64} (h : AtClose indents scanner) :
    scanner.step = scanner.goTo (.dedent 0) scanner.context := by
  have hend : scanner.context.cursor.atEnd = true := by rw [Cursor.atEnd, h.rest]; rfl
  unfold Scanner.step Scanner.stepIndent
  simp only [h.mode]
  rw [if_pos hend]
  unfold Scanner.endOfText
  rw [h.openers, h.lineOpen]
  rfl

theorem outcomes_of_dedent {target : UInt64} {inner outer : List UInt64}
    (hinner : ∀ level ∈ inner, target < level) {scanner : Scanner}
    (hmode : scanner.mode = .dedent target) (hindents : scanner.context.indents = inner ++ outer) :
    scanner.outcomes = List.replicate inner.length (.ok (.plain .dedent scanner.position)) ++
      ({ scanner with context := { scanner.context with indents := outer } } : Scanner).outcomes := by
  induction inner generalizing scanner with
  | nil =>
      rw [List.nil_append] at hindents
      rw [← hindents]
      rfl
  | cons level inner ih =>
      have hless : target < scanner.context.indent := by
        rw [Context.indent, hindents]
        exact hinner level List.mem_cons_self
      have hstep : scanner.step = scanner.emit (.plain .dedent scanner.position) (.dedent target)
          scanner.context.popIndent := by
        unfold Scanner.step Scanner.stepDedent
        simp only [hmode]
        rw [if_pos hless]
      have hpop : scanner.context.popIndent.indents = inner ++ outer := by
        rw [Context.popIndent, hindents]
        rfl
      rw [Scanner.outcomes_of_token (by simp [hmode]) hstep,
        ih (fun level hlevel => hinner level (List.mem_cons_of_mem _ hlevel)) rfl hpop,
        List.length_cons, List.replicate_succ, List.cons_append, hmode]
      rfl

structure Descending (target : UInt64) (content : List Char) (indents : List UInt64)
    (scanner : Scanner) : Prop where
  mode : scanner.mode = .dedent target
  rest : scanner.context.cursor.rest = content
  column : scanner.context.cursor.position.column ≠ 0
  openers : scanner.context.openers = []
  indents : scanner.context.indents = indents

theorem Descending.not_lt {scanner : Scanner} {target : UInt64} {indents : List UInt64}
    (h : Descending target content (target :: indents) scanner) :
    ¬ target < scanner.context.indent := by
  rw [Context.indent, h.indents]
  exact UInt64.lt_irrefl _

theorem scans_descend {target : UInt64} {inner indents : List UInt64}
    (hinner : ∀ level ∈ inner, target < level) :
    Scans (Descending target content (inner ++ indents))
      (List.replicate inner.length (.plain .dedent position))
      (Descending target content indents) := by
  intro scanner hscanner
  have houtcomes := outcomes_of_dedent hinner hscanner.mode hscanner.indents
  refine ⟨List.replicate inner.length (.plain .dedent scanner.position),
    { scanner with context := { scanner.context with indents } }, ?_, ?_, ⟨.refl _, rfl⟩,
    hscanner.mode, hscanner.rest, hscanner.column, hscanner.openers, rfl⟩
  · rw [Grammar.Respelled, List.map_replicate, List.map_replicate]
    rfl
  · rw [List.map_replicate]
    exact houtcomes

theorem scans_arrive {target : UInt64} {indents : List UInt64} (hcontent : content ≠ []) :
    Scans (Descending target content (target :: indents)) []
      (InLine content [] (target :: indents)) := by
  intro scanner hscanner
  have hend : ¬ scanner.context.cursor.atEnd = true := by
    rw [Cursor.atEnd, hscanner.rest, List.isEmpty_iff]
    exact hcontent
  have hstep : scanner.step = scanner.goTo .dispatch scanner.context := by
    unfold Scanner.step Scanner.stepDedent
    simp only [hscanner.mode]
    rw [if_neg hscanner.not_lt, if_neg hend]
  have houtcomes := Scanner.outcomes_of_silent (by simp [hscanner.mode]) hstep (by simp)
  exact ⟨[], _, rfl, houtcomes, ⟨.refl _, rfl⟩, hscanner.rest, hscanner.openers, hscanner.indents,
    hscanner.column, .inl rfl⟩

theorem scans_end {indents : List UInt64} :
    Scans (AtClose indents) [] (Descending 0 [] indents) := by
  intro scanner hscanner
  have houtcomes :=
    Scanner.outcomes_of_silent (by simp [hscanner.mode]) (step_of_over hscanner) (by simp)
  exact ⟨[], _, rfl, houtcomes, ⟨.refl _, rfl⟩, rfl, hscanner.rest, hscanner.column,
    hscanner.openers, hscanner.indents⟩

theorem scans_closed {position' : Position} :
    Scans (Descending 0 [] [0]) [.plain .dedent position, .plain .eof position']
      fun scanner => scanner.outcomes = [] := by
  intro scanner hscanner
  have hend : scanner.context.cursor.atEnd = true := by rw [Cursor.atEnd, hscanner.rest]; rfl
  have hstep : scanner.step = scanner.goTo .fileEnd scanner.context := by
    unfold Scanner.step Scanner.stepDedent
    simp only [hscanner.mode]
    rw [if_neg hscanner.not_lt, if_pos hend]
  have hclosed := Scanner.outcomes_of_silent (by simp [hscanner.mode]) hstep (by simp)
  refine ⟨[.plain .dedent scanner.position, .plain .eof scanner.position],
    ⟨scanner.context.popIndent, .done, scanner.tabWidth, scanner.lineOpen⟩, ?_, ?_, ⟨.refl _, rfl⟩,
    Scanner.outcomes_of_done rfl⟩
  · exact Grammar.respelled_plain.2 ⟨_, _, rfl, Grammar.respelled_plain.2 ⟨_, [], rfl, rfl⟩⟩
  · rw [hclosed, Scanner.outcomes_of_token (by simp) rfl, Scanner.outcomes_of_token (by simp) rfl]
    rfl

theorem step_of_blanks {scanner : Scanner} {indents : List UInt64} {blanks : List Char}
    (h : AtStart (blanks ++ content) indents scanner)
    (hblanks : ∀ c ∈ blanks, Text.isInlineBlank c = true ∧ Cursor.isSolid c = true)
    (hcontent : content ≠ []) (hfirst : ∀ c ∈ content.head?, Text.isBlank c = false) :
    ∃ cursor : Cursor, scanner.context.cursor.Passes cursor blanks content ∧
      scanner.step =
        scanner.compareWidth (leadingWidth scanner.tabWidth blanks)
          { scanner.context with cursor } := by
  obtain ⟨c, more, rfl⟩ := List.exists_cons_of_ne_nil hcontent
  have hblank := hfirst c (by simp)
  have hend : scanner.context.cursor.atEnd = false := by
    rw [Cursor.atEnd, h.rest]
    simp
  have hbrackets : scanner.context.inBrackets = false := by simp [Context.inBrackets, h.openers]
  obtain ⟨hspan, hpasses⟩ := @Cursor.span_passes scanner.context.cursor _ _ Text.isInlineBlank
    h.rest hblanks
    (by
      intro d hd
      obtain rfl : c = d := by simpa using hd
      have hreturn : c ≠ '\r' := by
        rintro rfl
        contradiction
      simp [hreturn, Text.isInlineBlank, hblank])
  have hread := (Cursor.read?_cons hpasses.rest (Cursor.isSolid_of_not_isBlank hblank)).1
  have hfeed : ¬ c = '\n' := by
    rintro rfl
    contradiction
  refine ⟨(scanner.context.cursor.span Text.isInlineBlank).2, hpasses, ?_⟩
  rw [Scanner.step_of_content h.mode hend hbrackets h.column hread hfeed, hspan]

private theorem step_of_margin {scanner : Scanner} {indents : List UInt64}
    (h : AtStart text indents scanner) (htext : Margined text outer content)
    (hcontent : content ≠ []) :
    ∃ cursor : Cursor, scanner.context.cursor.Passes cursor (List.replicate (4 * outer) ' ') content ∧
      scanner.step =
        scanner.compareWidth (UInt64.ofNat (4 * outer)) { scanner.context with cursor } := by
  have hblanks : ∀ c ∈ List.replicate (4 * outer) ' ',
      Text.isInlineBlank c = true ∧ Cursor.isSolid c = true := by
    intro c hc
    obtain rfl := List.eq_of_mem_replicate hc
    decide
  have hstart : AtStart (List.replicate (4 * outer) ' ' ++ content) indents scanner := by
    rw [← htext.text]
    exact h
  simpa only [leadingWidth_replicate] using step_of_blanks hstart hblanks hcontent htext.first

theorem scans_settle (hdepth : 4 * depth < 2 ^ 64) (htext : Margined text outer content)
    (houter : outer ≤ depth) : Scans (AtStart text (widths depth)) [] (AtMargin text depth) := by
  intro scanner hscanner
  have hmode : scanner.mode ≠ .done := by simp [hscanner.mode]
  by_cases hcontent : content = []
  · obtain rfl := htext.ended hcontent
    subst hcontent
    obtain rfl : text = [] := htext.text
    obtain ⟨spelled, after, hspelled, houtcomes, hreaches, hafter⟩ :=
      scans_end scanner hscanner.atClose
    exact ⟨spelled, after, hspelled, houtcomes, hreaches, 0, [], htext, houter,
      fun _ => by simp [hafter.mode], .inl hafter.mode, hafter.rest, hafter.column, hafter.openers,
      hafter.indents⟩
  · obtain ⟨cursor, hpasses, hstep⟩ := step_of_margin hscanner htext hcontent
    have hcolumn : cursor.position.column ≠ 0 := by
      rw [hpasses.column, hscanner.column]
      omega
    have hindent : ({ scanner.context with cursor } : Context).indent = UInt64.ofNat (4 * depth) :=
      indent_of_widths hscanner.indents
    unfold Scanner.compareWidth at hstep
    simp only [hindent] at hstep
    by_cases hsame : outer = depth
    · subst hsame
      rw [if_pos rfl] at hstep
      have houtcomes := Scanner.outcomes_of_silent hmode hstep (by simp)
      exact ⟨[], _, rfl, houtcomes, ⟨hpasses.reaches, rfl⟩, outer, content, htext, houter,
        fun hnil => absurd hnil hcontent, .inr ⟨rfl, rfl⟩, hpasses.rest, hcolumn,
        hscanner.openers, hscanner.indents⟩
    · have hless : outer < depth := by omega
      have hlt : UInt64.ofNat (4 * outer) < UInt64.ofNat (4 * depth) :=
        (ofNat_lt_ofNat hdepth (by omega)).2 (by omega)
      have hopen : (decide (UInt64.ofNat (4 * outer) = 0) ||
          ({ scanner.context with cursor } : Context).hasIndent (UInt64.ofNat (4 * outer))) =
            true := by
        have hmem := mem_widths houter
        rw [← hscanner.indents] at hmem
        rw [Bool.or_eq_true, Context.hasIndent, List.contains_iff_mem]
        exact .inr hmem
      rw [if_neg (UInt64.ne_of_lt hlt), if_neg (UInt64.lt_asymm hlt), if_pos hopen] at hstep
      have houtcomes := Scanner.outcomes_of_silent hmode hstep (by simp)
      exact ⟨[], _, rfl, houtcomes, ⟨hpasses.reaches, rfl⟩, outer, content, htext, houter,
        fun _ => by simp, .inl rfl, hpasses.rest, hcolumn, hscanner.openers, hscanner.indents⟩

theorem scans_indent (hdepth : 4 * (depth + 1) < 2 ^ 64)
    (htext : Margined text (depth + 1) content) :
    Scans (AtStart text (widths depth)) [.plain .indent position]
      (AtMargin text (depth + 1)) := by
  intro scanner hscanner
  have hmode : scanner.mode ≠ .done := by simp [hscanner.mode]
  have hcontent : content ≠ [] := fun hnil => by simpa using htext.ended hnil
  obtain ⟨cursor, hpasses, hstep⟩ := step_of_margin hscanner htext hcontent
  have hcolumn : cursor.position.column ≠ 0 := by
    rw [hpasses.column, hscanner.column]
    omega
  have hindent : ({ scanner.context with cursor } : Context).indent = UInt64.ofNat (4 * depth) :=
    indent_of_widths hscanner.indents
  have hlt : UInt64.ofNat (4 * depth) < UInt64.ofNat (4 * (depth + 1)) :=
    (ofNat_lt_ofNat hdepth (by omega)).2 (by omega)
  have haccepts : ({ scanner.context with cursor } : Context).acceptsIndent
      (UInt64.ofNat (4 * (depth + 1))) = true := by
    rw [Context.acceptsIndent, hindent, decide_eq_true hlt, Bool.or_true]
  unfold Scanner.compareWidth at hstep
  simp only [hindent] at hstep
  rw [if_neg (UInt64.ne_of_lt hlt).symm, if_pos hlt, Context.pushIndent, if_pos haccepts] at hstep
  have houtcomes := Scanner.outcomes_of_token hmode hstep
  exact ⟨[_], _, Grammar.respelled_plain.2 ⟨_, [], rfl, rfl⟩, houtcomes, ⟨hpasses.reaches, rfl⟩,
    depth + 1, content, htext, Nat.le_refl _, fun hnil => absurd hnil hcontent, .inr ⟨rfl, rfl⟩,
    hpasses.rest, hcolumn, hscanner.openers, congrArg (UInt64.ofNat (4 * (depth + 1)) :: ·) hscanner.indents⟩

theorem Behind.descending {scanner : Scanner} (h : Behind outer content depth scanner)
    (hmode : scanner.mode = .dedent (UInt64.ofNat (4 * outer))) :
    Descending (UInt64.ofNat (4 * outer)) content (widths depth) scanner :=
  ⟨hmode, h.rest, h.column, h.openers, h.indents⟩

theorem scans_dedent (hdepth : 4 * (depth + 1) < 2 ^ 64) (htext : Margined text outer content)
    (houter : outer ≤ depth) :
    Scans (AtMargin text (depth + 1)) [.plain .dedent position] (AtMargin text depth) := by
  rintro scanner ⟨outer', content', htext', -, hdispatch, hscanner⟩
  obtain ⟨rfl, rfl⟩ := htext.unique htext'
  have hmode : scanner.mode = .dedent (UInt64.ofNat (4 * outer)) := by
    rcases hscanner.mode with hmode | ⟨-, hsame⟩
    · exact hmode
    · omega
  have hinner : ∀ level ∈ [UInt64.ofNat (4 * (depth + 1))], UInt64.ofNat (4 * outer) < level := by
    intro level hlevel
    obtain rfl := List.mem_singleton.1 hlevel
    exact (ofNat_lt_ofNat hdepth (by omega)).2 (by omega)
  obtain ⟨spelled, after, hspelled, houtcomes, hreaches, hafter⟩ :=
    scans_descend hinner scanner (hscanner.descending hmode)
  exact ⟨spelled, after, hspelled, houtcomes, hreaches, outer, content, htext, houter,
    fun _ => by simp [hafter.mode], .inl hafter.mode, hafter.rest, hafter.column, hafter.openers,
    hafter.indents⟩

theorem scans_enter (htext : Margined text depth content) (hcontent : content ≠ []) :
    Scans (AtMargin text depth) [] (InLine content [] (widths depth)) := by
  rintro scanner ⟨outer, content', htext', -, hdispatch, hscanner⟩
  obtain ⟨rfl, rfl⟩ := htext.unique htext'
  rcases hscanner.mode with hmode | ⟨hmode, -⟩
  · have hdescending := hscanner.descending hmode
    rw [widths_eq_cons] at hdescending ⊢
    exact scans_arrive hcontent scanner hdescending
  · exact ⟨[], scanner, rfl, rfl, .refl _, hscanner.rest, hscanner.openers, hscanner.indents,
      hscanner.column, .inl hmode⟩

theorem scans_over {position' : Position} :
    Scans (AtMargin [] 0) [.plain .dedent position, .plain .eof position']
      fun scanner => scanner.outcomes = [] := by
  rintro scanner ⟨outer, content, htext, -, hdispatch, hscanner⟩
  obtain ⟨rfl, rfl⟩ := htext.unique margined_nil
  have hmode : scanner.mode = .dedent 0 := by
    rcases hscanner.mode with hmode | ⟨hmode, -⟩
    · exact hmode
    · exact absurd hmode (hdispatch rfl)
  exact scans_closed scanner (hscanner.descending hmode)

end Offside.Scan
