import Mathlib.Data.List.Induction
import Offside.Proofs.Scanning.NameLines

/-!
# The indentation follows the offside rule

A text of name lines has tokens exactly if its widths are disciplined.  In front of each name one more
block is open than there are levels, and the first line that does not fit is reported with the levels
behind the line before it.
-/

namespace Offside

namespace Scan

open Grammar (Respelled)
open Text (Cursor Position)

variable {tab : UInt64} {before stack : List Nat} {text content rest : List Char}
  {line : NameLine} {lines : List NameLine}

/-! ## One margin -/

def Small (stack : List Nat) : Prop := ∀ level ∈ stack, level < 2 ^ 64

structure AtLine (tab : UInt64) (text : List Char) (stack : List Nat) (scanner : Scanner) : Prop where
  start : AtStart text (stack.map UInt64.ofNat) scanner
  tabWidth : scanner.tabWidth = tab

structure Settles (stack stack' : List Nat) (margin : List Token) : Prop where
  kind : ∀ token ∈ margin, token.kind = .indent ∨ token.kind = .dedent
  balance : countKind .indent margin + stack.length = countKind .dedent margin + stack'.length

theorem Scans.withTabWidth {before after : Scanner → Prop} {tokens : List Token}
    (h : Scans before tokens after) :
    Scans (fun scanner => before scanner ∧ scanner.tabWidth = tab) tokens
      fun scanner => after scanner ∧ scanner.tabWidth = tab := by
  rintro scanner ⟨hscanner, htab⟩
  obtain ⟨spelled, later, hspelled, houtcomes, hreaches, hlater⟩ := h scanner hscanner
  exact ⟨spelled, later, hspelled, houtcomes, hreaches, hlater, hreaches.tabWidth.trans htab⟩

theorem Stack.head_eq {top : Nat} {outer : List Nat} (h : Stack before (top :: outer)) :
    top = before.getLast?.getD 0 := by
  have hhead := h.head?_eq
  exact Option.some.inj hhead

theorem mem_map_ofNat {width : Nat} (h : Small stack) (hwidth : width < 2 ^ 64) :
    UInt64.ofNat width ∈ stack.map UInt64.ofNat ↔ width ∈ stack := by
  constructor
  · intro hmem
    obtain ⟨level, hlevel, heq⟩ := List.mem_map.1 hmem
    have heq := congrArg UInt64.toNat heq
    rw [UInt64.toNat_ofNat', UInt64.toNat_ofNat', Nat.mod_eq_of_lt hwidth,
      Nat.mod_eq_of_lt (h level hlevel)] at heq
    exact heq ▸ hlevel
  · exact fun hmem => List.mem_map.2 ⟨width, hmem, rfl⟩

theorem step_of_atLine {scanner : Scanner}
    (h : AtLine tab (line.chars ++ rest) stack scanner) :
    ∃ cursor : Cursor,
      scanner.context.cursor.Passes cursor line.margin (line.name.toList ++ '\n' :: rest) ∧
      scanner.step = scanner.compareWidth (UInt64.ofNat (line.width tab))
        { scanner.context with cursor } := by
  obtain ⟨c, more, hcons, -⟩ := line.word.first
  have hstart : AtStart (line.margin ++ (line.name.toList ++ '\n' :: rest))
      (stack.map UInt64.ofNat) scanner := by
    have hchars : line.chars ++ rest = line.margin ++ (line.name.toList ++ '\n' :: rest) := by
      simp [NameLine.chars]
    rw [← hchars]
    exact h.start
  obtain ⟨cursor, hpasses, hstep⟩ := step_of_blanks hstart line.isBlank_of_margin (by simp)
    (by
      intro d hd
      obtain rfl : c = d := by simpa [hcons] using hd
      exact isBlank_of_isWordChar (line.word.chars c (by simp [hcons])))
  rw [h.tabWidth, leadingWidth_eq] at hstep
  exact ⟨cursor, hpasses, hstep⟩

private theorem column_of_passes {scanner : Scanner} {cursor : Cursor}
    (h : AtLine tab text stack scanner)
    (hpasses : scanner.context.cursor.Passes cursor line.margin content) :
    cursor.position.column ≠ 0 := by
  rw [hpasses.column, h.start.column]
  omega

def AtName (tab : UInt64) (line : NameLine) (rest : List Char) (stack : List Nat)
    (scanner : Scanner) : Prop :=
  InLine (line.name.toList ++ '\n' :: rest) [] (stack.map UInt64.ofNat) scanner ∧
    scanner.tabWidth = tab

variable {top : Nat} {inner outer : List Nat}

theorem mem_of_fits {width : Nat} (hstack : Stack before (top :: outer))
    (hfits : FitsBehind before width) (hless : width < top) : width ∈ top :: outer := by
  rw [hstack.mem_iff]
  rcases Nat.eq_zero_or_pos width with hzero | hpos
  · exact .inl hzero
  · have htop := hstack.head_eq
    cases hlast : before.getLast? with
    | none =>
        rw [hlast, Option.getD_none] at htop
        omega
    | some last =>
        rw [hlast, Option.getD_some] at htop
        exact .inr (hfits last hlast hpos (htop ▸ hless))

theorem scans_level :
    Scans (AtLine tab (line.chars ++ rest) (line.width tab :: outer)) []
      (AtName tab line rest (line.width tab :: outer)) := by
  intro scanner hscanner
  obtain ⟨cursor, hpasses, hstep⟩ := step_of_atLine hscanner
  have hindent : ({ scanner.context with cursor } : Context).indent =
      UInt64.ofNat (line.width tab) := by
    rw [Context.indent, hscanner.start.indents]
    rfl
  unfold Scanner.compareWidth at hstep
  simp only [hindent, if_true] at hstep
  have houtcomes := Scanner.outcomes_of_silent (by simp [hscanner.start.mode]) hstep (by simp)
  exact ⟨[], _, rfl, houtcomes, ⟨hpasses.reaches, rfl⟩,
    ⟨hpasses.rest, hscanner.start.openers, hscanner.start.indents,
      column_of_passes hscanner hpasses, .inl rfl⟩, hscanner.tabWidth⟩

theorem scans_open (htop : top < line.width tab) (hwidth : line.width tab < 2 ^ 64) :
    Scans (AtLine tab (line.chars ++ rest) (top :: outer)) [.plain .indent .start]
      (AtName tab line rest (line.width tab :: top :: outer)) := by
  intro scanner hscanner
  obtain ⟨cursor, hpasses, hstep⟩ := step_of_atLine hscanner
  have hindent : ({ scanner.context with cursor } : Context).indent = UInt64.ofNat top := by
    rw [Context.indent, hscanner.start.indents]
    rfl
  have hlt : UInt64.ofNat top < UInt64.ofNat (line.width tab) :=
    (ofNat_lt_ofNat hwidth (Nat.lt_trans htop hwidth)).2 htop
  have haccepts : ({ scanner.context with cursor } : Context).acceptsIndent
      (UInt64.ofNat (line.width tab)) = true := by
    rw [Context.acceptsIndent, hindent, decide_eq_true hlt, Bool.or_true]
  unfold Scanner.compareWidth at hstep
  simp only [hindent] at hstep
  rw [if_neg (UInt64.ne_of_lt hlt).symm, if_pos hlt, Context.pushIndent, if_pos haccepts] at hstep
  have houtcomes := Scanner.outcomes_of_token (by simp [hscanner.start.mode]) hstep
  exact ⟨[_], _, Grammar.respelled_plain.2 ⟨_, [], rfl, rfl⟩, houtcomes, ⟨hpasses.reaches, rfl⟩,
    ⟨hpasses.rest, hscanner.start.openers,
      congrArg (UInt64.ofNat (line.width tab) :: ·) hscanner.start.indents,
      column_of_passes hscanner hpasses, .inl rfl⟩, hscanner.tabWidth⟩

theorem scans_close (hsmall : Small inner) (htop : inner.head? = some top)
    (hinner : ∀ level ∈ inner, line.width tab < level) :
    Scans (AtLine tab (line.chars ++ rest) (inner ++ line.width tab :: outer))
      (List.replicate inner.length (.plain .dedent .start))
      (AtName tab line rest (line.width tab :: outer)) := by
  have hmem := List.mem_of_head? htop
  have hwidth : line.width tab < 2 ^ 64 := Nat.lt_trans (hinner top hmem) (hsmall top hmem)
  have hlow : ∀ level ∈ inner.map UInt64.ofNat, UInt64.ofNat (line.width tab) < level := by
    intro level hlevel
    obtain ⟨level, hmem, rfl⟩ := List.mem_map.1 hlevel
    exact (ofNat_lt_ofNat (hsmall level hmem) hwidth).2 (hinner level hmem)
  have hcontent : line.name.toList ++ '\n' :: rest ≠ [] := by simp
  have hdescend : Scans
      (Descending (UInt64.ofNat (line.width tab)) (line.name.toList ++ '\n' :: rest)
        (inner.map UInt64.ofNat ++ UInt64.ofNat (line.width tab) :: outer.map UInt64.ofNat))
      (List.replicate inner.length (.plain .dedent .start))
      (InLine (line.name.toList ++ '\n' :: rest) []
        (UInt64.ofNat (line.width tab) :: outer.map UInt64.ofNat)) := by
    rw [← List.append_nil (List.replicate _ _), ← List.length_map UInt64.ofNat]
    exact (scans_descend hlow).trans (scans_arrive hcontent)
  refine Scans.silent ?_ hdescend.withTabWidth
  intro scanner hscanner
  obtain ⟨cursor, hpasses, hstep⟩ := step_of_atLine hscanner
  have hindents : scanner.context.indents =
      inner.map UInt64.ofNat ++ UInt64.ofNat (line.width tab) :: outer.map UInt64.ofNat := by
    rw [hscanner.start.indents]
    simp
  have hindent : ({ scanner.context with cursor } : Context).indent = UInt64.ofNat top := by
    rw [Context.indent, hscanner.start.indents, List.head?_map, List.head?_append, htop]
    rfl
  have hlt : UInt64.ofNat (line.width tab) < UInt64.ofNat top :=
    (ofNat_lt_ofNat (hsmall top hmem) hwidth).2 (hinner top hmem)
  have hopen : (decide (UInt64.ofNat (line.width tab) = 0) ||
      ({ scanner.context with cursor } : Context).hasIndent (UInt64.ofNat (line.width tab))) =
        true := by
    rw [Bool.or_eq_true, Context.hasIndent, List.contains_iff_mem, hindents]
    exact .inr (by simp)
  unfold Scanner.compareWidth at hstep
  simp only [hindent] at hstep
  rw [if_neg (UInt64.ne_of_lt hlt), if_neg (UInt64.lt_asymm hlt), if_pos hopen] at hstep
  have houtcomes := Scanner.outcomes_of_silent (by simp [hscanner.start.mode]) hstep (by simp)
  exact ⟨[], _, rfl, houtcomes, ⟨hpasses.reaches, rfl⟩,
    ⟨rfl, hpasses.rest, column_of_passes hscanner hpasses, hscanner.start.openers, hindents⟩,
    hscanner.tabWidth⟩

theorem outcomes_of_unfit {scanner : Scanner} (hsmall : Small (top :: outer))
    (htop : line.width tab < top) (hzero : line.width tab ≠ 0)
    (hclosed : line.width tab ∉ top :: outer)
    (h : AtLine tab (line.chars ++ rest) (top :: outer) scanner) :
    ∃ cursor behind,
      scanner.context.cursor.Passes cursor line.margin (line.name.toList ++ '\n' :: rest) ∧
      scanner.outcomes = .error (.mismatchedIndent (UInt64.ofNat (line.width tab))
        ((top :: outer).reverse.map UInt64.ofNat) cursor.position) :: behind := by
  obtain ⟨cursor, hpasses, hstep⟩ := step_of_atLine h
  have hsmallTop : top < 2 ^ 64 := hsmall top List.mem_cons_self
  have hwidth : line.width tab < 2 ^ 64 := Nat.lt_trans htop hsmallTop
  have hindent : ({ scanner.context with cursor } : Context).indent = UInt64.ofNat top := by
    rw [Context.indent, h.start.indents]
    rfl
  have hlt : UInt64.ofNat (line.width tab) < UInt64.ofNat top :=
    (ofNat_lt_ofNat hsmallTop hwidth).2 htop
  have hnonzero : UInt64.ofNat (line.width tab) ≠ 0 := by
    intro heq
    have heq := congrArg UInt64.toNat heq
    rw [UInt64.toNat_ofNat', Nat.mod_eq_of_lt hwidth] at heq
    exact hzero heq
  have hopen : ¬ (decide (UInt64.ofNat (line.width tab) = 0) ||
      ({ scanner.context with cursor } : Context).hasIndent (UInt64.ofNat (line.width tab))) =
        true := by
    rw [Bool.or_eq_true, decide_eq_true_eq, Context.hasIndent, List.contains_iff_mem,
      h.start.indents, mem_map_ofNat hsmall hwidth]
    rintro (heq | hmem)
    · exact hnonzero heq
    · exact hclosed hmem
  have hlevels : ({ scanner.context with cursor } : Context).levels =
      (top :: outer).reverse.map UInt64.ofNat := by
    rw [Context.levels, h.start.indents, List.map_reverse]
  unfold Scanner.compareWidth at hstep
  simp only [hindent, hlevels] at hstep
  rw [if_neg (UInt64.ne_of_lt hlt), if_neg (UInt64.lt_asymm hlt), if_neg hopen] at hstep
  exact ⟨cursor, _, hpasses, Scanner.outcomes_of_failure (by simp [h.start.mode]) hstep⟩

theorem exists_margin (rest : List Char) (hstack : Stack before stack) (hsmall : Small stack)
    (hwidth : line.width tab < 2 ^ 64) (hfits : FitsBehind before (line.width tab)) :
    ∃ margin stack', Stack (before ++ [line.width tab]) stack' ∧ Small stack' ∧
      Settles stack stack' margin ∧
      Scans (AtLine tab (line.chars ++ rest) stack) margin (AtName tab line rest stack') := by
  cases stack with
  | nil => exact absurd ((hstack.mem_iff 0).2 (.inl rfl)) List.not_mem_nil
  | cons top outer =>
      rcases Nat.lt_trichotomy top (line.width tab) with hmore | rfl | hless
      · have habove : ∀ level ∈ top :: outer, level < line.width tab := by
          intro level hlevel
          rcases List.mem_cons.1 hlevel with rfl | hlevel
          · exact hmore
          · exact Nat.lt_trans ((List.pairwise_cons.1 hstack.decreasing).1 level hlevel) hmore
        refine ⟨_, _, hstack.push habove, ?_, ⟨by simp [Token.plain], ?_⟩, scans_open hmore hwidth⟩
        · exact List.forall_mem_cons.2 ⟨hwidth, hsmall⟩
        · simp only [countKind, Token.plain, List.map_cons, List.map_nil, List.length_cons,
            List.count_singleton_self, List.count_singleton, beq_iff_eq, reduceCtorEq, if_false]
          omega
      · exact ⟨[], _, @Stack.pop _ _ _ [] hstack, hsmall, ⟨by simp, by simp⟩, scans_level⟩
      · have hmem := mem_of_fits hstack hfits hless
        obtain ⟨inner, outer', hsplit⟩ := List.append_of_mem hmem
        rw [hsplit] at hstack hsmall ⊢
        have hinner := fun level hlevel =>
          (List.pairwise_append.1 hstack.decreasing).2.2 level hlevel _ List.mem_cons_self
        have htop : inner.head? = some top := by
          cases inner with
          | nil =>
              rw [List.nil_append, List.cons.injEq] at hsplit
              exact absurd hsplit.1 (Nat.ne_of_gt hless)
          | cons first inner =>
              rw [List.cons_append, List.cons.injEq] at hsplit
              rw [hsplit.1]
              rfl
        refine ⟨_, _, hstack.pop, fun level hlevel => hsmall level (List.mem_append_right _ hlevel),
          ⟨?_, ?_⟩,
          scans_close (fun level hlevel => hsmall level (List.mem_append_left _ hlevel)) htop hinner⟩
        · intro token htoken
          obtain rfl := List.eq_of_mem_replicate htoken
          exact .inr rfl
        · simp [countKind, Token.plain, List.count_replicate]

/-! ## All lines -/

/-- The tokens that neither open nor close a block. -/
def unframed (tokens : List Token) : List Token :=
  tokens.filter fun token => token.kind != .indent && token.kind != .dedent

theorem unframed_append (tokens tokens' : List Token) :
    unframed (tokens ++ tokens') = unframed tokens ++ unframed tokens' :=
  List.filter_append ..

theorem Settles.unframed_eq_nil {stack' : List Nat} {margin : List Token}
    (h : Settles stack stack' margin) : unframed margin = [] := by
  rw [unframed, List.filter_eq_nil_iff]
  intro token htoken
  rcases h.kind token htoken with hkind | hkind <;> simp [hkind]

def Counts (before stack : List Nat) (widths : List Nat) (tokens : List Token) : Prop :=
  ∀ front token back, tokens = front ++ token :: back → token.kind = .identifier →
    ∃ stack', Stack (before ++ widths.take (countKind .identifier front + 1)) stack' ∧
      countKind .indent front + stack.length = countKind .dedent front + stack'.length

theorem countKind_append (kind : TokenKind) (tokens tokens' : List Token) :
    countKind kind (tokens ++ tokens') = countKind kind tokens + countKind kind tokens' := by
  simp [countKind]

theorem exists_append_of_names {margin tokens front back : List Token} {token : Token}
    (hmargin : ∀ first ∈ margin, first.kind ≠ .identifier) (hkind : token.kind = .identifier)
    (h : margin ++ tokens = front ++ token :: back) :
    ∃ front', front = margin ++ front' ∧ tokens = front' ++ token :: back := by
  rcases List.append_eq_append_iff.1 h with ⟨middle, rfl, hmiddle⟩ | ⟨middle, rfl, hmiddle⟩
  · exact ⟨middle, rfl, hmiddle⟩
  · cases middle with
    | nil => exact ⟨[], by simp, by simpa using hmiddle.symm⟩
    | cons first middle =>
        rw [List.cons_append, List.cons.injEq] at hmiddle
        exact absurd hkind (hmargin token (by simp [hmiddle.1]))

theorem Settles.ne_identifier {stack' : List Nat} {margin : List Token}
    (h : Settles stack stack' margin) : ∀ token ∈ margin, token.kind ≠ .identifier := by
  intro token htoken hkind
  rcases h.kind token htoken with hkind' | hkind' <;> simp [hkind'] at hkind

theorem Settles.countKind_identifier {stack' : List Nat} {margin : List Token}
    (h : Settles stack stack' margin) : countKind .identifier margin = 0 := by
  rw [countKind, List.count_eq_zero]
  intro hmem
  obtain ⟨token, htoken, hkind⟩ := List.mem_map.1 hmem
  exact h.ne_identifier token htoken hkind

theorem Counts.cons {stack' widths : List Nat} {width : Nat} {margin tokens : List Token}
    (hstack' : Stack (before ++ [width]) stack') (hmargin : Settles stack stack' margin)
    (h : Counts (before ++ [width]) stack' widths tokens) :
    Counts before stack (width :: widths) (margin ++ (line.tokens ++ tokens)) := by
  intro front token back hall hkind
  obtain ⟨front, rfl, hsplit⟩ := exists_append_of_names hmargin.ne_identifier hkind hall
  clear hall
  have hbalance := hmargin.balance
  rw [countKind_append, countKind_append, countKind_append, hmargin.countKind_identifier]
  cases front with
  | nil => exact ⟨stack', by simpa using hstack', by simpa using hbalance⟩
  | cons name front =>
      cases front with
      | nil =>
          simp only [NameLine.tokens, List.cons_append, List.nil_append, List.cons.injEq] at hsplit
          rw [← hsplit.2.1] at hkind
          contradiction
      | cons newline front =>
          simp only [NameLine.tokens, List.cons_append, List.nil_append, List.cons.injEq] at hsplit
          obtain ⟨rfl, rfl, hsplit⟩ := hsplit
          obtain ⟨stack'', hstack'', hcount⟩ := h front token back hsplit hkind
          refine ⟨stack'', ?_, ?_⟩
          · rw [List.append_assoc, List.singleton_append] at hstack''
            simpa [countKind_cons, Token.identifier, Token.plain] using hstack''
          · simp only [countKind_cons, Token.identifier, Token.plain, reduceCtorEq, if_false,
              Nat.add_zero]
            omega

theorem Counts.append_of_ne {widths : List Nat} {tokens closing : List Token}
    (h : Counts before stack widths tokens)
    (hclosing : ∀ token ∈ closing, token.kind ≠ .identifier) :
    Counts before stack widths (tokens ++ closing) := by
  intro front token back hsplit hkind
  rcases List.append_eq_append_iff.1 hsplit with ⟨middle, rfl, hmiddle⟩ | ⟨middle, rfl, hmiddle⟩
  · exact absurd hkind (hclosing token (by simp [hmiddle]))
  · cases middle with
    | nil =>
        rw [List.nil_append] at hmiddle
        exact absurd hkind (hclosing token (by simp [← hmiddle]))
    | cons first middle =>
        rw [List.cons_append, List.cons.injEq] at hmiddle
        obtain ⟨rfl, -⟩ := hmiddle
        exact h front token middle rfl hkind

theorem scans_nameLine :
    Scans (AtName tab line rest stack) line.tokens (AtLine tab rest stack) := by
  have hstops : Stops ('\n' :: rest) := stops_of_ne_point (by decide) (by decide) (by decide)
  have hline : Scans (InLine (line.name.toList ++ '\n' :: rest) [] (stack.map UInt64.ofNat))
      line.tokens (AtStart rest (stack.map UInt64.ofNat)) :=
    Scans.cons (@scans_name _ _ _ ⟨line.name, .start⟩ line.word hstops) scans_newline
  intro scanner hscanner
  obtain ⟨spelled, later, hspelled, houtcomes, hreaches, hstart, htab⟩ :=
    hline.withTabWidth scanner hscanner
  exact ⟨spelled, later, hspelled, houtcomes, hreaches, hstart, htab⟩

theorem exists_scans_lines (rest : List Char) (hstack : Stack before stack) (hsmall : Small stack)
    (hwidth : ∀ line ∈ lines, line.width tab < 2 ^ 64)
    (hfits : ∀ front width back, lines.map (NameLine.width · tab) = front ++ width :: back →
      FitsBehind (before ++ front) width) :
    ∃ tokens stack', Stack (before ++ lines.map (NameLine.width · tab)) stack' ∧ Small stack' ∧
      unframed tokens = lines.flatMap NameLine.tokens ∧
      Counts before stack (lines.map (NameLine.width · tab)) tokens ∧
      Scans (AtLine tab (NameLine.source lines ++ rest) stack) tokens (AtLine tab rest stack') := by
  -- Each line settles the blocks in front of it and leaves a stack for the lines behind it.
  induction lines generalizing before stack with
  | nil =>
      refine ⟨[], stack, by simpa using hstack, hsmall, rfl, ?_, .refl _⟩
      intro front token back hsplit
      simp at hsplit
  | cons line lines ih =>
      have hfirst : FitsBehind before (line.width tab) := by
        simpa using hfits [] (line.width tab) _ rfl
      obtain ⟨margin, middle, hmiddle, hsmallMiddle, hsettles, hmargin⟩ :=
        exists_margin (NameLine.source lines ++ rest) hstack hsmall
          (hwidth line List.mem_cons_self) hfirst
      obtain ⟨tokens, stack', hstack', hsmall', hunframed, hcounts, hscans⟩ :=
        ih hmiddle hsmallMiddle (fun line hline => hwidth line (List.mem_cons_of_mem _ hline)) (by
          intro front width back hsplit
          have hbehind := hfits (line.width tab :: front) width back (by simp [hsplit])
          simpa using hbehind)
      refine ⟨margin ++ (line.tokens ++ tokens), stack', by simpa using hstack', hsmall', ?_, ?_, ?_⟩
      · rw [unframed_append, unframed_append, hsettles.unframed_eq_nil, hunframed]
        rfl
      · exact hcounts.cons hmiddle hsettles
      · have hsource : NameLine.source (line :: lines) ++ rest =
            line.chars ++ (NameLine.source lines ++ rest) := by
          simp [NameLine.source]
        rw [hsource]
        exact hmargin.trans (scans_nameLine.trans hscans)

/-! ## Whole texts -/

theorem kinds_of_respelled {tokens tokens' : List Token} (h : Respelled tokens tokens') :
    tokens'.map Token.kind = tokens.map Token.kind := by
  have hkinds := congrArg (List.map Token.kind) h
  rw [List.map_map, List.map_map] at hkinds
  exact hkinds

theorem countKind_of_respelled {tokens tokens' : List Token} (h : Respelled tokens tokens')
    (kind : TokenKind) : countKind kind tokens' = countKind kind tokens := by
  rw [countKind, kinds_of_respelled h, countKind]

theorem Counts.respelled {widths : List Nat} {tokens tokens' : List Token}
    (h : Counts before stack widths tokens) (hspelled : Respelled tokens tokens') :
    Counts before stack widths tokens' := by
  intro front token back hsplit hkind
  rw [hsplit, Respelled, List.map_append, List.map_cons, eq_comm, List.map_eq_append_iff]
    at hspelled
  obtain ⟨front', tail, rfl, hfront, htail⟩ := hspelled
  obtain ⟨token', back', rfl, htoken, -⟩ := List.map_eq_cons_iff.1 htail
  have hkind' : token'.bare.kind = token.bare.kind := congrArg Token.kind htoken
  have hfront : Respelled front' front := hfront.symm
  rw [countKind_of_respelled hfront, countKind_of_respelled hfront, countKind_of_respelled hfront]
  exact h front' token' back' rfl (hkind'.trans hkind)

theorem Respelled.unframed {tokens tokens' : List Token} (h : Respelled tokens tokens') :
    Respelled (unframed tokens) (unframed tokens') := by
  induction tokens generalizing tokens' with
  | nil =>
      obtain rfl : tokens' = [] := by simpa using h
      rfl
  | cons token tokens ih =>
      rw [Respelled, List.map_cons, List.map_eq_cons_iff] at h
      obtain ⟨token', tokens', rfl, htoken, hrest⟩ := h
      have hkind : token'.kind = token.kind := by
        have hbare : token'.bare.kind = token.bare.kind := congrArg Token.kind htoken
        exact hbare
      have htail := ih hrest
      unfold Scan.unframed at htail ⊢
      rw [List.filter_cons, List.filter_cons, hkind]
      split
      · rw [Respelled, List.map_cons, List.map_cons, htoken, htail]
      · exact htail

theorem atLine_opened (tab : UInt64) (text : String) :
    AtLine tab text.toList [0] (Scanner.opened text tab) :=
  ⟨⟨rfl, rfl, rfl, rfl, rfl, rfl⟩, rfl⟩

theorem small_margin : Small [0] := by simp [Small]

theorem unframed_closingTokens (count : Nat) :
    unframed (closingTokens count) = [.plain .eof .start] := by
  rw [closingTokens, unframed_append]
  simp [unframed, Token.plain]

theorem ne_identifier_of_closing {count : Nat} {closing : List Token}
    (h : Respelled (closingTokens count) closing) : ∀ token ∈ closing, token.kind ≠ .identifier := by
  intro token htoken hkind
  have hmem := List.mem_map_of_mem (f := Token.kind) htoken
  rw [kinds_of_respelled h, hkind] at hmem
  simp [closingTokens, Token.plain] at hmem

theorem Counts.in_file {widths : List Nat} {tokens : List Token} {position : Position}
    (h : Counts [] [0] widths tokens) (front : List Token) (token : Token) (back : List Token)
    (htokens : .plain .indent position :: tokens = front ++ token :: back)
    (hkind : token.kind = .identifier) :
    ∃ levels, Levels (widths.take (countKind .identifier front + 1)) levels ∧
      countKind .indent front = countKind .dedent front + 1 + levels.length := by
  cases front with
  | nil =>
      obtain ⟨rfl, -⟩ := List.cons.inj htokens
      contradiction
  | cons opening front =>
      rw [List.cons_append, List.cons.injEq] at htokens
      obtain ⟨rfl, hsplit⟩ := htokens
      obtain ⟨stack, hstack, hcount⟩ := h front token back hsplit hkind
      obtain ⟨levels, hlevels, rfl⟩ := hstack.exists_levels
      simp only [List.length_append, List.length_reverse, List.length_singleton] at hcount
      refine ⟨levels, by simpa [countKind_cons, Token.plain] using hlevels, ?_⟩
      simp only [countKind_cons, Token.plain, if_true, reduceCtorEq, if_false]
      omega

theorem pos_of_levels {widths levels : List Nat} (h : Levels widths levels)
    (hsmall : Small (levels.reverse ++ [0])) :
    ∀ level ∈ levels.reverse.map UInt64.ofNat, 0 < level := by
  intro level hlevel
  obtain ⟨level, hmem, rfl⟩ := List.mem_map.1 hlevel
  have hpos := ((h.mem_iff level).1 (List.mem_reverse.1 hmem)).1
  exact (ofNat_lt_ofNat (hsmall level (List.mem_append_left _ hmem)) (by decide)).2 hpos

theorem exists_first_unfit (h : ¬ Disciplined (lines.map (NameLine.width · tab))) :
    ∃ before line behind, lines = before ++ line :: behind ∧
      Disciplined (before.map (NameLine.width · tab)) ∧
      ¬ FitsBehind (before.map (NameLine.width · tab)) (line.width tab) := by
  induction lines using List.reverseRecOn with
  | nil =>
      refine absurd ?_ h
      intro before width behind hsplit
      simp at hsplit
  | append_singleton lines line ih =>
      by_cases hlines : Disciplined (lines.map (NameLine.width · tab))
      · refine ⟨lines, line, [], rfl, hlines, ?_⟩
        intro hfits
        refine h ?_
        rw [List.map_append, List.map_cons, disciplined_append]
        exact ⟨hlines, hfits, fun front next back hsplit => by simp at hsplit⟩
      · obtain ⟨before, first, behind, rfl, hbefore, hfirst⟩ := ih hlines
        exact ⟨before, first, behind ++ [line], by simp, hbefore, hfirst⟩

end Scan

open Scan
open Grammar (Respelled)

variable {lines : List NameLine} {config : RunConfig}

theorem tokenize_of_disciplined
    (hwidth : ∀ line ∈ lines, line.width config.tabWidth < 2 ^ 64)
    (h : Disciplined (lines.map (NameLine.width · config.tabWidth))) :
    ∃ tokens, tokenize (String.join (lines.map NameLine.text)) config = .ok tokens ∧
      Respelled (lines.flatMap NameLine.tokens ++ [.plain .eof .start]) (unframed tokens) ∧
      ∀ front token back, tokens = front ++ token :: back → token.kind = .identifier →
        ∃ levels, Levels ((lines.map (NameLine.width · config.tabWidth)).take
            (countKind .identifier front + 1)) levels ∧
          countKind .indent front = countKind .dedent front + 1 + levels.length := by
  obtain ⟨tokens, stack, hstack, hsmall, hunframed, hcounts, hscans⟩ :=
    exists_scans_lines [] stack_nil small_margin hwidth h
  obtain ⟨levels, hlevels, rfl⟩ := hstack.exists_levels
  obtain ⟨spelled, later, hspelled, houtcomes, -, hlater⟩ := hscans _ (by
    rw [List.append_nil, ← NameLine.toList_join]
    exact atLine_opened config.tabWidth _)
  have hstart : AtStart [] (levels.reverse.map UInt64.ofNat ++ [0]) later := by
    have hstart := hlater.start
    rw [List.map_append] at hstart
    exact hstart
  obtain ⟨closing, last, hclosing, houtcomes', -, hdone⟩ :=
    scans_closeFile (pos_of_levels hlevels hsmall) later hstart.atClose
  refine ⟨.plain .indent .start :: (spelled ++ closing), ?_, ?_, ?_⟩
  · rw [tokenize_eq_ok, Scanner.outcomes_ofText_eq, houtcomes, houtcomes', hdone]
    simp
  · have htokens := Respelled.unframed
      (Grammar.respelled_append.2 ⟨spelled, closing, rfl, hspelled, hclosing⟩)
    rw [unframed_append, hunframed, unframed_closingTokens] at htokens
    exact htokens
  · have hall := (hcounts.respelled hspelled).append_of_ne (ne_identifier_of_closing hclosing)
    exact hall.in_file

/-- The name of a line stands behind as many line breaks as there are lines in front of it. -/
theorem line_of_reaches {before behind : List NameLine} {line : NameLine} {cursor : Text.Cursor}
    (h : (Text.Cursor.ofText (String.join ((before ++ line :: behind).map NameLine.text))).Reaches
      cursor) (hrest : cursor.rest = line.name.toList ++ '\n' :: NameLine.source behind) :
    cursor.position.line = before.length + 1 := by
  have hsource : (Text.Cursor.ofText (String.join
      ((before ++ line :: behind).map NameLine.text))).rest =
        NameLine.source before ++ (line.chars ++ NameLine.source behind) :=
    NameLine.toList_join_cons before line behind
  have hline := h.line (by
    rw [Text.Cursor.ofText, NameLine.toList_join, NameLine.source, List.mem_flatMap]
    rintro ⟨other, -, hreturn⟩
    exact other.not_mem_chars hreturn)
  have hstart : (Text.Cursor.ofText (String.join
      ((before ++ line :: behind).map NameLine.text))).position.line = 1 := rfl
  rw [hrest, hsource, hstart, ← List.singleton_append, ← List.append_assoc, List.count_append,
    line.count_lineFeed, List.count_append, List.count_append, line.count_lineFeed_chars,
    NameLine.count_source, NameLine.count_source] at hline
  omega

theorem tokenize_of_unfit {before : List NameLine} {line : NameLine} (behind : List NameLine)
    (hwidth : ∀ other ∈ before, other.width config.tabWidth < 2 ^ 64)
    (hbefore : Disciplined (before.map (NameLine.width · config.tabWidth)))
    (hunfit : ¬ FitsBehind (before.map (NameLine.width · config.tabWidth))
      (line.width config.tabWidth)) :
    ∃ levels position, Levels (before.map (NameLine.width · config.tabWidth)) levels ∧
      position.line = before.length + 1 ∧
      tokenize (String.join ((before ++ line :: behind).map NameLine.text)) config =
        .error (.lexer (.mismatchedIndent (UInt64.ofNat (line.width config.tabWidth))
          ((0 :: levels).map UInt64.ofNat) position)) := by
  obtain ⟨tokens, stack, hstack, hsmall, -, -, hscans⟩ :=
    exists_scans_lines (line.chars ++ NameLine.source behind) stack_nil small_margin hwidth
      hbefore
  obtain ⟨spelled, later, -, houtcomes, hreaches, hlater⟩ := hscans _ (by
    rw [← NameLine.toList_join_cons before line behind]
    exact atLine_opened config.tabWidth _)
  obtain ⟨last, hlast, hpos, hless, hclosed⟩ : ∃ last,
      (before.map (NameLine.width · config.tabWidth)).getLast? = some last ∧
        0 < line.width config.tabWidth ∧ line.width config.tabWidth < last ∧
        ¬ Standing (before.map (NameLine.width · config.tabWidth)) (line.width config.tabWidth) := by
    simpa [FitsBehind] using hunfit
  cases stack with
  | nil => exact absurd ((hstack.mem_iff 0).2 (.inl rfl)) List.not_mem_nil
  | cons top outer =>
      have htop := hstack.head_eq
      rw [List.nil_append, hlast, Option.getD_some] at htop
      have hnone : line.width config.tabWidth ∉ top :: outer := by
        rw [hstack.mem_iff]
        rintro (hzero | hstanding)
        · omega
        · exact hclosed hstanding
      obtain ⟨cursor, items, hpasses, hfailure⟩ :=
        outcomes_of_unfit hsmall (htop ▸ hless) (by omega) hnone hlater
      obtain ⟨levels, hlevels, hsplit⟩ := hstack.exists_levels
      refine ⟨levels, cursor.position, hlevels,
        line_of_reaches (hreaches.cursor.trans hpasses.reaches) hpasses.rest, ?_⟩
      rw [tokenize_eq_error]
      refine ⟨.plain .indent .start :: spelled, items, ?_⟩
      rw [Scanner.outcomes_ofText_eq, houtcomes, hfailure, hsplit, List.reverse_append,
        List.reverse_reverse]
      rfl

/-- The indentation of name lines follows the offside rule.  A text has tokens exactly if its lines
fit; then one more block is open in front of each name than there are levels, and otherwise the first
line that does not fit is reported with the levels behind the line before it. -/
theorem tokenize_nameLines (hwidth : ∀ line ∈ lines, line.width config.tabWidth < 2 ^ 64) :
    ((tokenize (String.join (lines.map NameLine.text)) config).isOk = true ↔
        Disciplined (lines.map (NameLine.width · config.tabWidth))) ∧
      (∀ tokens, tokenize (String.join (lines.map NameLine.text)) config = .ok tokens →
        Respelled (lines.flatMap NameLine.tokens ++ [.plain .eof .start]) (unframed tokens) ∧
          ∀ front token back, tokens = front ++ token :: back → token.kind = .identifier →
            ∃ levels, Levels ((lines.map (NameLine.width · config.tabWidth)).take
                (countKind .identifier front + 1)) levels ∧
              countKind .indent front = countKind .dedent front + 1 + levels.length) ∧
      ∀ failure, tokenize (String.join (lines.map NameLine.text)) config = .error failure →
        ∃ before line behind levels position, lines = before ++ line :: behind ∧
          Disciplined (before.map (NameLine.width · config.tabWidth)) ∧
          ¬ FitsBehind (before.map (NameLine.width · config.tabWidth))
            (line.width config.tabWidth) ∧
          Levels (before.map (NameLine.width · config.tabWidth)) levels ∧
          position.line = before.length + 1 ∧
          failure = .lexer (.mismatchedIndent (UInt64.ofNat (line.width config.tabWidth))
            ((0 :: levels).map UInt64.ofNat) position) := by
  by_cases h : Disciplined (lines.map (NameLine.width · config.tabWidth))
  · obtain ⟨tokens, htokens, hunframed, hcounts⟩ := tokenize_of_disciplined hwidth h
    rw [htokens]
    refine ⟨iff_of_true rfl h, ?_, fun failure hfailure => by contradiction⟩
    rintro tokens' htokens'
    cases htokens'
    exact ⟨hunframed, hcounts⟩
  · obtain ⟨before, line, behind, rfl, hbefore, hunfit⟩ := exists_first_unfit h
    obtain ⟨levels, position, hlevels, hline, hfailure⟩ := tokenize_of_unfit behind
      (fun other hother => hwidth other (List.mem_append_left _ hother)) hbefore hunfit
    rw [hfailure]
    refine ⟨iff_of_false (by simp [Except.isOk, Except.toBool]) h, fun tokens htokens => by contradiction,
      ?_⟩
    rintro failure hfailure'
    cases hfailure'
    exact ⟨before, line, behind, levels, position, rfl, hbefore, hunfit, hlevels, hline, rfl⟩

/-- A line between the margin and the only open width. -/
theorem tokenize_nameLines_between :
    ∃ lines : List NameLine, String.join (lines.map NameLine.text) = "a\n  b\n c\n" ∧
      (∀ line ∈ lines, line.width RunConfig.default.tabWidth < 2 ^ 64) ∧
      ((tokenize "a\n  b\n c\n" .default).isOk = true ↔
        Disciplined (lines.map (NameLine.width · RunConfig.default.tabWidth))) := by
  have hwidth : ∀ line ∈ [⟨[], "a", by simp, by decide +kernel⟩,
      ⟨[' ', ' '], "b", by simp, by decide +kernel⟩, ⟨[' '], "c", by simp, by decide +kernel⟩],
      NameLine.width line RunConfig.default.tabWidth < 2 ^ 64 := by decide
  exact ⟨_, rfl, hwidth, (tokenize_nameLines hwidth).1⟩

end Offside
