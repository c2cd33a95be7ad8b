import Mathlib.Data.List.TakeWhile
import Offside.Proofs.Scanning.Extent
import Offside.Proofs.Scanning.Fork
import Offside.Proofs.Scanning.LineFeeds
import Offside.Proofs.Scanning.Requests

/-!
# The line behind a joined line break

Brackets are given up in front of a line that opens a statement.  The look at this line is at the text
as it is written, the line itself is read character by character.  Both see the same line, unless it is
blank and ends in a carriage return alone: that is a blank to the look, which goes on to the next line.
-/

namespace Offside

/-! ## Lines -/

namespace Text.Cursor

/-- What is left of the line, in characters as they are read. -/
def line (cursor : Cursor) : List Char := (cursor.span (· != '\n')).1

def lineEnd (cursor : Cursor) : Cursor := (cursor.span (· != '\n')).2

theorem covers_line (cursor : Cursor) : cursor.Covers cursor.lineEnd cursor.line :=
  covers_span (by decide) cursor

theorem rest_line (cursor : Cursor) :
    cursor.rest = cursor.line ∨ ∃ next, cursor.lineEnd.read? = some ('\n', next) ∧
      ((∃ more, cursor.rest = cursor.line ++ '\n' :: more) ∨
        (∃ more, cursor.rest = cursor.line ++ '\r' :: '\n' :: more) ∨
        (next.rest.head? ≠ some '\n' ∧ cursor.rest = cursor.line ++ '\r' :: next.rest)) := by
  have hrest := cursor.covers_line.rest
  cases hread : cursor.lineEnd.read? with
  | none =>
      rw [(read?_eq_none_iff _).1 hread, List.append_nil] at hrest
      exact .inl hrest
  | some result =>
      obtain ⟨c, next⟩ := result
      obtain rfl : c = '\n' := by simpa using span_stops hread
      refine .inr ⟨next, rfl, ?_⟩
      rw [hrest]
      rcases rest_of_lineFeed hread with ⟨more, hmore⟩ | ⟨more, hmore⟩ | ⟨hhead, hmore⟩
      · exact .inl ⟨more, by rw [hmore]⟩
      · exact .inr (.inl ⟨more, by rw [hmore]⟩)
      · exact .inr (.inr ⟨hhead, by rw [hmore]⟩)

theorem return_notMem_line (cursor : Cursor) : '\r' ∉ cursor.line := by
  unfold line
  fun_induction span (· != '\n') cursor with
  | case1 => simp
  | case2 cursor c next hread hc tail ih =>
      have hreturn : c ≠ '\r' := by
        unfold read? at hread
        grind
      simpa [hreturn.symm] using ih
  | case3 => simp

theorem lineEnd_of_blank {cursor : Cursor} (h : ∀ c ∈ cursor.line, isInlineBlank c = true) :
    (cursor.span isInlineBlank).2 = cursor.lineEnd := by
  unfold line at h
  unfold lineEnd
  fun_induction span (· != '\n') cursor with
  | case1 cursor hread => rw [span_of_end hread]
  | case2 cursor c next hread hc tail ih =>
      rw [span_of_read? hread, if_pos (h c (by simp))]
      exact ih fun d hd => h d (by simp [tail, hd])
  | case3 cursor c next hread hc =>
      obtain rfl : c = '\n' := by simpa using hc
      rw [span_of_read? hread, isInlineBlank_lineFeed]
      rfl

end Text.Cursor

namespace Scan

open Text (Cursor Position isInlineBlank)

/-- The words that only stand at the start of a statement. -/
def statementWords : List String := ["func", "if", "while", "struct", "return"]

/-- The first word of the text opens a statement. -/
def StartsWithKeyword (text : List Char) : Prop :=
  String.ofList ((text.dropWhile isInlineBlank).takeWhile isWordChar) ∈ statementWords

/-- The line is indented by no more than `limit`, and its first word opens a statement. -/
structure OpensStatement (tabWidth limit : UInt64) (line : List Char) : Prop where
  width : columns tabWidth (line.takeWhile isInlineBlank) ≤ limit.toNat
  keyword : StartsWithKeyword line

/-- The line opens no statement because it is too wide, but its width overflows a machine word and what
the word holds of it is no more than `limit`. -/
structure OpensByOverflow (tabWidth limit : UInt64) (line : List Char) : Prop where
  overflow : 2 ^ 64 ≤ columns tabWidth (line.takeWhile isInlineBlank)
  width : columns tabWidth (line.takeWhile isInlineBlank) % 2 ^ 64 ≤ limit.toNat
  keyword : StartsWithKeyword line

/-- The text starts with a blank line that ends in a carriage return alone. -/
def ReturnsBlank (text : List Char) : Prop :=
  ∃ blanks more, text = blanks ++ '\r' :: more ∧ (∀ c ∈ blanks, isInlineBlank c = true) ∧
    more.head? ≠ some '\n'

/-! ## The look at a text -/

variable {tabWidth limit : UInt64} {cursor next : Cursor} {text more blanks : List Char}

theorem mem_statementWords (word : String) :
    (∃ kind, TokenKind.keyword? word = some kind ∧ kind.startsStatement = true) ↔
      word ∈ statementWords := by
  constructor
  · rintro ⟨kind, hkind, hstarts⟩
    have hlexeme := (TokenKind.keyword?_lexeme hkind).2
    cases kind <;> cases hstarts <;> cases hlexeme <;> decide
  · have hwords : ∀ word ∈ statementWords,
        ((TokenKind.keyword? word).any TokenKind.startsStatement) = true := by decide
    intro hword
    simpa [Option.any_eq_true] using hwords word hword

theorem startsStatement_iff :
    startsStatement tabWidth limit text = true ↔
      columns tabWidth (text.takeWhile isInlineBlank) % 2 ^ 64 ≤ limit.toNat ∧
        StartsWithKeyword text := by
  rw [startsStatement_eq_true, mem_statementWords, UInt64.le_iff_toNat_le, toNat_leadingWidth]
  rfl

theorem opensStatement_or_overflow_iff :
    OpensStatement tabWidth limit text ∨ OpensByOverflow tabWidth limit text ↔
      columns tabWidth (text.takeWhile isInlineBlank) % 2 ^ 64 ≤ limit.toNat ∧
        StartsWithKeyword text := by
  constructor
  · rintro (h | h)
    · exact ⟨Nat.le_trans (Nat.mod_le _ _) h.width, h.keyword⟩
    · exact ⟨h.width, h.keyword⟩
  · rintro ⟨hwidth, hkeyword⟩
    by_cases hfits : columns tabWidth (text.takeWhile isInlineBlank) < 2 ^ 64
    · rw [Nat.mod_eq_of_lt hfits] at hwidth
      exact .inl ⟨hwidth, hkeyword⟩
    · exact .inr ⟨Nat.le_of_not_lt hfits, hwidth, hkeyword⟩

theorem startsWithKeyword_of_blanks (hblanks : ∀ c ∈ blanks, isInlineBlank c = true) :
    StartsWithKeyword (blanks ++ more) ↔ StartsWithKeyword more := by
  rw [StartsWithKeyword, List.dropWhile_append_of_pos hblanks]
  rfl

theorem not_startsWithKeyword_of_blanks (hblanks : ∀ c ∈ blanks, isInlineBlank c = true) :
    ¬ StartsWithKeyword blanks := by
  rw [StartsWithKeyword, List.dropWhile_eq_nil_iff.2 hblanks]
  decide

theorem blanks_append (hcontent : ¬ ∀ c ∈ text, isInlineBlank c = true) :
    (text ++ more).takeWhile isInlineBlank = text.takeWhile isInlineBlank := by
  rw [List.takeWhile_append, if_neg]
  intro hlength
  exact hcontent (List.takeWhile_eq_self_iff.1 ((List.takeWhile_prefix _).eq_of_length hlength))

theorem startsWithKeyword_append {c : Char} (hcontent : ¬ ∀ d ∈ text, isInlineBlank d = true)
    (hc : isWordChar c = false) :
    StartsWithKeyword (text ++ c :: more) ↔ StartsWithKeyword text := by
  rw [StartsWithKeyword, List.dropWhile_append,
    if_neg (by rwa [List.isEmpty_iff, List.dropWhile_eq_nil_iff]), (takeWhile_stop hc _ _).1]
  rfl

/-! ## The look at a line -/

theorem keyword_line (hcontent : ¬ ∀ c ∈ cursor.line, isInlineBlank c = true) :
    StartsWithKeyword cursor.rest ↔ StartsWithKeyword cursor.line := by
  rcases cursor.rest_line with
    hrest | ⟨next, -, ⟨more, hrest⟩ | ⟨more, hrest⟩ | ⟨-, hrest⟩⟩
  · rw [hrest]
  · rw [hrest, startsWithKeyword_append hcontent isWordChar_lineFeed]
  · rw [hrest, startsWithKeyword_append hcontent (by decide)]
  · rw [hrest, startsWithKeyword_append hcontent (by decide)]

/-- No word is behind a blank line that does not end in a carriage return alone; behind one that does,
it is the first word of the next line. -/
theorem keyword_blankLine (hblank : ∀ c ∈ cursor.line, isInlineBlank c = true)
    (h : StartsWithKeyword cursor.rest) :
    ReturnsBlank cursor.rest ∧ ∃ next, (cursor.span isInlineBlank).2.read? = some ('\n', next) ∧
      StartsWithKeyword next.rest := by
  have hreturn : ∀ c ∈ cursor.line ++ ['\r'], isInlineBlank c = true := by
    have hc : isInlineBlank '\r' = true := by decide
    simpa [hc, or_imp, forall_and] using hblank
  have hfeed : ∀ more, ¬ StartsWithKeyword ('\n' :: more) := by
    intro more
    rw [StartsWithKeyword, List.dropWhile_cons_of_neg (by simp [Text.isInlineBlank_lineFeed]),
      List.takeWhile_cons_of_neg (by simp [isWordChar_lineFeed])]
    decide
  rcases cursor.rest_line with
    hrest | ⟨next, hread, ⟨more, hrest⟩ | ⟨more, hrest⟩ | ⟨hhead, hrest⟩⟩
  · rw [hrest] at h
    exact absurd h (not_startsWithKeyword_of_blanks hblank)
  · rw [hrest, startsWithKeyword_of_blanks hblank] at h
    exact absurd h (hfeed more)
  · rw [hrest, List.append_cons, startsWithKeyword_of_blanks hreturn] at h
    exact absurd h (hfeed more)
  · refine ⟨⟨_, _, hrest, hblank, hhead⟩, next, by rw [Cursor.lineEnd_of_blank hblank, hread], ?_⟩
    rwa [hrest, List.append_cons, startsWithKeyword_of_blanks hreturn] at h

/-- A line in front of a carriage return is a part of the blanks that are in front of one. -/
theorem ReturnsBlank.line (h : ReturnsBlank cursor.rest) :
    ∀ c ∈ cursor.line, isInlineBlank c = true := by
  obtain ⟨blanks, more, hrest, hblanks, -⟩ := h
  rw [cursor.covers_line.rest] at hrest
  rcases List.append_eq_append_iff.1 hrest with ⟨behind, rfl, -⟩ | ⟨behind, hline, hbehind⟩
  · exact fun c hc => hblanks c (List.mem_append_left _ hc)
  · have hnone := cursor.return_notMem_line
    cases behind with
    | nil => rwa [hline, List.append_nil]
    | cons c behind =>
        obtain rfl : '\r' = c := (List.cons.inj hbehind).1
        rw [hline] at hnone
        simp at hnone

/-- A line opens a statement, or seems to by an overflow, if the look says so and the line is not a
blank one that ends in a carriage return alone. -/
theorem opensStatement_line :
    OpensStatement tabWidth limit cursor.line ∨ OpensByOverflow tabWidth limit cursor.line ↔
      startsStatement tabWidth limit cursor.rest = true ∧ ¬ ReturnsBlank cursor.rest := by
  rw [opensStatement_or_overflow_iff, startsStatement_iff]
  by_cases hblank : ∀ c ∈ cursor.line, isInlineBlank c = true
  · refine iff_of_false (fun h => ?_) (fun h => ?_)
    · exact not_startsWithKeyword_of_blanks hblank h.2
    · exact h.2 (keyword_blankLine hblank h.1.2).1
  · have hreturn : ¬ ReturnsBlank cursor.rest := fun h => hblank h.line
    have hblanks : cursor.rest.takeWhile isInlineBlank = cursor.line.takeWhile isInlineBlank := by
      rw [cursor.covers_line.rest, blanks_append hblank]
    rw [hblanks, keyword_line hblank, and_iff_left hreturn]

/-- The keyword that the look finds is the first word of a line, with at most blank lines before it. -/
theorem exists_keywordLine (h : StartsWithKeyword cursor.rest) :
    ∃ last, BlankLines cursor last ∧ StartsWithKeyword last.line := by
  induction hlength : cursor.rest.length using Nat.strongRecOn generalizing cursor with
  | ind length ih =>
      by_cases hblank : ∀ c ∈ cursor.line, isInlineBlank c = true
      · obtain ⟨-, next, hread, hnext⟩ := keyword_blankLine hblank h
        have hle := Cursor.span_length_le isInlineBlank cursor
        have hlt := Cursor.length_lt_of_read? hread
        obtain ⟨last, hlines, hlast⟩ := ih _ (by omega) hnext rfl
        exact ⟨last, .line hread hlines, hlast⟩
      · exact ⟨cursor, .none cursor, (keyword_line hblank).1 h⟩

/-! ## Where brackets are given up -/

theorem skipBlanks_sees (h : (skipBlanks tabWidth limit true cursor).1 = true) :
    ∃ next, (skipBlanks tabWidth limit true cursor).2.read? = some ('\n', next) ∧
      startsStatement tabWidth limit next.rest = true := by
  induction hlength : cursor.rest.length using Nat.strongRecOn generalizing cursor with
  | ind length ih =>
      cases hread : cursor.read? with
      | none => simp [skipBlanks_of_end hread] at h
      | some result =>
          obtain ⟨c, next⟩ := result
          have hlt := Cursor.length_lt_of_read? hread
          by_cases hc : c = '\n'
          · subst hc
            rw [skipBlanks_of_joined hread, dropLineBreak_of_read? hread] at h ⊢
            split at h
            · rename_i hstarts
              rw [if_pos hstarts]
              exact ⟨next, hread, hstarts⟩
            · rename_i hstarts
              rw [if_neg hstarts]
              exact ih _ (hlength ▸ hlt) h rfl
          · rw [skipBlanks_of_char hread hc] at h ⊢
            split at h
            · rename_i hblank
              rw [if_pos hblank]
              exact ih _ (hlength ▸ hlt) h rfl
            · contradiction

theorem scanToken_ne_unclosed {context : Context} {c : Char}
    (hread : context.cursor.read? = some (c, next)) (hc : c ≠ '\n') (opener : Char)
    (position : Position) :
    (Scanner.scanToken context c next).1 ≠ .error (.unclosedBracket opener) position := by
  intro h
  obtain ⟨text, hcovers, hspells⟩ := (scanToken_cuts context hread hc).text
  have hlt := Scanner.scanToken_length_lt context c next hread
  obtain rfl : text = [] := hspells.nil_of_unclosed (by rw [h]; rfl)
  rw [hcovers.rest, List.nil_append] at hlt
  exact Nat.lt_irrefl _ hlt

namespace Scanner

variable {scanner after : Scanner} {opener : Char} {position : Position}

/-- The scanner is where it reports brackets: at the end of the text, or at a line break behind which
it sees a statement. -/
structure Reports (tabWidth limit : UInt64) (scanner : Scanner) (position : Position) : Prop where
  place : position = scanner.position
  cause : scanner.context.cursor.atEnd = true ∨ ∃ next,
    scanner.context.cursor.read? = some ('\n', next) ∧
      startsStatement tabWidth limit next.rest = true

theorem endOfText_reports {context : Context} (hend : context.cursor.atEnd = true)
    (h : scanner.endOfText context = (.token (.error (.unclosedBracket opener) position), after)) :
    Reports scanner.tabWidth scanner.context.bracketIndent after position := by
  unfold endOfText at h
  split at h
  · cases h
    exact ⟨rfl, .inl hend⟩
  · grind [emit, goTo, Token.plain, Token.error]

theorem stepIndent_reports
    (h : scanner.stepIndent = (.token (.error (.unclosedBracket opener) position), after)) :
    Reports scanner.tabWidth scanner.context.bracketIndent after position := by
  unfold stepIndent at h
  split at h
  · rename_i hend
    exact endOfText_reports hend h
  · split at h
    · cases h
    · unfold startLine at h
      simp only at h
      split at h
      · rename_i hread
        refine endOfText_reports ?_ h
        exact List.isEmpty_iff.2 ((Cursor.read?_eq_none_iff _).1 hread)
      · grind [compareWidth, emit, goTo, Token.plain, Token.error]

theorem stepDispatch_reports
    (h : scanner.stepDispatch = (.token (.error (.unclosedBracket opener) position), after)) :
    Reports scanner.tabWidth scanner.context.bracketIndent after position := by
  unfold stepDispatch at h
  simp only at h
  split at h
  · rename_i hflag
    cases hbrackets : scanner.context.inBrackets with
    | false => rw [hbrackets, skipBlanks_unjoined] at hflag; contradiction
    | true =>
        rw [hbrackets] at hflag h
        obtain ⟨next, hread, hstarts⟩ := skipBlanks_sees hflag
        cases h
        exact ⟨rfl, .inr ⟨next, hread, hstarts⟩⟩
  · split at h
    · cases h
    · rename_i c next hread
      split at h
      · grind [emit, Token.plain, Token.error]
      · rename_i hc
        simp only [emit, Prod.mk.injEq, Emission.token.injEq] at h
        exact absurd h.1 (scanToken_ne_unclosed hread hc opener position)

theorem step_reports (h : scanner.step = (.token (.error (.unclosedBracket opener) position), after)) :
    Reports scanner.tabWidth scanner.context.bracketIndent after position := by
  unfold step at h
  split at h
  · grind [emit, Token.plain, Token.error]
  · exact stepIndent_reports h
  · exact stepDispatch_reports h
  · grind [stepDedent, goTo, emit, Token.plain, Token.error]
  · grind [emit, Token.plain, Token.error]
  · grind [emit, Token.plain, Token.error]
  · grind

theorem step_silent_limit (h : scanner.step = (.silent, after)) :
    after.context.bracketIndent = scanner.context.bracketIndent := by
  unfold step stepIndent startLine compareWidth endOfText stepDispatch abandonBrackets stepDedent
    emit goTo at h
  grind

theorem next_reports (h : scanner.next.1 = .ok (.error (.unclosedBracket opener) position)) :
    Reports scanner.tabWidth scanner.context.bracketIndent scanner.next.2 position := by
  have hanswers := scanner.answers_next
  generalize scanner.next = result at h hanswers ⊢
  induction hanswers with
  | @silent scanner after result hstep more ih =>
      have htab := scanner.step_tabWidth
      rw [hstep] at htab
      rw [← htab, ← step_silent_limit hstep]
      exact ih h
  | token hstep =>
      cases h
      exact step_reports hstep
  | failure => cases h

end Scanner

/-! ## Main result -/

/-- Behind a joined line break the look sees every line that opens a statement.  It sees no other line,
except for a blank one that ends in a carriage return alone and for one whose width overflows a machine
word, and it looks past blank lines only.  So open brackets are reported at the end of the text, or at
the line break in front of a line that opens a statement, with these exceptions. -/
theorem nextLine_opensStatement (scanner : Scanner) :
    (∀ next : Cursor, scanner.context.cursor.read? = some ('\n', next) →
      (OpensStatement scanner.tabWidth scanner.context.bracketIndent next.line ∨
          OpensByOverflow scanner.tabWidth scanner.context.bracketIndent next.line ↔
        startsStatement scanner.tabWidth scanner.context.bracketIndent
            (dropLineBreak scanner.context.cursor.rest) = true ∧
          ¬ ReturnsBlank next.rest) ∧
      (startsStatement scanner.tabWidth scanner.context.bracketIndent
          (dropLineBreak scanner.context.cursor.rest) = true →
        ∃ last, BlankLines next last ∧ StartsWithKeyword last.line)) ∧
    ∀ (opener : Char) (position : Position),
      scanner.next.1 = .ok (.error (.unclosedBracket opener) position) →
      position = scanner.next.2.position ∧
        (scanner.next.2.context.cursor.atEnd = true ∨
          ∃ next, scanner.next.2.context.cursor.read? = some ('\n', next) ∧
            (OpensStatement scanner.tabWidth scanner.context.bracketIndent next.line ∨
              OpensByOverflow scanner.tabWidth scanner.context.bracketIndent next.line ∨
              ReturnsBlank next.rest) ∧
            ∃ last, BlankLines next last ∧ StartsWithKeyword last.line) := by
  refine ⟨fun next hread => ?_, fun opener position h => ?_⟩
  · rw [dropLineBreak_of_read? hread]
    exact ⟨opensStatement_line, fun hopens => exists_keywordLine (startsStatement_iff.1 hopens).2⟩
  · have hreports := Scanner.next_reports h
    refine ⟨hreports.place, hreports.cause.imp_right ?_⟩
    rintro ⟨next, hread, hstarts⟩
    refine ⟨next, hread, ?_, exists_keywordLine (startsStatement_iff.1 hstarts).2⟩
    rw [← or_assoc]
    by_cases hreturn : ReturnsBlank next.rest
    · exact .inr hreturn
    · exact .inl (opensStatement_line.2 ⟨hstarts, hreturn⟩)

/-- Brackets that are given up between two lines which end in a carriage return and a line feed. -/
theorem nextLine_opensStatement_twoLines :
    let scanner := (repeatedly Scanner.next 2 (.ofText "(\r\nif x\r\n" 4)).2
    let next : Cursor := ⟨"if x\r\n".toList, ⟨2, 1, 3⟩⟩
    scanner.context.cursor.read? = some ('\n', next) ∧
      OpensStatement scanner.tabWidth scanner.context.bracketIndent next.line ∧
      scanner.next.1 = .ok (.error (.unclosedBracket '(') scanner.next.2.position) := by
  intro scanner next
  obtain ⟨hlook, hreport⟩ := nextLine_opensStatement scanner
  have hread : scanner.context.cursor.read? = some ('\n', next) := by decide +kernel
  have hreturn : ¬ ReturnsBlank next.rest := by
    rintro ⟨blanks, more, htext, hblanks, -⟩
    cases blanks with
    | nil => simp [next] at htext
    | cons c blanks =>
        obtain rfl : 'i' = c := (List.cons.inj htext).1
        exact absurd (hblanks 'i' (by simp)) (by decide)
  have hstarts : startsStatement scanner.tabWidth scanner.context.bracketIndent
      (dropLineBreak scanner.context.cursor.rest) = true := by decide +kernel
  have hgiven : scanner.next.1 = .ok (.error (.unclosedBracket '(') ⟨1, 2, 1⟩) := by decide +kernel
  have hnarrow : ¬ OpensByOverflow scanner.tabWidth scanner.context.bracketIndent next.line := by
    have hcolumns : columns scanner.tabWidth (next.line.takeWhile isInlineBlank) = 0 := by
      decide +kernel
    intro hwide
    have hoverflow := hwide.overflow
    rw [hcolumns] at hoverflow
    contradiction
  refine ⟨hread, ((hlook next hread).1.2 ⟨hstarts, hreturn⟩).resolve_right hnarrow, ?_⟩
  rw [← (hreport '(' ⟨1, 2, 1⟩ hgiven).1]
  exact hgiven

/-- A blank line that ends in a carriage return alone is taken for a part of the next line. -/
theorem not_opensStatement_behind_return :
    ¬ ∀ (text : String) (tabWidth : UInt64) (count : Nat) (next : Cursor),
        let scanner := (repeatedly Scanner.next count (.ofText text tabWidth)).2
        scanner.context.inBrackets = true → scanner.context.cursor.read? = some ('\n', next) →
          (startsStatement tabWidth scanner.context.bracketIndent
              (dropLineBreak scanner.context.cursor.rest) = true ↔
            OpensStatement tabWidth scanner.context.bracketIndent next.line) := by
  intro h
  have hopens := (h "(\n\rif x\n" 4 2 ⟨"\rif x\n".toList, ⟨2, 1, 2⟩⟩ (by decide +kernel)
    (by decide +kernel)).1 (by decide +kernel)
  have hline : Cursor.line ⟨"\rif x\n".toList, ⟨2, 1, 2⟩⟩ = [] := by decide +kernel
  have hkeyword := hopens.keyword
  rw [hline] at hkeyword
  exact not_startsWithKeyword_of_blanks (by simp) hkeyword

end Scan

end Offside
