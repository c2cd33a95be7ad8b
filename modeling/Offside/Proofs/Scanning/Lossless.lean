import Offside.Proofs.Scanning.Extent

/-!
# Nothing is lost between the tokens

Whatever state a scanner is in, what it reads for one request is a run of blanks and the text of the
token that it gives, or blanks alone if it fails.  So the outcomes of a whole text cut it into
pieces, and no character but a blank belongs to no token.
-/

namespace Offside

open Text (Cursor Position)

/-! ## Blanks -/

namespace Text.Cursor

variable {cursor middle after next : Cursor} {c : Char}

def Skips (cursor after : Cursor) : Prop :=
  ∃ blanks, cursor.Covers after blanks ∧ ∀ c ∈ blanks, isBlank c = true

theorem Skips.refl (cursor : Cursor) : cursor.Skips cursor := ⟨[], .refl cursor, by simp⟩

theorem Skips.trans (h : cursor.Skips middle) (h' : middle.Skips after) : cursor.Skips after := by
  obtain ⟨blanks, hcovers, hblanks⟩ := h
  obtain ⟨blanks', hcovers', hblanks'⟩ := h'
  exact ⟨blanks ++ blanks', hcovers.trans hcovers', List.forall_mem_append.2 ⟨hblanks, hblanks'⟩⟩

theorem Skips.reaches (h : cursor.Skips after) : cursor.Reaches after := by
  obtain ⟨blanks, hcovers, -⟩ := h
  exact hcovers.reaches

theorem isBlank_of_isInlineBlank (h : isInlineBlank c = true) : isBlank c = true :=
  (Bool.and_eq_true_iff.1 h).2

theorem skips_span (cursor : Cursor) : cursor.Skips (cursor.span isInlineBlank).2 :=
  ⟨_, covers_span isInlineBlank_lineFeed cursor,
    fun _ hc => isBlank_of_isInlineBlank (of_mem_span hc)⟩

theorem covers_of_lineFeed (h : cursor.read? = some ('\n', next)) :
    ∃ text, cursor.Covers next text ∧ LineBreak text next.rest := by
  have hreaches : cursor.Reaches next := .read h (.refl next)
  rcases rest_of_lineFeed h with ⟨more, hrest⟩ | ⟨more, hrest⟩ | ⟨hhead, hrest⟩
  · have hnext : next.rest = more := by
      unfold read? at h
      grind
    exact ⟨['\n'], ⟨by rw [hrest, hnext]; rfl, hreaches⟩, .feed _⟩
  · have hnext : next.rest = more := by
      unfold read? at h
      grind
    exact ⟨['\r', '\n'], ⟨by rw [hrest, hnext]; rfl, hreaches⟩, .pair _⟩
  · exact ⟨['\r'], ⟨hrest, hreaches⟩, .carriage hhead⟩

theorem skips_of_lineFeed (h : cursor.read? = some ('\n', next)) : cursor.Skips next := by
  obtain ⟨text, hcovers, hbreak⟩ := covers_of_lineFeed h
  have hfeed : isBlank '\n' = true := by decide
  have hreturn : isBlank '\r' = true := by decide
  refine ⟨text, hcovers, ?_⟩
  cases hbreak <;> simp [hfeed, hreturn]

theorem skips_of_inlineBlank (h : cursor.read? = some (c, next)) (hc : isInlineBlank c = true) :
    cursor.Skips next := by
  have hbreak : c ≠ '\n' := by
    rintro rfl
    contradiction
  exact ⟨[c], covers_of_read? h hbreak, by simpa using isBlank_of_isInlineBlank hc⟩

end Text.Cursor

namespace Scan

open Parse (Item)

theorem skips_skipBlanks (tabWidth limit : UInt64) (joined : Bool) (cursor : Cursor) :
    cursor.Skips (skipBlanks tabWidth limit joined cursor).2 := by
  fun_induction skipBlanks tabWidth limit joined cursor with
  | case1 cursor => exact .refl cursor
  | case2 cursor => exact .refl cursor
  | case3 cursor c next hread hjoined _ ih =>
      obtain rfl : c = '\n' := by simpa using (Bool.and_eq_true_iff.1 hjoined).1
      exact (Cursor.skips_of_lineFeed hread).trans ih
  | case4 cursor c next hread _ hblank ih =>
      exact (Cursor.skips_of_inlineBlank hread hblank).trans ih
  | case5 cursor => exact .refl cursor

theorem Context.cursor_pushIndent (context : Context) (width : UInt64) :
    (context.pushIndent width).cursor = context.cursor := by
  unfold pushIndent
  split <;> rfl

/-! ## Steps -/

namespace Scanner

variable {scanner : Scanner} {before cursor : Cursor}

/-- What a step reads from the cursor on is skipped, or is the text of its token behind blanks. -/
def Yields (before : Cursor) : Emission × Scanner → Prop
  | (.silent, after) => before.Skips after.context.cursor
  | (.token token, after) => ∃ start, before.Skips start ∧ Cuts start token after.context.cursor
  | (.failure failure, after) =>
      before.Skips after.context.cursor ∧ failure.position = after.position

private theorem cuts_nothing {token : Token} (hspells : Spells token [] cursor.rest)
    (hposition : token.position = cursor.position) : Cuts cursor token cursor :=
  .of_start (.refl cursor) hspells hposition

private theorem endOfText_yields {context : Context} (hskips : before.Skips context.cursor)
    (hrest : context.cursor.rest = []) : Yields before (scanner.endOfText context) := by
  unfold endOfText
  split
  · exact ⟨_, hskips, cuts_nothing .unclosed rfl⟩
  · split
    · refine ⟨_, hskips, cuts_nothing ?_ rfl⟩
      rw [hrest]
      exact .lineEnd
    · exact hskips

private theorem compareWidth_yields {context : Context} {width : UInt64}
    (hskips : before.Skips context.cursor) :
    Yields before (scanner.compareWidth width context) := by
  unfold compareWidth
  simp only
  split
  · exact hskips
  · split
    · refine ⟨_, hskips, ?_⟩
      rw [Context.cursor_pushIndent]
      exact cuts_nothing (.mark (.inl rfl)) rfl
    · split
      · exact hskips
      · exact ⟨hskips, rfl⟩

private theorem stepIndent_yields (scanner : Scanner) :
    Yields scanner.context.cursor scanner.stepIndent := by
  unfold stepIndent
  split
  · rename_i hend
    exact endOfText_yields (.refl _) (List.isEmpty_iff.1 hend)
  · split
    · exact .refl _
    · have hskips := Cursor.skips_span scanner.context.cursor
      unfold startLine
      simp only
      split
      · rename_i hread
        exact endOfText_yields hskips ((Cursor.read?_eq_none_iff _).1 hread)
      · rename_i c next hread
        split
        · rename_i hbreak
          rw [hbreak] at hread
          exact hskips.trans (Cursor.skips_of_lineFeed hread)
        · exact compareWidth_yields hskips

private theorem stepDispatch_yields (scanner : Scanner) :
    Yields scanner.context.cursor scanner.stepDispatch := by
  have hskips := skips_skipBlanks scanner.tabWidth scanner.context.bracketIndent
    scanner.context.inBrackets scanner.context.cursor
  unfold stepDispatch
  simp only
  split
  · exact ⟨_, hskips, cuts_nothing .unclosed rfl⟩
  · split
    · exact hskips
    · rename_i c next hread
      split
      · rename_i hbreak
        rw [hbreak] at hread
        obtain ⟨text, hcovers, hbreak⟩ := Cursor.covers_of_lineFeed hread
        exact ⟨_, hskips, .of_start hcovers (.lineBreak hbreak) rfl⟩
      · rename_i hbreak
        exact ⟨_, hskips, scanToken_cuts { scanner.context with cursor := _ } hread hbreak⟩

private theorem stepDedent_yields (scanner : Scanner) (target : UInt64) :
    Yields scanner.context.cursor (scanner.stepDedent target) := by
  unfold stepDedent
  simp only
  split
  · exact ⟨_, .refl _, cuts_nothing (.mark (.inr (.inl rfl))) rfl⟩
  · split <;> exact .refl _

theorem step_yields (scanner : Scanner) : Yields scanner.context.cursor scanner.step := by
  unfold step
  split
  · refine ⟨_, .refl _, ?_⟩
    rw [Context.cursor_pushIndent]
    exact cuts_nothing (.mark (.inl rfl)) rfl
  · exact stepIndent_yields scanner
  · exact stepDispatch_yields scanner
  · exact stepDedent_yields scanner _
  · exact ⟨_, .refl _, cuts_nothing (.mark (.inr (.inl rfl))) rfl⟩
  · exact ⟨_, .refl _, cuts_nothing (.mark (.inr (.inr rfl))) rfl⟩
  · exact ⟨.refl _, rfl⟩

/-! ## Requests -/

def Gives (before : Cursor) : Item × Scanner → Prop
  | (.ok token, after) => ∃ start, before.Skips start ∧ Cuts start token after.context.cursor
  | (.error failure, after) =>
      before.Skips after.context.cursor ∧ failure.position = after.position

theorem Gives.behind {middle : Cursor} {result : Item × Scanner} (hskips : before.Skips middle)
    (h : Gives middle result) : Gives before result := by
  obtain ⟨item, after⟩ := result
  cases item with
  | ok token =>
      obtain ⟨start, hmore, hcuts⟩ := h
      exact ⟨start, hskips.trans hmore, hcuts⟩
  | error failure => exact ⟨hskips.trans h.1, h.2⟩

theorem next_gives (scanner : Scanner) : Gives scanner.context.cursor scanner.next := by
  fun_induction next scanner with
  | case1 scanner => exact ⟨.refl _, rfl⟩
  | case2 scanner _ after hstep ih =>
      have hyields := step_yields scanner
      rw [hstep] at hyields
      exact ih.behind hyields
  | case3 scanner _ token after hstep =>
      have hyields := step_yields scanner
      rwa [hstep] at hyields
  | case4 scanner _ failure after hstep =>
      have hyields := step_yields scanner
      rwa [hstep] at hyields

def Exhausted (scanner : Scanner) : Prop :=
  scanner.mode = .fileEnd ∨ scanner.mode = .eof ∨ scanner.mode = .done →
    scanner.context.cursor.rest = []

theorem step_exhausted (h : scanner.Exhausted) : scanner.step.2.Exhausted := by
  unfold step
  split
  · simp [Exhausted, emit]
  · rename_i hmode
    grind [stepIndent, startLine, endOfText, compareWidth, emit, goTo, Exhausted]
  · rename_i hmode
    grind [stepDispatch, abandonBrackets, emit, goTo, Exhausted]
  · rename_i hmode
    grind [stepDedent, emit, goTo, Exhausted, Cursor.atEnd]
  · rename_i hmode
    exact fun _ => h (.inl hmode)
  · rename_i hmode
    exact fun _ => h (.inr (.inl hmode))
  · exact h

theorem next_exhausted (h : scanner.Exhausted) : scanner.next.2.Exhausted :=
  next_keeps (fun _ => step_exhausted) h

end Scanner

/-! ## Texts -/

/-- The outcomes cut a text into blanks and the texts of tokens, and nothing is left of it. -/
inductive Segmented : List Item → List Char → Prop where
  | nil : Segmented [] []
  | token {token : Token} {items : List Item} {blanks text rest : List Char}
      (hblanks : ∀ c ∈ blanks, Text.isBlank c = true) (hspells : Spells token text rest)
      (more : Segmented items rest) : Segmented (.ok token :: items) (blanks ++ text ++ rest)
  | failure {failure : LexFailure} {items : List Item} {blanks rest : List Char}
      (hblanks : ∀ c ∈ blanks, Text.isBlank c = true) (more : Segmented items rest) :
      Segmented (.error failure :: items) (blanks ++ rest)

namespace Scanner

variable {scanner : Scanner}

theorem outcomes_segmented (h : scanner.Exhausted) :
    Segmented scanner.outcomes scanner.context.cursor.rest := by
  fun_induction outcomes scanner with
  | case1 scanner hmode =>
      rw [h (.inr (.inr hmode))]
      exact .nil
  | case2 scanner hmode result ih =>
      have hrest := ih (next_exhausted h)
      have hgives := next_gives scanner
      change Gives scanner.context.cursor result at hgives
      change Segmented result.2.outcomes _ at hrest
      change Segmented (result.1 :: result.2.outcomes) _
      generalize result = given at *
      obtain ⟨item, after⟩ := given
      cases item with
      | ok token =>
          obtain ⟨start, ⟨blanks, hskipped, hblanks⟩, hcuts⟩ := hgives
          obtain ⟨text, hcovers, hspells⟩ := hcuts.text
          rw [(hskipped.trans hcovers).rest]
          exact .token hblanks hspells hrest
      | error failure =>
          obtain ⟨⟨blanks, hskipped, hblanks⟩, -⟩ := hgives
          rw [hskipped.rest]
          exact .failure hblanks hrest

/-- What a scanner reads for a request is the text of the token behind blanks, in whatever state it
is; and nothing of a text is left out. -/
theorem next_lossless (text : String) (tabWidth : UInt64) :
    (∀ scanner : Scanner,
      match scanner.next with
      | (.ok token, after) =>
          ∃ blanks written, scanner.context.cursor.rest =
              blanks ++ written ++ after.context.cursor.rest ∧
            (∀ c ∈ blanks, Text.isBlank c = true) ∧
            Spells token written after.context.cursor.rest
      | (.error _, after) =>
          ∃ blanks, scanner.context.cursor.rest = blanks ++ after.context.cursor.rest ∧
            ∀ c ∈ blanks, Text.isBlank c = true) ∧
      Segmented (Scanner.ofText text tabWidth).outcomes text.toList := by
  constructor
  · intro scanner
    have hgives := next_gives scanner
    split
    · rename_i token after hnext
      rw [hnext] at hgives
      obtain ⟨start, ⟨blanks, hskipped, hblanks⟩, hcuts⟩ := hgives
      obtain ⟨written, hcovers, hspells⟩ := hcuts.text
      exact ⟨blanks, written, (hskipped.trans hcovers).rest, hblanks, hspells⟩
    · rename_i failure after hnext
      rw [hnext] at hgives
      obtain ⟨⟨blanks, hskipped, hblanks⟩, -⟩ := hgives
      exact ⟨blanks, hskipped.rest, hblanks⟩
  · apply outcomes_segmented
    simp [Exhausted, ofText]

end Scanner

end Scan

end Offside
