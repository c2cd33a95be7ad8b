import Mathlib.Logic.Basic
import Offside.Proofs.Grammar.Source
import Offside.Proofs.Scanning.NextToken

/-!
# String literals

What is between quotation marks is a sequence of plain characters and of backslashes with a letter
behind them.  The scanner reads just this up to the closing mark, the end of the line or the end of
the text, and gives one token: the text that is meant, or what is wrong.  Every text is meant by
something, with the letters of the escape table.
-/

namespace Offside.Scan

open Grammar (Respelled)
open Text (Cursor Position)

/-! ## Written strings -/

/-- The letters behind a backslash, each with the character it stands for. -/
def escapes : List (Char × Char) :=
  [('n', '\n'), ('t', '\t'), ('r', '\r'), ('\\', '\\'), ('"', '"'), ('a', '\x07'), ('b', '\x08'),
    ('f', '\x0c'), ('v', '\x0b'), ('0', '\x00')]

inductive Glyph where
  | plain (c : Char) (h : c ∉ ['"', '\\', '\n', '\r'])
  | escape (letter : Char) (h : letter ∉ ['\n', '\r'])

namespace Glyph

def chars : Glyph → List Char
  | plain c _ => [c]
  | escape letter _ => ['\\', letter]

def value? : Glyph → Option Char
  | plain c _ => some c
  | escape letter _ => escapes.lookup letter

def fault? (position : Position) : Glyph → Option (Char × Position)
  | plain _ _ => none
  | escape letter _ => if escapes.lookup letter = none then some (letter, position) else none

theorem isSolid_of_mem (glyph : Glyph) : ∀ c ∈ glyph.chars, Cursor.isSolid c = true := by
  cases glyph with
  | plain c h =>
      simp only [List.mem_cons, List.not_mem_nil, or_false, not_or] at h
      simp [chars, Cursor.isSolid, h]
  | escape letter h =>
      simp only [List.mem_cons, List.not_mem_nil, or_false, not_or] at h
      simp [chars, Cursor.isSolid, h]

theorem fault?_of_value? {glyph : Glyph} {c : Char} {position : Position}
    (h : glyph.value? = some c) : glyph.fault? position = none := by
  cases glyph with
  | plain => rfl
  | escape letter hletter => simp [fault?, show escapes.lookup letter = some c from h]

def written (glyphs : List Glyph) : List Char := glyphs.flatMap chars

theorem written_cons (glyph : Glyph) (glyphs : List Glyph) :
    written (glyph :: glyphs) = glyph.chars ++ written glyphs :=
  List.flatMap_cons

theorem isSolid_written (glyphs : List Glyph) : ∀ c ∈ written glyphs, Cursor.isSolid c = true := by
  intro c hc
  obtain ⟨glyph, -, hmem⟩ := List.mem_flatMap.1 hc
  exact glyph.isSolid_of_mem c hmem

def firstFault? : Position → List Glyph → Option (Char × Position)
  | _, [] => none
  | position, glyph :: glyphs =>
      (glyph.fault? position).or (firstFault? (position.behind glyph.chars) glyphs)

end Glyph

variable {cursor middle : Cursor} {position : Position} {glyph : Glyph} {glyphs front back : List Glyph}
  {letter : Char} {content slash rest more : List Char}

theorem escapedChar?_eq (letter : Char) : escapedChar? letter = escapes.lookup letter := by
  by_cases hmem : letter ∈ escapes.map Prod.fst
  · simp only [escapes, List.map_cons, List.map_nil, List.mem_cons, List.not_mem_nil, or_false] at hmem
    rcases hmem with rfl | rfl | rfl | rfl | rfl | rfl | rfl | rfl | rfl | rfl <;> rfl
  · simp only [escapes, List.map_cons, List.map_nil, List.mem_cons, List.not_mem_nil, or_false,
      not_or] at hmem
    have hnone : escapes.lookup letter = none := by
      rw [List.lookup_eq_none_iff]
      simp [escapes, hmem]
    rw [hnone]
    simp [escapedChar?, hmem]

theorem firstFault?_of_value (h : glyphs.mapM Glyph.value? = some content) (position : Position) :
    Glyph.firstFault? position glyphs = none ∧ glyphs.filterMap Glyph.value? = content := by
  induction glyphs generalizing content position with
  | nil =>
      obtain rfl : [] = content := by simpa using h
      exact ⟨rfl, rfl⟩
  | cons glyph glyphs ih =>
      simp only [List.mapM_cons, Option.bind_eq_bind, Option.bind_eq_some_iff, Option.pure_def,
        Option.some.injEq] at h
      obtain ⟨c, hc, content, hcontent, rfl⟩ := h
      obtain ⟨hfault, hvalues⟩ := ih hcontent (position.behind glyph.chars)
      exact ⟨by simp [Glyph.firstFault?, Glyph.fault?_of_value? hc, hfault],
        by simp [hc, hvalues]⟩

theorem firstFault?_of_escape {hletter : letter ∉ ['\n', '\r']}
    (hfront : ∀ glyph ∈ front, glyph.value? ≠ none) (hbad : escapes.lookup letter = none) :
    Glyph.firstFault? position (front ++ .escape letter hletter :: back) =
      some (letter, position.behind (Glyph.written front)) := by
  induction front generalizing position with
  | nil => simp [Glyph.firstFault?, Glyph.fault?, hbad, Glyph.written, Position.behind]
  | cons glyph front ih =>
      obtain ⟨c, hc⟩ := Option.ne_none_iff_exists'.1 (hfront glyph List.mem_cons_self)
      rw [List.cons_append, Glyph.firstFault?, Glyph.fault?_of_value? hc, Option.none_or,
        ih fun other hmem => hfront other (List.mem_cons_of_mem _ hmem), Glyph.written_cons,
        Position.behind_append]

/-! ## Strings are read -/

theorem readQuotation_glyph (hrest : cursor.rest = glyph.chars ++ more) :
    ∃ after, cursor.Passes after glyph.chars more ∧ readQuotation cursor =
      { readQuotation after with
        content := glyph.value?.toList ++ (readQuotation after).content
        badEscape? := (glyph.fault? cursor.position).or (readQuotation after).badEscape? } := by
  cases glyph with
  | plain c h =>
      have hsolid := (Glyph.plain c h).isSolid_of_mem c (by simp [Glyph.chars])
      simp only [List.mem_cons, List.not_mem_nil, or_false, not_or] at h
      obtain ⟨hread, hpasses⟩ := Cursor.read?_cons hrest hsolid
      exact ⟨cursor.advance, hpasses, readQuotation_of_char hread h.2.2.1 h.1 h.2.1⟩
  | escape letter h =>
      have hsolid := (Glyph.escape letter h).isSolid_of_mem letter (by simp [Glyph.chars])
      simp only [List.mem_cons, List.not_mem_nil, or_false, not_or] at h
      obtain ⟨hread, hpasses⟩ := Cursor.read?_cons hrest (by decide)
      obtain ⟨hread', hpasses'⟩ := Cursor.read?_cons hpasses.rest hsolid
      refine ⟨cursor.advance.advance, hpasses.trans hpasses', ?_⟩
      rw [readQuotation_of_backslash hread, hread']
      simp only [h.1, if_false, escapedChar?_eq]
      cases hlookup : escapes.lookup letter <;> simp [Glyph.value?, Glyph.fault?, hlookup]

theorem readQuotation_glyphs (hrest : cursor.rest = Glyph.written glyphs ++ more) :
    ∃ after, cursor.Passes after (Glyph.written glyphs) more ∧ readQuotation cursor =
      { readQuotation after with
        content := glyphs.filterMap Glyph.value? ++ (readQuotation after).content
        badEscape? :=
          (Glyph.firstFault? cursor.position glyphs).or (readQuotation after).badEscape? } := by
  induction glyphs generalizing cursor with
  | nil =>
      obtain rfl : cursor.rest = more := hrest
      exact ⟨cursor, .refl cursor, by simp [Glyph.firstFault?]⟩
  | cons glyph glyphs ih =>
      rw [Glyph.written_cons, List.append_assoc] at hrest
      obtain ⟨middle, hfirst, hread⟩ := readQuotation_glyph hrest
      obtain ⟨after, hmore, hread'⟩ := ih hfirst.rest
      refine ⟨after, ?_, ?_⟩
      · rw [Glyph.written_cons]
        exact hfirst.trans hmore
      · rw [hread, hread', Glyph.firstFault?, hfirst.position glyph.isSolid_of_mem]
        cases hvalue : glyph.value? <;> simp [hvalue, Option.or_assoc]

theorem scanQuotation_glyphs (hrest : cursor.rest = '"' :: (Glyph.written glyphs ++ more)) :
    ∃ middle, cursor.Passes middle ('"' :: Glyph.written glyphs) more ∧
      ∀ {quotation : Quotation}, readQuotation middle = quotation →
        scanQuotation cursor =
          (({ quotation with
            content := glyphs.filterMap Glyph.value? ++ quotation.content
            badEscape? := (Glyph.firstFault? (cursor.position.behind ['"']) glyphs).or
              quotation.badEscape? } : Quotation).token cursor.position, quotation.cursor) := by
  have hmark := (Cursor.read?_cons hrest (by decide)).2
  obtain ⟨middle, hpasses, hread⟩ := readQuotation_glyphs hmark.rest
  refine ⟨middle, hmark.trans hpasses, ?_⟩
  rintro _ rfl
  rw [scanQuotation, hread, hmark.position (by simp [Cursor.isSolid])]

theorem scanQuotation_closed (hrest : cursor.rest = '"' :: (Glyph.written glyphs ++ '"' :: rest)) :
    ∃ after, cursor.Passes after ('"' :: (Glyph.written glyphs ++ ['"'])) rest ∧
      scanQuotation cursor =
        (Quotation.token ⟨glyphs.filterMap Glyph.value?,
          Glyph.firstFault? (cursor.position.behind ['"']) glyphs, .closed, after⟩ cursor.position,
        after) := by
  obtain ⟨middle, hpasses, hscan⟩ := scanQuotation_glyphs hrest
  obtain ⟨hread, hmark⟩ := Cursor.read?_cons hpasses.rest (by decide)
  refine ⟨middle.advance, hpasses.trans hmark, ?_⟩
  rw [hscan (readQuotation_of_mark hread)]
  simp only [Option.or_none, List.append_nil]

theorem scanQuotation_string (hcontent : glyphs.mapM Glyph.value? = some content)
    (hrest : cursor.rest = '"' :: (Glyph.written glyphs ++ '"' :: rest)) :
    ∃ after, cursor.Passes after ('"' :: (Glyph.written glyphs ++ ['"'])) rest ∧
      scanQuotation cursor = (.string (String.ofList content) cursor.position, after) := by
  obtain ⟨after, hpasses, hscan⟩ := scanQuotation_closed hrest
  obtain ⟨hfault, hvalues⟩ := firstFault?_of_value hcontent (cursor.position.behind ['"'])
  exact ⟨after, hpasses, by rw [hscan, hfault, hvalues, Quotation.token]⟩

theorem scanQuotation_badEscape {hletter : letter ∉ ['\n', '\r']}
    (hglyphs : glyphs = front ++ .escape letter hletter :: back)
    (hfront : ∀ glyph ∈ front, glyph.value? ≠ none) (hbad : escapes.lookup letter = none)
    (hrest : cursor.rest = '"' :: (Glyph.written glyphs ++ '"' :: rest)) :
    ∃ after, cursor.Passes after ('"' :: (Glyph.written glyphs ++ ['"'])) rest ∧
      scanQuotation cursor = (.error (.invalidEscape letter)
        (cursor.position.behind ('"' :: Glyph.written front)), after) := by
  obtain ⟨after, hpasses, hscan⟩ := scanQuotation_closed hrest
  have hfault : Glyph.firstFault? (cursor.position.behind ['"']) glyphs =
      some (letter, cursor.position.behind ('"' :: Glyph.written front)) := by
    rw [hglyphs]
    exact firstFault?_of_escape hfront hbad
  exact ⟨after, hpasses, by rw [hscan, hfault, Quotation.token]⟩

/-- One backslash may stand behind the last part of a string that is not closed. -/
def LoneBackslash (slash : List Char) : Prop := slash = [] ∨ slash = ['\\']

theorem atLineEnd_of_lineBreak {c : Char} (hc : c ∈ ['\n', '\r']) (hrest : cursor.rest = c :: rest) :
    cursor.AtLineEnd := by
  simp only [List.mem_cons, List.not_mem_nil, or_false] at hc
  obtain ⟨source, position⟩ := cursor
  obtain rfl : source = c :: rest := hrest
  rcases hc with rfl | rfl
  · exact .breaks rfl
  · cases rest with
    | nil => exact .breaks rfl
    | cons d rest =>
        by_cases hd : d = '\n'
        · subst hd
          exact .breaks rfl
        · refine @Cursor.AtLineEnd.breaks _ ⟨d :: rest, position.newline 1⟩ ?_
          unfold Cursor.read?
          grind

theorem isSolid_of_loneBackslash (hslash : LoneBackslash slash) :
    ∀ c ∈ slash, Cursor.isSolid c = true := by
  rcases hslash with rfl | rfl <;> simp [Cursor.isSolid]

theorem scanQuotation_open (hslash : LoneBackslash slash)
    (hrest : cursor.rest = '"' :: (Glyph.written glyphs ++ (slash ++ rest)))
    (hend : ∀ after : Cursor, after.rest = rest → after.AtLineEnd) :
    ∃ after, cursor.Passes after ('"' :: (Glyph.written glyphs ++ slash)) rest ∧
      scanQuotation cursor =
        ((if rest = [] then .error .unterminatedString cursor.position
          else .error .newlineInString after.position), after) := by
  obtain ⟨middle, hpasses, hscan⟩ := scanQuotation_glyphs hrest
  obtain ⟨after, hbehind, hread⟩ : ∃ after, middle.Passes after slash rest ∧
      readQuotation middle = readQuotation after := by
    rcases hslash with rfl | rfl
    · exact ⟨middle, ⟨hpasses.rest, hpasses.rest, rfl, .refl middle⟩, rfl⟩
    · obtain ⟨hread, hbackslash⟩ := Cursor.read?_cons hpasses.rest (by decide)
      exact ⟨_, hbackslash, readQuotation_of_backslash_end hread (hend _ hbackslash.rest)⟩
  refine ⟨after, hpasses.trans hbehind, ?_⟩
  rcases readQuotation_of_lineEnd (hend after hbehind.rest) with ⟨hover, hcurrent⟩ | ⟨hover, hcurrent⟩
  · rw [Cursor.current?_eq_none_iff, hbehind.rest] at hcurrent
    rw [hscan (hread.trans hover), if_pos hcurrent]
    rfl
  · have hmore := Cursor.rest_ne_nil_of_current? hcurrent
    rw [hbehind.rest] at hmore
    rw [hscan (hread.trans hover), if_neg hmore]
    rfl

/-! ## Escaped texts -/

/-- A character in a string literal: by its letter in the escape table, or as it is. -/
def escapeChar (c : Char) : List Char :=
  match escapes.find? fun escape => escape.2 == c with
  | some escape => ['\\', escape.1]
  | none => [c]

def escaped (content : String) : String :=
  String.ofList ('"' :: (content.toList.flatMap escapeChar ++ ['"']))

theorem exists_glyph (c : Char) : ∃ glyph : Glyph, glyph.chars = escapeChar c ∧
    glyph.value? = some c := by
  unfold escapeChar
  cases hfind : escapes.find? fun escape => escape.2 == c with
  | none =>
      have hmem : ∀ d ∈ ['"', '\\', '\n', '\r'], ∃ escape ∈ escapes, escape.2 = d := by
        simp [escapes]
      refine ⟨.plain c fun hc => ?_, rfl, rfl⟩
      obtain ⟨escape, hescape, rfl⟩ := hmem c hc
      exact absurd BEq.rfl (List.find?_eq_none.1 hfind escape hescape)
  | some escape =>
      have hletter : ∀ escape ∈ escapes, escape.1 ∉ ['\n', '\r'] ∧
          escapes.lookup escape.1 = some escape.2 := by decide
      obtain ⟨hbreak, hlookup⟩ := hletter escape (List.mem_of_find?_eq_some hfind)
      have hc : escape.2 = c := by simpa using List.find?_some hfind
      exact ⟨.escape escape.1 hbreak, rfl, hlookup.trans (congrArg some hc)⟩

theorem exists_glyphs (content : List Char) : ∃ glyphs : List Glyph,
    Glyph.written glyphs = content.flatMap escapeChar ∧ glyphs.mapM Glyph.value? = some content := by
  induction content with
  | nil => exact ⟨[], rfl, rfl⟩
  | cons c content ih =>
      obtain ⟨glyph, hchars, hvalue⟩ := exists_glyph c
      obtain ⟨glyphs, hwritten, hvalues⟩ := ih
      refine ⟨glyph :: glyphs, ?_, by simp [hvalue, hvalues]⟩
      rw [Glyph.written_cons, hchars, hwritten, List.flatMap_cons]

theorem toList_escaped {content : String}
    (hwritten : Glyph.written glyphs = content.toList.flatMap escapeChar) :
    (escaped content).toList = '"' :: (Glyph.written glyphs ++ ['"']) := by
  rw [escaped, String.toList_ofList, hwritten]

theorem isSolid_quoted (glyphs : List Glyph) {last : List Char}
    (hlast : ∀ c ∈ last, Cursor.isSolid c = true) :
    ∀ c ∈ '"' :: (Glyph.written glyphs ++ last), Cursor.isSolid c = true :=
  List.forall_mem_cons.2
    ⟨by decide, List.forall_mem_append.2 ⟨Glyph.isSolid_written glyphs, hlast⟩⟩

theorem isSolid_closed (glyphs : List Glyph) :
    ∀ c ∈ '"' :: (Glyph.written glyphs ++ ['"']), Cursor.isSolid c = true :=
  isSolid_quoted glyphs (by simp [Cursor.isSolid])

theorem isSolid_escaped (content : String) :
    ∀ c ∈ (escaped content).toList, Cursor.isSolid c = true := by
  obtain ⟨glyphs, hwritten, -⟩ := exists_glyphs content.toList
  rw [toList_escaped hwritten]
  exact isSolid_closed glyphs

theorem scanQuotation_escaped {content : String}
    (hrest : cursor.rest = (escaped content).toList ++ rest) :
    ∃ after, cursor.Passes after (escaped content).toList rest ∧
      scanQuotation cursor = (.string content cursor.position, after) := by
  obtain ⟨glyphs, hwritten, hvalues⟩ := exists_glyphs content.toList
  have htext := toList_escaped hwritten
  rw [htext] at hrest ⊢
  rw [List.cons_append, List.append_assoc, List.singleton_append] at hrest
  obtain ⟨after, hpasses, hscan⟩ := scanQuotation_string hvalues hrest
  exact ⟨after, hpasses, by rw [hscan, String.ofList_toList]⟩

/-! ## String tokens -/

variable {scanner : Scanner} {source : List Char} {token : Token}

theorem scanToken_quotation (context : Context) (next : Cursor) :
    Scanner.scanToken context '"' next =
      ((scanQuotation context.cursor).1,
        { context with cursor := (scanQuotation context.cursor).2 }) := rfl

theorem Facing.next_quotation {after : Cursor} {text : List Char}
    (h : Facing ('"' :: more) scanner) (hpasses : scanner.context.cursor.Passes after text rest)
    (hsolid : ∀ c ∈ text, Cursor.isSolid c = true)
    (hscan : scanQuotation scanner.context.cursor = (token, after)) :
    scanner.next = (.ok token, scanner.past text rest) := by
  have htoken := scanToken_quotation scanner.context scanner.context.cursor.advance
  rw [hscan] at htoken
  rw [h.next_past rfl (by decide) htoken hpasses.covers hsolid, hpasses.rest]

theorem tokenize_escaped (content : String) {ending : String} (hending : LineEnd ending.toList)
    (config : RunConfig) :
    ∃ tokens, tokenize (escaped content ++ ending) config = .ok tokens ∧
      Respelled [.plain .indent .start, .string content .start, .plain .newline .start,
        .plain .dedent .start, .plain .eof .start] tokens := by
  obtain ⟨glyphs, hwritten, -⟩ := exists_glyphs content.toList
  have htext := toList_escaped hwritten
  have hsource : (escaped content ++ ending).toList = '"' ::
      ((Glyph.written glyphs ++ ['"']) ++ ending.toList) := by
    rw [String.toList_append, htext, List.cons_append]
  have hfacing := facing_opened (escaped content ++ ending) config.tabWidth
  rw [hsource] at hfacing
  have hrest := hfacing.rest
  rw [← List.cons_append, ← htext] at hrest
  obtain ⟨after, hpasses, hscan⟩ := scanQuotation_escaped hrest
  have hnext := hfacing.next_quotation hpasses (isSolid_escaped content) hscan
  have hbehind : InLine ending.toList [] [0]
      ((Scanner.opened (escaped content ++ ending) config.tabWidth).past (escaped content).toList
        ending.toList) :=
    (Scanner.opened (escaped content ++ ending) config.tabWidth).inLine_past (by simp [htext])
      (isSolid_escaped content) Nat.one_ne_zero
  obtain ⟨position, position', closed, houtcomes, hclosed⟩ :=
    outcomes_of_lineEnd hbehind hending rfl
  obtain ⟨closing, last, hclosing, houtcomes', -, hlast⟩ :=
    @scans_closeFile [] (by simp) closed hclosed
  refine ⟨.plain .indent .start :: .string content .start :: .plain .newline position' :: closing,
    tokenize_eq_ok.2 ?_, ?_⟩
  · rw [Scanner.outcomes_ofText_eq, Scanner.outcomes, dif_neg hfacing.mode_ne_done, hnext]
    simp only
    rw [houtcomes, houtcomes', hlast, List.append_nil]
    rfl
  · exact Grammar.respelled_append.2 ⟨[_, _, _], closing, rfl, rfl, hclosing⟩

/-- What a scanner gives in front of a string: between quotation marks the text that is meant, or the
first escape that means nothing; at the end of the line an error there, which leaves the line break
unread; at the end of the text an error at the opening mark.  Every text is read back from its
string literal. -/
theorem strings_read :
    (∀ {source : List Char} {scanner : Scanner}, Facing source scanner → ∀ glyphs : List Glyph,
      (∀ rest, source = '"' :: (Glyph.written glyphs ++ '"' :: rest) →
        (∀ content, glyphs.mapM Glyph.value? = some content →
          scanner.next = (.ok (.string (String.ofList content) scanner.position),
            scanner.past ('"' :: (Glyph.written glyphs ++ ['"'])) rest)) ∧
        ∀ front letter hletter back, glyphs = front ++ .escape letter hletter :: back →
          (∀ glyph ∈ front, glyph.value? ≠ none) → escapes.lookup letter = none →
            scanner.next = (.ok (.error (.invalidEscape letter)
                (scanner.position.behind ('"' :: Glyph.written front))),
              scanner.past ('"' :: (Glyph.written glyphs ++ ['"'])) rest)) ∧
      (∀ slash c rest, LoneBackslash slash → c ∈ ['\n', '\r'] →
        source = '"' :: (Glyph.written glyphs ++ (slash ++ c :: rest)) →
          scanner.next = (.ok (.error .newlineInString
              (scanner.position.behind ('"' :: (Glyph.written glyphs ++ slash)))),
            scanner.past ('"' :: (Glyph.written glyphs ++ slash)) (c :: rest))) ∧
      ∀ slash, LoneBackslash slash → source = '"' :: (Glyph.written glyphs ++ slash) →
        scanner.next = (.ok (.error .unterminatedString scanner.position),
          scanner.past ('"' :: (Glyph.written glyphs ++ slash)) [])) ∧
    ∀ (content ending : String) (config : RunConfig), LineEnd ending.toList →
      ∃ tokens, tokenize (escaped content ++ ending) config = .ok tokens ∧
        Respelled [.plain .indent .start, .string content .start, .plain .newline .start,
          .plain .dedent .start, .plain .eof .start] tokens := by
  refine ⟨fun {source scanner} h glyphs => ⟨?_, ?_, ?_⟩, ?_⟩
  · rintro rest rfl
    have hsolid := isSolid_closed glyphs
    constructor
    · intro content hcontent
      obtain ⟨after, hpasses, hscan⟩ := scanQuotation_string hcontent h.rest
      exact h.next_quotation hpasses hsolid hscan
    · intro front letter hletter back hglyphs hfront hbad
      obtain ⟨after, hpasses, hscan⟩ := scanQuotation_badEscape hglyphs hfront hbad h.rest
      exact h.next_quotation hpasses hsolid hscan
  · rintro slash c rest hslash hc rfl
    have hsolid := isSolid_quoted glyphs (isSolid_of_loneBackslash hslash)
    obtain ⟨after, hpasses, hscan⟩ :=
      scanQuotation_open hslash h.rest fun _ => atLineEnd_of_lineBreak hc
    rw [if_neg (by simp), hpasses.position hsolid] at hscan
    exact h.next_quotation hpasses hsolid hscan
  · rintro slash hslash rfl
    have hrest : scanner.context.cursor.rest = '"' :: (Glyph.written glyphs ++ (slash ++ [])) := by
      rw [List.append_nil]
      exact h.rest
    obtain ⟨after, hpasses, hscan⟩ := scanQuotation_open hslash hrest
      fun _ hnil => .ended ((Cursor.read?_eq_none_iff _).2 hnil)
    rw [if_pos rfl] at hscan
    exact h.next_quotation hpasses (isSolid_quoted glyphs (isSolid_of_loneBackslash hslash)) hscan
  · exact fun content ending config hending => tokenize_escaped content hending config

theorem strings_read_badEscape :
    (Scanner.opened "\"a\\q\\z\" b" 4).next =
        (.ok (.error (.invalidEscape 'q') ⟨1, 3, 2⟩),
          (Scanner.opened "\"a\\q\\z\" b" 4).past ['"', 'a', '\\', 'q', '\\', 'z', '"']
            [' ', 'b']) ∧
      ∃ tokens, tokenize (escaped "\n" ++ "") .default = .ok tokens ∧
        Respelled [.plain .indent .start, .string "\n" .start, .plain .newline .start,
          .plain .dedent .start, .plain .eof .start] tokens := by
  have hread := strings_read.1 (facing_opened "\"a\\q\\z\" b" 4)
    [.plain 'a' (by decide), .escape 'q' (by decide), .escape 'z' (by decide)]
  exact ⟨(hread.1 [' ', 'b'] (by decide)).2 [.plain 'a' (by decide)] 'q' (by decide)
      [.escape 'z' (by decide)] rfl (by simp [Glyph.value?]) (by decide),
    strings_read.2 "\n" "" .default (.inl rfl)⟩

end Offside.Scan
