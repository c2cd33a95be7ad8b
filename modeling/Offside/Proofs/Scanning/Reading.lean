import Offside.Proofs.Grammar.Bare
import Offside.Proofs.Scanning.Lexeme
import Offside.Proofs.Scanning.Outcomes

/-!
# What is read from a known text

`Scans before tokens after` says that a scanner in a place described by `before` gives these tokens,
up to their positions, and comes to a place described by `after`.  There is a rule for every lexeme
of a line, and rules for the line breaks and the changes of the indentation between lines.
-/

namespace Offside.Scan

open Grammar (Respelled)
open Text (Cursor Position)

/-! ## Judgements -/

structure Scanner.Reaches (scanner later : Scanner) : Prop where
  cursor : scanner.context.cursor.Reaches later.context.cursor
  tabWidth : later.tabWidth = scanner.tabWidth

theorem Scanner.Reaches.refl (scanner : Scanner) : scanner.Reaches scanner := ⟨.refl _, rfl⟩

theorem Scanner.Reaches.trans {scanner middle later : Scanner} (h : scanner.Reaches middle)
    (h' : middle.Reaches later) : scanner.Reaches later :=
  ⟨h.cursor.trans h'.cursor, h'.tabWidth.trans h.tabWidth⟩

def Scans (before : Scanner → Prop) (tokens : List Token) (after : Scanner → Prop) : Prop :=
  ∀ scanner, before scanner → ∃ (spelled : List Token) (later : Scanner),
    Respelled tokens spelled ∧ scanner.outcomes = spelled.map .ok ++ later.outcomes ∧
      scanner.Reaches later ∧ after later

namespace Scans

variable {first second third : Scanner → Prop} {tokens tokens' : List Token}

theorem refl (place : Scanner → Prop) : Scans place [] place :=
  fun scanner h => ⟨[], scanner, rfl, rfl, .refl _, h⟩

theorem trans (h : Scans first tokens second) (h' : Scans second tokens' third) :
    Scans first (tokens ++ tokens') third := by
  intro scanner hfirst
  obtain ⟨spelled, middle, hspelled, houtcomes, hreaches, hsecond⟩ := h scanner hfirst
  obtain ⟨spelled', later, hspelled', houtcomes', hreaches', hthird⟩ := h' middle hsecond
  refine ⟨spelled ++ spelled', later, ?_, ?_, hreaches.trans hreaches', hthird⟩
  · exact Grammar.respelled_append.2 ⟨spelled, spelled', rfl, hspelled, hspelled'⟩
  · rw [houtcomes, houtcomes', List.map_append, List.append_assoc]

theorem cons {token : Token} (h : Scans first [token] second) (h' : Scans second tokens third) :
    Scans first (token :: tokens) third :=
  h.trans h'

theorem silent (h : Scans first [] second) (h' : Scans second tokens third) :
    Scans first tokens third :=
  h.trans h'

end Scans

/-! ## Places -/

structure InLine (rest : List Char) (openers : List Char) (indents : List UInt64) (scanner : Scanner) :
    Prop where
  rest : scanner.context.cursor.rest = rest
  openers : scanner.context.openers = openers
  indents : scanner.context.indents = indents
  column : scanner.context.cursor.position.column ≠ 0
  mode : scanner.mode = .dispatch ∨
    (scanner.mode = .indent ∧
      (scanner.context.openers = [] → scanner.context.cursor.position.column ≠ 1))

namespace Scanner

variable {scanner : Scanner} {rest openers : List Char} {indents : List UInt64}

section Steps

variable {behind next : Cursor}

theorem step_of_lastBlanks (hmode : scanner.mode = .dispatch)
    (hskip : skipBlanks scanner.tabWidth scanner.context.bracketIndent scanner.context.inBrackets
      scanner.context.cursor = (false, behind)) (hend : behind.read? = none) :
    scanner.step = scanner.goTo .indent { scanner.context with cursor := behind } := by
  unfold step stepDispatch
  simp only [hmode, hskip, Bool.false_eq_true, if_false, hend]

theorem step_of_lineBreak (hmode : scanner.mode = .dispatch)
    (hskip : skipBlanks scanner.tabWidth scanner.context.bracketIndent scanner.context.inBrackets
      scanner.context.cursor = (false, behind)) (hread : behind.read? = some ('\n', next)) :
    scanner.step = scanner.emit (.plain .newline behind.position) .indent
      { scanner.context with cursor := next } := by
  unfold step stepDispatch
  simp only [hmode, hskip, Bool.false_eq_true, if_false, hread, if_true]

theorem step_of_openLine (hmode : scanner.mode = .indent)
    (hend : scanner.context.cursor.read? = none) (hopeners : scanner.context.openers = [])
    (hopen : scanner.lineOpen = true) :
    scanner.step = scanner.emit (.plain .newline scanner.position) .indent scanner.context := by
  have hatEnd : scanner.context.cursor.atEnd = true :=
    List.isEmpty_iff.2 ((Cursor.read?_eq_none_iff _).1 hend)
  unfold step stepIndent endOfText
  simp only [hmode, hatEnd, if_true, hopeners, hopen]
  rfl

end Steps

theorem outcomes_of_inLine (h : InLine rest openers indents scanner) (hrest : rest ≠ []) :
    scanner.outcomes = ({ scanner with mode := .dispatch } : Scanner).outcomes := by
  rcases h.mode with hmode | ⟨hmode, hcolumn⟩
  · rw [← hmode]
  · have hend : scanner.context.cursor.atEnd = false := by
      rw [Cursor.atEnd, h.rest, List.isEmpty_eq_false_iff]
      exact hrest
    have hinside : scanner.context.inBrackets = true ∨ scanner.position.column ≠ 1 := by
      by_cases hopeners : scanner.context.openers = []
      · exact .inr (hcolumn hopeners)
      · simp [Context.inBrackets, hopeners]
    exact outcomes_of_silent (by simp [hmode]) (step_of_inside hmode hend hinside) (by simp)

theorem outcomes_of_step_eq {scanner' : Scanner} (h : scanner.mode ≠ .done)
    (h' : scanner'.mode ≠ .done) (hstep : scanner.step = scanner'.step) :
    scanner.outcomes = scanner'.outcomes := by
  cases hresult : scanner'.step with
  | mk emission after =>
      rw [hresult] at hstep
      cases emission with
      | silent =>
          rw [outcomes_of_silent h hstep (mode_ne_done_of_silent hstep),
            outcomes_of_silent h' hresult (mode_ne_done_of_silent hresult)]
      | token token => rw [outcomes_of_token h hstep, outcomes_of_token h' hresult]
      | failure failure => rw [outcomes_of_failure h hstep, outcomes_of_failure h' hresult]

theorem skipBlanks_cons {tabWidth limit : UInt64} {joined : Bool} {cursor : Cursor} {c : Char}
    {more : List Char} (h : cursor.rest = c :: more) (hc : Text.isBlank c = false) :
    skipBlanks tabWidth limit joined cursor = (false, cursor) := by
  have hread := (Cursor.read?_cons h (Cursor.isSolid_of_not_isBlank hc)).1
  have hfeed : c ≠ '\n' := by
    rintro rfl
    contradiction
  have hinline : ¬ Text.isInlineBlank c = true := by simp [Text.isInlineBlank, hc]
  unfold skipBlanks
  grind

theorem outcomes_of_lexeme {c : Char} {more : List Char}
    (h : InLine (c :: more) openers indents scanner) (hblank : Text.isBlank c = false) :
    scanner.outcomes =
      .ok (scanToken scanner.context c scanner.context.cursor.advance).1 ::
        ({ scanner with
          mode := .indent
          context := (scanToken scanner.context c scanner.context.cursor.advance).2
          lineOpen := lineOpenAfter scanner.lineOpen
            (scanToken scanner.context c scanner.context.cursor.advance).1.kind } :
          Scanner).outcomes := by
  have hread := (Cursor.read?_cons h.rest (Cursor.isSolid_of_not_isBlank hblank)).1
  have hfeed : ¬ c = '\n' := by
    rintro rfl
    contradiction
  have hstep : ({ scanner with mode := .dispatch } : Scanner).step =
      scanner.emit (scanToken scanner.context c scanner.context.cursor.advance).1 .indent
        (scanToken scanner.context c scanner.context.cursor.advance).2 := by
    show stepDispatch _ = _
    unfold stepDispatch
    simp only [skipBlanks_cons h.rest hblank, Bool.false_eq_true, if_false, hread, hfeed]
    rfl
  rw [outcomes_of_inLine h (by simp), outcomes_of_token (by simp) hstep]

theorem outcomes_of_blank (h : InLine (' ' :: rest) openers indents scanner) :
    scanner.outcomes =
      ({ scanner with
        mode := .dispatch
        context := { scanner.context with cursor := scanner.context.cursor.advance } } :
          Scanner).outcomes := by
  have hread := (Cursor.read?_cons h.rest (by decide)).1
  have hskip : ∀ limit joined,
      skipBlanks scanner.tabWidth limit joined scanner.context.cursor =
        skipBlanks scanner.tabWidth limit joined scanner.context.cursor.advance := by
    intro limit joined
    have hinline : Text.isInlineBlank ' ' = true := by decide
    conv => lhs; unfold skipBlanks
    grind
  have hstep : ({ scanner with mode := .dispatch } : Scanner).step =
      ({ scanner with
        mode := .dispatch
        context := { scanner.context with cursor := scanner.context.cursor.advance } } :
          Scanner).step := by
    show stepDispatch _ = stepDispatch _
    unfold stepDispatch
    simp only [Context.inBrackets, hskip]
    rfl
  rw [outcomes_of_inLine h (by simp), outcomes_of_step_eq (by simp) (by simp) hstep]

end Scanner

/-! ## Rules within a line -/

variable {text rest openers openers' : List Char} {indents : List UInt64} {token : Token}

theorem scans_lexeme (htext : ∃ c more, text = c :: more ∧ Text.isBlank c = false)
    (h : ∀ context : Context, context.cursor.rest = text ++ rest → context.openers = openers →
      ∀ c ∈ text.head?,
        Respelled [token] [(Scanner.scanToken context c context.cursor.advance).1] ∧
        context.cursor.Passes (Scanner.scanToken context c context.cursor.advance).2.cursor
          text rest ∧
        (Scanner.scanToken context c context.cursor.advance).2.openers = openers') :
    Scans (InLine (text ++ rest) openers indents) [token] (InLine rest openers' indents) := by
  intro scanner hscanner
  obtain ⟨c, more, rfl, hblank⟩ := htext
  have hcons : scanner.context.cursor.rest = c :: (more ++ rest) := hscanner.rest
  obtain ⟨htoken, hpasses, hopeners⟩ :=
    h scanner.context hscanner.rest hscanner.openers c (by simp)
  have houtcomes :=
    @Scanner.outcomes_of_lexeme scanner openers indents c (more ++ rest) hscanner hblank
  have hcolumn := hpasses.column
  have hstart := hscanner.column
  rw [List.length_cons] at hcolumn
  refine ⟨_, _, htoken, houtcomes, ⟨hpasses.reaches, rfl⟩, hpasses.rest, hopeners, ?_, ?_,
    .inr ⟨rfl, fun _ => ?_⟩⟩
  · show (Scanner.scanToken scanner.context c scanner.context.cursor.advance).2.indents = _
    rw [Scanner.scanToken_indents]
    exact hscanner.indents
  · show (Scanner.scanToken scanner.context c _).2.cursor.position.column ≠ 0
    omega
  · show (Scanner.scanToken scanner.context c _).2.cursor.position.column ≠ 1
    omega

theorem scans_blank : Scans (InLine (' ' :: rest) openers indents) [] (InLine rest openers indents) := by
  intro scanner hscanner
  have hpasses := (Cursor.read?_cons hscanner.rest (by decide)).2
  have houtcomes := Scanner.outcomes_of_blank hscanner
  have hcolumn := hpasses.column
  refine ⟨[], _, rfl, houtcomes, ⟨hpasses.reaches, rfl⟩, hpasses.rest, hscanner.openers,
    hscanner.indents, ?_, .inl rfl⟩
  show scanner.context.cursor.advance.position.column ≠ 0
  rw [hcolumn]
  simp

theorem scanToken_word {context : Context} {c : Char} (next : Cursor)
    (hword : isWordChar c = true) (hdigit : c.isDigit = false) :
    Scanner.scanToken context c next =
      ((scanWord context.cursor).1, { context with cursor := (scanWord context.cursor).2 }) := by
  have hquote : c ≠ '"' := by
    rintro rfl
    contradiction
  have hreserved : isReserved c = false := by simpa [isWordChar] using hword
  unfold Scanner.scanToken
  simp [hdigit, hquote, hreserved]

theorem scans_name {name : Identifier} (hname : Word name.name) (hrest : Stops rest) :
    Scans (InLine (name.name.toList ++ rest) openers indents) [name.token]
      (InLine rest openers indents) := by
  obtain ⟨c, more, hcons, hdigit⟩ := hname.first
  have hword : isWordChar c = true := hname.chars c (by simp [hcons])
  apply scans_lexeme ⟨c, more, hcons, isBlank_of_isWordChar hword⟩
  intro context hcontext hopeners first hfirst
  obtain rfl : c = first := by simpa [hcons] using hfirst
  obtain ⟨htoken, hpasses⟩ := scanWord_name hname hcontext hrest
  rw [scanToken_word _ hword hdigit]
  refine ⟨?_, hpasses, hopeners⟩
  rw [htoken]
  exact Grammar.respelled_name.2 ⟨⟨name.name, context.cursor.position⟩, [], rfl, rfl, rfl⟩

theorem scans_keyword {kind : TokenKind} {word : String} {position : Position}
    (hkeyword : TokenKind.keyword? word = some kind) (hrest : Stops rest) :
    Scans (InLine (word.toList ++ rest) openers indents) [.plain kind position]
      (InLine rest openers indents) := by
  obtain ⟨hne, hword⟩ := chars_of_keyword hkeyword
  obtain ⟨c, more, hcons⟩ := List.exists_cons_of_ne_nil hne
  obtain ⟨hfirst, hdigit⟩ := hword c (by simp [hcons])
  apply scans_lexeme ⟨c, more, hcons, isBlank_of_isWordChar hfirst⟩
  intro context hcontext hopeners first hmem
  obtain rfl : c = first := by simpa [hcons] using hmem
  obtain ⟨htoken, hpasses⟩ := scanWord_keyword hkeyword hcontext hrest
  rw [scanToken_word _ hfirst hdigit]
  refine ⟨?_, hpasses, hopeners⟩
  rw [htoken]
  exact Grammar.respelled_plain.2 ⟨_, [], rfl, rfl⟩

theorem scans_integer {value : Nat} {position : Position} (hvalue : value < integerLimit)
    (hrest : Stops rest) :
    Scans (InLine (Nat.toDigits 10 value ++ rest) openers indents)
      [(Literal.integer value).token position] (InLine rest openers indents) := by
  obtain ⟨c, more, hcons⟩ := List.exists_cons_of_ne_nil (Nat.toDigits_ne_nil (n := value) (b := 10))
  have hdigit : c.isDigit = true := by
    have hmem : c ∈ Nat.toDigits 10 value := by simp [hcons]
    exact Nat.isDigit_of_mem_toDigits (by omega) (by omega) hmem
  apply scans_lexeme ⟨c, more, hcons, isBlank_of_isWordChar (isWordChar_of_isDigit hdigit)⟩
  intro context hcontext hopeners first hmem
  obtain rfl : c = first := by simpa [hcons] using hmem
  obtain ⟨htoken, hpasses⟩ := scanNumber_integer hvalue hcontext hrest
  unfold Scanner.scanToken
  simp only [hdigit, if_true]
  refine ⟨?_, hpasses, hopeners⟩
  rw [htoken]
  exact Grammar.respelled_literal.2 ⟨_, [], rfl, rfl⟩

theorem scans_string {content : String} {position : Position}
    (hcontent : ∀ c ∈ content.toList, Quotable c) :
    Scans (InLine ((Text.quoted content).toList ++ rest) openers indents)
      [(Literal.string content).token position] (InLine rest openers indents) := by
  have hcons : ∃ more, (Text.quoted content).toList = '"' :: more := by
    simp [Text.quoted, Text.quotedWith]
  obtain ⟨more, hcons⟩ := hcons
  apply scans_lexeme ⟨'"', more, hcons, by decide⟩
  intro context hcontext hopeners first hmem
  obtain rfl : '"' = first := by simpa [hcons] using hmem
  obtain ⟨htoken, hpasses⟩ := scanQuotation_quoted hcontent hcontext
  unfold Scanner.scanToken
  simp only [show '"'.isDigit = false from rfl, Bool.false_eq_true, if_false, if_true]
  refine ⟨?_, hpasses, hopeners⟩
  rw [htoken]
  exact Grammar.respelled_literal.2 ⟨_, [], rfl, rfl⟩

/-! ## Symbols -/

private theorem scans_symbol {c : Char} {more : List Char} {kind : TokenKind} {position : Position}
    (hc : isReserved c = true ∧ Text.isBlank c = false ∧ c.isDigit = false ∧ c ≠ '"')
    (h : ∀ context : Context, context.cursor.rest = c :: (more ++ rest) →
      context.openers = openers → ∃ context' : Context,
        scanSymbol c context.cursor.position { context with cursor := context.cursor.advance } =
          (.plain kind context.cursor.position, context') ∧
        context.cursor.Passes context'.cursor (c :: more) rest ∧ context'.openers = openers') :
    Scans (InLine (c :: (more ++ rest)) openers indents) [.plain kind position]
      (InLine rest openers' indents) := by
  obtain ⟨hreserved, hblank, hdigit, hquote⟩ := hc
  refine @scans_lexeme (c :: more) _ _ _ _ _ ⟨c, more, rfl, hblank⟩ ?_
  intro context hcontext hopeners first hmem
  obtain rfl : c = first := by simpa using hmem
  obtain ⟨context', hscan, hpasses, hopeners'⟩ := h context hcontext hopeners
  unfold Scanner.scanToken
  simp only [hdigit, hquote, hreserved, Bool.false_eq_true, if_false, if_true, hscan]
  exact ⟨Grammar.respelled_plain.2 ⟨_, [], rfl, rfl⟩, hpasses, hopeners'⟩

theorem scans_opener {c : Char} {position : Position} (hc : isOpener c = true) :
    Scans (InLine (c :: rest) openers indents) [.plain (openerKind c) position]
      (InLine rest (c :: openers) indents) := by
  have hfacts : isReserved c = true ∧ Text.isBlank c = false ∧ c.isDigit = false ∧ c ≠ '"' := by
    simp only [isOpener, Bool.or_eq_true, beq_iff_eq] at hc
    rcases hc with (rfl | rfl) | rfl <;> decide
  refine @scans_symbol rest openers (c :: openers) indents c [] _ _ hfacts ?_
  intro context hcontext hopeners
  have hpasses := (Cursor.read?_cons hcontext (Cursor.isSolid_of_not_isBlank hfacts.2.1)).2
  refine ⟨_, by rw [scanSymbol, if_pos hc], hpasses, ?_⟩
  simp [Context.openBracket, hopeners]

theorem scans_closer {opener : Char} {position : Position} (hopener : isOpener opener = true) :
    Scans (InLine (closingOf opener :: rest) (opener :: openers) indents)
      [.plain (closerKind (closingOf opener)) position] (InLine rest openers indents) := by
  have hfacts : isReserved (closingOf opener) = true ∧ Text.isBlank (closingOf opener) = false ∧
      (closingOf opener).isDigit = false ∧ closingOf opener ≠ '"' ∧
      isOpener (closingOf opener) = false ∧ isCloser (closingOf opener) = true := by
    simp only [isOpener, Bool.or_eq_true, beq_iff_eq] at hopener
    rcases hopener with (rfl | rfl) | rfl <;> decide
  obtain ⟨hreserved, hblank, hdigit, hquote, hopens, hcloses⟩ := hfacts
  refine @scans_symbol rest (opener :: openers) openers indents _ [] _ _
    ⟨hreserved, hblank, hdigit, hquote⟩ ?_
  intro context hcontext hopeners
  have hpasses := (Cursor.read?_cons hcontext (Cursor.isSolid_of_not_isBlank hblank)).2
  refine ⟨{ context with cursor := context.cursor.advance, openers := openers }, ?_, hpasses, rfl⟩
  unfold scanSymbol Context.closeBracket
  simp [hopens, hcloses, hopeners]

def startsOperator (c : Char) : Bool :=
  isReserved c && !Text.isBlank c && !c.isDigit && c != '"' && !isOpener c && !isCloser c

private theorem scans_operator {c : Char} {more : List Char} {kind : TokenKind}
    {position : Position} (hc : startsOperator c = true)
    (h : ∀ cursor : Cursor, cursor.rest = c :: (more ++ rest) → ∃ after,
      operatorBehind? c cursor.advance = some (kind, after) ∧
        cursor.Passes after (c :: more) rest) :
    Scans (InLine (c :: (more ++ rest)) openers indents) [.plain kind position]
      (InLine rest openers indents) := by
  simp only [startsOperator, Bool.and_eq_true, Bool.not_eq_true', bne_iff_ne] at hc
  obtain ⟨⟨⟨⟨⟨hreserved, hblank⟩, hdigit⟩, hquote⟩, hopens⟩, hcloses⟩ := hc
  apply scans_symbol ⟨hreserved, hblank, hdigit, hquote⟩
  intro context hcontext hopeners
  obtain ⟨after, hoperator, hpasses⟩ := h context.cursor hcontext
  refine ⟨{ context with cursor := after }, ?_, hpasses, hopeners⟩
  unfold scanSymbol
  simp [hopens, hcloses, hoperator]

def marks : List (Char × TokenKind) := [(',', .comma), ('.', .dot), (':', .colon)]

theorem scans_mark {mark : Char × TokenKind} {position : Position} (hmark : mark ∈ marks) :
    Scans (InLine (mark.1 :: rest) openers indents) [.plain mark.2 position]
      (InLine rest openers indents) := by
  have hfacts : startsOperator mark.1 = true ∧
      ∀ cursor, operatorBehind? mark.1 cursor = some (mark.2, cursor) := by
    simp only [marks, List.mem_cons, List.not_mem_nil, or_false] at hmark
    rcases hmark with rfl | rfl | rfl <;> exact ⟨by decide, fun _ => rfl⟩
  refine @scans_operator rest openers indents _ [] _ _ hfacts.1 ?_
  intro cursor hcursor
  have hsolid : Cursor.isSolid mark.1 = true := by
    simp only [marks, List.mem_cons, List.not_mem_nil, or_false] at hmark
    rcases hmark with rfl | rfl | rfl <;> decide
  exact ⟨cursor.advance, hfacts.2 _, (Cursor.read?_cons hcursor hsolid).2⟩

def signs : List (Char × TokenKind) := [('-', .minus), ('=', .assign)]

theorem scans_sign {sign : Char × TokenKind} {position : Position} (hsign : sign ∈ signs)
    (hrest : ∀ c ∈ rest.head?, c ≠ '=') :
    Scans (InLine (sign.1 :: rest) openers indents) [.plain sign.2 position]
      (InLine rest openers indents) := by
  have hfacts : startsOperator sign.1 = true ∧ Cursor.isSolid sign.1 = true ∧
      ∀ cursor : Cursor, cursor.isAt '=' = false →
        operatorBehind? sign.1 cursor = some (sign.2, cursor) := by
    simp only [signs, List.mem_cons, List.not_mem_nil, or_false] at hsign
    rcases hsign with rfl | rfl <;>
      exact ⟨by decide, by decide, fun _ hat => by simp [operatorBehind?, withAssign, hat]⟩
  refine @scans_operator rest openers indents _ [] _ _ hfacts.1 ?_
  intro cursor hcursor
  have hpasses := (Cursor.read?_cons hcursor hfacts.2.1).2
  refine ⟨cursor.advance, hfacts.2.2 _ ?_, hpasses⟩
  rw [Cursor.isAt]
  cases rest with
  | nil =>
      rw [(Cursor.current?_eq_none_iff _).2 hpasses.rest]
      rfl
  | cons c rest =>
      have hc := hrest c (by simp)
      rw [Cursor.current?_cons hpasses.rest]
      by_cases hreturn : c = '\r'
      · simp [hreturn]
      · simp [hreturn, hc]

theorem scans_spaced {kind : TokenKind} {lexeme : String} {blank : Char} {position : Position}
    (hlexeme : kind.lexeme? = some lexeme) (hstarts : lexeme.toList.head?.any startsOperator = true)
    (hblank : blank = ' ' ∨ blank = '\n') :
    Scans (InLine (lexeme.toList ++ blank :: rest) openers indents) [.plain kind position]
      (InLine (blank :: rest) openers indents) := by
  have hspelled : ∃ c more, lexeme.toList = c :: more ∧ startsOperator c = true ∧
      ∀ cursor : Cursor, cursor.rest = c :: (more ++ blank :: rest) → ∃ after,
        operatorBehind? c cursor.advance = some (kind, after) ∧
          cursor.Passes after (c :: more) (blank :: rest) := by
    cases kind <;> cases hlexeme
    case trueKeyword | falseKeyword | funcKeyword | structKeyword | ifKeyword | elifKeyword |
        elseKeyword | whileKeyword | forKeyword | andKeyword | orKeyword | notKeyword |
        returnKeyword | leftParen | rightParen | leftSquare | rightSquare | leftBrace | rightBrace =>
      exact absurd hstarts (by decide)
    all_goals
      refine ⟨_, _, rfl, by decide, ?_⟩
      rintro ⟨_, position⟩ rfl
      rcases hblank with rfl | rfl
      all_goals
        refine ⟨_, rfl, rfl, rfl, rfl, ?_⟩
        repeat first | exact .refl _ | refine .read rfl ?_
  obtain ⟨c, more, hcons, hc, hoperator⟩ := hspelled
  rw [hcons]
  exact scans_operator hc hoperator

theorem scans_binary {op : BinaryOp} {position : Position} :
    Scans (InLine (op.symbol.toList ++ ' ' :: rest) openers indents) [.plain op.token position]
      (InLine (' ' :: rest) openers indents) := by
  by_cases hkeyword : op = .or ∨ op = .and
  · have hstops : Stops (' ' :: rest) := stops_of_ne_point (by decide) (by decide) (by decide)
    rcases hkeyword with rfl | rfl
    · exact @scans_keyword _ _ _ .orKeyword "or" _ (by decide) hstops
    · exact @scans_keyword _ _ _ .andKeyword "and" _ (by decide) hstops
  · have hspelled : op.token.lexeme? = some op.symbol ∧
        op.symbol.toList.head?.any startsOperator = true := by
      cases op
      case or | and => simp at hkeyword
      all_goals decide
    exact scans_spaced hspelled.1 hspelled.2 (.inl rfl)

end Offside.Scan
