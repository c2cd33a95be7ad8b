import Mathlib.Data.List.Chain
import Offside.Proofs.Scanning.Extent
import Offside.Proofs.Scanning.Fork
import Offside.Proofs.Scanning.NameLines
import Offside.Proofs.Scanning.Pairing

/-!
# Brackets on one line

A line of names, blanks and brackets gives one token for each name and each bracket.  It has an error
token exactly if its brackets are not well nested.  One closer too many in a well nested line is
reported where it stands, and changes nothing else.
-/

namespace Offside

/-! ## Positions on a line -/

namespace Text

def Position.behind (position : Position) (text : List Char) : Position :=
  text.foldl Position.advance position

theorem Position.behind_append (position : Position) (text text' : List Char) :
    position.behind (text ++ text') = (position.behind text).behind text' :=
  List.foldl_append

theorem Cursor.Reaches.length_le {cursor after : Cursor} (h : cursor.Reaches after) :
    after.rest.length ≤ cursor.rest.length := by
  induction h with
  | refl => exact Nat.le_refl _
  | read hread _ ih => exact Nat.le_trans ih (Nat.le_of_lt (length_lt_of_read? hread))

theorem Cursor.Covers.position {cursor after : Cursor} {text : List Char}
    (h : cursor.Covers after text) (htext : ∀ c ∈ text, isSolid c = true) :
    after.position = cursor.position.behind text := by
  obtain ⟨hrest, hreaches⟩ := h
  induction hreaches generalizing text with
  | refl =>
      obtain rfl : text = [] := List.append_left_eq_self.1 hrest.symm
      rfl
  | @read cursor next after c hread hmore ih =>
      cases text with
      | nil =>
          have hless := length_lt_of_read? hread
          have hle := hmore.length_le
          rw [hrest, List.nil_append] at hless
          omega
      | cons d text =>
          have hsolid := htext d (by simp)
          obtain ⟨hread', hpasses⟩ := read?_cons hrest hsolid
          rw [hread] at hread'
          cases hread'
          have hnext : cursor.advance.position = cursor.position.advance c := by
            unfold read? at hread
            simp only [isSolid, Bool.and_eq_true, bne_iff_ne] at hsolid
            simp only [hrest, List.cons_append, hsolid.1, if_false, Option.some.injEq,
              Prod.mk.injEq, true_and] at hread
            rw [← hread]
          rw [ih (fun e he => htext e (by simp [he])) hpasses.rest, hnext]
          rfl

theorem Cursor.Passes.covers {cursor after : Cursor} {text rest : List Char}
    (h : cursor.Passes after text rest) : cursor.Covers after text :=
  ⟨by rw [h.before, h.rest], h.reaches⟩

theorem Cursor.Passes.position {cursor after : Cursor} {text rest : List Char}
    (h : cursor.Passes after text rest) (htext : ∀ c ∈ text, isSolid c = true) :
    after.position = cursor.position.behind text :=
  h.covers.position htext

end Text

namespace Scan

open Grammar (Respelled)
open Text (Cursor Position)

/-! ## Pieces -/

inductive Piece where
  | blank
  | name (word : String) (h : Word word)
  | bracket (c : Char) (h : isBracket c = true)

namespace Piece

def chars : Piece → List Char
  | blank => [' ']
  | name word _ => word.toList
  | bracket c _ => [c]

def brackets : Piece → List Char
  | bracket c _ => [c]
  | _ => []

/-- The tokens of a piece that stands inside of the openers. -/
def tokens (openers : List Char) (position : Position) : Piece → List Token
  | blank => []
  | name word _ => [.identifier word position]
  | bracket c _ => [bracketToken openers c position]

def Parted : Piece → Piece → Prop
  | name .., name .. => False
  | _, _ => True

end Piece

def lineChars (pieces : List Piece) : List Char := pieces.flatMap Piece.chars

def lineBrackets (pieces : List Piece) : List Char := pieces.flatMap Piece.brackets

/-- The tokens of the pieces, where the first one stands inside of the openers. -/
def lineTokens : List Char → Position → List Piece → List Token
  | _, _, [] => []
  | openers, position, piece :: pieces =>
      piece.tokens openers position ++
        lineTokens (piece.brackets.foldl openersBehind openers) (position.behind piece.chars) pieces

variable {openers : List Char} {position position' : Position} {piece : Piece}
  {pieces front back : List Piece}

theorem lineChars_cons : lineChars (piece :: pieces) = piece.chars ++ lineChars pieces := rfl

theorem lineBrackets_cons :
    lineBrackets (piece :: pieces) = piece.brackets ++ lineBrackets pieces := rfl

theorem lineBrackets_append : lineBrackets (front ++ back) = lineBrackets front ++ lineBrackets back :=
  List.flatMap_append

theorem lineTokens_append :
    lineTokens openers position (front ++ back) = lineTokens openers position front ++
      lineTokens ((lineBrackets front).foldl openersBehind openers)
        (position.behind (lineChars front)) back := by
  induction front generalizing openers position with
  | nil => rfl
  | cons piece front ih =>
      rw [List.cons_append, lineTokens, lineTokens, ih, List.append_assoc, lineBrackets_cons,
        lineChars_cons, List.foldl_append, Position.behind_append]

theorem lineTokens_respelled :
    Respelled (lineTokens openers position pieces) (lineTokens openers position' pieces) := by
  induction pieces generalizing openers position position' with
  | nil => rfl
  | cons piece pieces ih =>
      have hfirst :
          Respelled (piece.tokens openers position) (piece.tokens openers position') := by
        cases piece with
        | blank | name => rfl
        | bracket c h =>
            simp only [Respelled, Piece.tokens, bracketToken]
            cases bracketFault? openers c <;> rfl
      exact Grammar.respelled_append.2 ⟨_, _, rfl, hfirst, ih⟩

theorem lineTokens_faultless :
    (∀ token ∈ lineTokens openers position pieces, token.kind ≠ .error) ↔
      Faultless openers (lineBrackets pieces) := by
  induction pieces generalizing openers position with
  | nil => simp [lineTokens, lineBrackets, Faultless]
  | cons piece pieces ih =>
      have hfirst : (∀ token ∈ piece.tokens openers position, token.kind ≠ .error) ↔
          Faultless openers piece.brackets := by
        cases piece with
        | blank => simp [Piece.tokens, Piece.brackets, Faultless]
        | name => simp [Piece.tokens, Piece.brackets, Faultless, Token.identifier]
        | bracket c h =>
            simp only [Piece.tokens, Piece.brackets, Faultless, List.mem_singleton, forall_eq,
              and_true, bracketToken]
            cases bracketFault? openers c with
            | none =>
                have hkind : (if isOpener c then openerKind c else closerKind c) ≠ .error := by
                  unfold openerKind closerKind
                  split <;> split <;> first | decide | (split <;> decide)
                simpa [Token.plain] using hkind
            | some fault => simp [Token.error]
      rw [lineTokens, List.forall_mem_append, hfirst, ih, lineBrackets_cons, faultless_append]

/-! ## Reading a line -/

structure Covers (scanner : Scanner) (text : List Char) (tokens : List Token) (later : Scanner) :
    Prop where
  outcomes : scanner.outcomes = tokens.map .ok ++ later.outcomes
  position : later.position = scanner.position.behind text
  lineOpen : later.lineOpen = (scanner.lineOpen || !tokens.isEmpty)

variable {scanner middle later : Scanner} {text text' rest openers' : List Char}
  {tokens tokens' : List Token} {token : Token} {indents : List UInt64}

theorem Covers.refl (scanner : Scanner) : Covers scanner [] [] scanner :=
  ⟨rfl, rfl, (Bool.or_false _).symm⟩

theorem Covers.trans (h : Covers scanner text tokens middle)
    (h' : Covers middle text' tokens' later) :
    Covers scanner (text ++ text') (tokens ++ tokens') later where
  outcomes := by rw [h.outcomes, h'.outcomes, List.map_append, List.append_assoc]
  position := by rw [h'.position, h.position, Position.behind_append]
  lineOpen := by
    rw [h'.lineOpen, h.lineOpen, Bool.or_assoc]
    cases tokens <;> simp

theorem covers_lexeme {context : Context} {c : Char} {more : List Char}
    (h : InLine (c :: more ++ rest) openers indents scanner) (hblank : Text.isBlank c = false)
    (hsolid : ∀ d ∈ c :: more, Cursor.isSolid d = true)
    (hscan : Scanner.scanToken scanner.context c scanner.context.cursor.advance = (token, context))
    (hpasses : scanner.context.cursor.Passes context.cursor (c :: more) rest)
    (hopeners : context.openers = openers') :
    ∃ later, Covers scanner (c :: more) [token] later ∧ InLine rest openers' indents later := by
  have houtcomes := Scanner.outcomes_of_lexeme h hblank
  have hlexical := Scanner.scanToken_lexical scanner.context c scanner.context.cursor.advance
  have hindents := Scanner.scanToken_indents scanner.context c scanner.context.cursor.advance
  rw [hscan] at houtcomes hlexical hindents
  have hopen := Scanner.lineOpenAfter_of_content hlexical.kind scanner.lineOpen
  have hcolumn := hpasses.column
  have hstart := h.column
  rw [List.length_cons] at hcolumn
  refine ⟨_, ⟨houtcomes, hpasses.position hsolid, by simp [hopen]⟩, hpasses.rest, hopeners,
    hindents.trans h.indents, ?_, .inr ⟨rfl, fun _ => ?_⟩⟩
  · show context.cursor.position.column ≠ 0
    omega
  · show context.cursor.position.column ≠ 1
    omega

theorem scanToken_bracket {c : Char} (hbracket : isBracket c = true) (context : Context)
    (next : Cursor) : ∃ context' : Context,
      Scanner.scanToken context c next =
        (bracketToken context.openers c context.cursor.position, context') ∧
      context'.openers = openersBehind context.openers c ∧ context'.cursor = next := by
  obtain ⟨hreserved, -, hdigit, hquote⟩ := facts_of_isBracket hbracket
  obtain ⟨htoken, hopeners, hcursor⟩ :=
    scanSymbol_bracket hbracket context.cursor.position { context with cursor := next }
  refine ⟨_, ?_, hopeners, hcursor⟩
  rw [← htoken]
  unfold Scanner.scanToken
  simp only [hdigit, hquote, hreserved, Bool.false_eq_true, if_false, if_true]

theorem covers_piece (h : InLine (piece.chars ++ rest) openers indents scanner)
    (hends : ∀ word hword, piece = .name word hword → Ends rest) :
    ∃ later, Covers scanner piece.chars (piece.tokens openers scanner.position) later ∧
      InLine rest (piece.brackets.foldl openersBehind openers) indents later := by
  cases piece with
  | blank =>
      have hpasses := (Cursor.read?_cons h.rest (by decide)).2
      have hcolumn := hpasses.column
      refine ⟨_, ⟨Scanner.outcomes_of_blank h, hpasses.position (by simp [Cursor.isSolid]), ?_⟩,
        hpasses.rest, h.openers, h.indents, ?_, .inl rfl⟩
      · exact (Bool.or_false _).symm
      · show scanner.context.cursor.advance.position.column ≠ 0
        rw [hcolumn]
        simp
  | name word hword =>
      obtain ⟨c, more, hcons, hdigit⟩ := hword.first
      have hchar : isWordChar c = true := hword.chars c (by simp [hcons])
      have hsolid : ∀ d ∈ word.toList, Cursor.isSolid d = true :=
        fun d hd => Cursor.isSolid_of_isWordChar (hword.chars d hd)
      obtain ⟨hspan, hpasses⟩ := @Cursor.span_passes scanner.context.cursor _ _ isWordChar h.rest
        (fun d hd => ⟨hword.chars d hd, hsolid d hd⟩)
        (by
          intro d hd
          have hreserved := hends word hword rfl d hd
          split
          · decide
          · simp [isWordChar, hreserved])
      have hscan : scanWord scanner.context.cursor =
          (.identifier word scanner.position, (scanner.context.cursor.span isWordChar).2) := by
        unfold scanWord
        simp only [hspan, Piece.chars, String.ofList_toList, hword.keyword]
        rfl
      have htoken := @scanToken_word scanner.context c scanner.context.cursor.advance hchar hdigit
      rw [hscan] at htoken
      simp only [Piece.chars, Piece.tokens, hcons] at h hpasses hsolid ⊢
      exact covers_lexeme h (isBlank_of_isWordChar hchar) hsolid htoken hpasses h.openers
  | bracket c hbracket =>
      have hblank := (facts_of_isBracket hbracket).2.1
      have hsolid := Cursor.isSolid_of_not_isBlank hblank
      have hpasses := (Cursor.read?_cons h.rest hsolid).2
      obtain ⟨context, hscan, hopeners, hcursor⟩ :=
        scanToken_bracket hbracket scanner.context scanner.context.cursor.advance
      rw [h.openers] at hscan hopeners
      refine covers_lexeme h hblank (by simpa using hsolid) hscan ?_ hopeners
      rw [hcursor]
      exact hpasses

theorem covers_pieces (h : InLine (lineChars pieces ++ rest) openers indents scanner)
    (hparted : pieces.IsChain Piece.Parted) (hends : Ends rest) :
    ∃ later, Covers scanner (lineChars pieces) (lineTokens openers scanner.position pieces) later ∧
      InLine rest ((lineBrackets pieces).foldl openersBehind openers) indents later := by
  induction pieces generalizing openers scanner with
  | nil => exact ⟨scanner, .refl scanner, h⟩
  | cons piece pieces ih =>
      rw [lineChars_cons, List.append_assoc] at h
      obtain ⟨middle, hfirst, hmiddle⟩ := covers_piece h (by
        rintro word hword rfl
        cases pieces with
        | nil => exact hends
        | cons next pieces =>
            have hnext := (List.isChain_cons_cons.1 hparted).1
            intro d hd
            cases next with
            | blank =>
                cases hd
                decide
            | name => exact hnext.elim
            | bracket c hbracket =>
                obtain rfl : c = d := by simpa [lineChars_cons, Piece.chars] using hd
                exact (facts_of_isBracket hbracket).1)
      obtain ⟨later, hmore, hlater⟩ := ih hmiddle hparted.of_cons
      rw [hfirst.position] at hmore
      refine ⟨later, hfirst.trans hmore, ?_⟩
      rw [lineBrackets_cons, List.foldl_append]
      exact hlater

/-! ## The end of a line -/

def unclosed (openers : List Char) (position : Position) : List Token :=
  (openers.head?.map fun opener => .error (.unclosedBracket opener) position).toList

/-- The text of a line may be ended by a line break or by the end of the text. -/
def LineEnd (ending : List Char) : Prop := ending = [] ∨ ending = ['\n']

variable {ending : List Char}

structure AtEnd (openers : List Char) (indents : List UInt64) (scanner : Scanner) : Prop where
  mode : scanner.mode = .indent
  rest : scanner.context.cursor.rest = []
  column : scanner.context.cursor.position.column ≠ 0
  openers : scanner.context.openers = openers
  indents : scanner.context.indents = indents
  lineOpen : scanner.lineOpen = true

theorem AtEnd.newline (h : AtEnd [] indents scanner) :
    ∃ position later, scanner.outcomes = .ok (.plain .newline position) :: later.outcomes ∧
      AtClose indents later :=
  ⟨_, _, Scanner.outcomes_of_token (by simp [h.mode])
      (Scanner.step_of_openLine h.mode ((Cursor.read?_eq_none_iff _).2 h.rest) h.openers h.lineOpen),
    rfl, h.rest, h.column, h.openers, h.indents, rfl⟩

theorem AtEnd.reportUnclosed (h : AtEnd openers indents scanner) :
    ∃ position later, scanner.outcomes = (unclosed openers position).map .ok ++ later.outcomes ∧
      AtEnd [] indents later := by
  cases openers with
  | nil => exact ⟨.start, scanner, rfl, h⟩
  | cons opener outer =>
      have hstep : scanner.step = scanner.emit
          (.error (.unclosedBracket opener) scanner.position) .indent
          scanner.context.drainBrackets := by
        unfold Scanner.step Scanner.stepIndent Scanner.endOfText
        simp only [h.mode, Cursor.atEnd, h.rest, List.isEmpty_nil, if_true, h.openers]
        rfl
      exact ⟨_, _, Scanner.outcomes_of_token (by simp [h.mode]) hstep, rfl, h.rest, h.column, rfl,
        h.indents, rfl⟩

theorem outcomes_of_lineEnd (h : InLine ending openers indents scanner) (hending : LineEnd ending)
    (hopen : scanner.lineOpen = true) :
    ∃ position position' later, scanner.outcomes =
        (unclosed openers position ++ [Token.plain .newline position']).map .ok ++ later.outcomes ∧
      AtClose indents later := by
  have hover : ∀ scanner : Scanner, AtEnd openers indents scanner →
      ∃ position position' later, scanner.outcomes =
          (unclosed openers position ++ [Token.plain .newline position']).map .ok ++ later.outcomes ∧
        AtClose indents later := by
    intro scanner hscanner
    obtain ⟨position, middle, houtcomes, hmiddle⟩ := hscanner.reportUnclosed
    obtain ⟨position', later, houtcomes', hlater⟩ := hmiddle.newline
    exact ⟨position, position', later, by rw [houtcomes, houtcomes']; simp, hlater⟩
  rcases hending with rfl | rfl
  · have hread := (Cursor.read?_eq_none_iff _).2 h.rest
    have hindent : scanner.outcomes = ({ scanner with mode := .indent } : Scanner).outcomes := by
      rcases h.mode with hmode | ⟨hmode, -⟩
      · exact Scanner.outcomes_of_silent (by simp [hmode])
          (Scanner.step_of_lastBlanks hmode (skipBlanks_of_end hread ..) hread) (by simp)
      · rw [← hmode]
    rw [hindent]
    exact hover _ ⟨rfl, h.rest, h.column, h.openers, h.indents, hopen⟩
  · have hread : scanner.context.cursor.read? =
        some ('\n', ⟨[], scanner.context.cursor.position.newline 1⟩) := by
      unfold Cursor.read?
      rw [h.rest]
      rfl
    rw [Scanner.outcomes_of_inLine h (by simp)]
    cases openers with
    | nil =>
        have hskip : skipBlanks scanner.tabWidth scanner.context.bracketIndent
            scanner.context.inBrackets scanner.context.cursor = (false, scanner.context.cursor) := by
          rw [Context.inBrackets, h.openers]
          exact skipBlanks_of_lineFeed hread ..
        have hstep :=
          @Scanner.step_of_lineBreak { scanner with mode := .dispatch } _ _ rfl hskip hread
        refine ⟨.start, _, _, Scanner.outcomes_of_token (by simp) hstep, rfl, rfl, ?_, h.openers,
          h.indents, rfl⟩
        exact Nat.one_ne_zero
    | cons opener outer =>
        have hend : (⟨[], scanner.context.cursor.position.newline 1⟩ : Cursor).read? = none := rfl
        have hskip : skipBlanks scanner.tabWidth scanner.context.bracketIndent
            scanner.context.inBrackets scanner.context.cursor =
              (false, ⟨[], scanner.context.cursor.position.newline 1⟩) := by
          rw [Context.inBrackets, h.openers]
          show skipBlanks _ _ true _ = _
          rw [skipBlanks_of_joined hread, h.rest]
          show (if startsStatement _ _ [] then _ else _) = _
          rw [startsStatement_nil, if_neg Bool.false_ne_true]
          exact skipBlanks_of_end hend ..
        have hstep :=
          @Scanner.step_of_lastBlanks { scanner with mode := .dispatch } _ rfl hskip hend
        rw [Scanner.outcomes_of_silent (by simp) hstep (by simp)]
        exact hover _ ⟨rfl, rfl, Nat.one_ne_zero, h.openers, h.indents, hopen⟩

/-! ## The start of a line -/

theorem exists_inLine {margin : Nat}
    (h : AtStart (List.replicate margin ' ' ++ text) [0] scanner) (htext : text ≠ [])
    (hfirst : ∀ c ∈ text.head?, Text.isBlank c = false) :
    ∃ opening inner later, scanner.outcomes = opening.map .ok ++ later.outcomes ∧
      Respelled (List.replicate inner.length (.plain .indent .start)) opening ∧
      (∀ level ∈ inner, 0 < level) ∧ InLine text [] (inner ++ [0]) later ∧
      (margin = 0 → inner = [] ∧ later.position = scanner.position) ∧
      later.lineOpen = scanner.lineOpen := by
  obtain ⟨cursor, hpasses, hstep⟩ := step_of_blanks h
    (by
      intro c hc
      obtain rfl := List.eq_of_mem_replicate hc
      decide) htext hfirst
  have hcolumn : cursor.position.column ≠ 0 := by
    rw [hpasses.column, h.column]
    omega
  have hindent : ({ scanner.context with cursor } : Context).indent = 0 := by
    rw [Context.indent, h.indents]
    rfl
  rw [leadingWidth_replicate] at hstep
  unfold Scanner.compareWidth at hstep
  simp only [hindent] at hstep
  by_cases hwidth : UInt64.ofNat margin = 0
  · rw [if_pos hwidth] at hstep
    refine ⟨[], [], _, Scanner.outcomes_of_silent (by simp [h.mode]) hstep (by simp), rfl,
      by simp, ⟨hpasses.rest, h.openers, h.indents, hcolumn, .inl rfl⟩, ?_, rfl⟩
    rintro rfl
    exact ⟨rfl, hpasses.position (by simp)⟩
  · have hless : 0 < UInt64.ofNat margin := UInt64.pos_iff_ne_zero.2 hwidth
    have haccepts : ({ scanner.context with cursor } : Context).acceptsIndent
        (UInt64.ofNat margin) = true := by
      rw [Context.acceptsIndent, hindent, decide_eq_true hless, Bool.or_true]
    rw [if_neg hwidth, if_pos hless, Context.pushIndent, if_pos haccepts] at hstep
    refine ⟨[_], [UInt64.ofNat margin], _,
      Scanner.outcomes_of_token (by simp [h.mode]) hstep, rfl, by simpa using hless,
      ⟨hpasses.rest, h.openers, congrArg (UInt64.ofNat margin :: ·) h.indents, hcolumn, .inl rfl⟩,
      ?_, rfl⟩
    rintro rfl
    exact absurd rfl hwidth

theorem outcomes_of_blanks {margin : Nat} (hending : LineEnd ending)
    (h : AtStart (List.replicate margin ' ' ++ ending) [0] scanner) :
    ∃ closing, scanner.outcomes = closing.map .ok ∧ Respelled (closingTokens 0) closing := by
  have hclosed : ∀ scanner : Scanner, AtClose [0] scanner →
      ∃ closing, scanner.outcomes = closing.map .ok ∧ Respelled (closingTokens 0) closing := by
    intro scanner hscanner
    obtain ⟨closing, later, hclosing, houtcomes, -, hlater⟩ :=
      @scans_closeFile [] (by simp) scanner hscanner
    exact ⟨closing, by rw [houtcomes, hlater, List.append_nil], hclosing⟩
  have hmode : scanner.mode ≠ .done := by simp [h.mode]
  by_cases hover : margin = 0 ∧ ending = []
  · obtain ⟨rfl, rfl⟩ := hover
    exact hclosed scanner h.atClose
  · have hend : scanner.context.cursor.atEnd = false := by
      rw [Cursor.atEnd, h.rest, List.isEmpty_eq_false_iff]
      intro hnil
      simp only [List.append_eq_nil_iff, List.replicate_eq_nil_iff] at hnil
      exact hover hnil
    have hstart := Scanner.step_of_lineStart h.mode hend
      (by simp [Context.inBrackets, h.openers]) h.column
    obtain ⟨-, hpasses⟩ := @Cursor.span_passes scanner.context.cursor _ _ Text.isInlineBlank h.rest
      (by
        intro c hc
        obtain rfl := List.eq_of_mem_replicate hc
        decide)
      (by
        intro c hc
        rcases hending with rfl | rfl
        · simp at hc
        · cases hc
          decide)
    have hcolumn : (scanner.context.cursor.span Text.isInlineBlank).2.position.column ≠ 0 := by
      rw [hpasses.column, h.column]
      omega
    unfold Scanner.startLine at hstart
    simp only at hstart
    rcases hending with rfl | rfl
    · rw [(Cursor.read?_eq_none_iff _).2 hpasses.rest] at hstart
      have hbehind : AtClose [0] (scanner.goTo .indent { scanner.context with
          cursor := (scanner.context.cursor.span Text.isInlineBlank).2 }).2 :=
        ⟨rfl, hpasses.rest, hcolumn, h.openers, h.indents, h.lineOpen⟩
      have hsame := step_of_over hbehind
      have hbehind' := hclosed _ hbehind
      rw [← Scanner.outcomes_of_step_eq hmode (by simp [Scanner.goTo]) ?_] at hbehind'
      · exact hbehind'
      · rw [hstart, hsame]
        simp [Scanner.endOfText, Scanner.goTo, h.openers, h.lineOpen]
    · have hread : (scanner.context.cursor.span Text.isInlineBlank).2.read? =
          some ('\n', ⟨[], (scanner.context.cursor.span Text.isInlineBlank).2.position.newline 1⟩) := by
        unfold Cursor.read?
        rw [hpasses.rest]
        rfl
      simp only [hread, if_true] at hstart
      rw [Scanner.outcomes_of_silent hmode hstart (by simp)]
      exact hclosed _ ⟨rfl, rfl, Nat.one_ne_zero, h.openers, h.indents, h.lineOpen⟩

/-! ## Lines of brackets -/

def lineText (pieces : List Piece) (ending : List Char) : String :=
  String.ofList (lineChars pieces ++ ending)

theorem exists_leadingBlanks (pieces : List Piece) :
    ∃ margin body, pieces = List.replicate margin .blank ++ body ∧
      ∀ piece ∈ body.head?, piece ≠ .blank := by
  induction pieces with
  | nil => exact ⟨0, [], rfl, by simp⟩
  | cons piece pieces ih =>
      cases piece with
      | blank =>
          obtain ⟨margin, body, rfl, hbody⟩ := ih
          exact ⟨margin + 1, body, rfl, hbody⟩
      | name word h => exact ⟨0, .name word h :: pieces, rfl, by simp⟩
      | bracket c h => exact ⟨0, .bracket c h :: pieces, rfl, by simp⟩

theorem lineChars_margin (margin : Nat) (body : List Piece) :
    lineChars (List.replicate margin .blank ++ body) =
      List.replicate margin ' ' ++ lineChars body := by
  induction margin with
  | zero => rfl
  | succ margin ih =>
      rw [List.replicate_succ, List.cons_append, lineChars_cons, ih]
      rfl

theorem lineBrackets_margin (margin : Nat) (body : List Piece) :
    lineBrackets (List.replicate margin .blank ++ body) = lineBrackets body := by
  induction margin with
  | zero => rfl
  | succ margin ih => exact ih

theorem outcomes_of_line {margin : Nat} {body : List Piece} (hbody : body ≠ [])
    (hfirst : ∀ piece ∈ body.head?, piece ≠ .blank) (hparted : body.IsChain Piece.Parted)
    (hending : LineEnd ending) (tabWidth : UInt64) :
    ∃ opening position start closing count,
      (Scanner.ofText (lineText (List.replicate margin .blank ++ body) ending) tabWidth).outcomes =
        (.plain .indent .start :: (opening ++ (lineTokens [] start body ++
          (unclosed ((lineBrackets body).foldl openersBehind []) position ++ closing)))).map .ok ∧
      Respelled (List.replicate count (.plain .indent .start)) opening ∧
      Respelled (.plain .newline .start :: closingTokens count) closing ∧
      (margin = 0 → count = 0 ∧ start = .start) := by
  obtain ⟨piece, more, rfl⟩ := List.exists_cons_of_ne_nil hbody
  have hopens : ∃ c chars, lineChars (piece :: more) = c :: chars ∧ Text.isBlank c = false := by
    cases piece with
    | blank => exact absurd rfl (hfirst _ rfl)
    | name word hword =>
        obtain ⟨c, chars, hcons, -⟩ := hword.first
        refine ⟨c, chars ++ lineChars more, by rw [lineChars_cons, Piece.chars, hcons]; rfl, ?_⟩
        exact isBlank_of_isWordChar (hword.chars c (by simp [hcons]))
    | bracket c hbracket => exact ⟨c, lineChars more, rfl, (facts_of_isBracket hbracket).2.1⟩
  have hends : Ends ending := by
    rcases hending with rfl | rfl
    · intro c hc
      simp at hc
    · intro c hc
      cases hc
      decide
  obtain ⟨c, chars, hcons, hblank⟩ := hopens
  have hstart : AtStart (List.replicate margin ' ' ++ (lineChars (piece :: more) ++ ending)) [0]
      (Scanner.opened (lineText (List.replicate margin .blank ++ piece :: more) ending) tabWidth) :=
    ⟨rfl, by rw [← List.append_assoc, ← lineChars_margin]; exact String.toList_ofList, rfl, rfl,
      rfl, rfl⟩
  obtain ⟨opening, inner, middle, houtcomes, hopening, hinner, hmiddle, hmargin, hopen⟩ :=
    exists_inLine hstart (by simp [hcons]) (by
      intro d hd
      obtain rfl : c = d := by simpa [hcons] using hd
      exact hblank)
  obtain ⟨later, hcovers, hlater⟩ := covers_pieces hmiddle hparted hends
  have hlineOpen : later.lineOpen = true := by
    have hne : lineTokens [] middle.position (piece :: more) ≠ [] := by
      cases piece with
      | blank => exact absurd rfl (hfirst _ rfl)
      | name | bracket => simp [lineTokens, Piece.tokens]
    rw [hcovers.lineOpen, Bool.or_eq_true]
    exact .inr (by simpa using hne)
  obtain ⟨position, position', last, houtcomes', hlast⟩ :=
    outcomes_of_lineEnd hlater hending hlineOpen
  obtain ⟨closing, final, hclosing, houtcomes'', -, hfinal⟩ := scans_closeFile hinner last hlast
  refine ⟨opening, position, middle.position, .plain .newline position' :: closing, inner.length,
    ?_, hopening, Grammar.respelled_plain.2 ⟨_, _, rfl, hclosing⟩, ?_⟩
  · rw [Scanner.outcomes_ofText_eq, houtcomes, hcovers.outcomes, houtcomes', houtcomes'', hfinal]
    simp
  · intro hzero
    obtain ⟨rfl, hposition⟩ := hmargin hzero
    exact ⟨rfl, hposition⟩

theorem outcomes_of_tightLine (hne : pieces ≠ []) (hfirst : ∀ piece ∈ pieces.head?, piece ≠ .blank)
    (hparted : pieces.IsChain Piece.Parted) (hending : LineEnd ending) (tabWidth : UInt64) :
    ∃ position closing, (Scanner.ofText (lineText pieces ending) tabWidth).outcomes =
        (.plain .indent .start :: (lineTokens [] .start pieces ++
          (unclosed ((lineBrackets pieces).foldl openersBehind []) position ++ closing))).map .ok ∧
      Respelled (.plain .newline .start :: closingTokens 0) closing := by
  obtain ⟨opening, position, start, closing, count, houtcomes, hopening, hclosing, hmargin⟩ :=
    @outcomes_of_line _ 0 _ hne hfirst hparted hending tabWidth
  obtain ⟨rfl, rfl⟩ := hmargin rfl
  obtain rfl := Grammar.respelled_nil.1 hopening
  exact ⟨position, closing, houtcomes, hclosing⟩

theorem ne_error_of_respelled {tokens tokens' : List Token} (h : Respelled tokens tokens')
    (htokens : ∀ token ∈ tokens, token.kind ≠ .error) : ∀ token ∈ tokens', token.kind ≠ .error := by
  intro token htoken
  have hbare : token.bare ∈ tokens.map Token.bare := h ▸ List.mem_map_of_mem htoken
  obtain ⟨other, hother, heq⟩ := List.mem_map.1 hbare
  have hkind : token.bare.kind = other.bare.kind := congrArg Token.kind heq.symm
  change token.kind = other.kind at hkind
  rw [hkind]
  exact htokens other hother

theorem exists_tokens_of_line {config : RunConfig} (hparted : pieces.IsChain Piece.Parted)
    (hending : LineEnd ending) :
    ∃ tokens, tokenize (lineText pieces ending) config = .ok tokens ∧
      ((∀ token ∈ tokens, token.kind ≠ .error) ↔ WellNested (lineBrackets pieces)) := by
  obtain ⟨margin, body, rfl, hfirst⟩ := exists_leadingBlanks pieces
  rw [lineBrackets_margin]
  by_cases hbody : body = []
  · subst hbody
    have hstart : AtStart (List.replicate margin ' ' ++ ending) [0]
        (Scanner.opened (lineText (List.replicate margin .blank ++ []) ending) config.tabWidth) := by
      refine ⟨rfl, ?_, rfl, rfl, rfl, rfl⟩
      have hchars := lineChars_margin margin []
      show (lineText _ ending).toList = _
      rw [lineText, String.toList_ofList, hchars]
      simp [lineChars]
    obtain ⟨closing, houtcomes, hclosing⟩ := outcomes_of_blanks hending hstart
    refine ⟨.plain .indent .start :: closing, ?_, iff_of_true ?_ .nil⟩
    · rw [tokenize_eq_ok, Scanner.outcomes_ofText_eq, houtcomes]
      rfl
    · exact List.forall_mem_cons.2 ⟨by simp [Token.plain], ne_error_of_respelled hclosing (by decide)⟩
  · obtain ⟨opening, position, start, closing, count, houtcomes, hopening, hclosing, -⟩ :=
      outcomes_of_line hbody hfirst (List.isChain_append.1 hparted).2.1 hending config.tabWidth
    refine ⟨_, tokenize_eq_ok.2 houtcomes, ?_⟩
    have hopening := ne_error_of_respelled hopening (by
      intro token htoken
      obtain rfl := List.eq_of_mem_replicate htoken
      simp [Token.plain])
    have hclosing := ne_error_of_respelled hclosing (by
      simp [closingTokens, Token.plain, or_imp, forall_and])
    have hunclosed : (∀ token ∈ unclosed ((lineBrackets body).foldl openersBehind []) position,
        token.kind ≠ .error) ↔ (lineBrackets body).foldl openersBehind [] = [] := by
      cases (lineBrackets body).foldl openersBehind [] with
      | nil => simp [unclosed]
      | cons opener outer => simp [unclosed, Token.error]
    rw [wellNested_iff, List.forall_mem_cons, List.forall_mem_append, List.forall_mem_append,
      List.forall_mem_append, lineTokens_faultless, hunclosed]
    exact ⟨fun h => ⟨h.2.2.1, h.2.2.2.1⟩,
      fun h => ⟨by simp [Token.plain], hopening, h.1, h.2, hclosing⟩⟩

/-- The fault of a closer that closes none of the openers. -/
def closerFault (openers : List Char) (c : Char) : Fault :=
  match openers with
  | [] => .unmatchedCloser c
  | opener :: _ => .mismatchedBracket (closingOf opener) c

theorem bracketFault?_of_closer {c : Char} (hc : isCloser c = true)
    (h : ∀ opener ∈ openers.head?, closingOf opener ≠ c) :
    bracketFault? openers c = some (closerFault openers c) := by
  have hopener : isOpener c = false := by
    simp only [isCloser, Bool.or_eq_true, beq_iff_eq] at hc
    rcases hc with (rfl | rfl) | rfl <;> decide
  cases openers with
  | nil => simp [bracketFault?, hopener, closerFault]
  | cons opener outer => simp [bracketFault?, hopener, closerFault, h opener rfl]

theorem tokens_of_extraCloser {config : RunConfig} {c : Char}
    (hparted : (front ++ back).IsChain Piece.Parted) (hending : LineEnd ending)
    (hne : front ++ back ≠ []) (hfirst : ∀ piece ∈ (front ++ back).head?, piece ≠ .blank)
    (hnested : WellNested (lineBrackets (front ++ back))) (hc : isCloser c = true)
    (hunpaired : ∀ opener ∈ (openersOf (lineBrackets front)).head?, closingOf opener ≠ c) :
    ∃ behind behind',
      tokenize (lineText (front ++ back) ending) config =
        .ok (.plain .indent .start :: (lineTokens [] .start front ++ behind)) ∧
      tokenize (lineText (front ++ .bracket c (by simp [isBracket, hc]) :: back) ending) config =
        .ok (.plain .indent .start :: (lineTokens [] .start front ++
          .error (closerFault (openersOf (lineBrackets front)) c)
            (Position.start.behind (lineChars front)) :: behind')) ∧
      Respelled behind behind' := by
  have hbracket : isBracket c = true := by simp [isBracket, hc]
  have hnested' := hnested
  rw [wellNested_iff, lineBrackets_append, faultless_append, List.foldl_append] at hnested'
  obtain ⟨⟨hfaultless, -⟩, hclosed⟩ := hnested'
  rw [openersOf_eq hfaultless] at hclosed
  have hfault := bracketFault?_of_closer hc hunpaired
  have hbehind : openersBehind (openersOf (lineBrackets front)) c =
      openersOf (lineBrackets front) := by
    have hopener : isOpener c = false := by
      unfold bracketFault? at hfault
      grind
    simp [openersBehind, hopener, hfault]
  obtain ⟨position, closing, houtcomes, hclosing⟩ :=
    outcomes_of_tightLine hne hfirst hparted hending config.tabWidth
  have hnew : front ++ .bracket c hbracket :: back ≠ [] := by simp
  have hfirst' : ∀ piece ∈ (front ++ .bracket c hbracket :: back).head?, piece ≠ .blank := by
    cases front with
    | nil => simp
    | cons piece front => exact hfirst
  have hparted' : (front ++ .bracket c hbracket :: back).IsChain Piece.Parted := by
    rw [List.isChain_append] at hparted ⊢
    obtain ⟨hfront, hback, -⟩ := hparted
    refine ⟨hfront, List.isChain_cons.2 ⟨fun _ _ => trivial, hback⟩, ?_⟩
    intro last hlast next hnext
    cases hnext
    cases last <;> trivial
  obtain ⟨position', closing', houtcomes', hclosing'⟩ :=
    outcomes_of_tightLine hnew hfirst' hparted' hending config.tabWidth
  rw [lineTokens_append, lineBrackets_append, List.foldl_append, openersOf_eq hfaultless]
    at houtcomes houtcomes'
  rw [hclosed] at houtcomes
  rw [lineBrackets_cons, List.foldl_append] at houtcomes'
  simp only [Piece.brackets, List.foldl_cons, List.foldl_nil, hbehind, hclosed, lineTokens,
    Piece.tokens, bracketToken, hfault] at houtcomes'
  rw [List.append_assoc] at houtcomes houtcomes'
  refine ⟨_, _, tokenize_eq_ok.2 houtcomes, tokenize_eq_ok.2 houtcomes', ?_⟩
  exact Grammar.respelled_append.2 ⟨_, _, rfl, lineTokens_respelled, hclosing'.trans hclosing.symm⟩

/-- A line of names, blanks and brackets has no error token exactly if its brackets are well nested.
A closer that is put between two pieces of such a line, and pairs with nothing that is open there, is
one error token more; behind it the tokens are the same. -/
theorem brackets_diagnosed (config : RunConfig) (hending : LineEnd ending) :
    (∀ pieces : List Piece, pieces.IsChain Piece.Parted →
      ∃ tokens, tokenize (lineText pieces ending) config = .ok tokens ∧
        ((∀ token ∈ tokens, token.kind ≠ .error) ↔ WellNested (lineBrackets pieces))) ∧
      ∀ (front back : List Piece) (c : Char) (hc : isCloser c = true),
        (front ++ back).IsChain Piece.Parted → front ++ back ≠ [] →
        (∀ piece ∈ (front ++ back).head?, piece ≠ .blank) →
        WellNested (lineBrackets (front ++ back)) →
        (∀ opener ∈ (openersOf (lineBrackets front)).head?, closingOf opener ≠ c) →
        ∃ behind behind',
          tokenize (lineText (front ++ back) ending) config =
            .ok (.plain .indent .start :: (lineTokens [] .start front ++ behind)) ∧
          tokenize (lineText (front ++ .bracket c (by simp [isBracket, hc]) :: back) ending) config =
            .ok (.plain .indent .start :: (lineTokens [] .start front ++
              .error (closerFault (openersOf (lineBrackets front)) c)
                (Position.start.behind (lineChars front)) :: behind')) ∧
          Respelled behind behind' :=
  ⟨fun _ hparted => exists_tokens_of_line hparted hending,
    fun _ _ _ hc hparted hne hfirst hnested hunpaired =>
      tokens_of_extraCloser hparted hending hne hfirst hnested hc hunpaired⟩

/-- A square bracket inside of the brackets of a call. -/
theorem brackets_diagnosed_call :
    LineEnd ['\n'] ∧
      ∃ behind behind',
        tokenize "f( x)\n" .default = .ok (.plain .indent .start ::
          (.identifier "f" .start :: .plain .leftParen ⟨1, 2, 1⟩ :: behind)) ∧
        tokenize "f(] x)\n" .default = .ok (.plain .indent .start ::
          (.identifier "f" .start :: .plain .leftParen ⟨1, 2, 1⟩ ::
            .error (.mismatchedBracket ')' ']') ⟨1, 3, 2⟩ :: behind')) ∧
        Respelled behind behind' := by
  refine ⟨.inr rfl, ?_⟩
  have hword : Word "f" ∧ Word "x" := by decide +kernel
  have hnested : WellNested ['(', ')'] := .enclose rfl .nil
  obtain ⟨behind, behind', hold, hnew, hbehind⟩ :=
    (brackets_diagnosed .default (.inr rfl)).2 [.name "f" hword.1, .bracket '(' rfl]
      [.blank, .name "x" hword.2, .bracket ')' rfl] ']' rfl
      (by simp [Piece.Parted]) (by simp) (by simp) hnested
      (by
        intro opener hopener
        cases hopener
        decide)
  exact ⟨behind, behind', hold, hnew, hbehind⟩

end Scan

end Offside
