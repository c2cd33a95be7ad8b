import Offside.Proofs.Scanning.LineFeeds

/-!
# The text of a token

Every token of a line stands for a run of characters in which nothing is left out: the spelling of
its keyword or operator, its name, a number, a quoted text, or what is wrong.  An operator is the
longest one at its place, and what ends a word or a number belongs to no word.
-/

namespace Offside

open Text (Cursor Position)

/-! ## Spellings -/

/-- The text ends here, or goes on with a character that belongs to no word. -/
def Ends (rest : List Char) : Prop := ∀ c ∈ rest.head?, isReserved c = true

/-- No operator or punctuation mark that is longer than `text` stands in front of `rest`, too. -/
def Longest (text rest : List Char) : Prop :=
  ∀ (kind : TokenKind) (lexeme : String), kind.isKeyword = false → kind.lexeme? = some lexeme →
    lexeme.toList <+: text ++ rest → lexeme.toList.length ≤ text.length

def TokenKind.continuations : TokenKind → List Char
  | .times => ['*', '=']
  | .plus | .minus | .divide | .modulo | .power | .assign | .less | .greater => ['=']
  | _ => []

theorem longest_of_head {kind : TokenKind} {lexeme : String} {rest : List Char}
    (hsymbol : kind.isKeyword = false) (hlexeme : kind.lexeme? = some lexeme)
    (h : ∀ c ∈ rest.head?, c ∉ kind.continuations) : Longest lexeme.toList rest := by
  have htable : ∀ kind ∈ TokenKind.all, ∀ longer ∈ TokenKind.all, kind.isKeyword = false →
      longer.isKeyword = false → ∀ lexeme ∈ kind.lexeme?, ∀ other ∈ longer.lexeme?,
        lexeme.toList.isPrefixOf other.toList = true →
          (other.toList.drop lexeme.toList.length).head?.all kind.continuations.contains = true := by
    decide +kernel
  intro longer other hother hlonger hstands
  apply Nat.le_of_not_lt
  intro hlength
  have hfront := List.prefix_of_prefix_length_le (List.prefix_append lexeme.toList rest) hstands
    (Nat.le_of_lt hlength)
  obtain ⟨more, hmore⟩ := id hfront
  cases more with
  | nil => simp [← hmore] at hlength
  | cons c more =>
      rw [← hmore, List.prefix_append_right_inj] at hstands
      obtain ⟨behind, rfl⟩ := hstands
      have hcontinues := htable kind kind.mem_all longer longer.mem_all hsymbol hother lexeme hlexeme
        other hlonger (List.isPrefixOf_iff_prefix.2 hfront)
      exact h c rfl (by simpa [← hmore] using hcontinues)

/-- A line break, of which no part is left in front of `rest`. -/
inductive LineBreak : (text rest : List Char) → Prop where
  | feed (rest : List Char) : LineBreak ['\n'] rest
  | pair (rest : List Char) : LineBreak ['\r', '\n'] rest
  | carriage {rest : List Char} (h : rest.head? ≠ some '\n') : LineBreak ['\r'] rest

namespace Fault

def character? : Fault → Option Char
  | strayBang => some '!'
  | unexpectedCharacter found | mismatchedBracket _ found | unmatchedCloser found => some found
  | _ => none

def number? : Fault → Option String
  | invalidNumber text | integerOverflow text => some text
  | _ => none

def inString : Fault → Bool
  | invalidEscape _ | newlineInString | unterminatedString => true
  | _ => false

end Fault

/-- The token stands for the text `text`, in front of `rest`. -/
inductive Spells : Token → (text rest : List Char) → Prop where
  | keyword {kind : TokenKind} {word : String} {position : Position} {rest : List Char}
      (hkeyword : kind.isKeyword = true) (hword : kind.lexeme? = some word) (hends : Ends rest) :
      Spells (.plain kind position) word.toList rest
  | symbol {kind : TokenKind} {lexeme : String} {position : Position} {rest : List Char}
      (hsymbol : kind.isKeyword = false) (hlexeme : kind.lexeme? = some lexeme)
      (hlongest : Longest lexeme.toList rest) : Spells (.plain kind position) lexeme.toList rest
  | identifier {name : String} {position : Position} {rest : List Char} (hends : Ends rest) :
      Spells (.identifier name position) name.toList rest
  | integer {value : Int} {position : Position} {text rest : List Char}
      (hdigit : ∃ c ∈ text.head?, c.isDigit = true) (hends : Ends rest) :
      Spells (.integer value position) text rest
  | float {value : Number.Binary64} {position : Position} {text rest : List Char}
      (hdigit : ∃ c ∈ text.head?, c.isDigit = true) (hends : Ends rest) :
      Spells (.float value position) text rest
  | string {content : String} {position : Position} {text rest : List Char}
      (hmark : text.head? = some '"') : Spells (.string content position) text rest
  | badNumber {fault : Fault} {written : String} {position : Position} {rest : List Char}
      (hwritten : fault.number? = some written) (hends : Ends rest) :
      Spells (.error fault position) written.toList rest
  | badString {fault : Fault} {position : Position} {text rest : List Char}
      (hstring : fault.inString = true) (hmark : text.head? = some '"') :
      Spells (.error fault position) text rest
  | badCharacter {fault : Fault} {c : Char} {position : Position} {rest : List Char}
      (hc : fault.character? = some c) : Spells (.error fault position) [c] rest
  | unclosed {opener : Char} {position : Position} {rest : List Char} :
      Spells (.error (.unclosedBracket opener) position) [] rest
  | lineBreak {position : Position} {text rest : List Char} (h : LineBreak text rest) :
      Spells (.plain .newline position) text rest
  /-- The last line of a text need not have a line break. -/
  | lineEnd {position : Position} : Spells (.plain .newline position) [] []
  | mark {kind : TokenKind} {position : Position} {rest : List Char}
      (h : kind = .indent ∨ kind = .dedent ∨ kind = .eof) : Spells (.plain kind position) [] rest

theorem Spells.nil_of_unclosed {token : Token} {text rest : List Char} {opener : Char}
    (h : Spells token text rest) (htoken : token.fault? = some (.unclosedBracket opener)) :
    text = [] := by
  cases h with
  | unclosed => rfl
  | badNumber hwritten =>
      obtain rfl : _ = Fault.unclosedBracket opener := Option.some.inj htoken
      contradiction
  | badString hstring =>
      obtain rfl : _ = Fault.unclosedBracket opener := Option.some.inj htoken
      contradiction
  | badCharacter hc =>
      obtain rfl : _ = Fault.unclosedBracket opener := Option.some.inj htoken
      contradiction
  | _ => cases htoken

namespace Scan

variable {cursor start after next : Cursor} {c : Char} {text : List Char}

structure Cuts (start : Cursor) (token : Token) (after : Cursor) : Prop where
  text : ∃ text, start.Covers after text ∧ Spells token text after.rest
  place : ∃ place, start.Reaches place ∧ place.Reaches after ∧ token.position = place.position
  identifier : token.kind = .identifier → token.position = start.position

theorem Cuts.of_start {token : Token} (hcovers : start.Covers after text)
    (hspells : Spells token text after.rest) (hposition : token.position = start.position) :
    Cuts start token after :=
  ⟨⟨text, hcovers, hspells⟩, ⟨start, .refl start, hcovers.reaches, hposition⟩, fun _ => hposition⟩

/-! ## Words -/

theorem ends_of_not_atWordChar (h : atWordChar cursor = false) : Ends cursor.rest := by
  intro c hc
  obtain ⟨more, hrest⟩ : ∃ more, cursor.rest = c :: more := by
    cases hrest : cursor.rest with
    | nil => simp [hrest] at hc
    | cons d more =>
        rw [hrest] at hc
        cases hc
        exact ⟨more, rfl⟩
  by_cases hreturn : c = '\r'
  · subst hreturn
    decide +kernel
  · simpa [atWordChar, Cursor.current?_cons hrest, hreturn, isWordChar] using h

theorem ends_of_span (cursor : Cursor) : Ends (cursor.span isWordChar).2.rest := by
  apply ends_of_not_atWordChar
  unfold atWordChar Cursor.current?
  cases hread : (cursor.span isWordChar).2.read? with
  | none => rfl
  | some first => exact Cursor.span_stops hread

theorem scanWord_cuts (cursor : Cursor) : Cuts cursor (scanWord cursor).1 (scanWord cursor).2 := by
  have hcovers := Cursor.covers_span isWordChar_lineFeed cursor
  have hends := ends_of_span cursor
  rw [← String.toList_ofList (l := (cursor.span isWordChar).1)] at hcovers
  unfold scanWord
  simp only
  split
  · rename_i kind hkeyword
    obtain ⟨hkind, hlexeme⟩ := TokenKind.keyword?_lexeme hkeyword
    exact .of_start hcovers (.keyword hkind hlexeme hends) rfl
  · exact .of_start hcovers (.identifier hends) rfl

/-! ## Numbers -/

theorem ne_lineFeed_of_isDigitIn {radix : Nat} (h : isDigitIn radix c = true) : c ≠ '\n' := by
  rintro rfl
  contradiction

theorem digitRun_covers (radix : Nat) (started : Bool) (cursor : Cursor) :
    cursor.Covers (digitRun radix started cursor).cursor (digitRun radix started cursor).text := by
  fun_induction digitRun radix started cursor with
  | case1 started cursor => exact .refl cursor
  | case2 started cursor c next hread hdigit tail ih =>
      exact (Cursor.covers_of_read? hread (ne_lineFeed_of_isDigitIn hdigit)).trans ih
  | case3 started cursor next _ _ hread _ ih =>
      exact (Cursor.covers_of_read? hread (by decide)).trans ih
  | case4 started cursor => exact .refl cursor
  | case5 started cursor => exact .refl cursor

theorem digitRun_text_ne_nil {radix : Nat}
    (h : (digitRun radix false cursor).wellFormed = true) :
    (digitRun radix false cursor).text ≠ [] := by
  cases hread : cursor.read? with
  | none => simp [digitRun_of_end hread] at h
  | some first =>
      rw [digitRun_of_read? hread] at h ⊢
      split
      · simp
      · grind

private theorem invalidNumber_cuts (hcovers : start.Covers cursor text) :
    Cuts start (invalidNumber start.position text cursor).1
      (invalidNumber start.position text cursor).2 := by
  have hglued := hcovers.trans (Cursor.covers_span isWordChar_lineFeed cursor)
  rw [← String.toList_ofList (l := text ++ (cursor.span isWordChar).1)] at hglued
  exact .of_start hglued (.badNumber rfl (ends_of_span cursor)) rfl

private theorem integerToken_cuts {radix : Nat} {digits : List Char}
    (hcovers : start.Covers cursor text) (hdigit : ∃ c ∈ text.head?, c.isDigit = true)
    (hends : Ends cursor.rest) :
    Cuts start (integerToken start.position radix text digits) cursor := by
  unfold integerToken
  simp only
  split
  · exact .of_start hcovers (.integer hdigit hends) rfl
  · rw [← String.toList_ofList (l := text)] at hcovers
    exact .of_start hcovers (.badNumber rfl hends) rfl

private theorem head?_of_covers (hcovers : start.Covers cursor text) (hne : text ≠ [])
    (hdigit : ∃ c ∈ start.rest.head?, c.isDigit = true) :
    ∃ c ∈ text.head?, c.isDigit = true := by
  obtain ⟨c, hc, hdigit⟩ := hdigit
  obtain ⟨first, more, rfl⟩ := List.exists_cons_of_ne_nil hne
  rw [hcovers.rest] at hc
  exact ⟨c, hc, hdigit⟩

private theorem scanDigits_cuts {radix : Nat} {announced : List Char}
    (hcovers : start.Covers cursor announced)
    (hdigit : ∃ c ∈ start.rest.head?, c.isDigit = true) :
    Cuts start (scanDigits start.position radix announced cursor).1
      (scanDigits start.position radix announced cursor).2 := by
  have hwhole := hcovers.trans (digitRun_covers radix false cursor)
  unfold scanDigits
  simp only
  split
  · exact invalidNumber_cuts hwhole
  · rename_i hwellFormed
    have hne := digitRun_text_ne_nil (by simpa using hwellFormed)
    have hfirst := head?_of_covers hwhole (by simp [hne]) hdigit
    split
    · rename_i hpoint
      have hpoint := (Bool.and_eq_true_iff.1 hpoint).2
      unfold fractionFollows at hpoint
      have hfraction := (hwhole.trans (Cursor.covers_of_isAt (Bool.and_eq_true_iff.1 hpoint).1
        (by decide))).trans (digitRun_covers 10 false _)
      rw [List.append_assoc, List.singleton_append] at hfraction
      split
      · exact invalidNumber_cuts hfraction
      · rename_i hfits
        have hstops : atWordChar (digitRun 10 false
            (digitRun radix false cursor).cursor.advance).cursor = false := by grind
        exact .of_start hfraction (.float (head?_of_covers hfraction (by simp [hne]) hdigit)
          (ends_of_not_atWordChar hstops)) rfl
    · split
      · exact invalidNumber_cuts hwhole
      · rename_i hword
        exact integerToken_cuts hwhole hfirst (ends_of_not_atWordChar (by simpa using hword))

theorem covers_announced (h : radixAt cursor ≠ 10) :
    cursor.Covers cursor.advance.advance (cursor.current?.toList ++ cursor.peek?.toList) := by
  obtain ⟨hzero, mark, hletter, hmark⟩ := marks_of_radixAt h
  have hbreak : mark ≠ '\n' := by
    rintro rfl
    contradiction
  rw [hzero, hmark]
  exact (Cursor.covers_advance hzero (by decide)).trans (Cursor.covers_advance hmark hbreak)

theorem scanNumber_cuts (hread : cursor.read? = some (c, next)) (hdigit : c.isDigit = true) :
    Cuts cursor (scanNumber cursor).1 (scanNumber cursor).2 := by
  have hbreak : c ≠ '\n' := by
    rintro rfl
    contradiction
  have hfirst : ∃ c ∈ cursor.rest.head?, c.isDigit = true :=
    ⟨c, by rw [(Cursor.covers_of_read? hread hbreak).rest]; rfl, hdigit⟩
  unfold scanNumber
  simp only
  split
  · rename_i hradix
    rw [hradix]
    exact scanDigits_cuts (.refl cursor) hfirst
  · rename_i hradix
    exact scanDigits_cuts (covers_announced hradix) hfirst

/-! ## Strings -/

/-- A string is read from one character to the next, and the backslash that is reported is one of
them. -/
private structure Quotes (cursor : Cursor) (quotation : Quotation) : Prop where
  covers : ∃ text, cursor.Covers quotation.cursor text
  escape : ∀ escape ∈ quotation.badEscape?, ∃ place, cursor.Reaches place ∧
    place.Reaches quotation.cursor ∧ escape.2 = place.position

private theorem Quotes.behind {middle : Cursor} {quotation : Quotation}
    (h : Quotes middle quotation) (hcovers : cursor.Covers middle text) (content : List Char) :
    Quotes cursor { quotation with content } := by
  obtain ⟨⟨more, hmore⟩, hescape⟩ := h
  refine ⟨⟨text ++ more, hcovers.trans hmore⟩, fun escape hmem => ?_⟩
  obtain ⟨place, hplace, hafter, hposition⟩ := hescape escape hmem
  exact ⟨place, hcovers.reaches.trans hplace, hafter, hposition⟩

private theorem Quotes.of_end {ending : Ending} (hcovers : cursor.Covers next text) :
    Quotes cursor ⟨[], none, ending, next⟩ :=
  ⟨⟨text, hcovers⟩, by simp⟩

private theorem readQuotation_quotes (cursor : Cursor) : Quotes cursor (readQuotation cursor) := by
  fun_induction readQuotation cursor with
  | case1 cursor hread => exact .of_end (.refl cursor)
  | case2 cursor next hread => exact .of_end (.refl cursor)
  | case3 cursor next hread => exact .of_end (Cursor.covers_of_read? hread (by decide))
  | case4 cursor next _ hread => exact .of_end (Cursor.covers_of_read? hread (by decide))
  | case5 cursor next _ hread => exact .of_end (Cursor.covers_of_read? hread (by decide))
  | case6 cursor next letter behind hletter hbreak tail escaped _ hread _ _ ih =>
      have hcovers := (Cursor.covers_of_read? hread (by decide)).trans
        (Cursor.covers_of_read? hletter hbreak)
      exact ih.behind hcovers _
  | case7 cursor next letter behind hletter hbreak tail _ hread _ _ ih =>
      have hcovers := (Cursor.covers_of_read? hread (by decide)).trans
        (Cursor.covers_of_read? hletter hbreak)
      obtain ⟨more, hmore⟩ := ih.covers
      refine ⟨⟨_, hcovers.trans hmore⟩, ?_⟩
      rintro _ ⟨⟩
      exact ⟨cursor, .refl cursor, (hcovers.trans hmore).reaches, rfl⟩
  | case8 cursor c next hread hbreak _ _ tail ih =>
      exact ih.behind (Cursor.covers_of_read? hread hbreak) _

theorem scanQuotation_cuts (hread : cursor.read? = some ('"', next)) :
    Cuts cursor (scanQuotation cursor).1 (scanQuotation cursor).2 := by
  have hmark := Cursor.covers_of_read? hread (by decide)
  have hquotes := readQuotation_quotes next
  obtain ⟨text, hcovers⟩ := hquotes.covers
  have hwhole := hmark.trans hcovers
  unfold scanQuotation
  rw [Cursor.advance_of_read? hread]
  unfold Quotation.token
  simp only
  split
  · exact .of_start hwhole (.badString rfl rfl) rfl
  · exact ⟨⟨_, hwhole, .badString rfl rfl⟩, ⟨_, hwhole.reaches, .refl _, rfl⟩, nofun⟩
  · split
    · rename_i letter backslash hescape
      obtain ⟨place, hplace, hafter, hposition⟩ := hquotes.escape _ hescape
      exact ⟨⟨_, hwhole, .badString rfl rfl⟩,
        ⟨place, hmark.reaches.trans hplace, hafter, hposition⟩, nofun⟩
    · exact .of_start hwhole (.string rfl) rfl

/-! ## Operators and brackets -/

theorem isAt_of_head? (h : cursor.rest.head? = some c) (hreturn : c ≠ '\r') :
    cursor.isAt c = true := by
  obtain ⟨more, hrest⟩ := List.head?_eq_some_iff.1 h
  simp [Cursor.isAt, Cursor.current?_cons hrest, hreturn]

/-- Behind the characters `front`, an operator goes on up to the second cursor and is the longest
one. -/
private structure Continued (front : List Char) (cursor : Cursor) (read : TokenKind × Cursor) :
    Prop where
  text : ∃ more, cursor.Covers read.2 more ∧
    read.1.lexeme? = some (String.ofList (front ++ more))
  symbol : read.1.isKeyword = false
  longest : ∀ d ∈ read.2.rest.head?, d ∉ read.1.continuations

private theorem continued_here {front : List Char} {kind : TokenKind}
    (hlexeme : kind.lexeme? = some (String.ofList front)) (hsymbol : kind.isKeyword = false)
    (hlongest : ∀ d ∈ cursor.rest.head?, d ∉ kind.continuations) :
    Continued front cursor (kind, cursor) :=
  ⟨⟨[], .refl cursor, by rw [hlexeme, List.append_nil]⟩, hsymbol, hlongest⟩

private theorem continued_behind {front : List Char} {kind : TokenKind} (hat : cursor.isAt c = true)
    (hc : c ≠ '\n') (hlexeme : kind.lexeme? = some (String.ofList (front ++ [c])))
    (hsymbol : kind.isKeyword = false) (hlongest : kind.continuations = []) :
    Continued front cursor (kind, cursor.advance) :=
  ⟨⟨[c], Cursor.covers_of_isAt hat hc, hlexeme⟩, hsymbol, by simp [hlongest]⟩

private theorem Continued.behind {front : List Char} {read : TokenKind × Cursor}
    (h : Continued (front ++ [c]) cursor.advance read) (hat : cursor.isAt c = true)
    (hc : c ≠ '\n') : Continued front cursor read := by
  obtain ⟨⟨more, hcovers, hlexeme⟩, hsymbol, hlongest⟩ := h
  refine ⟨⟨[c] ++ more, (Cursor.covers_of_isAt hat hc).trans hcovers, ?_⟩, hsymbol, hlongest⟩
  rw [hlexeme, List.append_assoc]

private theorem withAssign_continued {front : List Char} {simple combined : TokenKind}
    (hsimple : simple.lexeme? = some (String.ofList front) ∧ simple.isKeyword = false)
    (hcombined : combined.lexeme? = some (String.ofList (front ++ ['='])) ∧
      combined.isKeyword = false ∧ combined.continuations = [])
    (hlongest : ∀ d ∈ cursor.rest.head?, d ∈ simple.continuations → d = '=') :
    Continued front cursor (withAssign simple combined cursor) := by
  unfold withAssign
  split
  · rename_i hat
    exact continued_behind hat (by decide) hcombined.1 hcombined.2.1 hcombined.2.2
  · rename_i hat
    refine continued_here hsimple.1 hsimple.2 fun d hd hmem => hat ?_
    obtain rfl := hlongest d hd hmem
    exact isAt_of_head? hd (by decide)

private theorem operatorBehind?_continued {read : TokenKind × Cursor}
    (h : operatorBehind? c cursor = some read) : Continued [c] cursor read := by
  unfold operatorBehind? at h
  split at h
  case h_8 =>
    split at h <;> cases h
    · rename_i hat
      apply Continued.behind _ hat (by decide)
      exact withAssign_continued (by decide) (by decide) fun _ _ hmem => List.mem_singleton.1 hmem
    · rename_i hat
      refine withAssign_continued (by decide) (by decide) fun d hd hmem => ?_
      rcases List.mem_cons.1 hmem with rfl | hmem
      · exact absurd (isAt_of_head? hd (by decide)) hat
      · exact List.mem_singleton.1 hmem
  case h_9 =>
    split at h <;> cases h
    rename_i hat
    exact continued_behind hat (by decide) rfl rfl rfl
  case h_13 => cases h
  all_goals cases h
  all_goals first
    | exact continued_here (by decide) (by decide) fun _ _ => List.not_mem_nil
    | exact withAssign_continued (by decide) (by decide) fun _ _ hmem => List.mem_singleton.1 hmem

private theorem opener_continued (h : isOpener c = true) (cursor : Cursor) :
    Continued [c] cursor (openerKind c, cursor) := by
  have hopener : c = '(' ∨ c = '[' ∨ c = '\x7b' := by simpa [isOpener, or_assoc] using h
  rcases hopener with rfl | rfl | rfl <;>
    exact continued_here (by decide) (by decide) fun _ _ => List.not_mem_nil

private theorem closer_continued (h : isCloser c = true) (cursor : Cursor) :
    Continued [c] cursor (closerKind c, cursor) := by
  have hcloser : c = ')' ∨ c = ']' ∨ c = '\x7d' := by simpa [isCloser, or_assoc] using h
  rcases hcloser with rfl | rfl | rfl <;>
    exact continued_here (by decide) (by decide) fun _ _ => List.not_mem_nil

private theorem Continued.cuts {read : TokenKind × Cursor} (h : Continued [c] next read)
    (hread : cursor.read? = some (c, next)) (hc : c ≠ '\n') :
    Cuts cursor (.plain read.1 cursor.position) read.2 := by
  obtain ⟨⟨more, hcovers, hlexeme⟩, hsymbol, hlongest⟩ := h
  have hwhole := (Cursor.covers_of_read? hread hc).trans hcovers
  rw [← String.toList_ofList (l := [c] ++ more)] at hwhole
  exact .of_start hwhole (.symbol hsymbol hlexeme (longest_of_head hsymbol hlexeme hlongest)) rfl

private theorem badCharacter_cuts {fault : Fault} (hread : cursor.read? = some (c, next))
    (hc : c ≠ '\n') (hfault : fault.character? = some c) :
    Cuts cursor (.error fault cursor.position) next :=
  .of_start (Cursor.covers_of_read? hread hc) (.badCharacter hfault) rfl

theorem scanSymbol_cuts (context : Context) (hread : cursor.read? = some (c, context.cursor))
    (hc : c ≠ '\n') :
    Cuts cursor (scanSymbol c cursor.position context).1
      (scanSymbol c cursor.position context).2.cursor := by
  unfold scanSymbol
  split
  · rename_i hopener
    exact (opener_continued hopener context.cursor).cuts hread hc
  · split
    · rename_i hcloser
      split
      · rename_i closed hclose
        have hcursor : closed.cursor = context.cursor := by
          unfold Context.closeBracket at hclose
          grind
        rw [hcursor]
        exact (closer_continued hcloser context.cursor).cuts hread hc
      · exact badCharacter_cuts hread hc rfl
      · exact badCharacter_cuts hread hc rfl
    · split
      · rename_i read hoperator
        exact (operatorBehind?_continued hoperator).cuts hread hc
      · apply badCharacter_cuts hread hc
        unfold strayFault
        split
        · rename_i hbang
          rw [hbang]
          rfl
        · rfl

theorem scanToken_cuts (context : Context) (hread : context.cursor.read? = some (c, next))
    (hc : c ≠ '\n') :
    Cuts context.cursor (Scanner.scanToken context c next).1
      (Scanner.scanToken context c next).2.cursor := by
  unfold Scanner.scanToken
  split
  · rename_i hdigit
    exact scanNumber_cuts hread hdigit
  · split
    · rename_i hmark
      rw [hmark] at hread
      exact scanQuotation_cuts hread
    · split
      · exact scanSymbol_cuts { context with cursor := next } hread hc
      · exact scanWord_cuts context.cursor

end Scan

end Offside
