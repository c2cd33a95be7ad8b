import Offside.Proofs.Command.Snippet
import Offside.Proofs.Grammar.Source
import Offside.Proofs.Number.PlainNotation
import Offside.Proofs.Scanning.NumberLiteral

/-!
# Listings have one line for each token

A listing shows names, malformed numbers and stray characters as they are written, and everything else
in a form of its own.  What is shown as it is written was read within a line, and no form has a line
break.  So the lines of a listing are its tokens, whatever the text contains.
-/

namespace Offside

open Text (Cursor Position)

/-! ## Texts within a line -/

namespace Text

variable {text more : String} {c : Char} {chars : List Char}

def Unbroken (text : String) : Prop := ∀ c ∈ text.toList, Cursor.isSolid c = true

instance (text : String) : Decidable (Unbroken text) :=
  List.decidableBAll _ _

theorem Unbroken.append (h : Unbroken text) (h' : Unbroken more) : Unbroken (text ++ more) := by
  unfold Unbroken
  rw [String.toList_append]
  exact List.forall_mem_append.2 ⟨h, h'⟩

theorem Unbroken.enclosed {front back : String} (h : Unbroken text) (hfront : Unbroken front)
    (hback : Unbroken back) : Unbroken (front ++ text ++ back) :=
  (hfront.append h).append hback

theorem unbroken_ofList :
    Unbroken (String.ofList chars) ↔ ∀ c ∈ chars, Cursor.isSolid c = true := by
  rw [Unbroken, String.toList_ofList]

theorem unbroken_char (h : Cursor.isSolid c = true) : Unbroken c.toString := by
  rw [show c.toString = String.ofList [c] from rfl, unbroken_ofList]
  simpa using h

theorem isSolid_of_mem_replicate {count : Nat} {d : Char} (hc : Cursor.isSolid c = true)
    (h : d ∈ List.replicate count c) : Cursor.isSolid d = true := by
  rwa [List.eq_of_mem_replicate h]

theorem Cursor.isSolid_of_read? {cursor next : Cursor} (hread : cursor.read? = some (c, next))
    (hc : c ≠ '\n') : isSolid c = true := by
  have hreturn : c ≠ '\r' := by
    unfold read? at hread
    grind
  simp [isSolid, hreturn, hc]

/-! ## Numerals and quoted texts -/

theorem isSolid_digitChar (value : Nat) : Cursor.isSolid (Nat.digitChar value) = true := by
  have hreturn := @Nat.digitChar_ne value '\r' (by decide)
  have hfeed := @Nat.digitChar_ne value '\n' (by decide)
  simp [Cursor.isSolid, hreturn, hfeed]

theorem isSolid_of_mem_toDigits {radix n : Nat} (hradix : 1 < radix)
    (h : c ∈ Nat.toDigits radix n) : Cursor.isSolid c = true := by
  induction n using Nat.strongRecOn with
  | ind n ih =>
      rw [Nat.toDigits_eq_if hradix] at h
      split at h
      · obtain rfl := List.mem_singleton.1 h
        exact isSolid_digitChar n
      · rcases List.mem_append.1 h with hmem | hmem
        · exact ih (n / radix) (Nat.div_lt_self (by omega) hradix) hmem
        · obtain rfl := List.mem_singleton.1 hmem
          exact isSolid_digitChar (n % radix)

theorem unbroken_nat (n : Nat) : Unbroken (toString n) :=
  unbroken_ofList.2 fun _ hc => isSolid_of_mem_toDigits (by decide) hc

theorem unbroken_int (value : Int) : Unbroken (toString value) := by
  cases value with
  | ofNat n => exact unbroken_nat n
  | negSucc n => exact Unbroken.append (by decide : Unbroken "-") (unbroken_nat (n + 1))

theorem isSolid_quoteChar (mark c : Char) :
    ∀ shown ∈ quoteChar mark c, Cursor.isSolid shown = true := by
  unfold quoteChar
  split
  · rename_i letter hletter
    have hsolid : Cursor.isSolid letter = true := by
      unfold controlLetter? at hletter
      grind [Cursor.isSolid]
    simpa using ⟨by decide, hsolid⟩
  · rename_i hcontrol
    have hsolid : Cursor.isSolid c = true := by
      unfold controlLetter? at hcontrol
      grind [Cursor.isSolid]
    split
    · simpa using ⟨by decide, hsolid⟩
    · split
      · simpa using hsolid
      · unfold codePointEscape
        have hdigits : ∀ d ∈ Nat.toDigits 16 c.toNat, Cursor.isSolid d = true :=
          fun _ hd => isSolid_of_mem_toDigits (by decide) hd
        simp only [List.cons_append, List.forall_mem_cons, List.forall_mem_append]
        exact ⟨by decide, by decide, by decide, hdigits, by decide, by simp⟩

theorem unbroken_quoted (content : String) : Unbroken (quoted content) := by
  refine unbroken_ofList.2 ?_
  simp only [List.forall_mem_append, List.forall_mem_cons]
  refine ⟨⟨by decide, fun shown hshown => ?_⟩, by decide, by simp⟩
  obtain ⟨c, -, hmem⟩ := List.mem_flatMap.1 hshown
  exact isSolid_quoteChar '"' c shown hmem

end Text

/-! ## Floats -/

namespace Number

open Text.Cursor (isSolid)

variable {digits : List Char}

theorem isSolid_plainText (h : ∀ c ∈ digits, isSolid c = true) (leading : Int) :
    ∀ c ∈ plainText digits leading, isSolid c = true := by
  have hzeros : ∀ count, ∀ c ∈ List.replicate count '0', isSolid c = true :=
    fun _ _ hc => Text.isSolid_of_mem_replicate (by decide) hc
  unfold plainText
  split
  · simp only [List.cons_append, List.forall_mem_cons, List.forall_mem_append]
    exact ⟨by decide, by decide, hzeros _, h⟩
  · simp only [List.forall_mem_append, List.forall_mem_cons]
    refine ⟨⟨fun c hc => h c (List.mem_of_mem_take hc), hzeros _⟩, by decide, ?_⟩
    split
    · exact List.all_eq_true.1 (by decide)
    · exact fun c hc => h c (List.mem_of_mem_drop hc)

theorem isSolid_exponentText (h : ∀ c ∈ digits, isSolid c = true) (plus : Bool) (leading : Int) :
    ∀ c ∈ exponentText plus digits leading, isSolid c = true := by
  have hexponent : ∀ c ∈ Nat.toDigits 10 leading.natAbs, isSolid c = true :=
    fun _ hc => Text.isSolid_of_mem_toDigits (by decide) hc
  unfold exponentText
  simp only [List.forall_mem_append, List.forall_mem_cons]
  refine ⟨⟨?_, by decide, ?_⟩, hexponent⟩
  · split
    · simp
    · exact h
    · simp only [List.forall_mem_cons] at h ⊢
      exact ⟨h.1, by decide, h.2⟩
  · split
    · exact List.all_eq_true.1 (by decide)
    · split <;> exact List.all_eq_true.1 (by decide)

theorem Style.unbroken_write (style : Style) (value : Binary64) :
    Text.Unbroken (style.write value) := by
  have hdigits : ∀ n, ∀ c ∈ significantDigits n, isSolid c = true :=
    fun n c hc => Text.Cursor.isSolid_of_isWordChar
      (Scan.isWordChar_of_isDigit (isDigit_significantDigits n c hc))
  unfold Style.write
  split
  · rename_i negative significand exponent
    refine Text.unbroken_ofList.2 (List.forall_mem_append.2 ⟨?_, ?_⟩)
    · split <;> exact List.all_eq_true.1 (by decide)
    · unfold Style.magnitude
      simp only
      split
      · exact List.all_eq_true.1 (by decide)
      · split
        · exact isSolid_plainText (hdigits _) _
        · exact isSolid_exponentText (hdigits _) _ _
  · split <;> decide
  · decide

end Number

/-! ## Payloads -/

def Payload.Unbroken : Payload → Prop
  | .identifier name => Text.Unbroken name
  | .error fault => Text.Unbroken fault.message
  | .integer _ | .float _ | .string _ => True

def Token.Unbroken (token : Token) : Prop := ∀ payload ∈ token.payload?, payload.Unbroken

namespace Token

variable {token : Token} {position : Position} {fault : Fault}

theorem unbroken_plain (kind : TokenKind) : (plain kind position).Unbroken :=
  fun _ h => nomatch h

theorem unbroken_error (h : Text.Unbroken fault.message) : (error fault position).Unbroken := by
  rintro _ ⟨⟩
  exact h

theorem unbroken_identifier {name : String} (h : Text.Unbroken name) :
    (identifier name position).Unbroken := by
  rintro _ ⟨⟩
  exact h

theorem unbroken_listPayload {payload : Payload} (h : payload.Unbroken) :
    Text.Unbroken (listPayload payload) := by
  have hblank : Text.Unbroken " " := by decide
  cases payload with
  | integer value => exact hblank.append (Text.unbroken_int value)
  | float value => exact hblank.append (Number.Style.unbroken_write _ value)
  | string content => exact hblank.append (Text.unbroken_quoted content)
  | identifier name => exact hblank.append h
  | error fault => exact Text.Unbroken.enclosed h (by decide) (by decide)

theorem unbroken_spaces (count : Nat) :
    Text.Unbroken (String.ofList (List.replicate count ' ')) :=
  Text.unbroken_ofList.2 fun _ hc => Text.isSolid_of_mem_replicate (by decide) hc

theorem unbroken_padLeft {text : String} (h : Text.Unbroken text) (width : Nat) :
    Text.Unbroken (padLeft width text) :=
  (unbroken_spaces _).append h

theorem unbroken_padRight {text : String} (h : Text.Unbroken text) (width : Nat) :
    Text.Unbroken (padRight width text) :=
  h.append (unbroken_spaces _)

theorem unbroken_display (h : token.Unbroken) : Text.Unbroken token.display := by
  have hline := unbroken_padLeft (Text.unbroken_nat token.position.line) 4
  have hcolumn := unbroken_padRight (Text.unbroken_nat token.position.column) 3
  have hname : ∀ kind ∈ TokenKind.all, Text.Unbroken kind.name := by decide
  have hpayload : Text.Unbroken ((token.payload?.map listPayload).getD "") := by
    cases hcase : token.payload? with
    | none => exact (by decide : Text.Unbroken "")
    | some payload => exact unbroken_listPayload (h payload hcase)
  have hcolon : Text.Unbroken ":" := by decide
  have hblank : Text.Unbroken " " := by decide
  exact ((((hline.append hcolon).append hcolumn).append hblank).append
    (hname _ token.kind.mem_all)).append hpayload

end Token

/-! ## Tokens of texts -/

namespace Scan

variable {cursor next : Cursor} {c : Char}

theorem scanWord_unbroken (cursor : Cursor) : (scanWord cursor).1.Unbroken := by
  unfold scanWord
  simp only
  split
  · exact Token.unbroken_plain _
  · refine Token.unbroken_identifier (Text.unbroken_ofList.2 fun c hc => ?_)
    exact Cursor.isSolid_of_isWordChar (Cursor.of_mem_span hc)

theorem scanNumber_unbroken (cursor : Cursor) : (scanNumber cursor).1.Unbroken := by
  obtain ⟨text, hread⟩ := exists_readsNumber cursor
  have htext : Text.Unbroken (String.ofList text) := Text.unbroken_ofList.2 hread.solid
  rcases hread.token with hnumber | hinvalid
  · generalize (scanNumber cursor).1 = token at hnumber
    cases hnumber with
    | integer | float =>
        rintro _ ⟨⟩
        trivial
    | overflow => exact Token.unbroken_error (htext.enclosed (by decide) (by decide))
  · rw [hinvalid]
    exact Token.unbroken_error (htext.enclosed (by decide) (by decide))

theorem isSolid_of_badEscape (cursor : Cursor) :
    ∀ escape ∈ (readQuotation cursor).badEscape?, Cursor.isSolid escape.1 = true := by
  fun_induction readQuotation cursor with
  | case1 | case2 | case3 | case4 | case5 => simp
  | case6 cursor next letter behind hletter hbreak tail escaped _ _ _ _ ih => exact ih
  | case7 cursor next letter behind hletter hbreak tail =>
      rintro _ ⟨⟩
      exact Cursor.isSolid_of_read? hletter hbreak
  | case8 cursor c next _ _ _ _ tail ih => exact ih

theorem scanQuotation_unbroken (cursor : Cursor) : (scanQuotation cursor).1.Unbroken := by
  unfold scanQuotation Quotation.token
  simp only
  split
  · exact Token.unbroken_error (by decide)
  · exact Token.unbroken_error (by decide)
  · split
    · rename_i letter backslash hescape
      have hletter := Text.unbroken_char (isSolid_of_badEscape _ _ hescape)
      exact Token.unbroken_error (hletter.enclosed (by decide) (by decide))
    · rintro _ ⟨⟩
      trivial

/-! ## Brackets -/

namespace Context

def Solid (context : Context) : Prop :=
  ∀ opener ∈ context.openers, Cursor.isSolid opener = true

variable {context : Context}

theorem solid_of_nil (h : context.openers = []) : context.Solid := by simp [Solid, h]

theorem Solid.openBracket (h : context.Solid) (hc : Cursor.isSolid c = true) :
    (context.openBracket c).Solid :=
  List.forall_mem_cons.2 ⟨hc, h⟩

theorem Solid.withCursor (h : context.Solid) (cursor : Cursor) :
    ({ context with cursor } : Context).Solid := h

theorem Solid.pushIndent (h : context.Solid) (width : UInt64) : (context.pushIndent width).Solid := by
  unfold Context.pushIndent
  split <;> exact h

end Context

theorem isSolid_closingOf {opener : Char} (h : Cursor.isSolid opener = true) :
    Cursor.isSolid (closingOf opener) = true := by
  unfold closingOf
  split
  · decide
  · split
    · decide
    · split
      · decide
      · exact h

theorem unbroken_unclosed {opener : Char} {position : Position} (h : Cursor.isSolid opener = true) :
    (Token.error (.unclosedBracket opener) position).Unbroken :=
  Token.unbroken_error ((Text.unbroken_char h).enclosed (by decide) (by decide))

theorem unbroken_strayFault (h : Cursor.isSolid c = true) :
    Text.Unbroken (strayFault c).message := by
  unfold strayFault
  split
  · decide
  · exact (Text.unbroken_char h).enclosed (by decide) (by decide)

theorem scanSymbol_unbroken {context : Context} (hc : Cursor.isSolid c = true)
    (h : context.Solid) (position : Position) :
    (scanSymbol c position context).1.Unbroken ∧ (scanSymbol c position context).2.Solid := by
  have hchar := Text.unbroken_char hc
  unfold scanSymbol
  split
  · exact ⟨Token.unbroken_plain _, h.openBracket hc⟩
  · split
    · unfold Context.closeBracket
      cases hopeners : context.openers with
      | nil => exact ⟨Token.unbroken_error (hchar.enclosed (by decide) (by decide)), h⟩
      | cons opener outer =>
          rw [Context.Solid, hopeners, List.forall_mem_cons] at h
          by_cases hcloses : closingOf opener = c
          · simp only [hcloses, if_true]
            exact ⟨Token.unbroken_plain _, h.2⟩
          · simp only [hcloses, if_false]
            refine ⟨Token.unbroken_error ?_, ?_⟩
            · have hexpected := Text.unbroken_char (isSolid_closingOf h.1)
              exact hchar.enclosed (hexpected.enclosed (by decide) (by decide)) (by decide)
            · rw [Context.Solid, hopeners, List.forall_mem_cons]
              exact h
    · split
      · exact ⟨Token.unbroken_plain _, h.withCursor _⟩
      · exact ⟨Token.unbroken_error (unbroken_strayFault hc), h⟩

namespace Scanner

variable {scanner : Scanner} {context : Context}

theorem scanToken_unbroken (h : context.Solid) (hread : context.cursor.read? = some (c, next))
    (hc : c ≠ '\n') :
    (scanToken context c next).1.Unbroken ∧ (scanToken context c next).2.Solid := by
  unfold scanToken
  split
  · exact ⟨scanNumber_unbroken _, h.withCursor _⟩
  · split
    · exact ⟨scanQuotation_unbroken _, h.withCursor _⟩
    · split
      · exact scanSymbol_unbroken (Cursor.isSolid_of_read? hread hc) (h.withCursor _) _
      · exact ⟨scanWord_unbroken _, h.withCursor _⟩

/-! ## Steps -/

def ListsLine : Emission × Scanner → Prop
  | (.token token, after) => token.Unbroken ∧ after.context.Solid
  | (_, after) => after.context.Solid

private theorem endOfText_listsLine (h : context.Solid) : ListsLine (scanner.endOfText context) := by
  unfold endOfText
  split
  · rename_i opener outer hopeners
    exact ⟨unbroken_unclosed (h opener (by simp [hopeners])), Context.solid_of_nil rfl⟩
  · split
    · exact ⟨Token.unbroken_plain _, h⟩
    · exact h

private theorem compareWidth_listsLine (h : context.Solid) (width : UInt64) :
    ListsLine (scanner.compareWidth width context) := by
  unfold compareWidth
  simp only
  split
  · exact h
  · split
    · exact ⟨Token.unbroken_plain _, h.pushIndent width⟩
    · split <;> exact h

private theorem stepIndent_listsLine (h : scanner.context.Solid) : ListsLine scanner.stepIndent := by
  unfold stepIndent
  split
  · exact endOfText_listsLine h
  · split
    · exact h
    · unfold startLine
      simp only
      split
      · exact endOfText_listsLine (h.withCursor _)
      · split
        · exact h.withCursor _
        · exact compareWidth_listsLine (h.withCursor _) _

private theorem stepDispatch_listsLine (h : scanner.context.Solid) :
    ListsLine scanner.stepDispatch := by
  unfold stepDispatch
  simp only
  split
  · refine ⟨unbroken_unclosed ?_, Context.solid_of_nil rfl⟩
    show Cursor.isSolid (scanner.context.openers.head?.getD '(') = true
    cases hopeners : scanner.context.openers with
    | nil => decide
    | cons opener outer => exact h opener (by simp [hopeners])
  · split
    · exact h.withCursor _
    · rename_i c next hread
      split
      · exact ⟨Token.unbroken_plain _, h.withCursor _⟩
      · rename_i hc
        exact @scanToken_unbroken next c { scanner.context with cursor := _ } (h.withCursor _) hread hc

theorem step_listsLine (h : scanner.context.Solid) : ListsLine scanner.step := by
  unfold step
  split
  · exact ⟨Token.unbroken_plain _, h.pushIndent 0⟩
  · exact stepIndent_listsLine h
  · exact stepDispatch_listsLine h
  · unfold stepDedent
    simp only
    split
    · exact ⟨Token.unbroken_plain _, h⟩
    · split <;> exact h
  · exact ⟨Token.unbroken_plain _, h⟩
  · exact ⟨Token.unbroken_plain _, h⟩
  · exact h

theorem unbroken_of_mem_outcomes (h : scanner.context.Solid) :
    ∀ token, .ok token ∈ scanner.outcomes → token.Unbroken := by
  refine forall_mem_outcomes (P := fun scanner => scanner.context.Solid)
    (fun scanner h => ?_) (fun scanner token after h hstep => ?_) h
  · have hlists := step_listsLine h
    generalize scanner.step = result at hlists
    obtain ⟨emission, after⟩ := result
    cases emission with
    | token token => exact hlists.2
    | silent | failure failure => exact hlists
  · have hlists := step_listsLine h
    rw [hstep] at hlists
    exact hlists.1

end Scanner

end Scan

/-! ## Listings -/

theorem splitOn_flatMap_feed {rows : List (List Char)} (h : ∀ row ∈ rows, '\n' ∉ row) :
    (rows.flatMap (· ++ ['\n'])).splitOn '\n' = rows ++ [[]] := by
  induction rows with
  | nil => rfl
  | cons row rows ih =>
      obtain ⟨hrow, hrows⟩ := List.forall_mem_cons.1 h
      rw [List.flatMap_cons, List.append_assoc, List.singleton_append, List.splitOn_append_cons_self,
        ih hrows, List.splitOn_eq_singleton hrow]
      rfl

/-- Nothing is dropped in front of these line feeds, as no row ends with a carriage return. -/
theorem Command.Snippet.linesFrom_row {row : List Char} (h : ∀ c ∈ row, Text.Cursor.isSolid c = true)
    (current behind : List Char) (hcurrent : current.head? ≠ some '\r') :
    linesFrom current (row ++ '\n' :: behind) = (current.reverse ++ row) :: linesFrom [] behind := by
  induction row generalizing current with
  | nil => rw [List.nil_append, linesFrom, if_pos rfl, dropReturn_of_ne (by simpa using hcurrent),
      List.append_nil]
  | cons c row ih =>
      obtain ⟨hc, hrow⟩ := List.forall_mem_cons.1 h
      simp only [Text.Cursor.isSolid, Bool.and_eq_true, bne_iff_ne] at hc
      rw [List.cons_append, linesFrom, if_neg hc.2, ih hrow _ (by simpa using hc.1)]
      simp

theorem Command.Snippet.linesFrom_flatMap_feed {rows : List (List Char)}
    (h : ∀ row ∈ rows, ∀ c ∈ row, Text.Cursor.isSolid c = true) :
    linesFrom [] (rows.flatMap (· ++ ['\n'])) = rows := by
  induction rows with
  | nil => rfl
  | cons row rows ih =>
      obtain ⟨hrow, hrows⟩ := List.forall_mem_cons.1 h
      rw [List.flatMap_cons, List.append_assoc, List.singleton_append,
        linesFrom_row hrow [] _ (by simp), ih hrows]
      rfl

theorem Token.toList_listing (tokens : List Token) :
    (Token.listing tokens).toList = (tokens.map (·.display.toList)).flatMap (· ++ ['\n']) := by
  induction tokens with
  | nil => rfl
  | cons token tokens ih =>
      rw [List.map_cons, List.flatMap_cons, ← ih]
      simp [Token.listing]

variable {text : String} {config : RunConfig} {tokens : List Token}

theorem unbroken_of_tokenize (h : tokenize text config = .ok tokens) :
    ∀ token ∈ tokens, Text.Unbroken token.display := by
  have hsolid : (Scan.Scanner.ofText text config.tabWidth).context.Solid :=
    Scan.Context.solid_of_nil rfl
  intro token hmem
  refine Token.unbroken_display (Scan.Scanner.unbroken_of_mem_outcomes hsolid token ?_)
  rw [tokenize_eq_ok.1 h]
  exact List.mem_map_of_mem hmem

/-- A listing has one line for each token, with a line feed behind it and no line break in it: neither
a split at line feeds nor a reader of lines finds any other. -/
theorem lines_listing (h : tokenize text config = .ok tokens) :
    (∀ token ∈ tokens, '\n' ∉ token.display.toList ∧ '\r' ∉ token.display.toList) ∧
      (Token.listing tokens).toList.splitOn '\n' = tokens.map (·.display.toList) ++ [[]] ∧
        Command.Snippet.lines (Token.listing tokens) = tokens.map (·.display.toList) := by
  have hunbroken := unbroken_of_tokenize h
  have hbreaks : ∀ token ∈ tokens, '\n' ∉ token.display.toList ∧ '\r' ∉ token.display.toList :=
    fun token hmem => ⟨fun hfeed => absurd (hunbroken token hmem _ hfeed) (by decide),
      fun hreturn => absurd (hunbroken token hmem _ hreturn) (by decide)⟩
  refine ⟨hbreaks, ?_, ?_⟩
  · rw [Token.toList_listing, splitOn_flatMap_feed]
    exact List.forall_mem_map.2 fun token hmem => (hbreaks token hmem).1
  · rw [Command.Snippet.lines, Token.toList_listing, Command.Snippet.linesFrom_flatMap_feed]
    exact List.forall_mem_map.2 hunbroken

/-- A string with the escape of a line feed, one that a line feed breaks off, a malformed number, an
escape that is none, and line breaks of all kinds. -/
theorem lines_listing_breaks :
    ∃ tokens,
      tokenize "a \"\\n\"\r\n12x \"\\q\"\r( \"b\nc\" é\u2028'\n" .default = .ok tokens ∧
        Command.Snippet.lines (Token.listing tokens) = tokens.map (·.display.toList) := by
  have hok : (tokenize "a \"\\n\"\r\n12x \"\\q\"\r( \"b\nc\" é\u2028'\n" .default).isOk = true := by
    decide +kernel
  cases htokens : tokenize "a \"\\n\"\r\n12x \"\\q\"\r( \"b\nc\" é\u2028'\n" .default with
  | error failure =>
      rw [htokens] at hok
      contradiction
  | ok tokens => exact ⟨tokens, rfl, (lines_listing htokens).2.2⟩

end Offside
