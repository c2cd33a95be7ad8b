import Offside.Proofs.Grammar.Source
import Offside.Proofs.Scanning.Places

/-!
# The shape of a token stream

The tokens of a text are those of its lines, between a token that opens the file and tokens that close
it.  A line opens one block or closes some, has content and ends.  Blocks are opened and closed like
brackets, and only the end of the file closes the outermost one.
-/

namespace Offside

namespace Scan

open Parse (Closes Item)

/-! ## Lines -/

/-- What a line may do to the blocks around it: nothing, open one or close some. -/
def IsMargin (margin : List Token) : Prop :=
  margin = [] ∨ (∃ token, margin = [token] ∧ token.kind = .indent) ∨
    (margin ≠ [] ∧ ∀ token ∈ margin, token.kind = .dedent)

structure LogicalLine where
  margin : List Token
  content : List Token
  ending : Token
  isMargin : IsMargin margin
  content_ne_nil : content ≠ []
  content_kind : ∀ token ∈ content, token.kind.isStructural = false
  ending_kind : ending.kind = .newline

def LogicalLine.tokens (line : LogicalLine) : List Token :=
  line.margin ++ line.content ++ [line.ending]

/-- A file as its lines, with the tokens around them. -/
structure Outline where
  opening : Token
  lines : List LogicalLine
  closing : List Token
  last : Token
  opening_kind : opening.kind = .indent
  /-- There is nothing to close in front of the first line. -/
  first_margin : ∀ line ∈ lines.head?, ∀ token ∈ line.margin, token.kind ≠ .dedent
  closing_ne_nil : closing ≠ []
  closing_kind : ∀ token ∈ closing, token.kind = .dedent
  last_kind : last.kind = .eof

def Outline.tokens (outline : Outline) : List Token :=
  outline.opening :: (outline.lines.flatMap LogicalLine.tokens ++ outline.closing ++ [outline.last])

/-- Lines with the tokens that close the file.  Where they start a file, the first one closes nothing. -/
def Lines (starting : Bool) (tokens : List Token) : Prop :=
  ∃ (lines : List LogicalLine) (closing : List Token) (last : Token),
    (starting = true → ∀ line ∈ lines.head?, ∀ token ∈ line.margin, token.kind ≠ .dedent) ∧
      closing ≠ [] ∧ (∀ token ∈ closing, token.kind = .dedent) ∧ last.kind = .eof ∧
      tokens = lines.flatMap LogicalLine.tokens ++ closing ++ [last]

namespace Lines

variable {starting : Bool} {tokens closing : List Token} {last : Token}

theorem of_closing (hne : closing ≠ []) (hclosing : ∀ token ∈ closing, token.kind = .dedent)
    (hlast : last.kind = .eof) : Lines starting (closing ++ [last]) :=
  ⟨[], closing, last, by simp, hne, hclosing, hlast, rfl⟩

theorem line (line : LogicalLine)
    (hfirst : starting = true → ∀ token ∈ line.margin, token.kind ≠ .dedent)
    (h : Lines false tokens) : Lines starting (line.tokens ++ tokens) := by
  obtain ⟨lines, closing, last, -, hne, hclosing, hlast, rfl⟩ := h
  refine ⟨line :: lines, closing, last, ?_, hne, hclosing, hlast, by simp⟩
  intro hstarting first hhead
  obtain rfl : line = first := by simpa using hhead
  exact hfirst hstarting

end Lines

/-! ## From places to lines -/

def Completes (tokens : List Token) : Place → Prop
  | .start => ∃ opening rest, tokens = opening :: rest ∧ opening.kind = .indent ∧ Lines true rest
  | .first => Lines true tokens
  | .between => Lines false tokens
  | .closing => ∀ closed : List Token, closed ≠ [] → (∀ token ∈ closed, token.kind = .dedent) →
      Lines false (closed ++ tokens)
  | .ending => ∀ closed : List Token, closed ≠ [] → (∀ token ∈ closed, token.kind = .dedent) →
      Lines true (closed ++ tokens)
  | .opened => ∀ opening : Token, opening.kind = .indent → ∀ starting,
      Lines starting (opening :: tokens)
  | .inLine => ∀ (starting : Bool) (margin content : List Token), IsMargin margin →
      (starting = true → ∀ token ∈ margin, token.kind ≠ .dedent) → content ≠ [] →
      (∀ token ∈ content, token.kind.isStructural = false) →
      Lines starting (margin ++ content ++ tokens)
  | .finished => tokens = []

variable {tokens : List Token} {token : Token} {place place' : Place}

private theorem completes_of_content (hkind : token.kind.isStructural = false)
    (hbehind : place.behind? token.kind = some place') (h : Completes tokens place') :
    Completes (token :: tokens) place := by
  rw [Place.behind?_of_content hkind] at hbehind
  have hcontent : ∀ first ∈ [token], first.kind.isStructural = false := by simpa using hkind
  obtain rfl : place' = .inLine := by
    split at hbehind
    · contradiction
    · exact (Option.some.inj hbehind).symm
  cases place with
  | start | ending | finished => simp at hbehind
  | first | between => exact h _ [] [token] (.inl rfl) (by simp) (by simp) hcontent
  | closing =>
      intro closed hne hclosed
      have hlines := h false closed [token] (.inr (.inr ⟨hne, hclosed⟩)) (by simp) (by simp) hcontent
      simpa using hlines
  | opened =>
      intro opening hopening starting
      have hmargin : ∀ first ∈ [opening], first.kind ≠ .dedent := by simp [hopening]
      exact h starting [opening] [token] (.inr (.inl ⟨_, rfl, hopening⟩)) (fun _ => hmargin)
        (by simp) hcontent
  | inLine =>
      intro starting margin content hmargin hfirst hne hcontents
      have hlines := h starting margin (content ++ [token]) hmargin hfirst (by simp) (by
        intro first hfirst
        rcases List.mem_append.1 hfirst with hmem | hmem
        · exact hcontents first hmem
        · exact hcontent first hmem)
      simpa using hlines

private theorem completes_of_dedent (hkind : token.kind = .dedent)
    (hbehind : place.behind? token.kind = some place') (h : Completes tokens place') :
    Completes (token :: tokens) place := by
  have hdedent : ∀ first ∈ [token], first.kind = .dedent := by simpa using hkind
  rw [hkind] at hbehind
  cases place with
  | start | ending | opened | inLine | finished => contradiction
  | first | between =>
      cases hbehind
      exact h [token] (by simp) hdedent
  | closing =>
      cases hbehind
      intro closed hne hclosed
      have hlines := h (closed ++ [token]) (by simp) (by
        intro first hfirst
        rcases List.mem_append.1 hfirst with hmem | hmem
        · exact hclosed first hmem
        · exact hdedent first hmem)
      simpa using hlines

private theorem completes_of_indent (hkind : token.kind = .indent)
    (hbehind : place.behind? token.kind = some place') (h : Completes tokens place') :
    Completes (token :: tokens) place := by
  rw [hkind] at hbehind
  cases place with
  | closing | ending | opened | inLine | finished => contradiction
  | start =>
      cases hbehind
      exact ⟨token, tokens, rfl, hkind, h⟩
  | first | between =>
      cases hbehind
      exact h token hkind _

private theorem completes_of_newline (hkind : token.kind = .newline)
    (hbehind : place.behind? token.kind = some place') (h : Completes tokens place') :
    Completes (token :: tokens) place := by
  rw [hkind] at hbehind
  cases place with
  | start | first | between | closing | ending | opened | finished => contradiction
  | inLine =>
      cases hbehind
      intro starting margin content hmargin hfirst hne hcontent
      have hlines := Lines.line ⟨margin, content, token, hmargin, hne, hcontent, hkind⟩ hfirst h
      simpa [LogicalLine.tokens] using hlines

private theorem completes_of_eof (hkind : token.kind = .eof)
    (hbehind : place.behind? token.kind = some place') (h : Completes tokens place') :
    Completes (token :: tokens) place := by
  rw [hkind] at hbehind
  cases place with
  | start | first | between | opened | inLine | finished => contradiction
  | closing | ending =>
      cases hbehind
      obtain rfl : tokens = [] := h
      intro closed hne hclosed
      exact Lines.of_closing hne hclosed hkind

theorem completes_of_shaped (h : Shaped place (tokens.map .ok)) : Completes tokens place := by
  -- From the last token to the first: what a token completes follows from what its place asks for.
  induction tokens generalizing place with
  | nil =>
      obtain rfl : place = .finished := h
      rfl
  | cons token tokens ih =>
      obtain ⟨place', hbehind, hrest⟩ := h
      have hcompletes := ih hrest
      cases hstructural : token.kind.isStructural with
      | false => exact completes_of_content hstructural hbehind hcompletes
      | true =>
          have hkind : token.kind = .indent ∨ token.kind = .dedent ∨ token.kind = .newline ∨
              token.kind = .eof := by
            unfold TokenKind.isStructural at hstructural
            grind
          rcases hkind with hkind | hkind | hkind | hkind
          · exact completes_of_indent hkind hbehind hcompletes
          · exact completes_of_dedent hkind hbehind hcompletes
          · exact completes_of_newline hkind hbehind hcompletes
          · exact completes_of_eof hkind hbehind hcompletes

theorem exists_outline (h : Shaped .start (tokens.map .ok)) :
    ∃ outline : Outline, outline.tokens = tokens := by
  obtain ⟨opening, rest, rfl, hopening, lines, closing, last, hfirst, hne, hclosing, hlast, rfl⟩ :=
    completes_of_shaped h
  exact ⟨⟨opening, lines, closing, last, hopening, hfirst rfl, hne, hclosing, hlast⟩, rfl⟩

/-! ## Neighbours -/

theorem exists_place_between {front back : List Token} {first second : Token}
    (h : Shaped place ((front ++ first :: second :: back).map .ok)) :
    ∃ before middle after, Place.behind? before first.kind = some middle ∧
      Place.behind? middle second.kind = some after := by
  induction front generalizing place with
  | nil =>
      obtain ⟨middle, hfirst, after, hsecond, -⟩ := h
      exact ⟨place, middle, after, hfirst, hsecond⟩
  | cons token front ih =>
      obtain ⟨place', -, hrest⟩ := h
      exact ih hrest

theorem Place.eq_inLine_of_content {kind : TokenKind} (h : kind.isStructural = false)
    (hbehind : place.behind? kind = some place') : place' = .inLine := by
  rw [Place.behind?_of_content h] at hbehind
  split at hbehind
  · contradiction
  · exact (Option.some.inj hbehind).symm

theorem Place.content_of_inLine {kind : TokenKind} (h : place.behind? kind = some .inLine) :
    kind.isStructural = false := by
  unfold TokenKind.isStructural
  split
  case h_5 => rfl
  all_goals cases place <;> contradiction

/-! ## Balance -/

def countKind (kind : TokenKind) (tokens : List Token) : Nat := (tokens.map Token.kind).count kind

@[simp] theorem countKind_nil (kind : TokenKind) : countKind kind [] = 0 := rfl

theorem countKind_cons (kind : TokenKind) (token : Token) (tokens : List Token) :
    countKind kind (token :: tokens) =
      countKind kind tokens + if token.kind = kind then 1 else 0 := by
  simp [countKind, List.count_cons]

theorem blocksBehind_add (kind : TokenKind) {openBlocks : Nat} (h : openBlocks ≠ 0) :
    kind.blocksBehind openBlocks + (if kind = .dedent then 1 else 0) =
      openBlocks + if kind = .indent then 1 else 0 := by
  cases kind with
  | dedent =>
      simp only [TokenKind.blocksBehind, reduceIte, reduceCtorEq]
      omega
  | _ => simp [TokenKind.blocksBehind]

theorem countKind_of_closes {openBlocks : Nat} (h : Closes (tokens.map .ok) openBlocks) :
    openBlocks + countKind .indent tokens = countKind .dedent tokens := by
  induction tokens generalizing openBlocks with
  | nil => exact h.elim
  | cons token tokens ih =>
      rw [countKind_cons, countKind_cons]
      by_cases heof : token.kind = .eof
      · obtain ⟨rfl, hnil⟩ := h.eof heof
        obtain rfl : tokens = [] := List.map_eq_nil_iff.1 hnil
        simp [heof]
      · obtain ⟨hopen, hrest⟩ := h.tail heof
        have htail := ih hrest
        have hstep := blocksBehind_add token.kind hopen
        omega

theorem countKind_lt_of_closes {openBlocks : Nat} {front back : List Token}
    (h : Closes ((front ++ back).map .ok) openBlocks)
    (hback : .dedent ∈ back.map Token.kind) :
    countKind .dedent front < openBlocks + countKind .indent front := by
  induction front generalizing openBlocks with
  | nil =>
      cases back with
      | nil => simp at hback
      | cons token back =>
          have heof : token.kind ≠ .eof := by
            intro heof
            obtain ⟨-, hnil⟩ := h.eof heof
            obtain rfl : back = [] := List.map_eq_nil_iff.1 hnil
            simp [heof] at hback
          have hopen := (h.tail heof).1
          simp only [countKind_nil]
          omega
  | cons token front ih =>
      have heof : token.kind ≠ .eof := by
        intro heof
        obtain ⟨-, hnil⟩ := h.eof heof
        have hnil := List.append_eq_nil_iff.1 (List.map_eq_nil_iff.1 hnil)
        simp [hnil.2] at hback
      obtain ⟨hopen, hrest⟩ := h.tail heof
      have htail := ih hrest
      have hstep := blocksBehind_add token.kind hopen
      rw [countKind_cons, countKind_cons]
      omega

end Scan

open Scan (Outline countKind)

/-- The tokens of a text are those of its lines, with blocks that are opened and closed like brackets;
so nothing but content stands in front of a line break, and nothing but a line break ends content. -/
theorem tokenize_shape {text : String} {config : RunConfig} {tokens : List Token}
    (h : tokenize text config = .ok tokens) :
    (∃ outline : Outline, outline.tokens = tokens) ∧
      countKind .indent tokens = countKind .dedent tokens ∧
      (∀ front back, tokens = front ++ back → front ≠ [] → .dedent ∈ back.map Token.kind →
        countKind .dedent front < countKind .indent front) ∧
      ∀ front first second back, tokens = front ++ first :: second :: back →
        (first.kind = .newline → second.kind ≠ .newline) ∧
          (first.kind.isStructural = false →
            second.kind ≠ .indent ∧ second.kind ≠ .dedent ∧ second.kind ≠ .eof) ∧
          (second.kind = .newline → first.kind.isStructural = false) := by
  have houtcomes := tokenize_eq_ok.1 h
  have hshaped := Scan.Scanner.outcomes_ofText_shaped text config.tabWidth
  rw [houtcomes] at hshaped
  obtain ⟨rest, hopening, hcloses⟩ := Scan.Scanner.outcomes_ofText text config.tabWidth
  rw [houtcomes] at hopening
  obtain ⟨tail, rfl, rfl⟩ : ∃ tail, tokens = .plain .indent .start :: tail ∧ rest = tail.map .ok := by
    cases tokens with
    | nil => simp at hopening
    | cons token tail =>
        rw [List.map_cons, List.cons.injEq] at hopening
        exact ⟨tail, by rw [Except.ok.inj hopening.1], hopening.2.symm⟩
  refine ⟨Scan.exists_outline hshaped, ?_, ?_, ?_⟩
  · have hcount := Scan.countKind_of_closes hcloses
    rw [Scan.countKind_cons, Scan.countKind_cons]
    simp only [Token.plain, reduceIte, reduceCtorEq]
    omega
  · intro front back htokens hfront hback
    cases front with
    | nil => contradiction
    | cons token front =>
        rw [List.cons_append, List.cons.injEq] at htokens
        obtain ⟨rfl, rfl⟩ := htokens
        have hcount := Scan.countKind_lt_of_closes hcloses hback
        rw [Scan.countKind_cons, Scan.countKind_cons]
        simp only [Token.plain, reduceIte, reduceCtorEq]
        omega
  · intro front first second back htokens
    rw [htokens] at hshaped
    obtain ⟨before, middle, after, hfirst, hsecond⟩ := Scan.exists_place_between hshaped
    refine ⟨?_, ?_, ?_⟩
    · intro hnewline hnewline'
      rw [hnewline] at hfirst
      rw [hnewline'] at hsecond
      cases before <;> first | contradiction | (cases hfirst; contradiction)
    · intro hcontent
      obtain rfl := Scan.Place.eq_inLine_of_content hcontent hfirst
      refine ⟨?_, ?_, ?_⟩ <;> (intro hkind; rw [hkind] at hsecond; contradiction)
    · intro hnewline
      rw [hnewline] at hsecond
      obtain rfl : middle = .inLine := by
        cases middle <;> first | rfl | contradiction
      exact Scan.Place.content_of_inLine hfirst

/-- A block behind a blank line, in front of a last line without an end. -/
theorem tokenize_shape_nested :
    ∃ tokens, tokenize "if x:\n\n    y\nz" .default = .ok tokens ∧
      (∃ outline : Outline, outline.tokens = tokens) ∧
      countKind .indent tokens = countKind .dedent tokens := by
  have hok : (tokenize "if x:\n\n    y\nz" .default).isOk = true := by decide +kernel
  cases htokens : tokenize "if x:\n\n    y\nz" .default with
  | error failure =>
      rw [htokens] at hok
      contradiction
  | ok tokens =>
      obtain ⟨houtline, hbalance, -⟩ := tokenize_shape htokens
      exact ⟨tokens, rfl, houtline, hbalance⟩

end Offside
