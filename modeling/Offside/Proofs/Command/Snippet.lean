import Mathlib.Data.List.Induction
import Offside.Command.Snippet
import Offside.Proofs.Parsing.Harvest

/-!
# Snippets show the line of a report

A report counts the lines of its text as they are read, where a carriage return alone is a line break,
but a snippet splits the text at line feeds.  As far as no line is ended by a carriage return alone the
two agree: then the row with the number of the report shows its line, and the caret in the row below
stands under its column.
-/

namespace Offside

open Text (Position)

/-! ## Lines as they are read -/

namespace Text

/-- The lines of a text, without what ends them.  What stands behind the last line break is a line, too,
even if it is empty. -/
def readLines (text : List Char) : List (List Char) := (lineFed text).splitOn '\n'

/-- None of so many first lines is ended by a carriage return alone. -/
def FedThrough (text : List Char) (count : Nat) : Prop :=
  ∀ front rest, text = front ++ '\r' :: rest → (lineFed front).count '\n' < count →
    rest.head? = some '\n'

theorem length_splitOn (text : List Char) :
    (text.splitOn '\n').length = text.count '\n' + 1 := by
  induction text with
  | nil => rfl
  | cons c text ih =>
      rw [List.splitOn_cons_eq_if_modifyHead, List.count_cons]
      split <;> simp [ih]

theorem exists_lastLine (text : List Char) :
    ∃ ended last, text = ended ++ last ∧ '\n' ∉ last ∧
      (ended = [] ∨ ∃ more, ended = more ++ ['\n']) ∧
        (text.reverse.takeWhile (· != '\n')).length = last.length := by
  induction text using List.reverseRecOn with
  | nil => exact ⟨[], [], rfl, by simp, .inl rfl, rfl⟩
  | append_singleton text c ih =>
      by_cases hc : c = '\n'
      · subst hc
        exact ⟨text ++ ['\n'], [], by simp, by simp, .inr ⟨text, rfl⟩, by simp⟩
      · obtain ⟨ended, last, htext, hlast, hended, hlength⟩ := ih
        refine ⟨ended, last ++ [c], by rw [htext, List.append_assoc], ?_, hended, ?_⟩
        · simpa [hlast] using Ne.symm hc
        · simp [hc, hlength]

theorem exists_head_splitOn {last : List Char} (h : '\n' ∉ last) (ahead : List Char) :
    ∃ behind, ((last ++ ahead).splitOn '\n')[0]? = some (last ++ behind) := by
  induction last with
  | nil =>
      obtain ⟨behind, more, hsplit⟩ := List.exists_cons_of_ne_nil (List.splitOn_ne_nil '\n' ahead)
      exact ⟨behind, by simp [hsplit]⟩
  | cons c last ih =>
      obtain ⟨hc, hlast⟩ := List.ne_and_not_mem_of_not_mem_cons h
      obtain ⟨behind, hbehind⟩ := ih hlast
      refine ⟨behind, ?_⟩
      rw [List.cons_append, List.splitOn_cons_eq_if_modifyHead, if_neg (by simpa using Ne.symm hc)]
      simp [hbehind]

/-- A position is in the line of its number, and it has as many characters of this line in front of it
as its column tells. -/
theorem Position.PointsAt.readLine {position : Position} {rest text : List Char}
    (h : position.PointsAt rest text) :
    ∃ front behind, (readLines text)[position.line - 1]? = some (front ++ behind) ∧
      position.line ≠ 0 ∧ position.column = front.length + 1 := by
  obtain ⟨before, rfl, hmarks⟩ := h
  rw [readLines, lineFed_append hmarks.cleanCut, hmarks.line, hmarks.column, Nat.add_sub_cancel_left]
  obtain ⟨ended, last, hread, hlast, hended, hlength⟩ := exists_lastLine (lineFed before)
  obtain ⟨behind, hbehind⟩ := exists_head_splitOn hlast (lineFed rest)
  refine ⟨last, behind, ?_, by omega, by omega⟩
  rw [hread, List.count_append, List.count_eq_zero.2 hlast, List.append_assoc]
  rcases hended with rfl | ⟨more, rfl⟩
  · exact hbehind
  · rw [List.append_assoc, List.singleton_append, List.splitOn_append_cons_self, List.count_append,
      List.getElem?_append_right (by simp [length_splitOn]), length_splitOn]
    simpa using hbehind

namespace FedThrough

variable {rest : List Char} {count : Nat}

theorem tail {c : Char} (h : FedThrough (c :: rest) count) (hfeed : c ≠ '\n') (hreturn : c ≠ '\r') :
    FedThrough rest count := by
  intro front behind hrest hcount
  apply h (c :: front) behind (by rw [hrest, List.cons_append])
  rwa [lineFed_of_ne hreturn, List.count_cons_of_ne hfeed]

theorem behind_feed (h : FedThrough ('\n' :: rest) count) : FedThrough rest (count - 1) := by
  intro front behind hrest hcount
  apply h ('\n' :: front) behind (by rw [hrest, List.cons_append])
  rw [lineFed_of_ne (by decide), List.count_cons_self]
  omega

theorem behind_pair (h : FedThrough ('\r' :: '\n' :: rest) count) : FedThrough rest (count - 1) := by
  intro front behind hrest hcount
  apply h ('\r' :: '\n' :: front) behind (by rw [hrest, List.cons_append, List.cons_append])
  rw [lineFed, List.count_cons_self]
  omega

end FedThrough

end Text

namespace Command.Snippet

open Text (FedThrough lineFed readLines)

/-! ## Lines as they are shown -/

theorem dropReturn_of_return (line : List Char) : dropReturn (line ++ ['\r']) = line := by
  simp [dropReturn]

theorem dropReturn_of_ne {line : List Char} (h : line.getLast? ≠ some '\r') :
    dropReturn line = line :=
  if_neg h

private theorem agrees_behind {line : List Char} {shown read : List (List Char)} {index : Nat}
    (h : ∀ less, index = less + 1 →
      less ≤ shown.length ∧ read[less]? = some (shown[less]?.getD [])) :
    index ≤ (line :: shown).length ∧
      (line :: read)[index]? = some ((line :: shown)[index]?.getD []) := by
  cases index with
  | zero => simp
  | succ less => simpa using h less rfl

/-- As far as lines are ended with a line feed, those that are shown are those that are read.  Only an
empty line behind all line breaks is none of those that are shown. -/
theorem linesFrom_agrees {text current : List Char} {count index : Nat}
    (hcurrent : current.head? ≠ some '\r') (hfed : FedThrough text count) (hindex : index < count)
    (hread : index < ((lineFed text).splitOnPPrepend (· == '\n') current).length) :
    index ≤ (linesFrom current text).length ∧
      ((lineFed text).splitOnPPrepend (· == '\n') current)[index]? =
        some ((linesFrom current text)[index]?.getD []) := by
  fun_induction lineFed text generalizing current count index with
  | case1 =>
      obtain rfl : index = 0 := by simpa using hread
      cases current <;> simp [linesFrom]
  | case2 rest ih =>
      have hlines : linesFrom current ('\r' :: '\n' :: rest) =
          current.reverse :: linesFrom [] rest := by
        rw [linesFrom, if_neg (by decide), linesFrom, if_pos rfl, List.reverse_cons,
          dropReturn_of_return]
      rw [List.splitOnPPrepend_cons_pos rfl, List.splitOnP_eq_splitOnPPrepend] at hread ⊢
      rw [hlines]
      apply agrees_behind
      rintro less rfl
      exact ih (by simp) hfed.behind_pair (by omega) (Nat.lt_of_succ_lt_succ hread)
  | case3 rest hpair ih =>
      have hhead := hfed [] rest rfl (Nat.lt_of_le_of_lt (Nat.zero_le _) hindex)
      obtain ⟨more, hmore⟩ := List.head?_eq_some_iff.1 hhead
      exact absurd hmore (hpair more)
  | case4 c rest hpair hreturn ih =>
      by_cases hfeed : c = '\n'
      · subst hfeed
        have hlines : linesFrom current ('\n' :: rest) = current.reverse :: linesFrom [] rest := by
          rw [linesFrom, if_pos rfl, dropReturn_of_ne (by simpa using hcurrent)]
        rw [List.splitOnPPrepend_cons_pos rfl, List.splitOnP_eq_splitOnPPrepend] at hread ⊢
        rw [hlines]
        apply agrees_behind
        rintro less rfl
        exact ih (by simp) hfed.behind_feed (by omega) (Nat.lt_of_succ_lt_succ hread)
      · rw [List.splitOnPPrepend_cons_neg (by simpa using hfeed)] at hread ⊢
        rw [linesFrom, if_neg hfeed]
        exact ih (by simpa using hreturn) (hfed.tail hfeed hreturn) hindex hread

/-- A line that is read is shown, if no line up to it is ended by a carriage return alone. -/
theorem lines_agree {text : String} {line : Nat} {content : List Char} (hline : line ≠ 0)
    (hfed : FedThrough text.toList line)
    (hcontent : (readLines text.toList)[line - 1]? = some content) :
    line ≤ (lines text).length + 1 ∧ (lines text)[line - 1]?.getD [] = content := by
  rw [readLines, List.splitOn_eq_splitOnP, List.splitOnP_eq_splitOnPPrepend] at hcontent
  obtain ⟨hlength, -⟩ := List.getElem?_eq_some_iff.1 hcontent
  obtain ⟨hshown, hagrees⟩ := linesFrom_agrees (by simp) hfed (by omega) hlength
  rw [hcontent, Option.some.injEq] at hagrees
  exact ⟨by rw [lines]; omega, hagrees.symm⟩

/-! ## Rows -/

/-- Rows with the numbers of their lines in front. -/
def shownRows (width : Nat) (shown : List (Nat × List Char)) : String :=
  String.join (shown.map fun line => row width (toString line.1) (String.ofList line.2))

def numbered (all : List (List Char)) (numbers : List Nat) : List (Nat × List Char) :=
  numbers.map fun number => (number, all[number - 1]?.getD [])

theorem lineRows_of_ne {all : List (List Char)} {width line column number : Nat}
    (h : number ≠ line) :
    lineRows all width line column number =
      row width (toString number) (String.ofList (all[number - 1]?.getD [])) := by
  rw [lineRows, if_neg h, String.append_empty]

theorem join_lineRows (column : Nat) {all : List (List Char)} {width line : Nat} {numbers : List Nat}
    (h : ∀ number ∈ numbers, number ≠ line) :
    String.join (numbers.map (lineRows all width line column)) =
      shownRows width (numbered all numbers) := by
  have hrows : numbers.map (lineRows all width line column) =
      numbers.map fun number =>
        row width (toString number) (String.ofList (all[number - 1]?.getD [])) :=
    List.map_congr_left fun number hnumber => lineRows_of_ne (h number hnumber)
  rw [shownRows, numbered, List.map_map, hrows]
  rfl

theorem length_toString_le {number last : Nat} (h : number ≤ last) :
    (toString number).length ≤ (toString last).length := by
  have hlast : last < 10 ^ last.repr.length :=
    (Nat.length_repr_le_iff Nat.length_repr_pos).1 (Nat.le_refl _)
  have hnumber : number.repr.length ≤ last.repr.length :=
    (Nat.length_repr_le_iff Nat.length_repr_pos).2 (Nat.lt_of_le_of_lt h hlast)
  exact hnumber

theorem render_eq {text : String} {line : Nat} (column : Nat) (hline : line ≠ 0)
    (hlines : line ≤ (lines text).length + 1) :
    ∃ (width : Nat) (above below : List (Nat × List Char)),
      render text line column =
          border width ++ shownRows width above ++
            (row width (toString line) (String.ofList ((lines text)[line - 1]?.getD [])) ++
              caretRow width column) ++ shownRows width below ++ border width ∧
        (∀ shown ∈ above, shown.1 < line) ∧ (∀ shown ∈ below, line < shown.1) ∧
          (toString line).length ≤ width := by
  unfold render
  rw [if_neg (by simp only [Bool.or_eq_true, decide_eq_true_eq]; omega)]
  generalize hfirst : max (line - neighbours) 1 = first
  generalize hlast : max (min (line + neighbours) (lines text).length) line = last
  have hnumbers : List.range' first (last + 1 - first) =
      List.range' first (line - first) ++ line :: List.range' (line + 1) (last - line) := by
    have happend := @List.range'_append_1 first (line - first) (last - line + 1)
    rw [Nat.add_sub_cancel' (by omega), List.range'_succ] at happend
    rw [happend]
    congr 1
    omega
  have habove : ∀ number ∈ List.range' first (line - first), number < line := by
    intro number hnumber
    have hrange := List.mem_range'_1.1 hnumber
    omega
  have hbelow : ∀ number ∈ List.range' (line + 1) (last - line), line < number := by
    intro number hnumber
    have hrange := List.mem_range'_1.1 hnumber
    omega
  refine ⟨(toString last).length, numbered (lines text) _, numbered (lines text) _, ?_,
    List.forall_mem_map.2 habove, List.forall_mem_map.2 hbelow, length_toString_le (by omega)⟩
  rw [← join_lineRows column fun number hnumber => Nat.ne_of_lt (habove number hnumber),
    ← join_lineRows column fun number hnumber => Nat.ne_of_gt (hbelow number hnumber)]
  simp only [hnumbers, List.map_append, List.map_cons, String.join_append, String.join_cons,
    String.append_assoc, lineRows, if_pos]

/-! ## Carets -/

theorem row_getElem? {width : Nat} {label : String} (h : label.length ≤ width) (content : String)
    (place : Nat) :
    (row width label content).toList[width + 3 + place]? = (content.toList ++ ['\n'])[place]? := by
  have hlabel : (row width label content).toList =
      List.replicate (width - label.length) ' ' ++ label.toList ++ [' ', '|', ' '] ++
        (content.toList ++ ['\n']) := by
    simp [row, Token.padLeft]
  have hlength : (List.replicate (width - label.length) ' ' ++ label.toList ++
      [' ', '|', ' ']).length = width + 3 := by
    simp only [List.length_append, List.length_replicate, String.length_toList, List.length_cons,
      List.length_nil]
    omega
  rw [hlabel, ← hlength, List.getElem?_append_right (Nat.le_add_right _ _), Nat.add_sub_cancel_left]

/-- The snippet has a row with the number of the line and its content, between rows with other numbers,
and the caret in the row below it stands under this column. -/
def Shows (snippet : String) (line column : Nat) (content : List Char) : Prop :=
  ∃ (width : Nat) (above below : List (Nat × List Char)),
    snippet =
        border width ++ shownRows width above ++
          (row width (toString line) (String.ofList content) ++ caretRow width column) ++
            shownRows width below ++ border width ∧
      (∀ shown ∈ above, shown.1 < line) ∧ (∀ shown ∈ below, line < shown.1) ∧
        ∃ place : Nat, (caretRow width column).toList[place]? = some '^' ∧
          (row width (toString line) (String.ofList content)).toList[place]? =
            (content ++ ['\n'])[column - 1]?

theorem caretRow_getElem? (width column : Nat) :
    (caretRow width column).toList[width + 3 + (column - 1)]? = some '^' := by
  rw [caretRow, row_getElem? (Nat.zero_le _)]
  simp

theorem Shows.ne_empty {snippet : String} {line column : Nat} {content : List Char}
    (h : Shows snippet line column content) : snippet ≠ "" := by
  obtain ⟨width, above, below, rfl, -⟩ := h
  intro hempty
  have hnil := congrArg String.toList hempty
  simp [border] at hnil

theorem render_shows {text : String} {line : Nat} {content : List Char} (column : Nat)
    (hline : line ≠ 0) (hfed : FedThrough text.toList line)
    (hcontent : (readLines text.toList)[line - 1]? = some content) :
    Shows (render text line column) line column content := by
  obtain ⟨hlines, hagrees⟩ := lines_agree hline hfed hcontent
  obtain ⟨width, above, below, hrender, habove, hbelow, hwidth⟩ := render_eq column hline hlines
  rw [hagrees] at hrender
  refine ⟨width, above, below, hrender, habove, hbelow, _, caretRow_getElem? width column, ?_⟩
  rw [row_getElem? hwidth, String.toList_ofList]

end Command.Snippet

/-! ## Reports -/

open Command (Snippet.Shows Snippet.render)
open Parse (Outcome Parsed)
open Scan (Scanner itemPosition)

/-- The reports of a parse: those of its recorded errors, or that of what stopped it. -/
def parseReports (text : String) (config : RunConfig) : List Report :=
  match parse text config with
  | .ok parsed => parsed.reports
  | .error failure => [failure.report]

variable {text : String} {config : RunConfig} {report : Report}

theorem Failure.place_ofParser {items : List Parse.Item} {error : Parse.Error}
    (h : error.PlacedIn items) :
    (Failure.ofParser error).report.line? = some error.position.line ∧
      (Failure.ofParser error).report.column? = some error.position.column := by
  unfold ofParser
  split
  · rename_i failure hcause
    rw [← h.failure failure hcause]
    exact ⟨rfl, rfl⟩
  · exact ⟨rfl, rfl⟩

theorem exists_item_of_report (h : report ∈ parseReports text config) :
    ∃ item ∈ (Scanner.ofText text config.tabWidth).outcomes,
      report.line? = some (itemPosition item).line ∧
        report.column? = some (itemPosition item).column := by
  have htells := Parse.parseText_tells text config
  unfold parseReports at h
  split at h
  · rename_i parsed hparse
    obtain ⟨error, herror, rfl⟩ := List.mem_map.1 h
    obtain ⟨mentions, hmentioned⟩ := htells.mentioned
    have herrors : (parseText text config).errors = parsed.errors :=
      (Outcome.of_parsed (parsed_of_parse hparse)).2
    rw [← herrors, hmentioned.errors] at herror
    obtain ⟨mention, hmention, rfl⟩ := List.mem_map.1 herror
    have hin := hmentioned.isIn mention hmention
    refine ⟨_, List.mem_of_getElem? hin.item, ?_⟩
    rw [itemPosition, ← hin.noticed.position]
    exact ⟨rfl, rfl⟩
  · rename_i failure hparse
    obtain rfl := List.mem_singleton.1 h
    obtain ⟨error, herror, rfl⟩ := mapError_eq_error.1 hparse
    have hplaced := htells.placed error (Outcome.of_parsed_error herror)
    obtain ⟨item, hitem, hposition⟩ := hplaced.position
    exact ⟨item, hitem, hposition ▸ Failure.place_ofParser hplaced⟩

/-- Where the lines of a text up to that of a report have line feeds, the snippet of the report shows its
line as it was read, with the caret under its column. -/
theorem snippet_shows_line (hreport : report ∈ parseReports text config) {line column : Nat}
    (hline : report.line? = some line) (hcolumn : report.column? = some column)
    (hfed : Text.FedThrough text.toList line) :
    ∃ front behind, (Text.readLines text.toList)[line - 1]? = some (front ++ behind) ∧
      column = front.length + 1 ∧ Snippet.render text line column ≠ "" ∧
        Snippet.Shows (Snippet.render text line column) line column (front ++ behind) := by
  obtain ⟨item, hitem, hline', hcolumn'⟩ := exists_item_of_report hreport
  rw [hline', Option.some.injEq] at hline
  rw [hcolumn', Option.some.injEq] at hcolumn
  subst hline hcolumn
  obtain ⟨rest, hpoints⟩ := Scanner.pointsAt_of_mem_ofText hitem
  obtain ⟨front, behind, hcontent, hne, hfront⟩ := hpoints.readLine
  have hshows := Command.Snippet.render_shows (itemPosition item).column hne hfed hcontent
  exact ⟨front, behind, hcontent, hfront, hshows.ne_empty, hshows⟩

/-- A stray bracket on a line behind a line break of two characters. -/
theorem snippet_shows_line_pair :
    ∃ front behind, (Text.readLines "a\r\nb )\n".toList)[1]? = some (front ++ behind) ∧
      3 = front.length + 1 ∧ Snippet.render "a\r\nb )\n" 2 3 ≠ "" ∧
        Snippet.Shows (Snippet.render "a\r\nb )\n" 2 3) 2 3 (front ++ behind) := by
  have hreport : Report.mk .lexer (some 2) (some 3) "UnmatchedCloser"
      "unmatched closing bracket ')'" ∈ parseReports "a\r\nb )\n" .default := by
    decide +kernel
  have hfed : Text.FedThrough "a\r\nb )\n".toList 2 := by
    have htext : "a\r\nb )\n".toList = ['a', '\r', '\n', 'b', ' ', ')', '\n'] := rfl
    rintro (_ | ⟨c, _ | ⟨d, front⟩⟩) rest hrest -
    · simp [htext] at hrest
    · simp only [htext, List.cons_append, List.nil_append, List.cons.injEq] at hrest
      rw [← hrest.2.2]
      rfl
    · simp only [htext, List.cons_append, List.cons.injEq] at hrest
      have hmem : '\r' ∈ ['\n', 'b', ' ', ')', '\n'] := by simp [hrest.2.2]
      simp at hmem
  exact snippet_shows_line hreport rfl rfl hfed

/-- A carriage return alone is a line break to the lexer only, so the report of a bracket on the third
line is taken to be behind the text, and has no snippet. -/
theorem not_snippet_shows_line_return :
    ∃ report ∈ parseReports "a\r\r)\n" .default,
      report.line? = some 3 ∧ report.column? = some 1 ∧
        (Text.readLines "a\r\r)\n".toList)[2]? = some [')'] ∧
          Snippet.render "a\r\r)\n" 3 1 = "" := by
  decide +kernel

end Offside
