import Offside.Proofs.Grammar.Source
import Offside.Proofs.Parsing.Invariants
import Offside.Proofs.Scanning.Lossless

/-!
# Truthful positions

A position counts what the text has in front of it: the bytes, the line breaks and the characters
behind the last one.  Reading keeps it so, and positions only grow.  Every token and every failure has
the position of a cursor that was read, so none of them lies within a character or a line break.
-/

namespace Offside

namespace Text

/-! ## Positions in a text -/

/-- A cut between the two texts parts no line break. -/
def CleanCut (before behind : List Char) : Prop :=
  ¬ (before.getLast? = some '\r' ∧ behind.head? = some '\n')

theorem CleanCut.tail {c : Char} {before behind : List Char} (h : CleanCut (c :: before) behind) :
    CleanCut before behind := by
  rintro ⟨hlast, hhead⟩
  exact h ⟨by simp [List.getLast?_cons, hlast], hhead⟩

theorem lineFed_append {before behind : List Char} (h : CleanCut before behind) :
    lineFed (before ++ behind) = lineFed before ++ lineFed behind := by
  fun_induction lineFed before with
  | case1 => rfl
  | case2 rest ih =>
      rw [List.cons_append, List.cons_append, lineFed, ih h.tail.tail, List.cons_append]
  | case3 rest hpair ih =>
      have hhead : (rest ++ behind).head? ≠ some '\n' := by
        cases rest with
        | nil => exact fun hhead => h ⟨rfl, hhead⟩
        | cons c rest =>
            intro hhead
            obtain rfl : c = '\n' := by simpa using hhead
            exact hpair rest rfl
      rw [List.cons_append, lineFed_of_return hhead, ih h.tail, List.cons_append]
  | case4 c rest hpair hreturn ih =>
      rw [List.cons_append, lineFed_of_ne hreturn, ih h.tail, List.cons_append]

/-- The position counts what stands in front of it: the bytes, the line breaks, and the characters
behind the last line break. -/
structure Position.Marks (position : Position) (before rest : List Char) : Prop where
  offset : position.offset = (String.ofList before).utf8ByteSize
  line : position.line = 1 + (lineFed before).count '\n'
  column : position.column = 1 + ((lineFed before).reverse.takeWhile (· != '\n')).length
  cleanCut : CleanCut before rest

/-- The position is where `rest` starts in the text. -/
def Position.PointsAt (position : Position) (rest text : List Char) : Prop :=
  ∃ before, text = before ++ rest ∧ position.Marks before rest

theorem Position.Marks.behind_break {position : Position} {before text rest : List Char}
    (h : position.Marks before (text ++ rest)) (hbreak : LineBreak text rest) :
    (position.newline text.length).Marks (before ++ text) rest := by
  have hfed : lineFed (before ++ text) = lineFed before ++ ['\n'] := by
    have hcut : CleanCut before text := by
      cases hbreak <;> exact h.cleanCut
    rw [lineFed_append hcut]
    cases hbreak <;> rfl
  have hbytes : (String.ofList text).utf8ByteSize = text.length := by
    cases hbreak <;> rfl
  refine ⟨?_, ?_, ?_, ?_⟩
  · rw [String.ofList_append, String.utf8ByteSize_append, hbytes, newline, h.offset]
  · rw [hfed, List.count_append, newline, h.line, Nat.add_assoc]
    rfl
  · simp [hfed, newline]
  · cases hbreak with
    | feed | pair => simp [CleanCut]
    | carriage hhead => exact fun hcut => hhead hcut.2

theorem Position.Marks.behind {position : Position} {before rest : List Char} {c : Char}
    (h : position.Marks before (c :: rest)) (hfeed : c ≠ '\n') (hreturn : c ≠ '\r') :
    (position.advance c).Marks (before ++ [c]) rest := by
  have hfed : lineFed (before ++ [c]) = lineFed before ++ [c] := by
    have hcut : CleanCut before [c] := h.cleanCut
    rw [lineFed_append hcut, lineFed_of_ne hreturn, lineFed]
  refine ⟨?_, ?_, ?_, ?_⟩
  · rw [advance_offset, String.ofList_append, String.utf8ByteSize_append, h.offset, utf8ByteSize_cons]
    rfl
  · simp [hfed, advance, hfeed, h.line]
  · simp [hfed, advance, hfeed, h.column, Nat.add_assoc]
  · simp [CleanCut, hreturn]

namespace Cursor

variable {text : List Char} {cursor next after : Cursor} {c : Char}

def StandsIn (text : List Char) (cursor : Cursor) : Prop :=
  cursor.position.PointsAt cursor.rest text

theorem standsIn_ofText (text : String) : (ofText text).StandsIn text.toList :=
  ⟨[], rfl, rfl, rfl, rfl, by simp [CleanCut]⟩

inductive Reads : Cursor → List Char → Char → Cursor → Prop where
  | lineBreak {position : Position} {written rest : List Char} (h : LineBreak written rest) :
      Reads ⟨written ++ rest, position⟩ written '\n' ⟨rest, position.newline written.length⟩
  | character {position : Position} {c : Char} {rest : List Char} (hfeed : c ≠ '\n')
      (hreturn : c ≠ '\r') : Reads ⟨c :: rest, position⟩ [c] c ⟨rest, position.advance c⟩

theorem exists_reads (hread : cursor.read? = some (c, next)) :
    ∃ written, cursor.Reads written c next := by
  obtain ⟨rest, position⟩ := cursor
  unfold Cursor.read? at hread
  split at hread
  · cases hread
  · rename_i first tail hrest
    obtain rfl : rest = first :: tail := hrest
    split at hread
    · rename_i hreturn
      subst hreturn
      split at hread
      · cases hread
        exact ⟨['\r', '\n'], .lineBreak (.pair _)⟩
      · rename_i hpair
        have hbreak : LineBreak ['\r'] tail := by
          refine .carriage fun hhead => ?_
          obtain ⟨more, hmore⟩ := List.head?_eq_some_iff.1 hhead
          exact hpair more hmore
        cases hread
        exact ⟨['\r'], .lineBreak hbreak⟩
    · rename_i hreturn
      cases hread
      by_cases hfeed : c = '\n'
      · subst hfeed
        exact ⟨['\n'], .lineBreak (.feed _)⟩
      · exact ⟨[c], .character hfeed hreturn⟩

theorem StandsIn.read? (h : cursor.StandsIn text) (hread : cursor.read? = some (c, next)) :
    next.StandsIn text := by
  obtain ⟨before, rfl, hmarks⟩ := h
  obtain ⟨written, hreads⟩ := exists_reads hread
  cases hreads with
  | lineBreak hbreak =>
      exact ⟨before ++ written, (List.append_assoc ..).symm, hmarks.behind_break hbreak⟩
  | character hfeed hreturn =>
      exact ⟨before ++ [c], List.append_cons .., hmarks.behind hfeed hreturn⟩

theorem StandsIn.reaches (h : cursor.StandsIn text) (hreaches : cursor.Reaches after) :
    after.StandsIn text := by
  induction hreaches with
  | refl => exact h
  | read hread _ ih => exact ih (h.read? hread)

theorem Reaches.offset_le (h : cursor.Reaches after) :
    cursor.position.offset ≤ after.position.offset := by
  induction h with
  | refl => exact Nat.le_refl _
  | @read cursor next after c hread _ ih =>
      have hnext : cursor.position.offset ≤ next.position.offset := by
        unfold Cursor.read? Position.advance Position.newline at hread
        grind
      exact Nat.le_trans hnext ih

end Cursor

end Text

/-! ## Outcomes -/

namespace Scan

open Parse (Item)
open Text (Cursor Position)

def itemPosition : Item → Position
  | .ok token => token.position
  | .error failure => failure.position

namespace Scanner

variable {scanner : Scanner} {before : Cursor} {item : Item}

theorem Gives.place {after : Scanner} (h : Gives before (item, after)) :
    ∃ place, before.Reaches place ∧ place.Reaches after.context.cursor ∧
      itemPosition item = place.position := by
  cases item with
  | ok token =>
      obtain ⟨start, hskips, hcuts⟩ := h
      obtain ⟨place, hplace, hafter, hposition⟩ := hcuts.place
      exact ⟨place, hskips.reaches.trans hplace, hafter, hposition⟩
  | error failure => exact ⟨_, h.1.reaches, .refl _, h.2⟩

theorem exists_gives_of_mem (h : item ∈ scanner.outcomes) :
    ∃ before after, scanner.context.cursor.Reaches before ∧ Gives before (item, after) := by
  fun_induction outcomes scanner with
  | case1 => cases h
  | case2 scanner hmode result ih =>
      have hgives : Gives scanner.context.cursor (result.1, result.2) := next_gives scanner
      rcases List.mem_cons.1 h with rfl | hmem
      · exact ⟨_, _, .refl _, hgives⟩
      · obtain ⟨place, hplace, hafter, -⟩ := hgives.place
        obtain ⟨before, after, hreaches, hitem⟩ := ih hmem
        exact ⟨before, after, (hplace.trans hafter).trans hreaches, hitem⟩

theorem exists_place_of_mem (h : item ∈ scanner.outcomes) :
    ∃ place, scanner.context.cursor.Reaches place ∧ itemPosition item = place.position := by
  obtain ⟨before, after, hreaches, hgives⟩ := exists_gives_of_mem h
  obtain ⟨place, hplace, -, hposition⟩ := hgives.place
  exact ⟨place, hreaches.trans hplace, hposition⟩

theorem pointsAt_of_mem_ofText {text : String} {tabWidth : UInt64}
    (h : item ∈ (ofText text tabWidth).outcomes) :
    ∃ rest, (itemPosition item).PointsAt rest text.toList := by
  obtain ⟨place, hplace, hposition⟩ := exists_place_of_mem h
  exact ⟨place.rest, hposition ▸ (Text.Cursor.standsIn_ofText text).reaches hplace⟩

theorem outcomes_ordered (scanner : Scanner) :
    scanner.outcomes.Pairwise fun item later =>
      (itemPosition item).offset ≤ (itemPosition later).offset := by
  fun_induction outcomes scanner with
  | case1 => exact .nil
  | case2 scanner hmode result ih =>
      refine .cons (fun later hlater => ?_) ih
      have hgives : Gives scanner.context.cursor (result.1, result.2) := next_gives scanner
      obtain ⟨place, -, hafter, hposition⟩ := hgives.place
      obtain ⟨place', hplace', hposition'⟩ := exists_place_of_mem hlater
      rw [hposition, hposition']
      exact (hafter.trans hplace').offset_le

end Scanner

end Scan

/-! ## Names -/

open Text (Position)
open Scan (Scanner itemPosition)

/-- The text spells the name at its position, and the word is not longer than the name. -/
def Identifier.IsSpelledIn (text : List Char) (name : Identifier) : Prop :=
  ∃ rest, name.position.PointsAt (name.name.toList ++ rest) text ∧ Ends rest

theorem Scan.Cuts.isSpelledIn {text : List Char} {name : Identifier} {start after : Text.Cursor}
    {token : Token} (h : Cuts start token after) (hstart : start.StandsIn text)
    (hpayload : token.payload? = some (.identifier name.name))
    (hposition : token.position = name.position) : name.IsSpelledIn text := by
  obtain ⟨written, hcovers, hspells⟩ := h.text
  generalize hrest : after.rest = rest at hspells
  cases hspells with
  | identifier hends =>
      cases hpayload
      refine ⟨rest, ?_, hends⟩
      rw [← hposition, h.identifier rfl, ← hrest, ← hcovers.rest]
      exact hstart
  | _ => cases hpayload

/-- Every outcome for a text has the position at which it stands, and these positions never go back;
and the text spells every name of its program at the position that the name has. -/
theorem positions_truthful (text : String) (config : RunConfig) :
    (∀ item ∈ (Scanner.ofText text config.tabWidth).outcomes,
        ∃ rest, (itemPosition item).PointsAt rest text.toList) ∧
      ((Scanner.ofText text config.tabWidth).outcomes.Pairwise fun item later =>
        (itemPosition item).offset ≤ (itemPosition later).offset) ∧
      match parse text config with
      | .ok parsed => ∀ name ∈ Block.names parsed.block, name.IsSpelledIn text.toList
      | .error _ => True := by
  have hstart := Text.Cursor.standsIn_ofText text
  refine ⟨fun item => Scanner.pointsAt_of_mem_ofText, Scanner.outcomes_ordered _, ?_⟩
  split
  · rename_i parsed hparse
    intro name hname
    have hresult := (Parse.Outcome.of_parsed (parsed_of_parse hparse)).1
    obtain ⟨token, htoken, hpayload, hposition⟩ :=
      (Parse.drawnFrom_of_parseStream hresult).name name hname
    obtain ⟨before, after, hreaches, start, hskips, hcuts⟩ := Scanner.exists_gives_of_mem htoken
    exact hcuts.isSpelledIn (hstart.reaches (hreaches.trans hskips.reaches)) hpayload hposition
  · trivial

/-- A name behind a character of two bytes and behind a line break of two characters. -/
theorem positions_truthful_joined :
    (parse "f(\"é\",\r\n g)\n" .default).toOption.map (Block.names ·.block) =
        some [⟨"f", ⟨1, 1, 0⟩⟩, ⟨"g", ⟨2, 2, 10⟩⟩] ∧
      Identifier.IsSpelledIn "f(\"é\",\r\n g)\n".toList ⟨"g", ⟨2, 2, 10⟩⟩ := by
  have hnames : (parse "f(\"é\",\r\n g)\n" .default).toOption.map (Block.names ·.block) =
      some [⟨"f", ⟨1, 1, 0⟩⟩, ⟨"g", ⟨2, 2, 10⟩⟩] := by decide +kernel
  obtain ⟨-, -, hspelled⟩ := positions_truthful "f(\"é\",\r\n g)\n" .default
  refine ⟨hnames, ?_⟩
  split at hspelled
  · rename_i parsed hparse
    rw [hparse] at hnames
    have hblock : Block.names parsed.block = _ := Option.some.inj hnames
    apply hspelled
    rw [hblock]
    exact .tail _ (.head _)
  · rename_i hparse
    rw [hparse] at hnames
    contradiction

end Offside
