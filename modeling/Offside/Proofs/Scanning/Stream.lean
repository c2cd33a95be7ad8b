import Mathlib.Logic.Function.Iterate
import Offside.Proofs.Parsing.Truthful
import Offside.Text.Stream

/-!
# Streams read as cursors do

A stream slices its text at byte offsets where a cursor keeps what is left of it.  As long as a cursor
stands in the text, the stream at its position gives the same character and goes on to the position
behind it, and no slice fails.  So the characters of a stream are those of its text with a line feed for
every line break, and the slices between their offsets are the text as it is written.
-/

namespace Offside.Text

variable {text : String} {c : Char}

/-! ## Slices -/

@[simp] theorem suffixFrom?_zero (text : List Char) : suffixFrom? text 0 = some text := by
  unfold suffixFrom?
  rfl

theorem suffixFrom?_cons (c : Char) (text : List Char) (offset : Nat) :
    suffixFrom? (c :: text) (c.utf8Size + offset) = suffixFrom? text offset := by
  have hpos := c.utf8Size_pos
  obtain ⟨less, hless⟩ : ∃ less, c.utf8Size + offset = less + 1 :=
    ⟨c.utf8Size + offset - 1, by omega⟩
  rw [hless, suffixFrom?, ← hless, if_neg (by omega), Nat.add_sub_cancel_left]

theorem suffixFrom?_return (text : List Char) : suffixFrom? ('\r' :: text) 1 = some text :=
  (suffixFrom?_cons '\r' text 0).trans (suffixFrom?_zero text)

theorem suffixFrom?_append (before rest : List Char) :
    suffixFrom? (before ++ rest) (String.ofList before).utf8ByteSize = some rest := by
  induction before with
  | nil => exact suffixFrom?_zero rest
  | cons c before ih => rw [utf8ByteSize_cons, List.cons_append, suffixFrom?_cons, ih]

/-- The text from one byte offset up to another one. -/
def slice? (text : String) (start stop : Nat) : Option (List Char) := do
  let front ← suffixFrom? text.toList start
  let back ← suffixFrom? text.toList stop
  if back.length ≤ front.length then some (front.take (front.length - back.length)) else none

/-- The text from each of the offsets up to the next one, and from the last one up to its end. -/
def slices? (text : String) : List Nat → Option (List (List Char))
  | [] => some []
  | start :: offsets => do
      let piece ← slice? text start (offsets.head?.getD text.utf8ByteSize)
      let pieces ← slices? text offsets
      return piece :: pieces

theorem slice?_eq_some {start stop : Nat} {piece rest : List Char}
    (hstart : suffixFrom? text.toList start = some (piece ++ rest))
    (hstop : suffixFrom? text.toList stop = some rest) : slice? text start stop = some piece := by
  simp [slice?, hstart, hstop]

/-! ## Readings -/

namespace Cursor

variable {cursor next : Cursor} {written : List Char}

theorem Reads.rest_eq (h : cursor.Reads written c next) : cursor.rest = written ++ next.rest := by
  cases h <;> rfl

theorem Reads.lineFed_written (h : cursor.Reads written c next) : lineFed written = [c] := by
  cases h with
  | lineBreak hbreak => cases hbreak <;> rfl
  | character hfeed hreturn => rw [lineFed_of_ne hreturn, lineFed]

theorem Reads.lineFed_rest (h : cursor.Reads written c next) :
    lineFed cursor.rest = c :: lineFed next.rest := by
  cases h with
  | lineBreak hbreak =>
      cases hbreak with
      | feed | pair => rfl
      | carriage hhead => exact lineFed_of_return hhead
  | character hfeed hreturn => exact lineFed_of_ne hreturn _

theorem lineFed_advance (cursor : Cursor) :
    lineFed cursor.advance.rest = (lineFed cursor.rest).tail := by
  cases hread : cursor.read? with
  | none => rw [advance_of_none hread, (read?_eq_none_iff cursor).1 hread]; rfl
  | some reading =>
      obtain ⟨c, next⟩ := reading
      obtain ⟨written, hreads⟩ := exists_reads hread
      rw [advance_of_read? hread, hreads.lineFed_rest, List.tail_cons]

theorem current?_eq_head? (cursor : Cursor) : cursor.current? = (lineFed cursor.rest).head? := by
  cases hread : cursor.read? with
  | none => rw [current?, hread, (read?_eq_none_iff cursor).1 hread]; rfl
  | some reading =>
      obtain ⟨c, next⟩ := reading
      obtain ⟨written, hreads⟩ := exists_reads hread
      rw [current?, hread, hreads.lineFed_rest]
      rfl

def readings (cursor : Cursor) : List (Position × Char) :=
  match _h : cursor.read? with
  | none => []
  | some (c, next) => (cursor.position, c) :: next.readings
termination_by cursor.rest.length
decreasing_by exact length_lt_of_read? _h

theorem readings_of_none (h : cursor.read? = none) : cursor.readings = [] := by
  unfold readings
  split
  · rfl
  · rename_i hread
    rw [h] at hread
    cases hread

theorem readings_of_read? (h : cursor.read? = some (c, next)) :
    cursor.readings = (cursor.position, c) :: next.readings := by
  rw [readings]
  split
  · rename_i hread
    rw [h] at hread
    cases hread
  · rename_i hread
    rw [h] at hread
    cases hread
    rfl

theorem readings_advance (cursor : Cursor) : cursor.advance.readings = cursor.readings.tail := by
  cases hread : cursor.read? with
  | none => rw [advance_of_none hread, readings_of_none hread, List.tail_nil]
  | some reading =>
      obtain ⟨c, next⟩ := reading
      rw [advance_of_read? hread, readings_of_read? hread, List.tail_cons]

theorem head?_readings (cursor : Cursor) :
    cursor.readings.head? = cursor.current?.map (cursor.position, ·) := by
  cases hread : cursor.read? with
  | none => rw [readings_of_none hread, current?, hread]; rfl
  | some reading =>
      obtain ⟨c, next⟩ := reading
      rw [readings_of_read? hread, current?, hread]
      rfl

theorem map_readings (cursor : Cursor) : cursor.readings.map Prod.snd = lineFed cursor.rest := by
  fun_induction readings cursor with
  | case1 cursor hread => rw [(read?_eq_none_iff cursor).1 hread]; rfl
  | case2 cursor c next hread ih =>
      obtain ⟨written, hreads⟩ := exists_reads hread
      rw [List.map_cons, ih, hreads.lineFed_rest]

/-! ## Offsets of cursors -/

theorem StandsIn.suffixFrom?_offset (h : cursor.StandsIn text.toList) :
    suffixFrom? text.toList cursor.position.offset = some cursor.rest := by
  obtain ⟨before, htext, hmarks⟩ := h
  rw [htext, hmarks.offset, suffixFrom?_append]

theorem StandsIn.offset_of_nil (h : cursor.StandsIn text.toList) (hrest : cursor.rest = []) :
    cursor.position.offset = text.utf8ByteSize := by
  obtain ⟨before, htext, hmarks⟩ := h
  rw [hrest, List.append_nil] at htext
  rw [hmarks.offset, ← htext, String.ofList_toList]

theorem StandsIn.advance (h : cursor.StandsIn text.toList) : cursor.advance.StandsIn text.toList := by
  cases hread : cursor.read? with
  | none => rwa [advance_of_none hread]
  | some reading =>
      obtain ⟨c, next⟩ := reading
      rw [advance_of_read? hread]
      exact h.read? hread

/-- The slices between the offsets of all characters in front of a cursor are what is written there. -/
theorem StandsIn.slices?_readings (h : cursor.StandsIn text.toList) :
    ∃ pieces, slices? text (cursor.readings.map (·.1.offset)) = some pieces ∧
      pieces.flatten = cursor.rest ∧ pieces.map lineFed = cursor.readings.map ([·.2]) := by
  fun_induction readings cursor with
  | case1 cursor hread => exact ⟨[], rfl, ((read?_eq_none_iff cursor).1 hread).symm, rfl⟩
  | case2 cursor c next hread ih =>
      have hnext := h.read? hread
      obtain ⟨pieces, hpieces, hflatten, hfed⟩ := ih hnext
      obtain ⟨written, hreads⟩ := exists_reads hread
      have hstop : (next.readings.map (·.1.offset)).head?.getD text.utf8ByteSize =
          next.position.offset := by
        rw [List.head?_map, head?_readings]
        cases hcurrent : next.current? with
        | none => exact (hnext.offset_of_nil ((current?_eq_none_iff next).1 hcurrent)).symm
        | some c => rfl
      have hslice : slice? text cursor.position.offset next.position.offset = some written := by
        refine slice?_eq_some ?_ hnext.suffixFrom?_offset
        rw [h.suffixFrom?_offset, hreads.rest_eq]
      refine ⟨written :: pieces, ?_, ?_, ?_⟩
      · rw [List.map_cons, slices?, hstop, hslice, hpieces]
        rfl
      · rw [List.flatten_cons, hflatten, hreads.rest_eq]
      · rw [List.map_cons, List.map_cons, hfed, hreads.lineFed_written]

/-! ## Streams -/

def streamIn (text : String) (cursor : Cursor) : Stream :=
  ⟨text, cursor.position.offset, cursor.position⟩

theorem StandsIn.advance?_streamIn (h : cursor.StandsIn text.toList) :
    (cursor.streamIn text).advance? =
      some (cursor.current?.map (cursor.position, ·), cursor.advance.streamIn text) := by
  have hslice := h.suffixFrom?_offset
  cases hread : cursor.read? with
  | none =>
      rw [advance_of_none hread, current?, hread]
      rw [(read?_eq_none_iff cursor).1 hread] at hslice
      simp [Stream.advance?, streamIn, hslice]
  | some reading =>
      obtain ⟨c, next⟩ := reading
      rw [advance_of_read? hread, current?, hread]
      obtain ⟨written, hreads⟩ := exists_reads hread
      cases hreads with
      | lineBreak hbreak =>
          cases hbreak with
          | feed => simp [Stream.advance?, streamIn, hslice, Stream.newline, Position.newline]
          | pair =>
              simp [Stream.advance?, streamIn, hslice, suffixFrom?_return, Stream.newline,
                Position.newline]
          | carriage hhead =>
              simp [Stream.advance?, streamIn, hslice, suffixFrom?_return, hhead, Stream.newline,
                Position.newline]
      | character hfeed hreturn =>
          simp [Stream.advance?, streamIn, hslice, hfeed, hreturn, Position.advance_offset]

end Cursor

namespace Stream

/-- What so many requests for a character give, and the stream behind them. -/
def readings? : Nat → Stream → Option (List (Option (Position × Char)) × Stream)
  | 0, stream => some ([], stream)
  | count + 1, stream => do
      let (reading?, behind) ← stream.advance?
      let (more, last) ← behind.readings? count
      return (reading? :: more, last)

/-- The stream behind so many requests for a character of a text, where `readings` are all that can be
given and `rest` is left.  It is in step with the text: its offset is that of its position, a character
starts there or the text ends, and behind the last character a request changes nothing. -/
structure Follows (text : String) (readings : List (Position × Char)) (count : Nat)
    (rest : List Char) (stream : Stream) : Prop where
  asked : (ofText text).readings? count = some ((List.range count).map (readings[·]?), stream)
  reading : ∀ reading ∈ readings[count]?, reading.1 = stream.position
  ahead : lineFed rest = (lineFed text.toList).drop count
  source : stream.text = text
  offset : stream.offset = stream.position.offset
  boundary : String.Pos.Raw.IsValid text ⟨stream.offset⟩
  slice : suffixFrom? text.toList stream.offset = some rest
  position : stream.position.PointsAt rest text.toList
  atEnd : stream.atEnd = rest.isEmpty
  ended : readings.length ≤ count → stream.advance? = some (none, stream)

end Stream

namespace Cursor

variable {cursor : Cursor}

theorem StandsIn.readings?_streamIn (h : cursor.StandsIn text.toList) (count : Nat) :
    (cursor.streamIn text).readings? count =
      some ((List.range count).map (cursor.readings[·]?),
        (Cursor.advance^[count] cursor).streamIn text) := by
  induction count generalizing cursor with
  | zero => rfl
  | succ count ih =>
      rw [Stream.readings?, h.advance?_streamIn]
      simp only [Option.bind_eq_bind, Option.bind_some, ih h.advance]
      rw [List.range_succ_eq_map, List.map_cons, List.map_map, ← List.head?_eq_getElem?, head?_readings,
        readings_advance]
      simp [Function.comp_def]

theorem StandsIn.atEnd_streamIn (h : cursor.StandsIn text.toList) :
    (cursor.streamIn text).atEnd = cursor.rest.isEmpty := by
  obtain ⟨before, htext, hmarks⟩ := h
  have hbytes : text.utf8ByteSize =
      cursor.position.offset + (String.ofList cursor.rest).utf8ByteSize := by
    rw [hmarks.offset, ← String.utf8ByteSize_append, ← String.ofList_append, ← htext,
      String.ofList_toList]
  show decide (text.utf8ByteSize ≤ cursor.position.offset) = _
  cases hrest : cursor.rest with
  | nil =>
      rw [hrest] at hbytes
      exact decide_eq_true (Nat.le_of_eq hbytes)
  | cons c rest =>
      have hpos := c.utf8Size_pos
      rw [hrest, utf8ByteSize_cons] at hbytes
      exact decide_eq_false (by omega)

theorem StandsIn.isValid_offset (h : cursor.StandsIn text.toList) :
    String.Pos.Raw.IsValid text ⟨cursor.position.offset⟩ := by
  obtain ⟨before, htext, hmarks⟩ := h
  refine String.Pos.Raw.isValid_iff_exists_append.2
    ⟨.ofList before, .ofList cursor.rest, ?_, String.Pos.Raw.ext hmarks.offset⟩
  rw [← String.ofList_append, ← htext, String.ofList_toList]

/-! ## Cursors behind some characters -/

theorem StandsIn.iterate (h : cursor.StandsIn text.toList) (count : Nat) :
    (Cursor.advance^[count] cursor).StandsIn text.toList := by
  induction count generalizing cursor with
  | zero => exact h
  | succ count ih => exact ih h.advance

theorem lineFed_iterate (cursor : Cursor) (count : Nat) :
    lineFed (Cursor.advance^[count] cursor).rest = (lineFed cursor.rest).drop count := by
  induction count generalizing cursor with
  | zero => rfl
  | succ count ih => rw [Function.iterate_succ_apply, ih, lineFed_advance, List.drop_tail]

theorem readings_iterate (cursor : Cursor) (count : Nat) :
    (Cursor.advance^[count] cursor).readings = cursor.readings.drop count := by
  induction count generalizing cursor with
  | zero => rfl
  | succ count ih => rw [Function.iterate_succ_apply, ih, readings_advance, List.drop_tail]

theorem current?_iterate (cursor : Cursor) (count : Nat) :
    (Cursor.advance^[count] cursor).current? = (lineFed cursor.rest)[count]? := by
  rw [current?_eq_head?, lineFed_iterate, List.head?_drop]

theorem follows_iterate (text : String) (count : Nat) :
    ((Cursor.advance^[count] (ofText text)).streamIn text).Follows text (ofText text).readings count
      (Cursor.advance^[count] (ofText text)).rest := by
  have hstart := standsIn_ofText text
  have hstands := hstart.iterate count
  refine ⟨hstart.readings?_streamIn count, ?_, lineFed_iterate _ count, rfl, rfl,
    hstands.isValid_offset, hstands.suffixFrom?_offset, hstands, hstands.atEnd_streamIn,
    fun hcount => ?_⟩
  · rw [← List.head?_drop, ← readings_iterate, head?_readings]
    intro reading hreading
    obtain ⟨c, -, rfl⟩ := Option.map_eq_some_iff.1 hreading
    rfl
  · have hnone : (Cursor.advance^[count] (ofText text)).current? = none := by
      rw [current?_iterate, ← map_readings]
      simpa using hcount
    rw [hstands.advance?_streamIn, hnone, advance_of_none (by simpa [current?] using hnone)]
    rfl

end Cursor

end Offside.Text
