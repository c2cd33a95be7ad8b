import Offside.Proofs.Scanning.Stream
import Offside.Scan.Context
import Offside.Scan.Window

/-!
# Windows keep in step with their text

A window holds two characters that its stream is ahead of.  It is given by the cursor at the first of
them, and each call takes the window of a cursor to that of the cursor behind the call.  So whatever is
called, the window shows the next two characters of the text and what is left of it as it is written.
-/

namespace Offside.Scan

open Text (Cursor Position Stream lineFed slices? suffixFrom?)

variable {text : String} {cursor : Cursor} {context : Context}

/-! ## Windows of cursors -/

def windowIn (text : String) (cursor : Cursor) : Window where
  stream := cursor.advance.advance.streamIn text
  current? := cursor.current?
  currentPosition := cursor.position
  next? := cursor.peek?
  nextPosition := cursor.advance.position

namespace Window

theorem pull?_streamIn (h : cursor.StandsIn text.toList) :
    pull? (cursor.streamIn text) =
      some ((cursor.position, cursor.current?), cursor.advance.streamIn text) := by
  rw [pull?, h.advance?_streamIn]
  cases hread : cursor.read? with
  | none => simp [Cursor.advance_of_none hread, Cursor.current?, hread, Cursor.streamIn]
  | some reading => simp [Cursor.current?, hread]

theorem ofStream?_streamIn (h : cursor.StandsIn text.toList) :
    ofStream? (cursor.streamIn text) = some (windowIn text cursor) := by
  simp only [ofStream?, pull?_streamIn h, Option.bind_eq_bind, Option.bind_some,
    pull?_streamIn h.advance]
  rfl

theorem advance?_windowIn (h : cursor.StandsIn text.toList) :
    (windowIn text cursor).advance? = some (cursor.current?, windowIn text cursor.advance) := by
  simp only [advance?, windowIn, pull?_streamIn h.advance.advance, Option.bind_eq_bind,
    Option.bind_some]
  rfl

theorem skip?_windowIn (h : cursor.StandsIn text.toList) (c : Char) :
    (windowIn text cursor).skip? c = some (cursor.isAt c,
      windowIn text (if cursor.isAt c then cursor.advance else cursor)) := by
  have hisAt : (windowIn text cursor).isAt c = cursor.isAt c := rfl
  rw [skip?, hisAt]
  split
  · rename_i hat
    simp [advance?_windowIn h, hat]
  · rename_i hat
    simp [hat]

theorem remaining_windowIn (h : cursor.StandsIn text.toList) :
    (windowIn text cursor).remaining = cursor.remaining := by
  show String.ofList ((suffixFrom? text.toList cursor.position.offset).getD []) = _
  rw [h.suffixFrom?_offset]
  rfl

end Window

/-! ## Calls -/

inductive Call where
  | advance
  | skip (c : Char)
deriving DecidableEq

namespace Call

def ask? : Call → Window → Option Window
  | .advance, window => window.advance?.map Prod.snd
  | .skip c, window => (window.skip? c).map Prod.snd

def inContext : Call → Context → Context
  | .advance, context => context.advance
  | .skip c, context => context.skip c

/-- What a call leaves of the characters that are ahead. -/
def leaves : Call → List Char → List Char
  | .advance, ahead => ahead.tail
  | .skip c, ahead => if ahead.head? = some c then ahead.tail else ahead

theorem skip_cursor (context : Context) (c : Char) :
    (context.skip c).cursor =
      if context.cursor.isAt c then context.cursor.advance else context.cursor := by
  unfold Context.skip
  split <;> rfl

theorem ask?_windowIn (h : context.cursor.StandsIn text.toList) (call : Call) :
    call.ask? (windowIn text context.cursor) =
      some (windowIn text (call.inContext context).cursor) := by
  cases call with
  | advance => rw [ask?, Window.advance?_windowIn h]; rfl
  | skip c => rw [ask?, Window.skip?_windowIn h, inContext, skip_cursor]; rfl

theorem exists_iterate_inContext (call : Call) (context : Context) :
    ∃ consumed, (call.inContext context).cursor = Cursor.advance^[consumed] context.cursor := by
  cases call with
  | advance => exact ⟨1, rfl⟩
  | skip c =>
      rw [inContext, skip_cursor]
      split
      · exact ⟨1, rfl⟩
      · exact ⟨0, rfl⟩

theorem lineFed_inContext (call : Call) (context : Context) :
    lineFed (call.inContext context).cursor.rest = call.leaves (lineFed context.cursor.rest) := by
  cases call with
  | advance => exact Cursor.lineFed_advance context.cursor
  | skip c =>
      rw [inContext, skip_cursor, leaves, ← Cursor.current?_eq_head?, apply_ite Cursor.rest,
        apply_ite lineFed, Cursor.lineFed_advance, Cursor.isAt]
      simp only [beq_iff_eq]

end Call

/-! ## Runs -/

def Window.after? (calls : List Call) (window : Window) : Option Window :=
  calls.foldlM (fun window call => call.ask? window) window

def Context.after (calls : List Call) (context : Context) : Context :=
  calls.foldl (fun context call => call.inContext context) context

/-- No call of a window fails, and it goes on with the cursor of the context that takes the same
calls. -/
theorem Window.after?_windowIn (h : context.cursor.StandsIn text.toList) (calls : List Call) :
    Window.after? calls (windowIn text context.cursor) =
      some (windowIn text (context.after calls).cursor) := by
  induction calls generalizing context with
  | nil => rfl
  | cons call calls ih =>
      have hbehind : (call.inContext context).cursor.StandsIn text.toList := by
        obtain ⟨consumed, hcursor⟩ := call.exists_iterate_inContext context
        rw [hcursor]
        exact h.iterate consumed
      rw [Window.after?, List.foldlM_cons, Call.ask?_windowIn h]
      exact ih hbehind

theorem Context.exists_iterate_after (calls : List Call) (context : Context) :
    ∃ consumed, (context.after calls).cursor = Cursor.advance^[consumed] context.cursor := by
  induction calls generalizing context with
  | nil => exact ⟨0, rfl⟩
  | cons call calls ih =>
      obtain ⟨first, hfirst⟩ := call.exists_iterate_inContext context
      obtain ⟨more, hmore⟩ := ih (call.inContext context)
      refine ⟨more + first, ?_⟩
      rw [Function.iterate_add_apply, ← hfirst]
      exact hmore

theorem Context.lineFed_after (calls : List Call) (context : Context) :
    lineFed (context.after calls).cursor.rest =
      calls.foldl (fun ahead call => call.leaves ahead) (lineFed context.cursor.rest) := by
  induction calls generalizing context with
  | nil => rfl
  | cons call calls ih =>
      rw [List.foldl_cons, ← call.lineFed_inContext]
      exact ih (call.inContext context)

/-! ## Windows of texts -/

/-- The window shows what is left of a text as it is written, the first two characters of it as they are
read, and the position of the first one. -/
structure Window.Shows (rest : List Char) (position : Position) (window : Window) : Prop where
  remaining : window.remaining = String.ofList rest
  current : window.current? = (lineFed rest)[0]?
  next : window.next? = (lineFed rest)[1]?
  position : window.currentPosition = position
  atEnd : window.atEnd = rest.isEmpty

theorem shows_windowIn (h : cursor.StandsIn text.toList) :
    (windowIn text cursor).Shows cursor.rest cursor.position := by
  refine ⟨Window.remaining_windowIn h, ?_, ?_, rfl, ?_⟩
  · exact Cursor.current?_iterate cursor 0
  · exact Cursor.current?_iterate cursor 1
  · rw [Bool.eq_iff_iff, List.isEmpty_iff, ← Cursor.current?_eq_none_iff]
    exact Option.isNone_iff_eq_none

/-- The characters of a stream are those of its text with a line feed for every line break, and the
slices between their offsets are the text.  Behind any number of requests it is in step with the text.
Then a window over it is so behind any calls: it shows what is left where a stream stands that has not
read ahead, and what is left are the characters that the calls leave. -/
theorem windows_in_step (text : String) :
    ∃ readings : List (Position × Char),
      readings.map Prod.snd = lineFed text.toList ∧
      (∃ pieces, slices? text (readings.map (·.1.offset)) = some pieces ∧
        pieces.flatten = text.toList ∧ pieces.map lineFed = readings.map ([·.2])) ∧
      ∀ count, ∃ (stream : Stream) (rest : List Char), stream.Follows text readings count rest ∧
        ∀ calls, ∃ (window : Window) (index : Nat) (shown : Stream) (left : List Char),
          (Window.ofStream? stream).bind (Window.after? calls) = some window ∧
            shown.Follows text readings index left ∧ window.Shows left shown.position ∧
              lineFed left = calls.foldl (fun ahead call => call.leaves ahead) (lineFed rest) := by
  have hstart := Cursor.standsIn_ofText text
  refine ⟨(Cursor.ofText text).readings, Cursor.map_readings _, hstart.slices?_readings,
    fun count => ?_⟩
  have hstands := hstart.iterate count
  refine ⟨_, _, Cursor.follows_iterate text count, fun calls => ?_⟩
  let context : Context := ⟨Cursor.advance^[count] (Cursor.ofText text), [], [], 0⟩
  have hrun := @Window.after?_windowIn text context hstands calls
  have hleft := context.lineFed_after calls
  obtain ⟨consumed, hcursor⟩ := context.exists_iterate_after calls
  rw [← Function.iterate_add_apply] at hcursor
  rw [hcursor] at hrun hleft
  refine ⟨_, consumed + count, _, _, ?_, Cursor.follows_iterate text _,
    shows_windowIn (hstart.iterate _), hleft⟩
  rw [Window.ofStream?_streamIn hstands]
  exact hrun

example :
    (Window.ofStream? (.ofText "é\r\nx")).bind (Window.after? [.advance, .skip 'x', .skip '\n']) =
      some ⟨⟨"é\r\nx", 5, ⟨2, 2, 5⟩⟩, some 'x', ⟨2, 1, 4⟩, none, ⟨2, 2, 5⟩⟩ := by
  decide +kernel

end Offside.Scan
