import Offside.Scan.Scanner

/-!
# Reading all tokens

A lexer is a scanner that counts its tokens and, as an iterator, ends after the last token or the
first failure.  What a scanner will give is a finite list of outcomes, after which every request
fails: that list is a token stream, and a prepared list of tokens is one too.
-/

namespace Offside.Scan

open Text (Position)

/-! ## Lexers -/

structure Lexer where
  scanner : Scanner
  /-- How many tokens it has given. -/
  produced : Nat
  /-- Whether it has given its last token or failed. -/
  finished : Bool

namespace Lexer

def ofText (text : String) (tabWidth : UInt64) : Lexer := ⟨.ofText text tabWidth, 0, false⟩

def next (lexer : Lexer) : Except LexFailure Token × Lexer :=
  match lexer.scanner.next with
  | (.ok token, after) =>
      (.ok token, ⟨after, lexer.produced + 1, lexer.finished || token.kind = .eof⟩)
  | (.error failure, after) => (.error failure, ⟨after, lexer.produced, true⟩)

/-- The next outcome, as long as neither the last token nor a failure was given. -/
def nextItem? (lexer : Lexer) : Option (Except LexFailure Token × Lexer) :=
  if lexer.finished then none else some lexer.next

end Lexer

/-! ## Outcomes -/

namespace Scanner

def outcomes (scanner : Scanner) : List (Except LexFailure Token) :=
  if _h : scanner.mode = .done then []
  else
    let result := scanner.next
    result.1 :: result.2.outcomes
termination_by scanner.measure
decreasing_by exact scanner.next_measure_lt _h

def finish (scanner : Scanner) : Scanner :=
  if _h : scanner.mode = .done then scanner else scanner.next.2.finish
termination_by scanner.measure
decreasing_by exact scanner.next_measure_lt _h

theorem finish_mode (scanner : Scanner) : scanner.finish.mode = .done := by
  fun_induction finish scanner with
  | case1 scanner h => exact h
  | case2 scanner h ih => exact ih

def tokens (scanner : Scanner) : Except LexFailure (List Token) := scanner.outcomes.mapM id

end Scanner

/-! ## Token streams -/

/-- The outcomes that are still to come, and where requests past them fail. -/
structure TokenStream where
  items : List (Except LexFailure Token)
  pastEnd : Position

namespace TokenStream

def next (stream : TokenStream) : Except LexFailure Token × TokenStream :=
  match stream.items with
  | item :: rest => (item, { stream with items := rest })
  | [] => (.error (.pastEndOfInput stream.pastEnd), stream)

def ofTokens (tokens : List Token) : TokenStream := ⟨tokens.map .ok, .start⟩

def ofScanner (scanner : Scanner) : TokenStream := ⟨scanner.outcomes, scanner.finish.position⟩

def ofText (text : String) (tabWidth : UInt64) : TokenStream :=
  ofScanner (.ofText text tabWidth)

/-- A stream of a scanner gives what the scanner gives, request by request. -/
theorem next_ofScanner (scanner : Scanner) :
    (ofScanner scanner).next = (scanner.next.1, ofScanner scanner.next.2) := by
  by_cases h : scanner.mode = .done
  · have hnext : scanner.next = (.error (.pastEndOfInput scanner.position), scanner) := by
      unfold Scanner.next
      rw [dif_pos h]
    have houtcomes : scanner.outcomes = [] := by
      unfold Scanner.outcomes
      rw [dif_pos h]
    have hfinish : scanner.finish = scanner := by
      unfold Scanner.finish
      rw [dif_pos h]
    simp [ofScanner, next, hnext, houtcomes, hfinish]
  · have houtcomes : scanner.outcomes = scanner.next.1 :: scanner.next.2.outcomes := by
      rw [Scanner.outcomes, dif_neg h]
    have hfinish : scanner.finish = scanner.next.2.finish := by
      rw [Scanner.finish, dif_neg h]
    simp [ofScanner, next, houtcomes, hfinish]

end TokenStream

end Offside.Scan
