import Offside.Parse.Statement

/-!
# Running a parser

A grammar function is run with an amount of fuel that its tokens cannot use up.  A whole parse gives
the program or the error that stopped it, the recorded errors and the journal.
-/

namespace Offside.Parse

open Scan (TokenStream)

def State.run {α : Type} (parser : Nat → Parser α) (state : State) : Except Error α × State :=
  let exhausted : Except Error α × State :=
    (.error (.ofFailure (.pastEndOfInput state.current.position)), state)
  ((parser state.fuel).run state).getD exhausted

structure Outcome where
  result : Except Error Block
  /-- The recorded errors, oldest first. -/
  errors : List Error
  /-- What happened, oldest first. -/
  journal : List Event

def parseStream (stream : TokenStream) (config : Config) : Outcome :=
  match State.ofStream stream config with
  | .error error => ⟨.error error, [], []⟩
  | .ok state =>
      let result := state.run Parser.program
      ⟨result.1, result.2.errors, result.2.journal.reverse⟩

structure Parsed where
  block : Block
  errors : List Error

/-- The program with its recorded errors, unless the parse was stopped. -/
def Outcome.parsed (outcome : Outcome) : Except Error Parsed :=
  outcome.result.map fun block => ⟨block, outcome.errors⟩

end Offside.Parse
