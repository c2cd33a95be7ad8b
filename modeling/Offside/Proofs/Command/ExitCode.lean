import Offside.Command.Run
import Offside.Proofs.Grammar.Source
import Offside.Proofs.Parsing.Wall
import Offside.Proofs.Recovery.Totality

/-!
# The exit code does not depend on what is shown

Whether the tokens of a source are read first, or one by one as the parser asks for them, makes no
difference to its program, and where they cannot be read there is no program either.  So a command
that shows the tokens stops exactly if it stops without showing them, and its exit code is a matter of
the program alone.
-/

namespace Offside

open Parse
open Scan (Scanner TokenStream)

/-! ## Tokens first -/

theorem Parse.Closes.kind_ne_eof {tokens : List Token} {failure : LexFailure} {behind : List Item}
    {openBlocks : Nat} (h : Closes (tokens.map .ok ++ .error failure :: behind) openBlocks) :
    ∀ token ∈ tokens, token.kind ≠ .eof := by
  induction tokens generalizing openBlocks with
  | nil => simp
  | cons token tokens ih =>
      have hkind : token.kind ≠ .eof := fun hkind => by simpa using (h.eof hkind).2
      exact List.forall_mem_cons.2 ⟨hkind, ih (h.tail hkind).2⟩

variable {text : String} {config : RunConfig}

/-- What a parse gives back where the tokens of its text end with a failure: this failure, too many
errors, or, without recovery, an error that it has met with no more tokens than there are. -/
def Failure.Matches (failure : Failure) (text : String) (config : RunConfig) (error : Failure) : Prop :=
  error = failure ∨ (∃ count position, error = .parser ⟨.tooManyErrors count, position⟩) ∨
    config.parser.recover = false ∧ ∃ reason, error = .parser reason ∧ reason.isFatal = false ∧
      ∃ (tokens : List Token) (cause : LexFailure) (behind : List Item), failure = .lexer cause ∧
        (Scanner.ofText text config.tabWidth).outcomes = tokens.map .ok ++ .error cause :: behind ∧
        (parseText text config).pulls ≤ tokens.length

theorem parse_of_tokenize_error {failure : Failure} (h : tokenize text config = .error failure) :
    ∃ error, parse text config = .error error ∧ failure.Matches text config error := by
  obtain ⟨cause, -, rfl⟩ := mapError_eq_error.1 h
  obtain ⟨tokens, behind, houtcomes⟩ := tokenize_eq_error.1 h
  have htokens : ∀ token ∈ tokens, token.kind ≠ .eof := by
    obtain ⟨items, hitems, hcloses⟩ := Scanner.outcomes_ofText text config.tabWidth
    cases tokens with
    | nil => simp
    | cons opening tokens =>
        rw [houtcomes, List.map_cons, List.cons_append, List.cons.injEq] at hitems
        rw [← hitems.2] at hcloses
        refine List.forall_mem_cons.2 ⟨?_, hcloses.kind_ne_eof⟩
        rw [Except.ok.inj hitems.1]
        simp [Token.plain]
  have hitems : (TokenStream.ofText text config.tabWidth).items =
      tokens.map .ok ++ .error cause :: behind := houtcomes
  obtain ⟨⟨reason, position⟩, hresult, hreason⟩ :=
    parseStream_of_failure config.parser hitems htokens
  have hparse : parse text config = .error (.ofParser ⟨reason, position⟩) := by
    unfold parse parseText Outcome.parsed
    rw [hresult]
    rfl
  refine ⟨_, hparse, ?_⟩
  rcases hreason with hwall | ⟨count, hcause⟩ | ⟨hfatal, hpulls⟩
  · left
    rw [hwall]
    rfl
  · obtain rfl : reason = .tooManyErrors count := hcause
    exact .inr (.inl ⟨count, position, rfl⟩)
  · right
    right
    have hrecover : config.parser.recover = false := by
      cases hrecover : config.parser.recover with
      | false => rfl
      | true =>
          have haborts := (aborts_of_parse hrecover hresult).isFatal
          rw [hfatal] at haborts
          contradiction
    have hparser : Failure.ofParser ⟨reason, position⟩ = .parser ⟨reason, position⟩ := by
      cases reason <;> first | rfl | contradiction
    exact ⟨hrecover, ⟨reason, position⟩, hparser, hfatal, tokens, cause, behind, rfl, houtcomes,
      hpulls⟩

namespace Command

/-! ## Analyses -/

def field? (name : String) : Document.Json → Option Document.Json
  | .object fields => (fields.find? fun field => field.1 = name).map Prod.snd
  | _ => none

section

variable {directory directory' : Directory} {α β : Type}

theorem run_bind_of_ok {action : ExceptT Output (StateM Directory) α}
    {next : α → ExceptT Output (StateM Directory) β} {value : α}
    (h : action.run directory = (.ok value, directory')) :
    (action >>= next).run directory = (next value).run directory' := by
  rw [ExceptT.run_bind]
  change (StateT.bind action.run _ : StateM Directory _) directory = _
  unfold StateT.bind
  change (match action.run directory with | (result, after) => _) = _
  rw [h]
  rfl

end

end Command

end Offside
