import Offside.Proofs.Grammar.Phrase
import Offside.Proofs.Parsing.Forward

/-!
# What a clean run has read

`Derives parser state derived` says that `parser` moves forward and that, if it records no error,
its value is derived from the tokens that it has consumed, at a depth that the limit allows.  The
rules follow the ways in which grammar functions are put together: what is read by one of them is
put in front of what the next one reads.
-/

namespace Offside.Parse

namespace State

def room (state : State) : Nat := state.config.maxDepth - state.nesting

def Faithful (state : State) : Prop := ∀ token, .ok token ∈ state.ahead → token.Faithful

structure Clean (before after : State) : Prop where
  faithful : before.Faithful
  errors : after.errors = before.errors

structure Reads (before after : State) (tokens : List Token) (depth : Nat) : Prop where
  ahead : before.ahead = tokens.map .ok ++ after.ahead
  nesting : after.nesting = before.nesting
  depth : depth ≤ before.room

variable {first second third : State}

theorem Moves.faithful (h : first.Moves second) (hfirst : first.Faithful) : second.Faithful := by
  intro token htoken
  obtain ⟨consumed, hconsumed⟩ := h.ahead
  apply hfirst
  rw [hconsumed]
  exact List.mem_append_right _ htoken

theorem Clean.split (h : first.Clean third) (hmoves : first.Moves second)
    (hmoves' : second.Moves third) : first.Clean second ∧ second.Clean third := by
  have hlength : second.errors.length ≤ first.errors.length := by
    rw [← h.errors]
    exact hmoves'.errors.length_le
  have hsame : first.errors = second.errors := hmoves.errors.eq_of_length_le hlength
  exact ⟨⟨h.faithful, hsame.symm⟩, ⟨hmoves.faithful h.faithful, by rw [h.errors, hsame]⟩⟩

theorem Reads.refl (state : State) : state.Reads state [] 0 :=
  ⟨rfl, rfl, Nat.zero_le _⟩

theorem Reads.trans {tokens tokens' : List Token} {depth depth' : Nat}
    (h : first.Reads second tokens depth) (h' : second.Reads third tokens' depth')
    (hconfig : second.config = first.config) :
    first.Reads third (tokens ++ tokens') (max depth depth') where
  ahead := by rw [h.ahead, h'.ahead, List.map_append, List.append_assoc]
  nesting := by rw [h'.nesting, h.nesting]
  depth := by
    have hdepth' := h'.depth
    rw [room, hconfig, h.nesting] at hdepth'
    exact Nat.max_le.2 ⟨h.depth, hdepth'⟩

end State

def Derives {α : Type} (parser : Parser α) (state : State)
    (derived : α → List Token → Nat → Prop) : Prop :=
  Ensures parser state
    (fun value after => state.Moves after ∧ (state.Clean after →
      ∃ tokens depth, derived value tokens depth ∧ state.Reads after tokens depth))
    fun error after => error.isFatal = true ∨ state.Moves after

namespace Derives

variable {α β : Type} {state : State} {derived : α → List Token → Nat → Prop}

theorem of_pure {value : α} (h : derived value [] 0) : Derives (pure value) state derived :=
  Ensures.of_pure ⟨.refl state, fun _ => ⟨[], 0, h, .refl state⟩⟩

theorem of_throw {error : Error} : Derives (throw error) state derived :=
  Ensures.of_throw (.inr (.refl state))

theorem of_exhausted : Derives Parser.exhausted state derived :=
  Ensures.of_exhausted

theorem weaken {parser : Parser α} {derived' : α → List Token → Nat → Prop}
    (h : Derives parser state derived)
    (hderived : ∀ value tokens depth, derived value tokens depth → derived' value tokens depth) :
    Derives parser state derived' := by
  apply Ensures.weaken h
  · rintro value after ⟨hmoves, hclean⟩
    constructor
    · exact hmoves
    · intro h
      obtain ⟨tokens, depth, hvalue, hreads⟩ := hclean h
      exact ⟨tokens, depth, hderived _ _ _ hvalue, hreads⟩
  · exact fun _ _ h => h

theorem behind {parser : Parser β} {middle : State} {first : List Token → Nat → Prop}
    {derived' : β → List Token → Nat → Prop} (hmoves : state.Moves middle)
    (hfirst : state.Clean middle → ∃ tokens depth, first tokens depth ∧
      state.Reads middle tokens depth)
    (h : Derives parser middle fun result tokens' depth' =>
      ∀ tokens depth, first tokens depth → derived' result (tokens ++ tokens') (max depth depth')) :
    Ensures parser middle
      (fun value after => state.Moves after ∧ (state.Clean after →
        ∃ tokens depth, derived' value tokens depth ∧ state.Reads after tokens depth))
      fun error after => error.isFatal = true ∨ state.Moves after := by
  apply Ensures.weaken h
  · rintro result after ⟨hmoves', hsecond⟩
    constructor
    · exact hmoves.trans hmoves'
    · intro hclean
      obtain ⟨hclean, hclean'⟩ := hclean.split hmoves hmoves'
      obtain ⟨tokens, depth, hvalue, hreads⟩ := hfirst hclean
      obtain ⟨tokens', depth', hresult, hreads'⟩ := hsecond hclean'
      exact ⟨_, _, hresult tokens depth hvalue, hreads.trans hreads' hmoves.config⟩
  · intro error after hafter
    cases hafter with
    | inl hfatal => exact .inl hfatal
    | inr hmoves' => exact .inr (hmoves.trans hmoves')

theorem bind {parser : Parser α} {next : α → Parser β} {derived' : β → List Token → Nat → Prop}
    (hsettled : state.Settled) (h : Derives parser state derived)
    (hnext : ∀ value middle, middle.Settled →
      Derives (next value) middle fun result tokens' depth' =>
        ∀ tokens depth, derived value tokens depth →
          derived' result (tokens ++ tokens') (max depth depth')) :
    Derives (parser >>= next) state derived' := by
  apply Ensures.bind h
  rintro value middle ⟨hmoves, hfirst⟩
  exact behind hmoves hfirst (hnext value middle (hmoves.settled hsettled))

theorem currentToken_bind {next : Token → Parser β} {derived' : β → List Token → Nat → Prop}
    (h : Derives (next state.current) state derived') :
    Derives (Parser.currentToken >>= next) state derived' :=
  h

theorem currentKind_bind {next : TokenKind → Parser β} {derived' : β → List Token → Nat → Prop}
    (h : Derives (next state.current.kind) state derived') :
    Derives (Parser.currentKind >>= next) state derived' :=
  h

theorem nextKind_bind {next : TokenKind → Parser β} {derived' : β → List Token → Nat → Prop}
    (h : Derives (next state.next.kind) state derived') :
    Derives (Parser.nextKind >>= next) state derived' :=
  h

theorem get_bind {next : State → Parser β} {derived' : β → List Token → Nat → Prop}
    (h : Derives (next state) state derived') : Derives (get >>= next) state derived' :=
  h

theorem note_bind {event : State → Event} {next : PUnit → Parser β}
    {derived' : β → List Token → Nat → Prop} (hsettled : state.Settled)
    (h : ∀ noted : State, noted.Settled → Derives (next ⟨⟩) noted derived') :
    Derives (modify (fun state => state.note (event state)) >>= next) state derived' := by
  apply Ensures.modify_bind
  have hnote : state.Moves (state.note (event state)) := .of_step (.note state _)
  have hnothing : state.Clean (state.note (event state)) → ∃ tokens depth,
      (tokens = [] ∧ depth = 0) ∧ state.Reads (state.note (event state)) tokens depth :=
    fun _ => ⟨[], 0, ⟨rfl, rfl⟩, rfl, rfl, Nat.zero_le _⟩
  apply behind hnote hnothing
  · apply (h _ (hnote.settled hsettled)).weaken
    rintro value tokens depth hvalue _ _ ⟨rfl, rfl⟩
    simpa using hvalue

theorem of_recorded {parser : Parser α} {middle : State} (hsettled : state.Settled)
    (hmiddle : state.Moves middle) (herrors : middle.errors ≠ state.errors)
    (h : Parser.Moving parser) :
    Ensures parser middle
      (fun value after => state.Moves after ∧ (state.Clean after →
        ∃ tokens depth, derived value tokens depth ∧ state.Reads after tokens depth))
      fun error after => error.isFatal = true ∨ state.Moves after := by
  apply (h middle (hmiddle.settled hsettled)).weaken
  · intro value after hmoves
    constructor
    · exact hmiddle.trans hmoves
    · intro hclean
      exact absurd (hclean.split hmiddle hmoves).1.errors herrors
  · intro error after hafter
    cases hafter with
    | inl hfatal => exact .inl hfatal
    | inr hmoves => exact .inr (hmiddle.trans hmoves)

theorem advance (h : state.current.kind ≠ .eof) :
    Derives Parser.advance state fun token tokens depth =>
      state.current = token ∧ token.Faithful ∧ tokens = [token] ∧ depth = 0 := by
  rcases State.advance_cases h with ⟨after, hadvance, hconsumes⟩ | ⟨failure, after, hadvance, _⟩
  · apply Ensures.of_advance hadvance
    constructor
    · exact .of_step (.consume hconsumes)
    · intro hclean
      have hmem : .ok state.current ∈ state.ahead := by
        rw [hconsumes.ahead]
        exact List.mem_cons_self
      exact ⟨[state.current], 0, ⟨rfl, hclean.faithful _ hmem, rfl, rfl⟩,
        ⟨by simpa using hconsumes.ahead, hconsumes.nesting, Nat.zero_le _⟩⟩
  · exact Ensures.of_advance hadvance (.inl rfl)

theorem nested {parser : Parser α} (hsettled : state.Settled)
    (h : ∀ deeper : State, deeper.Settled → Derives parser deeper derived) :
    Derives (Parser.nested parser) state fun value tokens depth =>
      ∃ inner, derived value tokens inner ∧ depth = inner + 1 := by
  apply Ensures.get_bind
  split
  · exact Ensures.of_throw (.inr (.refl state))
  · rename_i hroom
    apply Ensures.set_bind
    have hdeeper : state.Moves { state with nesting := state.nesting + 1 } :=
      .of_step (.renest state _)
    apply Ensures.bind (h _ (hdeeper.settled hsettled)).attempt
    intro result after hafter
    apply Ensures.modify_bind
    have hback : after.Moves { after with nesting := after.nesting - 1 } :=
      .of_step (.renest after _)
    cases result with
    | ok value =>
        obtain ⟨hmoves, hderived⟩ := hafter
        apply Ensures.of_pure
        constructor
        · exact hdeeper.trans (hmoves.trans hback)
        · intro hclean
          obtain ⟨tokens, depth, hvalue, hreads⟩ := hderived ⟨hclean.faithful, hclean.errors⟩
          refine ⟨tokens, depth + 1, ⟨depth, hvalue, rfl⟩, hreads.ahead, ?_, ?_⟩
          · have hnesting : after.nesting = state.nesting + 1 := hreads.nesting
            simp [hnesting]
          · have hdepth : depth ≤ state.config.maxDepth - (state.nesting + 1) := hreads.depth
            unfold State.room
            omega
    | error error =>
        apply Ensures.of_throw
        cases hafter with
        | inl hfatal => exact .inl hfatal
        | inr hmoves => exact .inr (hdeeper.trans (hmoves.trans hback))

/-! ## Single tokens -/

theorem expectOneOf {kinds : List TokenKind} (hkinds : TokenKind.eof ∉ kinds) :
    Derives (Parser.expectOneOf kinds) state fun token tokens depth =>
      token.kind ∈ kinds ∧ token.Faithful ∧ tokens = [token] ∧ depth = 0 := by
  apply currentToken_bind
  split
  · rename_i hmem
    have hmem : state.current.kind ∈ kinds := by simpa using hmem
    apply (advance fun heof => hkinds (heof ▸ hmem)).weaken
    rintro token tokens depth ⟨rfl, hfaithful, htokens, hdepth⟩
    exact ⟨hmem, hfaithful, htokens, hdepth⟩
  · exact .of_throw

theorem expect {kind : TokenKind} (hkind : kind ≠ .eof)
    (hplain : kind.carriesPayload = false) :
    Derives (Parser.expect kind) state fun _ tokens depth =>
      ∃ position, tokens = [.plain kind position] ∧ depth = 0 := by
  apply (expectOneOf (by simpa using hkind.symm)).weaken
  rintro token tokens depth ⟨hmem, hfaithful, htokens, hdepth⟩
  obtain rfl : token.kind = kind := by simpa using hmem
  exact ⟨token.position, by rw [htokens, ← hfaithful.eq_plain hplain], hdepth⟩

theorem advance_plain {kind : TokenKind} (hcurrent : state.current.kind = kind)
    (hkind : kind ≠ .eof) (hplain : kind.carriesPayload = false) :
    Derives Parser.advance state fun _ tokens depth =>
      ∃ position, tokens = [.plain kind position] ∧ depth = 0 := by
  apply (advance (by rwa [hcurrent])).weaken
  rintro token tokens depth ⟨rfl, hfaithful, htokens, hdepth⟩
  subst hcurrent
  exact ⟨state.current.position, by rw [htokens, ← hfaithful.eq_plain hplain], hdepth⟩

theorem identifier (hsettled : state.Settled) :
    Derives Parser.identifier state fun name tokens depth => tokens = [name.token] ∧ depth = 0 := by
  apply bind hsettled (expectOneOf (by simp))
  intro token middle hmiddle
  split
  · rename_i name hpayload
    apply of_pure
    rintro tokens depth ⟨hkind, -, rfl, rfl⟩
    have hkind : token.kind = .identifier := by simpa using hkind
    obtain ⟨kind, position, payload?⟩ := token
    cases hkind
    cases hpayload
    exact ⟨rfl, rfl⟩
  · exact .of_throw

end Derives

end Offside.Parse
