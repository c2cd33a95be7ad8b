import Offside.Proofs.Grammar.Follow
import Offside.Proofs.Parsing.Moves
import Offside.Proofs.Parsing.Truthful
import Offside.Proofs.Scanning.Balance

/-!
# Errors and the tokens that they mention

An error is noticed at the current token and says what this token is.  It is recorded before anything
else is consumed, so the recorded errors mention the tokens of the stream in their order; and behind an
error at an error token this token is consumed, so no error token is mentioned twice.
-/

namespace Offside

theorem Token.Faithful.eq_error {token : Token} (h : token.Faithful) {fault : Fault}
    (hfault : token.fault? = some fault) : token = .error fault token.position := by
  obtain ⟨kind, position, payload?⟩ := token
  unfold fault? at hfault
  split at hfault
  · rename_i found hpayload
    obtain rfl : payload? = some (.error found) := hpayload
    obtain rfl : found = fault := Option.some.inj hfault
    obtain rfl : TokenKind.error = kind := h
    rfl
  · cases hfault

namespace Parse

/-! ## Errors at tokens -/

/-- What the cause tells of the token is so, and the token could not stand where it was met. -/
def Cause.Fits : Cause → Token → Prop
  | .unexpected expected received, token => received = token.kind ∧ received ∉ expected
  | .expectedExpression received, token =>
      received = token.kind ∧ Grammar.startsAtom received = false
  | .lexical fault, token => token = .error fault token.position
  | .nestingTooDeep _, _ => True
  | .failed _, _ | .tooManyErrors _, _ => False

structure Error.NoticedAt (error : Error) (token : Token) : Prop where
  position : error.position = token.position
  fits : error.cause.Fits token

variable {token : Token} {kinds : List TokenKind}

theorem Error.noticedAt_lexical (hfaithful : token.Faithful) {fault : Fault}
    (hfault : token.fault? = some fault) :
    Error.NoticedAt ⟨.lexical fault, token.position⟩ token :=
  ⟨rfl, hfaithful.eq_error hfault⟩

theorem Error.noticedAt_unexpected (hfaithful : token.Faithful) (hkind : token.kind ∉ kinds) :
    (Error.unexpected kinds token).NoticedAt token := by
  unfold Error.unexpected
  split
  · rename_i fault hfault
    exact noticedAt_lexical hfaithful hfault
  · exact ⟨rfl, rfl, hkind⟩

theorem Error.noticedAt_expectedExpression (hfaithful : token.Faithful)
    (hkind : Grammar.startsAtom token.kind = false) :
    (Error.expectedExpression token).NoticedAt token := by
  unfold Error.expectedExpression
  split
  · rename_i fault hfault
    exact noticedAt_lexical hfaithful hfault
  · exact ⟨rfl, rfl, hkind⟩

structure Error.PlacedIn (items : List Item) (error : Error) : Prop where
  position : ∃ item ∈ items, error.position = Scan.itemPosition item
  failure : ∀ failure, error.cause = .failed failure → failure.position = error.position

theorem Error.PlacedIn.longer {items : List Item} {error : Error} (h : error.PlacedIn items)
    (behind : List Item) : error.PlacedIn (items ++ behind) where
  position := h.position.imp fun _ hitem => ⟨List.mem_append_left behind hitem.1, hitem.2⟩
  failure := h.failure

theorem Error.NoticedAt.placedIn {items : List Item} {error : Error} (h : error.NoticedAt token)
    (htoken : .ok token ∈ items) : error.PlacedIn items where
  position := ⟨_, htoken, h.position⟩
  failure failure hcause := by
    have hfits := h.fits
    rw [hcause] at hfits
    exact hfits.elim

theorem Error.placedIn_ofFailure {items : List Item} {failure : LexFailure}
    (h : .error failure ∈ items) : (Error.ofFailure failure).PlacedIn items where
  position := ⟨_, h, rfl⟩
  failure := by
    rintro _ ⟨⟩
    rfl

/-! ## Mentions -/

/-- A recorded error with the token at which it was noticed, and the place of this token in its
stream. -/
structure Mention where
  error : Error
  token : Token
  place : Nat

/-- The stream has the token at this place, and the error was noticed at it. -/
structure Mention.IsIn (items : List Item) (mention : Mention) : Prop where
  item : items[mention.place]? = some (.ok mention.token)
  noticed : mention.error.NoticedAt mention.token

/-- No mention goes back in the stream, and none comes back to an error token. -/
structure Mention.Precedes (mention later : Mention) : Prop where
  place_le : mention.place ≤ later.place
  place_lt : mention.token.kind = .error → mention.place < later.place

/-- The recorded errors are those of the mentions, in the order of the stream. -/
structure Mentioned (items : List Item) (mentions : List Mention) (errors : List Error) : Prop where
  errors : errors = mentions.map (·.error)
  isIn : ∀ mention ∈ mentions, mention.IsIn items
  ordered : mentions.Pairwise Mention.Precedes

theorem Mentioned.append {items : List Item} {mentions : List Mention} {errors : List Error}
    {mention : Mention} (h : Mentioned items mentions errors) (hmention : mention.IsIn items)
    (hlast : ∀ earlier ∈ mentions, earlier.Precedes mention) :
    Mentioned items (mentions ++ [mention]) (errors ++ [mention.error]) where
  errors := by rw [h.errors, List.map_append, List.map_singleton]
  isIn := List.forall_mem_append.2 ⟨h.isIn, List.forall_mem_singleton.2 hmention⟩
  ordered := List.pairwise_append.2 ⟨h.ordered, List.pairwise_singleton _ _, by simpa using hlast⟩

theorem Mentioned.longer {items : List Item} {mentions : List Mention} {errors : List Error}
    (h : Mentioned items mentions errors) (behind : List Item) :
    Mentioned (items ++ behind) mentions errors where
  errors := h.errors
  isIn mention hmem := by
    have hin := h.isIn mention hmem
    have hplace := (List.getElem?_eq_some_iff.1 hin.item).choose
    exact ⟨by rw [List.getElem?_append_left hplace, hin.item], hin.noticed⟩
  ordered := h.ordered

/-! ## Parsers on their way through a stream -/

def Terminated : List Item → Prop
  | [] => False
  | .error _ :: _ => True
  | .ok token :: rest => token.kind = .eof ∨ Terminated rest

theorem Terminated.tail {rest : List Item} (h : Terminated (.ok token :: rest))
    (hkind : token.kind ≠ .eof) : Terminated rest :=
  h.resolve_left hkind

theorem Closes.terminated {items : List Item} {openBlocks : Nat} (h : Closes items openBlocks) :
    Terminated items := by
  induction items generalizing openBlocks with
  | nil => exact h
  | cons item rest ih =>
      cases item with
      | error failure => trivial
      | ok token =>
          by_cases hkind : token.kind = .eof
          · exact .inl hkind
          · exact .inr (ih (h.tail hkind).2)

theorem Terminated.untilEof {items : List Item} (h : Terminated items) :
    Terminated (untilEof items) := by
  induction items with
  | nil => exact h
  | cons item rest ih =>
      cases item with
      | error failure => trivial
      | ok token =>
          rw [Parse.untilEof]
          split
          · rename_i hkind
            exact .inl hkind
          · rename_i hkind
            exact .inr (ih (h.tail hkind))

theorem terminated_ofText (text : String) (tabWidth : UInt64) :
    Terminated (Scan.Scanner.ofText text tabWidth).outcomes := by
  obtain ⟨items, hitems, hcloses⟩ := Scan.Scanner.outcomes_ofText text tabWidth
  rw [hitems]
  exact .inr hcloses.terminated

namespace State

variable {items : List Item} {state after : State} {error : Error}

/-- The parser is at the place of the stream that its count of tokens tells, and its errors mention
tokens up to this place. -/
structure Tracks (items : List Item) (mentions : List Mention) (state : State) : Prop where
  faithful : ∀ token, .ok token ∈ items → token.Faithful
  settled : state.Settled
  ahead : state.ahead = items.drop state.consumed
  terminated : Terminated state.ahead
  mentioned : Mentioned items mentions state.errors
  place_le : ∀ mention ∈ mentions, mention.place ≤ state.consumed

def Tracked (items : List Item) (state : State) : Prop := ∃ mentions, state.Tracks items mentions

def Unmentioned (items : List Item) (state : State) : Prop :=
  ∃ mentions, state.Tracks items mentions ∧
    ∀ mention ∈ mentions, mention.token.kind = .error → mention.place < state.consumed

structure Stops (items : List Item) (error : Error) (after : State) : Prop where
  fatal : error.isFatal = true
  mentioned : ∃ mentions, Mentioned items mentions after.errors
  placed : error.PlacedIn items

theorem Tracks.item {mentions : List Mention} (h : state.Tracks items mentions) :
    items[state.consumed]? = some (.ok state.current) := by
  rw [← List.head?_drop, ← h.ahead, head_ahead]

theorem Tracks.faithful_current {mentions : List Mention} (h : state.Tracks items mentions) :
    state.current.Faithful :=
  h.faithful _ (List.mem_of_getElem? h.item)

theorem Tracks.note {mentions : List Mention} (h : state.Tracks items mentions) (event : Event) :
    (state.note event).Tracks items mentions :=
  ⟨h.faithful, h.settled, h.ahead, h.terminated, h.mentioned, h.place_le⟩

theorem Tracks.renest {mentions : List Mention} (h : state.Tracks items mentions) (nesting : Nat) :
    { state with nesting }.Tracks items mentions :=
  ⟨h.faithful, h.settled, h.ahead, h.terminated, h.mentioned, h.place_le⟩

theorem Unmentioned.tracked (h : state.Unmentioned items) : state.Tracked items :=
  ⟨h.choose, h.choose_spec.1⟩

theorem Unmentioned.faithful_current (h : state.Unmentioned items) : state.current.Faithful :=
  h.choose_spec.1.faithful_current

theorem Unmentioned.mentioned (h : state.Unmentioned items) :
    ∃ mentions, Mentioned items mentions state.errors :=
  ⟨_, h.choose_spec.1.mentioned⟩

theorem Unmentioned.current_mem (h : state.Unmentioned items) : .ok state.current ∈ items :=
  List.mem_of_getElem? h.choose_spec.1.item

theorem Unmentioned.settled (h : state.Unmentioned items) : state.Settled := h.choose_spec.1.settled

theorem Unmentioned.note (h : state.Unmentioned items) (event : Event) :
    (state.note event).Unmentioned items := by
  obtain ⟨mentions, htracks, hplaces⟩ := h
  exact ⟨mentions, htracks.note event, hplaces⟩

theorem Unmentioned.renest (h : state.Unmentioned items) (nesting : Nat) :
    { state with nesting }.Unmentioned items := by
  obtain ⟨mentions, htracks, hplaces⟩ := h
  exact ⟨mentions, htracks.renest nesting, hplaces⟩

theorem Tracked.unmentioned (h : state.Tracked items) (hkind : state.current.kind ≠ .error) :
    state.Unmentioned items := by
  obtain ⟨mentions, htracks⟩ := h
  refine ⟨mentions, htracks, fun mention hmem herror => ?_⟩
  apply Nat.lt_of_le_of_ne (htracks.place_le mention hmem)
  intro hplace
  have hitem := (htracks.mentioned.isIn mention hmem).item
  rw [hplace, htracks.item, Option.some.injEq, Except.ok.injEq] at hitem
  rw [hitem] at hkind
  contradiction

theorem Unmentioned.keep (h : state.Unmentioned items) (herror : error.NoticedAt state.current) :
    (state.keep error).Tracked items := by
  obtain ⟨mentions, htracks, hplaces⟩ := h
  have hmention : (Mention.mk error state.current state.consumed).IsIn items := ⟨htracks.item, herror⟩
  refine ⟨mentions ++ [⟨error, state.current, state.consumed⟩], htracks.faithful, htracks.settled,
    htracks.ahead, htracks.terminated, ?_, ?_⟩
  · exact htracks.mentioned.append hmention fun earlier hmem =>
      ⟨htracks.place_le earlier hmem, hplaces earlier hmem⟩
  · exact List.forall_mem_append.2 ⟨htracks.place_le, by simp [State.keep, State.note]⟩

theorem Tracked.consume (h : state.Tracked items) (hkind : state.current.kind ≠ .eof)
    (hconsumes : state.Consumes after) : after.Unmentioned items := by
  obtain ⟨mentions, htracks⟩ := h
  have hdrop := htracks.ahead
  rw [hconsumes.ahead] at hdrop
  have hterminated := htracks.terminated
  rw [hconsumes.ahead] at hterminated
  have hplace {mention : Mention} (hmem : mention ∈ mentions) : mention.place < after.consumed := by
    rw [hconsumes.consumed]
    exact Nat.lt_succ_of_le (htracks.place_le mention hmem)
  refine ⟨mentions, ⟨htracks.faithful, hconsumes.settled, ?_, hterminated.tail hkind, ?_, ?_⟩, ?_⟩
  · rw [hconsumes.consumed, ← List.tail_drop, ← hdrop, List.tail_cons]
  · rw [hconsumes.errors]
    exact htracks.mentioned
  · exact fun mention hmem => Nat.le_of_lt (hplace hmem)
  · exact fun mention hmem _ => hplace hmem

theorem Tracked.stops_tooManyErrors (h : state.Tracked items) (count : Nat) :
    Stops items ⟨.tooManyErrors count, state.current.position⟩ state := by
  obtain ⟨mentions, htracks⟩ := h
  exact ⟨rfl, ⟨mentions, htracks.mentioned⟩, ⟨_, List.mem_of_getElem? htracks.item, rfl⟩, nofun⟩

theorem Tracked.stops_of_failure (h : state.Tracked items) {failure : LexFailure}
    (herrors : after.errors = state.errors) (hcurrent : state.current.kind ≠ .eof)
    (hnext : state.next.kind ≠ .eof)
    (hmissing : (∃ rest, state.ahead =
        .ok state.current :: .ok state.next :: .error failure :: rest) ∨
      state.ahead = [.ok state.current, .ok state.next]) :
    Stops items (.ofFailure failure) after := by
  obtain ⟨mentions, htracks⟩ := h
  refine ⟨rfl, ⟨mentions, herrors ▸ htracks.mentioned⟩, Error.placedIn_ofFailure ?_⟩
  rcases hmissing with ⟨rest, hahead⟩ | hahead
  · have hmem : .error failure ∈ state.ahead := by simp [hahead]
    rw [htracks.ahead] at hmem
    exact List.mem_of_mem_drop hmem
  · have hterminated := htracks.terminated
    rw [hahead] at hterminated
    exact ((hterminated.tail hcurrent).tail hnext).elim

end State

end Parse

end Offside
