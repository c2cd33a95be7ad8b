import Offside.Proofs.Parsing.Mention
import Offside.Proofs.Parsing.Parting
import Offside.Proofs.Parsing.SourceOrder

/-!
# What grammar functions gather

A value of a grammar function has its leaves from the tokens that were consumed for it, in their order,
and an error is noticed at the token at which the function leaves off.  Going on behind an error only
consumes tokens, so nothing is gathered twice or out of order, whatever is thrown away.
-/

namespace Offside.Parse

variable {items : List Item} {state after : State} {error : Error}

/-! ## Leaves ahead -/

def Item.leaf? : Item → Option Leaf
  | .ok token => token.leaf?
  | .error _ => none

namespace State

def leavesAhead (state : State) : List Leaf := state.ahead.filterMap Item.leaf?

theorem Consumes.leavesAhead (h : state.Consumes after) :
    state.leavesAhead = state.current.leaf?.toList ++ after.leavesAhead := by
  rw [State.leavesAhead, h.ahead, List.filterMap_cons]
  cases hleaf : state.current.leaf? <;> simp [Item.leaf?, hleaf, State.leavesAhead]

/-- The parse is stopped, or the error was noticed at the current token and only such leaves are ahead
as were before. -/
def Breaks (items : List Item) (leaves : List Leaf) (error : Error) (after : State) : Prop :=
  Stops items error after ∨
    after.Unmentioned items ∧ error.NoticedAt after.current ∧ after.leavesAhead.Sublist leaves

theorem Breaks.weaken {leaves more : List Leaf} (h : Breaks items leaves error after)
    (hleaves : leaves.Sublist more) : Breaks items more error after := by
  rcases h with hstops | ⟨hafter, herror, hsublist⟩
  · exact .inl hstops
  · exact .inr ⟨hafter, herror, hsublist.trans hleaves⟩

theorem Breaks.mentioned {leaves : List Leaf} (h : Breaks items leaves error after) :
    ∃ mentions, Mentioned items mentions after.errors := by
  rcases h with hstops | ⟨hafter, -⟩
  · exact hstops.mentioned
  · exact hafter.mentioned

theorem Breaks.placed {leaves : List Leaf} (h : Breaks items leaves error after) :
    error.PlacedIn items := by
  rcases h with hstops | ⟨hafter, herror, -⟩
  · exact hstops.placed
  · exact herror.placedIn hafter.current_mem

theorem Unmentioned.breaks (h : state.Unmentioned items) (herror : error.NoticedAt state.current) :
    Breaks items state.leavesAhead error state :=
  .inr ⟨h, herror, .refl _⟩

end State

namespace Parser

open State (Breaks)

/-! ## Gathering -/

/-- With the leaves `front` gathered before, the leaves of a value and those ahead of the parser then
are among those that were gathered or ahead, in their order. -/
def Gathers {α : Type} (items : List Item) (front : List Leaf) (leaves : α → List Leaf)
    (parser : Parser α) : Prop :=
  ∀ state : State, state.Unmentioned items →
    Ensures parser state
      (fun value after => after.Unmentioned items ∧
        (leaves value ++ after.leavesAhead).Sublist (front ++ state.leavesAhead))
      (Breaks items state.leavesAhead)

def Passes {α : Type} (items : List Item) (parser : Parser α) : Prop :=
  Gathers items [] (fun _ => []) parser

/-- An expression is gathered, or the token is of none of these kinds and nothing has happened. -/
def Seeks (items : List Item) (kinds : List TokenKind) (parser : Parser (Option Expr)) : Prop :=
  ∀ state : State, state.Unmentioned items →
    Ensures parser state
      (fun value? after => match value? with
        | some value => after.Unmentioned items ∧
            (value.leaves ++ after.leavesAhead).Sublist state.leavesAhead
        | none => after = state ∧ state.current.kind ∉ kinds)
      (Breaks items state.leavesAhead)

namespace Gathers

variable {α β : Type} {front : List Leaf} {leaves : α → List Leaf} {leaves' : β → List Leaf}
  {parser : Parser α} {next : α → Parser β}

theorem of_value {value : α} (h : leaves value = front) : Gathers items front leaves (pure value) :=
  fun _ hstate => .of_pure ⟨hstate, h ▸ .refl _⟩

theorem of_exhausted (front : List Leaf) (leaves : α → List Leaf) :
    Gathers items front leaves exhausted :=
  fun _ _ => .of_exhausted

theorem within (h : Gathers items front leaves parser) (hstate : state.Unmentioned items)
    {more : List Leaf} (hmore : state.leavesAhead.Sublist more) :
    Ensures parser state
      (fun value after => after.Unmentioned items ∧
        (leaves value ++ after.leavesAhead).Sublist (front ++ more))
      (Breaks items more) := by
  apply (h state hstate).weaken
  · rintro value after ⟨hafter, hgathered⟩
    exact ⟨hafter, hgathered.trans (hmore.append_left front)⟩
  · exact fun _ _ hbreaks => hbreaks.weaken hmore

/-- What the value of a first function has gathered is in front of what the second one does. -/
theorem behind {middle : State} {value : α}
    (h : (leaves value ++ middle.leavesAhead).Sublist ([] ++ state.leavesAhead))
    (hmiddle : middle.Unmentioned items)
    (hnext : Gathers items (front ++ leaves value) leaves' (next value)) :
    Ensures (next value) middle
      (fun result after => after.Unmentioned items ∧
        (leaves' result ++ after.leavesAhead).Sublist (front ++ state.leavesAhead))
      (Breaks items state.leavesAhead) := by
  apply (hnext middle hmiddle).weaken
  · rintro result after ⟨hafter, hgathered⟩
    refine ⟨hafter, hgathered.trans ?_⟩
    rw [List.append_assoc]
    exact h.append_left front
  · exact fun error after hbreaks => hbreaks.weaken ((List.sublist_append_right _ _).trans h)

theorem bind (h : Gathers items [] leaves parser)
    (hnext : ∀ value, Gathers items (front ++ leaves value) leaves' (next value)) :
    Gathers items front leaves' (parser >>= next) := by
  intro state hstate
  apply Ensures.bind (h state hstate)
  rintro value middle ⟨hmiddle, hgathered⟩
  exact behind hgathered hmiddle (hnext value)

theorem passes (h : Gathers items [] leaves parser) : Passes items parser := by
  intro state hstate
  apply (h state hstate).weaken
  · rintro value after ⟨hafter, hgathered⟩
    exact ⟨hafter, (List.sublist_append_right _ _).trans hgathered⟩
  · exact fun _ _ hbreaks => hbreaks

theorem skip (h : Passes items parser) (hnext : ∀ value, Gathers items front leaves' (next value)) :
    Gathers items front leaves' (parser >>= next) := by
  apply Gathers.bind h
  intro value
  rw [List.append_nil]
  exact hnext value

theorem nested (h : Gathers items [] leaves parser) :
    Gathers items [] leaves (Parser.nested parser) := by
  intro state hstate
  apply Ensures.get_bind
  split
  · exact .of_throw (hstate.breaks ⟨rfl, trivial⟩)
  · apply Ensures.set_bind
    apply Ensures.bind (h _ (hstate.renest (state.nesting + 1))).attempt
    intro result after hafter
    apply Ensures.modify_bind
    cases result with
    | ok value => exact .of_pure ⟨hafter.1.renest _, hafter.2⟩
    | error error =>
        apply Ensures.of_throw
        rcases hafter with hstops | ⟨hafter, herror, hsublist⟩
        · exact .inl ⟨hstops.fatal, hstops.mentioned, hstops.placed⟩
        · exact .inr ⟨hafter.renest _, herror, hsublist⟩

end Gathers

/-! ## Single tokens -/

theorem currentKind_passes : Passes items currentKind :=
  fun _ hstate => .of_currentKind ⟨hstate, .refl _⟩

theorem currentToken_passes : Passes items currentToken :=
  fun _ hstate => .of_currentToken ⟨hstate, .refl _⟩

theorem nextKind_passes : Passes items nextKind :=
  fun _ hstate => .of_nextKind ⟨hstate, .refl _⟩

theorem note_passes (event : State → Event) :
    Passes items (modify fun state => state.note (event state)) :=
  fun _ hstate => .of_modify ⟨hstate.note _, .refl _⟩

theorem advance_ensures (h : state.Tracked items) :
    Ensures advance state
      (fun token after => token = state.current ∧ after.Unmentioned items ∧
        (token.leaf?.toList ++ after.leavesAhead).Sublist state.leavesAhead)
      (Breaks items state.leavesAhead) := by
  by_cases heof : state.current.kind = .eof
  · have hopen := h.unmentioned (by rw [heof]; decide)
    apply Ensures.of_advance (State.advance_of_eof hopen.settled heof)
    refine ⟨rfl, hopen, ?_⟩
    simp [Token.leaf?, heof]
  · rcases State.advance_cases heof with ⟨after, hadvance, hconsumes⟩ |
      ⟨failure, after, hadvance, herrors, -, hnext, hmissing⟩
    · apply Ensures.of_advance hadvance
      exact ⟨rfl, h.consume heof hconsumes, hconsumes.leavesAhead ▸ .refl _⟩
    · exact .of_advance hadvance (.inl (h.stops_of_failure herrors heof hnext hmissing))

theorem advance_gathers : Gathers items [] (fun token => token.leaf?.toList) advance := by
  intro state hstate
  apply (advance_ensures hstate.tracked).weaken
  · exact fun _ _ hafter => hafter.2
  · exact fun _ _ hbreaks => hbreaks

theorem advance_passes : Passes items advance := advance_gathers.passes

theorem expectOneOf_ensures (kinds : List TokenKind) (h : state.Unmentioned items) :
    Ensures (expectOneOf kinds) state
      (fun token after => (token.kind ∈ kinds ∧ token.Faithful) ∧ after.Unmentioned items ∧
        (token.leaf?.toList ++ after.leavesAhead).Sublist state.leavesAhead)
      (Breaks items state.leavesAhead) := by
  apply Ensures.currentToken_bind
  split
  · rename_i hkind
    apply (advance_ensures h.tracked).weaken
    · rintro _ after ⟨rfl, hafter⟩
      exact ⟨⟨by simpa using hkind, h.faithful_current⟩, hafter⟩
    · exact fun _ _ hbreaks => hbreaks
  · rename_i hkind
    exact .of_throw (h.breaks (Error.noticedAt_unexpected h.faithful_current (by simpa using hkind)))

theorem expectOneOf_passes (kinds : List TokenKind) : Passes items (expectOneOf kinds) := by
  intro state hstate
  apply (expectOneOf_ensures kinds hstate).weaken
  · exact fun _ _ hafter => ⟨hafter.2.1, (List.sublist_append_right _ _).trans hafter.2.2⟩
  · exact fun _ _ hbreaks => hbreaks

theorem expect_passes (kind : TokenKind) : Passes items (expect kind) := expectOneOf_passes [kind]

/-! ## Names and literals -/

theorem identifier_gathers : Gathers items [] (fun name => [.name name]) identifier := by
  intro state hstate
  apply Ensures.bind (expectOneOf_ensures [.identifier] hstate)
  rintro token middle ⟨⟨hkind, hfaithful⟩, hmiddle, hgathered⟩
  rw [List.mem_singleton] at hkind
  split
  · rename_i name hpayload
    rw [Token.leaf?_of_name hkind hpayload] at hgathered
    exact .of_pure ⟨hmiddle, hgathered⟩
  · rename_i hpayload
    obtain ⟨kind, position, payload?⟩ := token
    obtain rfl : kind = .identifier := hkind
    rcases payload? with _ | (_ | _ | _ | name | _)
    case some.identifier => exact absurd rfl (hpayload name)
    all_goals contradiction

def literalKinds : List TokenKind := [.float, .integer, .trueKeyword, .falseKeyword, .string]

theorem not_mem_of_findSome? {token : Token} (hfaithful : token.Faithful)
    (h : literalKinds.findSome? (fun kind => literalOf? kind token) = none) :
    token.kind ∉ literalKinds := by
  intro hkind
  have hnone := List.findSome?_eq_none_iff.1 h _ hkind
  obtain ⟨kind, position, payload?⟩ := token
  simp only [literalKinds, List.mem_cons, List.not_mem_nil, or_false] at hkind
  rcases hkind with rfl | rfl | rfl | rfl | rfl <;>
    rcases payload? with _ | (_ | _ | _ | _ | _) <;> contradiction

theorem literal?_seeks : Seeks items literalKinds (literal? literalKinds) := by
  intro state hstate
  apply Ensures.currentToken_bind
  split
  · rename_i value hvalue
    obtain ⟨kind, -, hliteral⟩ := List.exists_of_findSome?_eq_some hvalue
    apply Ensures.bind (advance_ensures hstate.tracked)
    rintro _ middle ⟨rfl, hmiddle, hgathered⟩
    rw [Token.leaf?_of_literalOf? hliteral] at hgathered
    exact .of_pure ⟨hmiddle, hgathered⟩
  · rename_i hnone
    exact .of_pure ⟨rfl, not_mem_of_findSome? hstate.faithful_current hnone⟩

/-! ## Recorded errors -/

/-- An error that was noticed at the current token is recorded, unless it stops the parse. -/
theorem surface_ensures (h : state.Unmentioned items) (herror : error.NoticedAt state.current) :
    Ensures (surface error) state
      (fun _ after => after.Tracked items ∧ after.current = state.current ∧
        after.leavesAhead = state.leavesAhead)
      (Breaks items state.leavesAhead) := by
  apply Ensures.get_bind
  split
  · exact .of_throw (h.breaks herror)
  · have hkept := h.keep herror
    intro result after hrun
    rw [run_record, Option.some.injEq, Prod.mk.injEq] at hrun
    obtain ⟨rfl, rfl⟩ := hrun
    split
    · exact .inl (hkept.stops_tooManyErrors _)
    · exact ⟨hkept, rfl, rfl⟩

theorem signAhead?_ensures (h : state.Unmentioned items) :
    Ensures signAhead? state
      (fun op? after => (match op? with
        | some _ => after.Tracked items
        | none => after.Unmentioned items) ∧ after.leavesAhead = state.leavesAhead)
      (Breaks items state.leavesAhead) := by
  rw [signAhead?_eq]
  apply Ensures.currentToken_bind
  split
  · exact .of_pure ⟨h.tracked, rfl⟩
  · split
    · rename_i hbang
      apply Ensures.bind (surface_ensures h (Error.noticedAt_lexical h.faithful_current hbang))
      rintro _ after ⟨hafter, -, hleaves⟩
      exact .of_pure ⟨hafter, hleaves⟩
    · exact .of_pure ⟨h, rfl⟩

/-! ## Going on behind an error -/

def Drops (items : List Item) (parser : Parser Unit) (state : State) : Prop :=
  Ensures parser state
    (fun _ after => after.Unmentioned items ∧ after.leavesAhead.Sublist state.leavesAhead)
    (Breaks items state.leavesAhead)

theorem Drops.stay (h : state.Tracked items) (hkind : state.current.kind ≠ .error) :
    Drops items (pure ()) state :=
  .of_pure ⟨h.unmentioned hkind, .refl _⟩

theorem Drops.advance {next : Token → Parser Unit} (h : state.Tracked items)
    (hnext : ∀ token (middle : State), middle.Unmentioned items → Drops items (next token) middle) :
    Drops items (Parser.advance >>= next) state := by
  apply Ensures.bind (advance_ensures h)
  rintro token middle ⟨-, hmiddle, hgathered⟩
  have hless := (List.sublist_append_right _ _).trans hgathered
  apply (hnext token middle hmiddle).weaken
  · exact fun _ _ hafter => ⟨hafter.1, hafter.2.trans hless⟩
  · exact fun _ _ hbreaks => hbreaks.weaken hless

/-- Wherever skipping ends, the token there has not been mentioned, or is no error token. -/
theorem skipToBoundary_drops (fuel : Nat) :
    ∀ {state : State} (progressed : Bool) (depth : Nat), state.Tracked items →
      Drops items (skipToBoundary fuel progressed depth) state := by
  induction fuel with
  | zero => exact fun _ _ _ => .of_exhausted
  | succ fuel ih =>
      intro state progressed depth h
      have hskip (progressed : Bool) (depth : Nat) : ∀ (_ : Token) (middle : State),
          middle.Unmentioned items → Drops items (skipToBoundary fuel progressed depth) middle :=
        fun _ _ hmiddle => ih progressed depth hmiddle.tracked
      apply Ensures.currentKind_bind
      split
      · rename_i hkind
        exact Drops.stay h (by simp [hkind])
      · rename_i hkind
        split
        · exact Drops.stay h (by simp [hkind])
        · apply Drops.advance h
          intro token middle hmiddle
          split
          · exact .of_pure ⟨hmiddle, .refl _⟩
          · exact hskip _ _ token middle hmiddle
      · exact Drops.advance h (hskip _ _)
      · apply Drops.advance h
        intro token middle hmiddle
        split
        · apply Ensures.currentKind_bind
          split
          · exact hskip _ _ token middle hmiddle
          · exact .of_pure ⟨hmiddle, .refl _⟩
        · exact hskip _ _ token middle hmiddle
      · split
        · rename_i hstop
          simp only [Bool.and_eq_true] at hstop
          apply Drops.stay h
          intro hkind
          rw [hkind] at hstop
          exact absurd hstop.2 (by decide)
        · exact Drops.advance h (hskip _ _)

theorem resume_drops (fuel start openBlocks : Nat) (h : state.Tracked items) :
    Drops items (resume fuel start openBlocks) state := by
  apply Ensures.get_bind
  apply Ensures.bind (skipToBoundary_drops fuel _ _ h)
  rintro _ after ⟨hafter, hleaves⟩
  exact .of_modify ⟨hafter.note _, hleaves⟩

theorem Gathers.guarded {α β : Type} {front : List Leaf} {leaves : α → List Leaf}
    {leaves' : β → List Leaf} {parser : Parser α} {next : α → Parser β} {rest : Parser β} {fuel : Nat}
    (h : Gathers items [] leaves parser)
    (hnext : ∀ value, Gathers items (front ++ leaves value) leaves' (next value))
    (hrest : Gathers items front leaves' rest) :
    Gathers items front leaves' (Parser.guarded fuel parser next rest) := by
  intro state hstate
  apply Ensures.get_bind
  apply Ensures.bind (h state hstate).attempt
  intro result middle hmiddle
  cases result with
  | ok value =>
      change Ensures (next value) middle _ _
      exact behind hmiddle.2 hmiddle.1 (hnext value)
  | error error =>
      rcases hmiddle with hstops | ⟨hmiddle, herror, hleaves⟩
      · intro result after hrun
        rw [run_surface_bind_of_stop _ (by simp [hstops.fatal])] at hrun
        cases hrun
        exact .inl hstops
      · have hweaken : ∀ error after, Breaks items middle.leavesAhead error after →
            Breaks items state.leavesAhead error after :=
          fun _ _ hbreaks => hbreaks.weaken hleaves
        apply Ensures.bind ((surface_ensures hmiddle herror).weaken (fun _ _ hkept => hkept) hweaken)
        rintro _ kept ⟨hkept, -, hsame⟩
        have hresume := resume_drops fuel state.consumed state.openBlocks hkept
        rw [Drops, hsame] at hresume
        apply Ensures.bind (hresume.weaken (fun _ _ hlast => hlast) hweaken)
        rintro _ last ⟨hlast, hless⟩
        exact hrest.within hlast (hless.trans hleaves)

end Parser

end Offside.Parse
