import Offside.Proofs.Grammar.Accepts
import Offside.Proofs.Parsing.Construct
import Offside.Proofs.Parsing.Locality

/-!
# Parsing up to the end of a statement

The tokens ahead of a parser may end in a part that starts a statement of the outermost block.  A
statement in front of this fence ends at the fence at most, and so does the recovery from a broken
one unless it is noticed to be broken only at the fence, which happens to a line that announces a
block and stands right in front of the fence.  Whatever is recorded on the way is paid for by the
tokens that are consumed, two errors for a token at most.
-/

namespace Offside.Parse

open Parse.Parser

/-! ## What errors cost -/

namespace State

variable {start before after state : State} {error : Error}

def cost (state : State) : Nat := state.errors.length + 2 * state.ahead.length

structure Spends (paid : Nat) (before after : State) : Prop where
  later : before.consumed ≤ after.consumed
  ahead : after.ahead <:+ before.ahead
  paid : after.cost + paid ≤ before.cost

/-- The last token on the way is a line break or the end of a block. -/
def Ends (before after : State) : Prop :=
  ∃ last : Token, .ok last :: after.ahead <:+ before.ahead ∧
    (last.kind = .newline ∨ last.kind = .dedent)

def Covers (before after : State) : Prop :=
  (before.consumed < after.consumed ∧ after.ahead <:+ before.ahead ∧ after.cost < before.cost) ∨
    (after.consumed = before.consumed ∧ after.cost = before.cost ∧ after.ahead = before.ahead ∧
      after.openBlocks = before.openBlocks)

theorem cost_keep (state : State) (error : Error) : (state.keep error).cost = state.cost + 1 := by
  have hahead : (state.keep error).ahead = state.ahead := rfl
  have herrors : (state.keep error).errors.length = state.errors.length + 1 := by
    simp [keep, State.note]
  simp only [cost, hahead, herrors]
  omega

theorem Consumes.cost_eq (h : before.Consumes after) : after.cost + 2 = before.cost := by
  simp only [cost, h.ahead, h.errors, List.length_cons]
  omega

theorem Consumes.ahead_suffix (h : before.Consumes after) : after.ahead <:+ before.ahead := by
  rw [h.ahead]
  exact List.suffix_cons _ _

theorem Consumes.spends (h : before.Consumes after) {last : State} (hlast : after.Spends 0 last) :
    before.Spends 2 last := by
  have hcost := h.cost_eq
  have hconsumed := h.consumed
  have hpaid := hlast.paid
  exact ⟨by have := hlast.later; omega, hlast.ahead.trans h.ahead_suffix, by omega⟩

theorem Spends.refl (state : State) : state.Spends 0 state :=
  ⟨Nat.le_refl _, List.suffix_rfl, Nat.le_refl _⟩

theorem Spends.trans {paid paid' : Nat} {last : State} (h : before.Spends paid after)
    (h' : after.Spends paid' last) : before.Spends (paid + paid') last :=
  ⟨Nat.le_trans h.later h'.later, h'.ahead.trans h.ahead,
    by have := h.paid; have := h'.paid; omega⟩

theorem Spends.weaken {paid paid' : Nat} (h : before.Spends paid after) (hless : paid' ≤ paid) :
    before.Spends paid' after :=
  ⟨h.later, h.ahead, by have := h.paid; omega⟩

theorem Covers.refl (state : State) : state.Covers state := .inr ⟨rfl, rfl, rfl, rfl⟩

theorem Covers.spends (h : start.Covers state) : start.Spends 0 state := by
  rcases h with ⟨hconsumed, hahead, hcost⟩ | ⟨hconsumed, hcost, hahead, -⟩
  · exact ⟨Nat.le_of_lt hconsumed, hahead, Nat.le_of_lt hcost⟩
  · exact ⟨Nat.le_of_eq hconsumed.symm, hahead ▸ List.suffix_rfl, Nat.le_of_eq hcost⟩

theorem Covers.consumes (h : start.Covers state) (hconsumes : state.Consumes after) :
    start.Covers after := by
  have hcost := hconsumes.cost_eq
  have hconsumed := hconsumes.consumed
  obtain ⟨hlater, hahead, hless⟩ := h.spends
  exact .inl ⟨by omega, hconsumes.ahead_suffix.trans hahead, by omega⟩

theorem Covers.pays (h : start.Covers state) (hconsumes : (state.keep error).Consumes after) :
    start.Covers after := by
  have hcost := hconsumes.cost_eq
  have hconsumed : after.consumed = state.consumed + 1 := hconsumes.consumed
  rw [cost_keep] at hcost
  obtain ⟨hlater, hahead, hless⟩ := h.spends
  exact .inl ⟨by omega, hconsumes.ahead_suffix.trans hahead, by omega⟩

theorem Covers.ahead_eq (h : start.Covers state) (hsame : state.consumed = start.consumed) :
    state.ahead = start.ahead := by
  rcases h with ⟨hlater, -⟩ | ⟨-, -, hahead, -⟩
  · omega
  · exact hahead

/-- One more error is paid for as well, if a token is consumed where none has been consumed yet. -/
theorem Covers.spends_of_keep {last : State} (h : start.Covers state)
    (hlast : (state.keep error).Spends (if state.consumed != start.consumed then 0 else 2) last) :
    start.Spends 0 last := by
  obtain ⟨hlater, hahead, hless⟩ := hlast
  have hkept : (state.keep error).consumed = state.consumed := rfl
  have hstart := hahead.trans h.spends.ahead
  rw [hkept] at hlater
  rw [cost_keep] at hless
  rcases h with ⟨hconsumed, -, hcost⟩ | ⟨hsame, hcost, -⟩
  · exact ⟨by omega, hstart, by omega⟩
  · rw [if_neg (by simp [hsame])] at hless
    exact ⟨by omega, hstart, by omega⟩

theorem record_ensures_of_cost (h : state.cost ≤ state.config.maxErrors) (error : Error)
    {bad : Error → State → Prop} :
    Ensures (record error) state (fun _ after => after = state.keep error) bad := by
  have hroom : ¬ (state.keep error).config.maxErrors < (state.keep error).errors.length := by
    have hlength := (state.keep error).head_ahead
    have hahead : 0 < state.ahead.length := by
      rw [List.length_pos_iff]
      rintro hnil
      have hhead := state.head_ahead
      rw [hnil] at hhead
      cases hhead
    have hconfig : (state.keep error).config = state.config := rfl
    have herrors : (state.keep error).errors.length = state.errors.length + 1 := by
      simp [keep, State.note]
    rw [hconfig, herrors]
    unfold cost at h
    omega
  apply Ensures.modify_bind
  apply Ensures.get_bind
  rw [if_neg hroom]
  exact .of_pure rfl

end State

/-! ## Fences -/

structure Fence where
  config : Config
  first : Token
  rest : List Token
  /-- A line may stand right in front of the fence, and not only the end of a block. -/
  exposed : Prop
  recover : config.recover = true
  indent : first.kind ≠ .indent
  alternative : first.kind ≠ .elifKeyword ∧ first.kind ≠ .elseKeyword

def Leads : Nat → List Token → Prop
  | level, [] => level = 1
  | level, token :: rest =>
      token.kind ≠ .eof ∧ token.kind.blocksBehind level ≠ 0 ∧
        Leads (token.kind.blocksBehind level) rest

theorem Leads.ne_eof {level : Nat} {tokens : List Token} (h : Leads level tokens) :
    ∀ token ∈ tokens, token.kind ≠ .eof := by
  induction tokens generalizing level with
  | nil => simp
  | cons token tokens ih =>
      intro other hother
      rcases List.mem_cons.1 hother with rfl | hother
      · exact h.1
      · exact ih h.2.2 other hother

namespace Fence

variable {fence : Fence} {start state after : State} {level nesting base fuel : Nat} {token : Token}
  {front : List Token} {late : Prop}

def tail (fence : Fence) : List Token := fence.first :: fence.rest

def IsKeyword (fence : Fence) : Prop := fence.first.kind.startsStatement = true

/-- The tokens in front of the fence, where this many blocks are open: lines with their blocks, up
to the end of a line or of a block. -/
structure Front (fence : Fence) (level : Nat) (front : List Token) : Prop where
  leads : Leads level front
  lineEnd : ∀ last, [last] <:+ front → last.kind = .dedent ∨ last.kind = .newline ∧ fence.exposed
  faultless : ∀ token ∈ front, token.kind.isStructural = true → token.fault? = none

namespace Front

theorem tail (h : fence.Front level (token :: front)) :
    fence.Front (token.kind.blocksBehind level) front where
  leads := h.leads.2.2
  lineEnd last hlast := h.lineEnd last (hlast.trans (List.suffix_cons token front))
  faultless other hother := h.faultless other (List.mem_cons_of_mem _ hother)

theorem ne_nil_of_level (h : fence.Front level front) (hlevel : level ≠ 1) : front ≠ [] := by
  rintro rfl
  exact hlevel h.leads

theorem ne_nil_of_kind (h : fence.Front level (token :: front)) (hnewline : token.kind ≠ .newline)
    (hdedent : token.kind ≠ .dedent) : front ≠ [] := by
  rintro rfl
  rcases h.lineEnd token List.suffix_rfl with hkind | ⟨hkind, -⟩
  · exact hdedent hkind
  · exact hnewline hkind

theorem exposed_of_newline (h : fence.Front level (token :: front)) (hkind : token.kind = .newline)
    (hfront : front = []) : fence.exposed := by
  subst hfront
  rcases h.lineEnd token List.suffix_rfl with hdedent | ⟨-, hexposed⟩
  · rw [hkind] at hdedent
    contradiction
  · exact hexposed

end Front

structure At (fence : Fence) (level nesting : Nat) (front : List Token) (state : State) : Prop where
  sees : state.Sees (front ++ fence.tail)
  front : fence.Front level front
  openBlocks : state.openBlocks = level
  nesting : state.nesting = nesting
  config : state.config = fence.config

namespace At

theorem current (h : fence.At level nesting (token :: front) state) : state.current = token :=
  h.sees.current

theorem current_of_nil (h : fence.At level nesting [] state) : state.current = fence.first :=
  h.sees.current

theorem consumes (h : fence.At level nesting (token :: front) state) :
    ∃ after, state.advance = (.ok token, after) ∧ state.Consumes after ∧
      fence.At (token.kind.blocksBehind level) nesting front after := by
  obtain ⟨after, hadvance, hconsumes, hsees⟩ := h.sees.exists_consumes h.front.leads.1
  refine ⟨after, hadvance, hconsumes, hsees, h.front.tail, ?_, ?_, ?_⟩
  · rw [hconsumes.openBlocks, h.current, h.openBlocks]
  · rw [hconsumes.nesting, h.nesting]
  · rw [hconsumes.config, h.config]

theorem note (h : fence.At level nesting front state) (event : Event) :
    fence.At level nesting front (state.note event) :=
  ⟨⟨h.sees.settled, h.sees.ahead, h.sees.ended⟩, h.front, h.openBlocks, h.nesting, h.config⟩

theorem keep (h : fence.At level nesting front state) (error : Error) :
    fence.At level nesting front (state.keep error) :=
  ⟨⟨h.sees.settled, h.sees.ahead, h.sees.ended⟩, h.front, h.openBlocks, h.nesting, h.config⟩

theorem renest (h : fence.At level nesting front state) (nesting' : Nat) :
    fence.At level nesting' front { state with nesting := nesting' } :=
  ⟨⟨h.sees.settled, h.sees.ahead, h.sees.ended⟩, h.front, h.openBlocks, rfl, h.config⟩

end At

structure Since (fence : Fence) (start : State) (level nesting : Nat) (front : List Token)
    (state : State) : Prop where
  at_ : fence.At level nesting front state
  covers : start.Covers state
  room : start.cost ≤ fence.config.maxErrors

/-- An error that is recovered from, noticed inside of at least `base` blocks, and in front of the
fence unless it may be noticed `late`. -/
def Broken (fence : Fence) (late : Prop) (start : State) (base nesting : Nat) (error : Error)
    (after : State) : Prop :=
  error.isFatal = false ∧ ∃ level front, base ≤ level ∧
    fence.Since start level nesting front after ∧ (front = [] → late)

namespace Since

theorem broken (h : fence.Since start level nesting front state) (hbase : base ≤ level)
    (hfront : front = [] → late) {error : Error} (herror : error.isFatal = false) :
    fence.Broken late start base nesting error state :=
  ⟨herror, level, front, hbase, h, hfront⟩

theorem renest (h : fence.Since start level nesting front state) (nesting' : Nat) :
    fence.Since start level nesting' front { state with nesting := nesting' } :=
  ⟨h.at_.renest nesting', h.covers, h.room⟩

theorem note (h : fence.Since start level nesting front state) (event : Event) :
    fence.Since start level nesting front (state.note event) :=
  ⟨h.at_.note event, h.covers, h.room⟩

theorem advance (h : fence.Since start level nesting (token :: front) state)
    {bad : Error → State → Prop} :
    Ensures Parser.advance state
      (fun value after => value = token ∧
        fence.Since start (token.kind.blocksBehind level) nesting front after) bad := by
  obtain ⟨after, hadvance, hconsumes, hafter⟩ := h.at_.consumes
  exact .of_advance hadvance ⟨rfl, hafter, h.covers.consumes hconsumes, h.room⟩

theorem expectOneOf (h : fence.Since start level nesting (token :: front) state)
    (hbase : base ≤ level) (kinds : List TokenKind) :
    Ensures (Parser.expectOneOf kinds) state
      (fun value after => value = token ∧ token.kind ∈ kinds ∧
        fence.Since start (token.kind.blocksBehind level) nesting front after)
      (fence.Broken late start base nesting) := by
  apply Ensures.currentToken_bind
  split
  · rename_i hmem
    rw [h.at_.current] at hmem
    apply h.advance.weaken
    · rintro value after ⟨rfl, hafter⟩
      exact ⟨rfl, by simpa using hmem, hafter⟩
    · exact fun _ _ hbroken => hbroken
  · exact .of_throw (h.broken hbase nofun (Error.unexpected_recoverable kinds _).1)

theorem expect (h : fence.Since start level nesting (token :: front) state)
    (hbase : base ≤ level) (kind : TokenKind) :
    Ensures (Parser.expect kind) state
      (fun value after => value = token ∧ token.kind = kind ∧
        fence.Since start (kind.blocksBehind level) nesting front after)
      (fence.Broken late start base nesting) := by
  apply (h.expectOneOf hbase [kind]).weaken
  · rintro value after ⟨hvalue, hkind, hafter⟩
    obtain rfl : token.kind = kind := by simpa using hkind
    exact ⟨hvalue, rfl, hafter⟩
  · exact fun _ _ hbroken => hbroken

end Since

/-! ## Lines -/

def line (fence : Fence) (late : Prop) (start : State) (base level : Nat) : LineInvariant where
  holds nesting state := ∃ front, fence.Since start level nesting front state ∧ front ≠ []
  signed nesting state := ∃ token front prior,
    fence.Since start level nesting (token :: front) prior ∧ token.kind.isStructural = false ∧
      (state = prior ∨ ∃ error, state = prior.keep error)
  noted _ := True
  broken := fence.Broken late start base

theorem Since.advance_content (h : fence.Since start level nesting (token :: front) state)
    (hkind : token.kind.isStructural = false) {bad : Error → State → Prop} :
    Ensures Parser.advance state
      (fun value after => value = token ∧ fence.Since start level nesting front after ∧ front ≠ [])
      bad := by
  apply h.advance.weaken
  · rintro value after ⟨rfl, hafter⟩
    rw [TokenKind.blocksBehind_of_content hkind] at hafter
    refine ⟨rfl, hafter, h.at_.front.ne_nil_of_kind ?_ ?_⟩ <;>
      · intro hstructural
        rw [hstructural] at hkind
        contradiction
  · exact fun _ _ hbroken => hbroken

private theorem signAhead?_ensures (h : fence.Since start level nesting (token :: front) state)
    {bad : Error → State → Prop} :
    Ensures signAhead? state
      (fun op? after => match op? with
        | some _ => (fence.line late start base level).signed nesting after
        | none => (fence.line late start base level).holds nesting after) bad := by
  have hcurrent := h.at_.current
  apply Ensures.get_bind
  split
  · rename_i hminus
    rw [hcurrent] at hminus
    exact .of_pure ⟨token, front, state, h, by rw [hminus]; rfl, .inl rfl⟩
  · split
    · rename_i hfault
      rw [hcurrent] at hfault
      have hcontent : token.kind.isStructural = false := by
        cases hstructural : token.kind.isStructural with
        | false => rfl
        | true =>
            rw [h.at_.front.faultless token List.mem_cons_self hstructural] at hfault
            contradiction
      split
      · have hroom : state.cost ≤ state.config.maxErrors := by
          have hcost := h.covers.spends.paid
          have hstart := h.room
          rw [h.at_.config]
          omega
        apply Ensures.bind (State.record_ensures_of_cost hroom _)
        rintro _ _ rfl
        exact .of_pure ⟨token, front, state, h, hcontent, .inr ⟨_, rfl⟩⟩
      · rename_i hoff
        rw [h.at_.config] at hoff
        exact absurd fence.recover hoff
    · exact .of_pure ⟨token :: front, h, List.cons_ne_nil _ _⟩

theorem line_sound (fence : Fence) (late : Prop) (start : State) (hbase : base ≤ level) :
    (fence.line late start base level).Sound where
  inline {nesting state} h hkind := by
    obtain ⟨_ | ⟨token, front⟩, h, hfront⟩ := h
    · contradiction
    · rw [h.at_.current] at hkind ⊢
      apply (h.advance_content (TokenKind.content_of_isInline hkind)).weaken
      · exact fun value after hafter => ⟨hafter.1, front, hafter.2⟩
      · exact fun _ _ hbroken => hbroken
  noted _ _ _ := trivial
  throw h _ herror _ := by
    obtain ⟨front, h, hfront⟩ := h
    exact h.broken hbase (fun hnil => absurd hnil hfront) herror
  sign h := by
    obtain ⟨_ | ⟨token, front⟩, h, hfront⟩ := h
    · contradiction
    · exact signAhead?_ensures h
  signed {nesting state} h := by
    obtain ⟨token, front, prior, h, hkind, hstate⟩ := h
    rcases hstate with rfl | ⟨error, rfl⟩
    · apply (h.advance_content hkind).weaken
      · exact fun value after hafter => ⟨front, hafter.2⟩
      · exact fun _ _ hbroken => hbroken
    · obtain ⟨after, hadvance, hconsumes, hafter⟩ := (h.at_.keep error).consumes
      rw [TokenKind.blocksBehind_of_content hkind] at hafter
      refine .of_advance hadvance ⟨front, ⟨hafter, h.covers.pays hconsumes, h.room⟩, ?_⟩
      apply h.at_.front.ne_nil_of_kind <;>
      · intro hstructural
        rw [hstructural] at hkind
        contradiction
  nesting h := by
    obtain ⟨front, h, -⟩ := h
    exact h.at_.nesting
  renest h nesting' := by
    obtain ⟨front, h, hfront⟩ := h
    exact ⟨front, h.renest nesting', hfront⟩
  renestBroken h := by
    obtain ⟨herror, level', front, hlevel, h, hfront⟩ := h
    refine ⟨herror, level', front, hlevel, ?_, hfront⟩
    rw [h.at_.nesting, Nat.add_sub_cancel]
    exact h.renest _

/-! ## Statements -/

def places (fence : Fence) (start : State) (level : Nat) : StatementInvariant where
  line := fence.line fence.exposed start level level
  body := fence.line fence.exposed start level (level + 1)
  starts nesting state := ∃ front, fence.Since start level nesting front state ∧ front ≠ []
  announced nesting state := ∃ front, fence.Since start level nesting front state ∧
    (front = [] → fence.exposed)
  ends nesting state := ∃ front, fence.Since start level nesting front state ∧ start.Ends state

theorem Since.ends (h : fence.Since start level nesting (token :: front) state)
    (hafter : fence.Since start base nesting front after)
    (hkind : token.kind = .newline ∨ token.kind = .dedent) : start.Ends after := by
  refine ⟨token, ?_, hkind⟩
  have hahead := h.covers.spends.ahead
  rwa [h.at_.sees.ahead, List.cons_append, List.map_cons, ← hafter.at_.sees.ahead] at hahead

theorem Since.expect_content (h : fence.Since start level nesting front state) (hfront : front ≠ [])
    {kind : TokenKind} (hkind : kind.isStructural = false) :
    (fence.line late start level level).Reads nesting (Parser.expect kind) state := by
  cases front with
  | nil => contradiction
  | cons token front =>
      apply Ensures.currentToken_bind
      split
      · rename_i hmem
        obtain rfl : token.kind = kind := by simpa [h.at_.current] using hmem
        apply (h.advance_content hkind).weaken
        · exact fun value after hafter => ⟨front, hafter.2⟩
        · exact fun _ _ hbroken => hbroken
      · exact .of_throw (h.broken (Nat.le_refl _) nofun (Error.unexpected_recoverable [kind] _).1)

/-- Behind a marker and a line break there is a block, unless a line may stand in front of the fence. -/
private theorem announce_ensures (h : fence.Since start level nesting (token :: front) state)
    {kinds : List TokenKind} (hkinds : ∀ kind ∈ kinds, kind = .assign ∨ kind = .colon) :
    Ensures (expectOneOf kinds >>= fun _ => expect .newline) state
      (fun _ after => (fence.places start level).announced nesting after)
      (fence.Broken fence.exposed start level nesting) := by
  apply Ensures.bind (h.expectOneOf (Nat.le_refl _) kinds)
  rintro _ marked ⟨-, hmem, hmarked⟩
  have hmarker := hkinds _ hmem
  have hcontent : token.kind.isStructural = false := by
    rcases hmarker with hkind | hkind <;> rw [hkind] <;> rfl
  rw [TokenKind.blocksBehind_of_content hcontent] at hmarked
  cases front with
  | nil =>
      refine absurd rfl (h.at_.front.ne_nil_of_kind ?_ ?_) <;>
      · intro hstructural
        rw [hstructural] at hcontent
        contradiction
  | cons last front =>
      apply (hmarked.expect (Nat.le_refl _) .newline).weaken
      · rintro _ after ⟨-, hlast, hafter⟩
        exact ⟨front, hafter, hmarked.at_.front.exposed_of_newline hlast⟩
      · exact fun _ _ hbroken => hbroken

theorem places_sound (fence : Fence) (start : State) (level : Nat) (hlevel : level ≠ 0) :
    (fence.places start level).Sound where
  line := line_sound fence _ start (Nat.le_refl _)
  body := line_sound fence _ start (Nat.le_succ _)
  outward h := h
  note h event := by
    obtain ⟨front, h, hfront⟩ := h
    exact ⟨front, h.note event, hfront⟩
  lead h := h
  keyword h kind hkeyword := by
    obtain ⟨front, h, hfront⟩ := h
    exact h.expect_content hfront (TokenKind.content_of_startsStatement hkeyword)
  newline h := by
    obtain ⟨_ | ⟨token, front⟩, h, hfront⟩ := h
    · contradiction
    · apply (h.expect (Nat.le_refl _) .newline).weaken
      · rintro _ after ⟨-, hkind, hafter⟩
        exact ⟨front, hafter, h.ends hafter (.inl hkind)⟩
      · exact fun _ _ hbroken => hbroken
  announce h kinds hkinds := by
    obtain ⟨_ | ⟨token, front⟩, h, hfront⟩ := h
    · contradiction
    · exact announce_ensures h hkinds
  indent {nesting state} h := by
    obtain ⟨_ | ⟨token, front⟩, h, hfront⟩ := h
    · apply Ensures.currentToken_bind
      rw [h.at_.current_of_nil, if_neg (by simpa using fence.indent)]
      exact .of_throw (h.broken (Nat.le_refl _) hfront (Error.unexpected_recoverable _ _).1)
    · apply (h.expect (Nat.le_refl _) .indent).weaken
      · rintro _ after ⟨-, -, hafter⟩
        exact ⟨front, hafter, hafter.at_.front.ne_nil_of_level (by simpa [TokenKind.blocksBehind])⟩
      · exact fun _ _ hbroken => hbroken
  field h := by
    obtain ⟨_ | ⟨token, front⟩, h, hfront⟩ := h
    · contradiction
    · apply (h.expect (Nat.le_succ _) .newline).weaken
      · rintro _ after ⟨-, -, hafter⟩
        exact ⟨front, hafter, hafter.at_.front.ne_nil_of_level (by simpa [TokenKind.blocksBehind])⟩
      · exact fun _ _ hbroken => hbroken
  dedent h := by
    obtain ⟨_ | ⟨token, front⟩, h, hfront⟩ := h
    · contradiction
    · apply (h.expect (Nat.le_succ _) .dedent).weaken
      · rintro _ after ⟨-, hkind, hafter⟩
        exact ⟨front, hafter, h.ends hafter (.inr hkind)⟩
      · exact fun _ _ hbroken => hbroken
  alternative {nesting state} h hkind := by
    obtain ⟨_ | ⟨token, front⟩, h, -⟩ := h
    · rw [h.at_.current_of_nil] at hkind
      rcases hkind with hkind | hkind
      · exact absurd hkind fence.alternative.1
      · exact absurd hkind fence.alternative.2
    · rw [h.at_.current] at hkind
      have hcontent : token.kind.isStructural = false := by
        rcases hkind with hkind | hkind <;> rw [hkind] <;> rfl
      apply (h.advance_content hcontent).weaken
      · exact fun value after hafter => ⟨front, hafter.2⟩
      · exact fun _ _ hbroken => hbroken

/-! ## Recovery -/

/-- A parser arrives inside of this many blocks, at the fence at most, with at least this much less
of cost. -/
def Lands {α : Type} (fence : Fence) (base nesting paid : Nat) (parser : Parser α) (state : State) :
    Prop :=
  Ensures parser state
    (fun _ after => (∃ front, fence.At base nesting front after) ∧ state.Spends paid after)
    fun _ _ => False

theorem Lands.of_pure {α : Type} {value : α} (h : fence.At base nesting front state) :
    fence.Lands base nesting 0 (pure value) state :=
  Ensures.of_pure ⟨⟨front, h⟩, .refl state⟩

theorem Lands.weaken {α : Type} {parser : Parser α} {paid paid' : Nat}
    (h : fence.Lands base nesting paid parser state) (hless : paid' ≤ paid) :
    fence.Lands base nesting paid' parser state := by
  apply Ensures.weaken h
  · exact fun _ after hafter => ⟨hafter.1, hafter.2.weaken hless⟩
  · exact fun _ _ hfalse => hfalse

theorem Lands.advance_bind {α : Type} {next : Token → Parser α}
    (h : fence.At level nesting (token :: front) state)
    (hnext : ∀ moved, fence.At (token.kind.blocksBehind level) nesting front moved →
      fence.Lands base nesting 0 (next token) moved) :
    fence.Lands base nesting 2 (advance >>= next) state := by
  obtain ⟨moved, hadvance, hconsumes, hmoved⟩ := h.consumes
  have hconsumed : Ensures advance state (fun value after => value = token ∧ after = moved)
      fun _ _ => False := .of_advance hadvance ⟨rfl, rfl⟩
  apply Ensures.bind hconsumed
  rintro _ _ ⟨rfl, rfl⟩
  apply Ensures.weaken (hnext _ hmoved)
  · exact fun _ after hafter => ⟨hafter.1, hconsumes.spends hafter.2⟩
  · exact fun _ _ hfalse => hfalse

private theorem skipToBoundary_lands_of_nil (h : fence.At base nesting [] state)
    (hkeyword : fence.IsKeyword) :
    fence.Lands base nesting 0 (skipToBoundary (fuel + 1) true 0) state := by
  have hstarts : state.current.kind.startsStatement = true := by
    rw [h.current_of_nil]
    exact hkeyword
  apply Ensures.currentKind_bind
  split <;> try (rename_i hkind; rw [hkind] at hstarts; contradiction)
  rw [if_pos (by simpa using hstarts)]
  exact Lands.of_pure h

/-- The rest of a statement ends at the fence at most, and inside of as many blocks as the statement.
Where nothing of the statement has been consumed yet, a token is. -/
theorem skipToBoundary_lands (fuel : Nat) :
    ∀ (state : State) (front : List Token) (progressed : Bool) (depth : Nat),
      fence.At (base + depth) nesting front state → base ≠ 0 →
      (front = [] → progressed = true ∧ fence.IsKeyword) →
      (progressed = false → depth = 0 → state.current.kind ≠ .dedent) →
      fence.Lands base nesting (if progressed then 0 else 2)
        (skipToBoundary fuel progressed depth) state := by
  induction fuel with
  | zero => exact fun _ _ _ _ _ _ _ _ => Ensures.of_exhausted
  | succ fuel ih =>
      intro state front progressed depth h hbase hfront hdedent
      cases front with
      | nil =>
          obtain ⟨rfl, hkeyword⟩ := hfront rfl
          have hlevel : base + depth = 1 := h.front.leads
          obtain rfl : depth = 0 := by omega
          exact skipToBoundary_lands_of_nil h hkeyword
      | cons token front =>
          have hpaid : (if progressed then 0 else 2) ≤ 2 := by split <;> omega
          have hon : ∀ {depth' : Nat} {moved : State},
              fence.At (token.kind.blocksBehind (base + depth)) nesting front moved →
              token.kind.blocksBehind (base + depth) = base + depth' → front ≠ [] →
              fence.Lands base nesting 0 (skipToBoundary fuel true depth') moved := by
            intro depth' moved hmoved hlevel hne
            exact ih moved front true depth' (hlevel ▸ hmoved) hbase (fun hnil => absurd hnil hne) nofun
          apply Ensures.currentKind_bind
          rw [h.current] at hdedent ⊢
          split
          · rename_i hkind
            exact absurd hkind h.front.leads.1
          · rename_i hkind
            split
            · rename_i hdepth
              cases progressed with
              | false => exact absurd hkind (hdedent rfl hdepth)
              | true =>
                  subst hdepth
                  exact Lands.of_pure h
            · rename_i hdepth
              have hlevel : token.kind.blocksBehind (base + depth) = base + (depth - 1) := by
                rw [hkind, TokenKind.blocksBehind]
                omega
              apply (Lands.advance_bind h ?_).weaken hpaid
              intro moved hmoved
              split
              · rename_i hone
                subst hone
                rw [hlevel] at hmoved
                exact Lands.of_pure hmoved
              · apply hon hmoved hlevel (hmoved.front.ne_nil_of_level ?_)
                omega
          · rename_i hkind
            have hlevel : token.kind.blocksBehind (base + depth) = base + (depth + 1) := by
              rw [hkind]
              rfl
            apply (Lands.advance_bind h ?_).weaken hpaid
            intro moved hmoved
            apply hon hmoved hlevel (hmoved.front.ne_nil_of_level ?_)
            omega
          · rename_i hkind
            have hlevel : token.kind.blocksBehind (base + depth) = base + depth := by
              rw [hkind]
              rfl
            apply (Lands.advance_bind h ?_).weaken hpaid
            intro moved hmoved
            split
            · rename_i hdepth
              subst hdepth
              apply Ensures.currentKind_bind
              split
              · rename_i hindent
                apply hon hmoved hlevel
                rintro rfl
                rw [hmoved.current_of_nil] at hindent
                exact fence.indent hindent
              · rw [hlevel] at hmoved
                exact Lands.of_pure hmoved
            · apply hon hmoved hlevel (hmoved.front.ne_nil_of_level ?_)
              omega
          · rename_i heof hkind hindent hnewline
            split
            · rename_i hboundary
              simp only [Bool.and_eq_true, decide_eq_true_eq] at hboundary
              obtain ⟨⟨rfl, rfl⟩, -⟩ := hboundary
              exact Lands.of_pure h
            · have hlevel : token.kind.blocksBehind (base + depth) = base + depth := by
                unfold TokenKind.blocksBehind
                split <;> first | contradiction | rfl
              apply (Lands.advance_bind h ?_).weaken hpaid
              exact fun moved hmoved => hon hmoved hlevel (h.front.ne_nil_of_kind hnewline hkind)

/-- Going on behind a broken statement ends in front of the fence or at it, inside of as many blocks
as the statement, and its error is paid for. -/
theorem recover_lands (h : fence.At base nesting (token :: front) start) (hbase : base ≠ 0)
    (hdedent : token.kind ≠ .dedent) {error : Error}
    (hbroken : fence.Broken late start base nesting error after)
    (hlate : late → base = 1 → after.ahead = fence.tail.map .ok → fence.IsKeyword) :
    Ensures (Parser.recover fuel error start.consumed base) after
      (fun _ last => (∃ front, fence.At base nesting front last) ∧ start.Spends 0 last)
      fun _ _ => False := by
  obtain ⟨herror, level, front', hlevel, hsince, hfront⟩ := hbroken
  have hroom : after.cost ≤ after.config.maxErrors := by
    have hcost := hsince.covers.spends.paid
    have hstart := hsince.room
    rw [hsince.at_.config]
    omega
  apply Ensures.get_bind
  rw [herror, hsince.at_.config, fence.recover, if_neg (by simp)]
  apply Ensures.bind (State.record_ensures_of_cost hroom error)
  rintro _ _ rfl
  apply Ensures.get_bind
  apply Ensures.get_bind
  have hkept : fence.At (base + ((after.keep error).openBlocks - base)) nesting front'
      (after.keep error) := by
    have hopen : (after.keep error).openBlocks = level := hsince.at_.openBlocks
    have hsame : base + (level - base) = level := by omega
    rw [hopen, hsame]
    exact hsince.at_.keep error
  have hstill : after.consumed = start.consumed → after.ahead = ((token :: front) ++ fence.tail).map .ok :=
    fun hsame => (hsince.covers.ahead_eq hsame).trans h.sees.ahead
  have hend : front' = [] → (after.consumed != start.consumed) = true ∧ fence.IsKeyword := by
    rintro rfl
    have hone : level = 1 := hsince.at_.front.leads
    refine ⟨?_, hlate (hfront rfl) (by omega) hsince.at_.sees.ahead⟩
    rw [bne_iff_ne]
    intro hsame
    have hlength := congrArg List.length (hsince.at_.sees.ahead.symm.trans (hstill hsame))
    simp at hlength
    omega
  have hfirst : (after.consumed != start.consumed) = false → after.current = token := by
    intro hsame
    exact State.current_of_ahead (hstill (by simpa using hsame))
  apply Ensures.bind (skipToBoundary_lands fuel _ front' _ _ hkept hbase hend
    fun hsame _ => (hfirst hsame).symm ▸ hdedent)
  rintro _ last ⟨⟨front'', hlast⟩, hspends⟩
  exact .of_modify ⟨⟨front'', hlast.note _⟩, hsince.covers.spends_of_keep
    ⟨hspends.later, hspends.ahead, hspends.paid⟩⟩

/-! ## Blocks -/

def StatementsLand (fence : Fence) (fuel : Nat) : Prop :=
  ∀ {level nesting : Nat} {front : List Token} {state : State},
    fence.At level nesting front state → 2 ≤ level → state.cost ≤ fence.config.maxErrors →
    fence.Lands level nesting 0 (statements fuel) state

private theorem statement_ends (ih : ∀ less < fuel, fence.StatementsLand less)
    (h : fence.At level nesting (token :: front) state) (hlevel : level ≠ 0)
    (hroom : state.cost ≤ fence.config.maxErrors) :
    (fence.places state level).Ends nesting (statement fuel) state := by
  have hstatements : ∀ less < fuel, (fence.places state level).body.Stays (statements less) := by
    rintro less hless nesting inner ⟨front', hinner, -⟩
    have hspends := hinner.covers.spends
    have hless := ih less hless hinner.at_ (by omega) (by have := hspends.paid; omega)
    apply Ensures.weaken hless
    · rintro _ after ⟨⟨front'', hafter⟩, hspent⟩
      refine ⟨front'', ⟨hafter, ?_, hroom⟩, hafter.front.ne_nil_of_level (by omega)⟩
      -- Inside of the block the statement has consumed a token that pays for one more error.
      rcases hinner.covers with ⟨hlater, hahead, hcost⟩ | ⟨-, -, -, hopen⟩
      · exact .inl ⟨Nat.lt_of_lt_of_le hlater hspent.later, hspent.ahead.trans hahead,
          Nat.lt_of_le_of_lt hspent.paid hcost⟩
      · rw [hinner.at_.openBlocks, h.openBlocks] at hopen
        omega
    · exact fun _ _ hfalse => hfalse.elim
  exact ((places_sound fence state level hlevel).constructs fuel hstatements).statement
    ⟨_, ⟨h, .refl state, hroom⟩, List.cons_ne_nil _ _⟩

theorem statements_succ (ih : ∀ less < fuel, fence.StatementsLand less)
    (h : fence.At level nesting (token :: front) state) (hlevel : level ≠ 0)
    (hdedent : token.kind ≠ .dedent) (hroom : state.cost ≤ fence.config.maxErrors)
    (hlate : Ensures (statement fuel) state (fun _ _ => True) fun _ after =>
      fence.exposed → level = 1 → after.ahead = fence.tail.map .ok → fence.IsKeyword)
    {good : Block → State → Prop}
    (hcons : ∀ stmt rest last, good rest last → good (stmt :: rest) last)
    (hrest : ∀ front after, fence.At level nesting front after → state.Spends 0 after →
      state.Ends after ∨ state.Drops after → Ensures (statements fuel) after good fun _ _ => False) :
    Ensures (statements (fuel + 1)) state good fun _ _ => False := by
  unfold statements
  apply Ensures.get_bind
  rw [h.current, if_neg (by simp [hdedent, h.front.leads.1])]
  apply Ensures.bind ((statement_ends ih h hlevel hroom).and hlate).traced.attempt
  intro result after hafter
  cases result with
  | ok stmt =>
      obtain ⟨⟨⟨front', hafter, hends⟩, -⟩, -⟩ := hafter
      apply Ensures.bind (hrest front' after hafter.at_ hafter.covers.spends (.inl hends))
      exact fun rest last hlast => .of_pure (hcons stmt rest last hlast)
  | error error =>
      obtain ⟨⟨hbroken, hlate⟩, hrun⟩ := hafter
      simp only [h.openBlocks]
      apply Ensures.bind ((recover_lands h hlevel hdedent hbroken hlate).traced.weaken
        (fun _ _ => id) fun _ _ => And.left)
      rintro _ last ⟨⟨⟨front', hlast⟩, hspends⟩, hrecover⟩
      rw [← h.openBlocks] at hrecover
      exact hrest front' last hlast hspends (.inr ⟨_, _, error, after, hrun, hrecover⟩)

private theorem statementsLand_succ (ih : ∀ less < fuel + 1, fence.StatementsLand less) :
    fence.StatementsLand (fuel + 1) := by
  intro level nesting front state h hlevel hroom
  cases front with
  | nil => exact absurd rfl (h.front.ne_nil_of_level (by omega))
  | cons token front =>
      by_cases hdedent : token.kind = .dedent
      · unfold statements
        apply Ensures.get_bind
        rw [h.current, if_pos (by simp [hdedent])]
        exact Lands.of_pure h
      · have hinner : Ensures (statement fuel) state (fun _ _ => True) fun _ after =>
            fence.exposed → level = 1 → after.ahead = fence.tail.map .ok → fence.IsKeyword :=
          .of_forall (fun _ _ => trivial) fun _ _ _ hone => by omega
        apply statements_succ (fun less hless => ih less (Nat.lt_succ_of_lt hless)) h (by omega)
          hdedent hroom hinner
        · exact fun _ _ _ hlast => hlast
        · intro front' after hafter hspends _
          have hrest := ih fuel (Nat.lt_succ_self fuel) hafter hlevel
            (by have := hspends.paid; omega)
          apply Ensures.weaken hrest
          · exact fun _ last hlast => ⟨hlast.1, hspends.trans hlast.2⟩
          · exact fun _ _ hfalse => hfalse

theorem statementsLand (fence : Fence) (fuel : Nat) : fence.StatementsLand fuel := by
  induction fuel using Nat.strongRecOn with
  | ind fuel ih =>
      cases fuel with
      | zero => exact fun _ _ _ => Ensures.of_exhausted
      | succ fuel => exact statementsLand_succ ih

end Fence

end Offside.Parse
