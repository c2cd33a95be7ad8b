import Offside.Proofs.Parsing.Line

/-!
# Grammar functions of statements, line by line

A statement is read by its lines and blocks: it starts with a keyword or an expression, each of its
lines ends with a line break, and a line that announces a block has its marker right in front of the
break.  What is kept by the tokens that are consumed at these places, a whole statement keeps, as
long as the statements of its blocks do.
-/

namespace Offside.Parse

structure StatementInvariant where
  /-- Inside of the lines of the statement. -/
  line : LineInvariant
  /-- Inside of the blocks of the statement. -/
  body : LineInvariant
  starts : Nat → State → Prop
  /-- Behind a line that announces a block. -/
  announced : Nat → State → Prop
  /-- Behind the last line, or behind a block. -/
  ends : Nat → State → Prop

variable {places : StatementInvariant} {state : State} {nesting fuel : Nat}

structure StatementInvariant.Sound (places : StatementInvariant) : Prop where
  line : places.line.Sound
  body : places.body.Sound
  outward {nesting : Nat} {error : Error} {state : State}
    (h : places.body.broken nesting error state) : places.line.broken nesting error state
  note {nesting : Nat} {state : State} (h : places.starts nesting state) (event : Event) :
    places.starts nesting (state.note event)
  lead {nesting : Nat} {state : State} (h : places.starts nesting state) :
    places.line.holds nesting state
  keyword {nesting : Nat} {state : State} (h : places.starts nesting state) {kind : TokenKind}
    (hkeyword : kind.startsStatement = true) :
    places.line.Reads nesting (Parser.expect kind) state
  newline {nesting : Nat} {state : State} (h : places.line.holds nesting state) :
    Ensures (Parser.expect .newline) state (fun _ after => places.ends nesting after)
      (places.line.broken nesting)
  announce {nesting : Nat} {state : State} (h : places.line.holds nesting state)
    {kinds : List TokenKind} (hkinds : ∀ kind ∈ kinds, kind = .assign ∨ kind = .colon) :
    Ensures (Parser.expectOneOf kinds >>= fun _ => Parser.expect .newline) state
      (fun _ after => places.announced nesting after) (places.line.broken nesting)
  indent {nesting : Nat} {state : State} (h : places.announced nesting state) :
    Ensures (Parser.expect .indent) state (fun _ after => places.body.holds nesting after)
      (places.line.broken nesting)
  field {nesting : Nat} {state : State} (h : places.body.holds nesting state) :
    places.body.Reads nesting (Parser.expect .newline) state
  dedent {nesting : Nat} {state : State} (h : places.body.holds nesting state) :
    Ensures (Parser.expect .dedent) state (fun _ after => places.ends nesting after)
      (places.line.broken nesting)
  alternative {nesting : Nat} {state : State} (h : places.ends nesting state)
    (hkind : state.current.kind = .elifKeyword ∨ state.current.kind = .elseKeyword) :
    places.line.Reads nesting Parser.advance state

namespace StatementInvariant

def Ends {α : Type} (places : StatementInvariant) (nesting : Nat) (parser : Parser α)
    (state : State) : Prop :=
  Ensures parser state (fun _ after => places.ends nesting after) (places.line.broken nesting)

structure Constructs (places : StatementInvariant) (fuel : Nat) : Prop where
  statement : ∀ {nesting : Nat} {state : State}, places.starts nesting state →
    places.Ends nesting (Parser.statement fuel) state
  block : ∀ {nesting : Nat} {state : State}, places.announced nesting state →
    places.Ends nesting (Parser.block fuel) state
  function : ∀ {nesting : Nat} {state : State}, places.starts nesting state →
    places.Ends nesting (Parser.function fuel) state
  conditional : ∀ {nesting : Nat} {state : State}, places.starts nesting state →
    places.Ends nesting (Parser.conditional fuel) state
  branch : ∀ {nesting : Nat} {state : State}, places.line.holds nesting state →
    places.Ends nesting (Parser.branch fuel) state
  loop : ∀ {nesting : Nat} {state : State}, places.starts nesting state →
    places.Ends nesting (Parser.loop fuel) state

namespace Sound

open Parse.Parser

variable (sound : places.Sound)

include sound

theorem announce_bind {α : Type} {next : Token → Parser α} (h : places.line.holds nesting state)
    {kinds : List TokenKind} (hkinds : ∀ kind ∈ kinds, kind = .assign ∨ kind = .colon)
    (hnext : ∀ token after, places.announced nesting after →
      places.Ends nesting (next token) after) :
    places.Ends nesting (expectOneOf kinds >>= fun _ => expect .newline >>= next) state := by
  rw [← bind_assoc]
  exact Ensures.bind (sound.announce h hkinds) hnext

/-! ## Simple statements -/

theorem expressionStatement_ends (fuel : Nat) (h : places.starts nesting state) :
    places.Ends nesting (expressionStatement fuel) state := by
  apply Ensures.bind (sound.line.expression_stays fuel (sound.lead h))
  intro value middle hmiddle
  apply Ensures.bind (sound.newline hmiddle)
  exact fun _ _ hlast => .of_pure hlast

theorem returnStatement_ends (fuel : Nat) (h : places.starts nesting state) :
    places.Ends nesting (returnStatement fuel) state := by
  apply Ensures.bind (sound.keyword h rfl)
  intro _ begun hbegun
  apply Ensures.bind (sound.line.returnValue?_stays fuel hbegun)
  intro value? middle hmiddle
  apply Ensures.bind (sound.newline hmiddle)
  exact fun _ _ hlast => .of_pure hlast

theorem fields_stays (fuel : Nat) : places.body.Stays (fields fuel) := by
  induction fuel with
  | zero =>
      intro _ _ _
      exact LineInvariant.Reads.of_exhausted
  | succ fuel ih =>
      intro nesting state h
      apply LineInvariant.Reads.currentKind_bind
      split
      · apply LineInvariant.Reads.bind (sound.body.identifier_stays h)
        intro field named hnamed
        apply LineInvariant.Reads.bind (sound.field hnamed)
        intro _ middle hmiddle
        apply LineInvariant.Reads.bind (ih hmiddle)
        exact fun _ _ hlast => LineInvariant.Reads.of_pure hlast
      · exact LineInvariant.Reads.of_pure h

theorem inside {α : Type} {parser : Parser α} (h : places.body.Reads nesting parser state) :
    Ensures parser state (fun _ after => places.body.holds nesting after)
      (places.line.broken nesting) :=
  h.weaken (fun _ _ hafter => hafter) fun _ _ hbroken => sound.outward hbroken

theorem recordStatement_ends (fuel : Nat) (h : places.starts nesting state) :
    places.Ends nesting (recordStatement fuel) state := by
  apply Ensures.bind (sound.keyword h rfl)
  intro _ begun hbegun
  apply Ensures.bind (sound.line.identifier_stays hbegun)
  intro name named hnamed
  apply sound.announce_bind hnamed (by simp)
  intro _ line hline
  apply Ensures.bind (sound.indent hline)
  intro _ opened hopened
  apply Ensures.bind (sound.inside (sound.fields_stays fuel hopened))
  intro fields listed hlisted
  apply Ensures.bind (sound.dedent hlisted)
  exact fun _ _ hlast => .of_pure hlast

/-! ## Statements with blocks -/

private theorem block_ends (hstatements : places.body.Stays (statements fuel))
    (h : places.announced nesting state) : places.Ends nesting (block (fuel + 1)) state := by
  apply Ensures.bind (sound.indent h)
  intro _ opened hopened
  apply Ensures.bind (sound.inside (sound.body.nested_stays hstatements hopened))
  intro body middle hmiddle
  apply Ensures.bind (sound.dedent hmiddle)
  exact fun _ _ hlast => .of_pure hlast

private theorem branch_ends (ih : places.Constructs fuel) (h : places.line.holds nesting state) :
    places.Ends nesting (branch (fuel + 1)) state := by
  apply Ensures.bind (sound.line.expression_stays fuel h)
  intro condition tested htested
  apply sound.announce_bind htested (by simp)
  intro _ line hline
  apply Ensures.bind (ih.block hline)
  intro body closed hclosed
  apply Ensures.currentKind_bind
  split
  · rename_i hkind
    apply Ensures.bind (sound.alternative hclosed (.inl hkind))
    intro _ begun hbegun
    apply Ensures.bind (ih.branch hbegun)
    exact fun _ _ hlast => .of_pure hlast
  · rename_i hkind
    apply Ensures.bind (sound.alternative hclosed (.inr hkind))
    intro _ begun hbegun
    apply sound.announce_bind hbegun (by simp)
    intro _ line' hline'
    apply Ensures.bind (ih.block hline')
    exact fun _ _ hlast => .of_pure hlast
  · exact .of_pure hclosed

private theorem statement_ends (ih : places.Constructs fuel) (h : places.starts nesting state) :
    places.Ends nesting (statement (fuel + 1)) state := by
  apply Ensures.currentToken_bind
  apply Ensures.modify_bind
  have hnoted := sound.note h (.began state.current.kind state.current.position.line)
  split
  · exact ih.function hnoted
  · exact ih.conditional hnoted
  · exact ih.loop hnoted
  · exact sound.returnStatement_ends fuel hnoted
  · exact sound.recordStatement_ends fuel hnoted
  · exact sound.expressionStatement_ends fuel hnoted

theorem constructs (fuel : Nat)
    (hstatements : ∀ less < fuel, places.body.Stays (statements less)) :
    places.Constructs fuel := by
  induction fuel with
  | zero => constructor <;> exact fun _ => .of_exhausted
  | succ fuel ih =>
      have ih := ih fun less hless => hstatements less (Nat.lt_succ_of_lt hless)
      constructor
      case statement => exact sound.statement_ends ih
      case block => exact sound.block_ends (hstatements fuel (Nat.lt_succ_self fuel))
      case function =>
        intro nesting state h
        apply Ensures.bind (sound.line.header_reads fuel (sound.keyword h rfl))
        intro header headed hheaded
        apply sound.announce_bind hheaded (by simp)
        intro _ line hline
        apply Ensures.bind (ih.block hline)
        exact fun _ _ hlast => .of_pure hlast
      case conditional =>
        intro nesting state h
        apply Ensures.bind (sound.keyword h rfl)
        intro _ begun hbegun
        apply Ensures.bind (ih.branch hbegun)
        exact fun _ _ hlast => .of_pure hlast
      case branch => exact sound.branch_ends ih
      case loop =>
        intro nesting state h
        apply Ensures.bind (sound.keyword h rfl)
        intro _ begun hbegun
        apply Ensures.bind (sound.line.expression_stays fuel hbegun)
        intro condition tested htested
        apply sound.announce_bind htested (by simp)
        intro _ line hline
        apply Ensures.bind (ih.block hline)
        exact fun _ _ hlast => .of_pure hlast

end Sound

end StatementInvariant

end Offside.Parse
