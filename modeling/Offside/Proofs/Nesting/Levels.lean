import Offside.Proofs.Grammar.Derives
import Offside.Proofs.Parsing.Composition
import Offside.Proofs.Parsing.Run

/-!
# Trees stay within the limit of nesting

On the way from the root of a tree to a leaf, bodies of blocks, whole expressions and operands of
prefix operators are entered; the levels of a tree are the most that are entered on one such way.
Every grammar function leaves the depth of nesting as it has found it, whether it succeeds or fails,
and a tree that it gives has at most as many levels as are still allowed.
-/

namespace Offside

/-! ## Levels -/

mutual

/-- The levels inside of an expression, without the one that is entered for it as a whole. -/
def Expr.levels : Expr → Nat
  | .literal _ => 0
  | .identifier _ => 0
  | .unary _ operand => operand.levels + 1
  | .binary left _ right => max left.levels right.levels
  | .call callee arguments => max callee.levels (Expr.levelsAll arguments)
  | .field object _ => object.levels
  | .subscript object index => max object.levels (index.levels + 1)

def Expr.levelsAll : List Expr → Nat
  | [] => 0
  | expr :: rest => max (expr.levels + 1) (Expr.levelsAll rest)

end

mutual

def Stmt.levels : Stmt → Nat
  | .expression value => value.levels + 1
  | .function _ body => Block.levels body + 1
  | .conditional condition body alternative =>
      max (condition.levels + 1) (max (Block.levels body + 1) alternative.levels)
  | .loop condition body => max (condition.levels + 1) (Block.levels body + 1)
  | .ret (some value) => value.levels + 1
  | .ret none => 0
  | .record _ _ => 0

/-- The levels inside of a block, without the one that is entered for its body. -/
def Block.levels : List Stmt → Nat
  | [] => 0
  | stmt :: rest => max stmt.levels (Block.levels rest)

def Alternative.levels : Alternative → Nat
  | .block body => Block.levels body + 1
  | .conditional condition body alternative =>
      max (condition.levels + 1) (max (Block.levels body + 1) alternative.levels)

end

attribute [simp] Expr.levels Expr.levelsAll Stmt.levels Block.levels Alternative.levels

namespace Parse

structure State.Restored (before after : State) : Prop where
  nesting : after.nesting = before.nesting
  config : after.config = before.config

theorem State.Restored.room_eq {before after : State} (h : before.Restored after) :
    after.room = before.room := by
  rw [room, h.config, h.nesting, room]

theorem State.Restored.trans {first second third : State} (h : first.Restored second)
    (h' : second.Restored third) : first.Restored third :=
  ⟨h'.nesting.trans h.nesting, h'.config.trans h.config⟩

theorem State.restored_advance (state : State) : state.Restored state.advance.2 := by
  have hpulled : state.Restored state.pull.2 := by
    unfold pull
    split <;> exact ⟨rfl, rfl⟩
  cases hpull : state.pull with
  | mk result after =>
      rw [hpull] at hpulled
      cases result with
      | error failure =>
          rw [advance_of_failure hpull]
          exact hpulled
      | ok following =>
          rw [advance_eq_of_pull hpull]
          exact ⟨hpulled.nesting, hpulled.config⟩

namespace Parser

/-! ## Bounded grammar functions -/

/-- Where `room` levels are allowed, the values measure at most that much, and every outcome leaves
the depth of nesting as it was. -/
def Bounded {α : Type} (room : Nat) (measure : α → Nat) (parser : Parser α) : Prop :=
  ∀ state : State, state.room = room →
    Ensures parser state (fun value after => measure value ≤ room ∧ state.Restored after)
      fun _ after => state.Restored after

abbrev uncounted {α : Type} (_ : α) : Nat := 0

namespace Bounded

variable {α β : Type} {room : Nat} {measure : α → Nat} {measure' : β → Nat} {parser : Parser α}

theorem of_value {value : α} (h : measure value ≤ room) : Bounded room measure (pure value) :=
  fun _ _ => .of_pure ⟨h, rfl, rfl⟩

theorem of_throw (measure : α → Nat) (error : Error) : Bounded room measure (throw error) :=
  fun _ _ => .of_throw ⟨rfl, rfl⟩

theorem of_exhausted (measure : α → Nat) : Bounded room measure Parser.exhausted :=
  fun _ _ => .of_exhausted

theorem bind {next : α → Parser β} (h : Bounded room measure parser)
    (hnext : ∀ value, measure value ≤ room → Bounded room measure' (next value)) :
    Bounded room measure' (parser >>= next) := by
  intro state hroom
  apply Ensures.bind (h state hroom)
  rintro value middle ⟨hvalue, hmiddle⟩
  apply (hnext value hvalue middle (hmiddle.room_eq.trans hroom)).weaken
  · exact fun _ _ hafter => ⟨hafter.1, hmiddle.trans hafter.2⟩
  · exact fun _ _ hafter => hmiddle.trans hafter

theorem currentToken : Bounded room uncounted Parser.currentToken :=
  fun _ _ => .of_currentToken ⟨Nat.zero_le _, rfl, rfl⟩

theorem currentKind : Bounded room uncounted Parser.currentKind :=
  fun _ _ => .of_currentKind ⟨Nat.zero_le _, rfl, rfl⟩

theorem nextKind : Bounded room uncounted Parser.nextKind :=
  fun _ _ => .of_nextKind ⟨Nat.zero_le _, rfl, rfl⟩

theorem counts : Bounded room uncounted Parser.counts :=
  fun _ _ => .get_bind (.get_bind (.of_pure ⟨Nat.zero_le _, rfl, rfl⟩))

theorem note (event : State → Event) : Bounded room uncounted (Parser.note event) :=
  fun _ _ => .of_modify ⟨Nat.zero_le _, rfl, rfl⟩

theorem advance : Bounded room uncounted Parser.advance := by
  intro state _
  have hafter := state.restored_advance
  cases hadvance : state.advance with
  | mk result after =>
      rw [hadvance] at hafter
      apply Ensures.of_advance hadvance
      cases result with
      | ok token => exact ⟨Nat.zero_le _, hafter⟩
      | error error => exact hafter

theorem expectOneOf (kinds : List TokenKind) : Bounded room uncounted (Parser.expectOneOf kinds) := by
  apply bind currentToken
  intro token _
  split
  · exact advance
  · exact of_throw _ _

theorem expect (kind : TokenKind) : Bounded room uncounted (Parser.expect kind) :=
  expectOneOf [kind]

theorem nested (h : ∀ room, Bounded room measure parser) :
    Bounded room (fun value => measure value + 1) (nested parser) := by
  intro state hroom
  apply Ensures.get_bind
  split
  · exact .of_throw ⟨rfl, rfl⟩
  · rename_i hdeep
    apply Ensures.set_bind
    have hroom' : ({ state with nesting := state.nesting + 1 } : State).room + 1 = room := by
      rw [← hroom, State.room, State.room]
      simp only
      omega
    apply Ensures.bind (h _ _ rfl).attempt
    intro result after hafter
    apply Ensures.modify_bind
    cases result with
    | ok value =>
        obtain ⟨hvalue, hafter⟩ := hafter
        rw [← hroom']
        exact .of_pure ⟨Nat.succ_le_succ hvalue, by simp [hafter.nesting], hafter.config⟩
    | error error =>
        have hafter : State.Restored _ after := hafter
        exact .of_throw ⟨by simp [hafter.nesting], hafter.config⟩

theorem record (error : Error) : Bounded room uncounted (Parser.record error) := by
  intro state _
  apply Ensures.modify_bind
  apply Ensures.get_bind
  split
  · exact .of_throw ⟨rfl, rfl⟩
  · exact .of_pure ⟨Nat.zero_le _, rfl, rfl⟩

theorem surface (error : Error) : Bounded room uncounted (Parser.surface error) := by
  intro state hroom
  apply Ensures.get_bind
  split
  · exact .of_throw ⟨rfl, rfl⟩
  · exact record error state hroom

theorem recovering {next : α → Parser β} {elsewhere : Parser β} (h : Bounded room measure parser)
    (hnext : ∀ value, measure value ≤ room → Bounded room measure' (next value))
    (helsewhere : Bounded room measure' elsewhere) :
    Bounded room measure' (recovering parser next elsewhere) := by
  intro state hroom
  apply Ensures.bind (h state hroom).attempt
  intro result middle hmiddle
  cases result with
  | ok value =>
      obtain ⟨hvalue, hmiddle⟩ := hmiddle
      apply (hnext value hvalue middle (hmiddle.room_eq.trans hroom)).weaken
      · exact fun _ _ hafter => ⟨hafter.1, hmiddle.trans hafter.2⟩
      · exact fun _ _ hafter => hmiddle.trans hafter
  | error error =>
      have hmiddle : state.Restored middle := hmiddle
      have hbehind := (surface error).bind fun _ _ => helsewhere
      apply (hbehind middle (hmiddle.room_eq.trans hroom)).weaken
      · exact fun _ _ hafter => ⟨hafter.1, hmiddle.trans hafter.2⟩
      · exact fun _ _ hafter => hmiddle.trans hafter

end Bounded

end Parser

end Parse

end Offside
