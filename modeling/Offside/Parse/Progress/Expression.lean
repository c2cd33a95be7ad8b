import Offside.Parse.Expression
import Offside.Parse.Progress.Completion

/-!
# Expressions do not run out of fuel

A level of precedence needs one step for each level down to the atoms, and everything behind a
consumed token has sixteen more.  Every expression consumes a token.
-/

namespace Offside.Parse.Parser

variable {state : State}

/-! ## Names and literals -/

theorem identifier_completes (h : state.WellFormed) :
    Completes identifier state fun _ after => state.consumed < after.consumed := by
  refine (expect_completes h (by decide)).bind ?_
  rintro token after hwell - ⟨-, hconsumed⟩
  split
  · exact .of_pure hwell (by omega)
  · exact .of_throw hwell

theorem kind_of_literalOf? {kind : TokenKind} {token : Token} {value : Literal}
    (h : literalOf? kind token = some value) : token.kind = kind := by
  unfold literalOf? at h
  split at h
  · assumption
  · simp at h

theorem literal?_completes (h : state.WellFormed) {kinds : List TokenKind}
    (hkinds : TokenKind.eof ∉ kinds) :
    Completes (literal? kinds) state fun value? after =>
      if value?.isSome then state.consumed < after.consumed else after = state := by
  refine (currentToken_completes h).bind ?_
  rintro _ _ - - ⟨rfl, rfl⟩
  split
  · rename_i value hvalue
    obtain ⟨kind, hkind, hliteral⟩ := List.exists_of_findSome?_eq_some hvalue
    have hcurrent := kind_of_literalOf? hliteral
    refine (advance_completes h).bind ?_
    rintro _ after hwell - ⟨-, hconsumed⟩
    have := hconsumed (by rw [hcurrent]; rintro rfl; exact hkinds hkind)
    exact .of_pure hwell (by simp; omega)
  · exact .of_pure h (by simp)

/-- After a prefix operator that is read again, one error less can be recorded. -/
theorem signAhead?_completes (h : state.WellFormed) :
    Completes signAhead? state fun op? after =>
      if op?.isSome then
        after.consumed = state.consumed ∧
          (after.current.kind = .eof → after.need + 1 ≤ state.need)
      else after = state := by
  refine (Completes.of_get h).bind ?_
  rintro _ _ - - ⟨rfl, rfl⟩
  split
  · rename_i hminus
    exact .of_pure h (by simp [hminus])
  · split
    · split
      · refine (record_completes h).bind ?_
        rintro _ after hwell - ⟨hneed, hconsumed, -⟩
        exact .of_pure hwell (by simp [hconsumed, hneed])
      · exact .of_throw h
    · exact .of_pure h (by simp)

/-! ## The levels of precedence -/

/-- How many grammar functions are entered from a level in front of one token. -/
def rank : Level → Nat
  | .atom => 3
  | .suffix => 4
  | .power => 5
  | .sign => 6
  | .product => 7
  | .sum => 8
  | .comparison => 9
  | .negation => 10
  | .conjunction => 11
  | .disjunction => 12
  | .assignment => 13

theorem rank_pos (here : Level) : 0 < rank here := by cases here <;> decide

theorem ne_eof_of_operator? {here : Level} {kind : TokenKind} {op : BinaryOp}
    (h : here.operator? kind = some op) : kind ≠ .eof := by
  rintro rfl
  simp [Level.operator?, BinaryOp.ofKind?] at h

structure ExpressionsComplete (fuel : Nat) : Prop where
  expression : ∀ state : State, state.WellFormed → state.need + 14 ≤ fuel →
    Completes (expression fuel) state fun _ after => state.consumed < after.consumed
  level : ∀ (here : Level) (state : State), state.WellFormed → state.need + rank here ≤ fuel →
    Completes (level fuel here) state fun _ after => state.consumed < after.consumed
  suffixes : ∀ (object : Expr) (state : State), state.WellFormed → state.need + 1 ≤ fuel →
    Completes (suffixes fuel object) state fun _ _ => True
  arguments : ∀ state : State, state.WellFormed → state.need + 15 ≤ fuel →
    Completes (arguments fuel) state fun _ _ => True
  moreArguments : ∀ state : State, state.WellFormed → state.need + 1 ≤ fuel →
    Completes (moreArguments fuel) state fun _ _ => True
  atom : ∀ state : State, state.WellFormed → state.need + 2 ≤ fuel →
    Completes (atom fuel) state fun _ after => state.consumed < after.consumed
  parenthesized? : ∀ state : State, state.WellFormed → state.need + 1 ≤ fuel →
    Completes (parenthesized? fuel) state fun value? after =>
      value?.isSome → state.consumed < after.consumed

section

variable {fuel : Nat} (ih : ExpressionsComplete fuel)

include ih

/-- A level of binary operators, whose operands are read with less fuel. -/
theorem binaryLevel_completes {here : Level} (htighter : rank here.tighter < rank here)
    (h : state.WellFormed) (hfuel : state.need + rank here ≤ fuel + 1) :
    Completes
      (do
        let left ← level fuel here.tighter
        match here.operator? (← currentKind) with
        | some op =>
            let _ ← advance
            return .binary left op (← level fuel here.right)
        | none => return left)
      state fun _ after => state.consumed < after.consumed := by
  refine (ih.level here.tighter state h (by omega)).bind ?_
  intro left middle hwell hadvances hleft
  refine (currentKind_completes hwell).bind ?_
  rintro _ _ - - ⟨rfl, rfl⟩
  split
  · rename_i op hop
    refine (advance_completes_of_ne hwell (ne_eof_of_operator? hop)).bind ?_
    rintro _ after hafter hadvances' ⟨hconsumed, hneed⟩
    have := hadvances.need_le
    have hright : rank here.right ≤ 13 := by cases here <;> decide
    refine (ih.level here.right after hafter (by omega)).bind ?_
    intro right last hlast hadvances'' _
    have := hadvances''.consumed
    exact .of_pure hlast (by omega)
  · exact .of_pure hwell hleft

theorem nestedLevel_completes (here : Level) (h : state.WellFormed)
    (hfuel : state.need + rank here ≤ fuel) :
    Completes (nested (level fuel here)) state fun _ after => state.consumed < after.consumed := by
  refine nested_completes h _ ?_
  intro before hbefore hadvances
  have := hadvances.need_le
  have := hadvances.consumed
  refine (ih.level here before hbefore (by omega)).weaken ?_
  intro _ after _ _ hafter nesting
  show state.consumed < after.consumed
  omega

private theorem negation_completes (h : state.WellFormed)
    (hfuel : state.need + rank .negation ≤ fuel + 1) :
    Completes (level (fuel + 1) .negation) state fun _ after => state.consumed < after.consumed := by
  unfold level
  simp only [rank] at hfuel
  refine (currentKind_completes h).bind ?_
  rintro _ _ - - ⟨rfl, rfl⟩
  split
  · rename_i hkind
    refine (advance_completes_of_ne h (by simp [hkind])).bind ?_
    rintro _ after hwell - ⟨hconsumed, hneed⟩
    refine (nestedLevel_completes ih .negation hwell (by simp only [rank]; omega)).bind ?_
    intro _ last hlast _ hoperand
    exact .of_pure hlast (by omega)
  · exact ih.level .comparison state h (by simp only [rank]; omega)

private theorem sign_completes (h : state.WellFormed)
    (hfuel : state.need + rank .sign ≤ fuel + 1) :
    Completes (level (fuel + 1) .sign) state fun _ after => state.consumed < after.consumed := by
  unfold level
  simp only [rank] at hfuel
  refine (signAhead?_completes h).bind ?_
  intro op? signed hsigned hadvances hop
  split
  · obtain ⟨hconsumed, hneed⟩ : signed.consumed = state.consumed ∧
        (signed.current.kind = .eof → signed.need + 1 ≤ state.need) := by simpa using hop
    refine (advance_completes hsigned).bind ?_
    rintro _ after hwell hadvances' ⟨-, hmoved⟩
    have hless : after.need + 1 ≤ state.need := by
      have := hadvances.need_le
      have := hadvances'.need
      by_cases hkind : signed.current.kind = .eof
      · have := hneed hkind
        have := hadvances'.need_le
        omega
      · have := hmoved hkind
        omega
    have := hadvances'.consumed
    refine (nestedLevel_completes ih .sign hwell (by simp only [rank]; omega)).bind ?_
    intro _ last hlast _ hoperand
    exact .of_pure hlast (by omega)
  · have hsame : signed = state := by simpa using hop
    subst hsame
    exact ih.level .power signed h (by simp only [rank]; omega)

private theorem level_completes (here : Level) (h : state.WellFormed)
    (hfuel : state.need + rank here ≤ fuel + 1) :
    Completes (level (fuel + 1) here) state fun _ after => state.consumed < after.consumed := by
  cases here
  case atom =>
    unfold level
    exact ih.atom state h (by simp only [rank] at hfuel; omega)
  case suffix =>
    unfold level
    simp only [rank] at hfuel
    refine (ih.level .atom state h (by simp only [rank]; omega)).bind ?_
    intro object after hwell hadvances hobject
    have := hadvances.need_le
    refine (ih.suffixes object after hwell (by omega)).weaken ?_
    intro _ last _ hlast _
    have := hlast.consumed
    omega
  case negation => exact negation_completes ih h hfuel
  case sign => exact sign_completes ih h hfuel
  all_goals
    unfold level
    exact binaryLevel_completes ih (by decide) h hfuel

private theorem suffixes_completes (object : Expr) (h : state.WellFormed)
    (hfuel : state.need + 1 ≤ fuel + 1) :
    Completes (suffixes (fuel + 1) object) state fun _ _ => True := by
  unfold suffixes
  refine (currentKind_completes h).bind ?_
  rintro _ _ - - ⟨rfl, rfl⟩
  split
  · rename_i hkind
    refine (advance_completes_of_ne h (by simp [hkind])).bind ?_
    rintro _ after hwell - ⟨-, hneed⟩
    refine (ih.arguments after hwell (by omega)).bind ?_
    intro arguments behind hbehind hadvances _
    have := hadvances.need_le
    refine (expect_completes hbehind (by decide)).bind ?_
    rintro _ last hlast hadvances' -
    have := hadvances'.need_le
    exact ih.suffixes _ last hlast (by omega)
  · rename_i hkind
    refine (advance_completes_of_ne h (by simp [hkind])).bind ?_
    rintro _ after hwell - ⟨-, hneed⟩
    refine (identifier_completes hwell).bind ?_
    rintro name last hlast hadvances -
    have := hadvances.need_le
    exact ih.suffixes _ last hlast (by omega)
  · rename_i hkind
    refine (advance_completes_of_ne h (by simp [hkind])).bind ?_
    rintro _ after hwell - ⟨-, hneed⟩
    refine (ih.expression after hwell (by omega)).bind ?_
    intro index behind hbehind hadvances _
    have := hadvances.need_le
    refine (expect_completes hbehind (by decide)).bind ?_
    rintro _ last hlast hadvances' -
    have := hadvances'.need_le
    exact ih.suffixes _ last hlast (by omega)
  · exact .of_pure h trivial

private theorem arguments_completes (h : state.WellFormed) (hfuel : state.need + 15 ≤ fuel + 1) :
    Completes (arguments (fuel + 1)) state fun _ _ => True := by
  unfold arguments
  refine (currentKind_completes h).bind ?_
  rintro _ _ - - ⟨rfl, rfl⟩
  split
  · exact .of_pure h trivial
  · refine (ih.expression state h (by omega)).bind ?_
    intro first after hwell hadvances hafter
    have := hadvances.need
    refine (ih.moreArguments after hwell (by omega)).bind ?_
    intro _ _ hwell _ _
    exact .of_pure hwell trivial

private theorem moreArguments_completes (h : state.WellFormed) (hfuel : state.need + 1 ≤ fuel + 1) :
    Completes (moreArguments (fuel + 1)) state fun _ _ => True := by
  unfold moreArguments
  refine (currentKind_completes h).bind ?_
  rintro _ _ - - ⟨rfl, rfl⟩
  split
  · rename_i hkind
    refine (advance_completes_of_ne h (by simp [hkind])).bind ?_
    rintro _ after hwell - ⟨-, hneed⟩
    refine (ih.expression after hwell (by omega)).bind ?_
    intro argument behind hbehind hadvances _
    have := hadvances.need_le
    refine (ih.moreArguments behind hbehind (by omega)).bind ?_
    intro _ _ hwell _ _
    exact .of_pure hwell trivial
  · exact .of_pure h trivial

private theorem atom_completes (h : state.WellFormed) (hfuel : state.need + 2 ≤ fuel + 1) :
    Completes (atom (fuel + 1)) state fun _ after => state.consumed < after.consumed := by
  unfold atom
  refine (literal?_completes h (by decide)).bind ?_
  intro value? after hwell hadvances hvalue
  split
  · exact .of_pure hwell (by simpa using hvalue)
  · have hsame : after = state := by simpa using hvalue
    subst hsame
    refine (currentKind_completes h).bind ?_
    rintro _ _ - - ⟨rfl, rfl⟩
    split
    · refine (identifier_completes h).bind ?_
      intro _ _ hwell _ hafter
      exact .of_pure hwell hafter
    · refine (ih.parenthesized? after h (by omega)).bind ?_
      intro inner? last hlast _ hinner
      split
      · exact .of_pure hlast (hinner rfl)
      · refine (Completes.of_get hlast).bind ?_
        rintro _ _ - - ⟨rfl, rfl⟩
        exact .of_throw hlast

private theorem parenthesized?_completes (h : state.WellFormed)
    (hfuel : state.need + 1 ≤ fuel + 1) :
    Completes (parenthesized? (fuel + 1)) state fun value? after =>
      value?.isSome → state.consumed < after.consumed := by
  unfold parenthesized?
  refine (currentKind_completes h).bind ?_
  rintro _ _ - - ⟨rfl, rfl⟩
  split
  · rename_i hkind
    refine (advance_completes_of_ne h (by simp [hkind])).bind ?_
    rintro _ after hwell - ⟨hconsumed, hneed⟩
    refine (ih.expression after hwell (by omega)).bind ?_
    intro inner behind hbehind _ hinner
    refine (expect_completes hbehind (by decide)).bind ?_
    rintro _ last hlast - ⟨-, hclosed⟩
    exact .of_pure hlast fun _ => by omega
  · exact .of_pure h (by simp)

end

theorem expressionsComplete (fuel : Nat) : ExpressionsComplete fuel := by
  induction fuel with
  | zero =>
    constructor
    case level =>
      intro here _ _ hfuel
      have := rank_pos here
      omega
    all_goals intros; omega
  | succ fuel ih =>
    constructor
    case expression =>
      intro state h hfuel
      unfold expression
      exact nestedLevel_completes ih .assignment h (by simp only [rank]; omega)
    case level => exact fun here _ h hfuel => level_completes ih here h hfuel
    case suffixes => exact fun object _ h hfuel => suffixes_completes ih object h hfuel
    case arguments => exact fun _ h hfuel => arguments_completes ih h hfuel
    case moreArguments => exact fun _ h hfuel => moreArguments_completes ih h hfuel
    case atom => exact fun _ h hfuel => atom_completes ih h hfuel
    case parenthesized? => exact fun _ h hfuel => parenthesized?_completes ih h hfuel

end Offside.Parse.Parser
