import Mathlib.Data.List.Basic

/-!
# The offside rule

Which widths a line may have behind the lines before it, and which widths are open then, without a
stack: a width is open as long as no later line is left of it.  The stack of open widths follows the
rule one line at a time.
-/

namespace Offside.Scan

variable {before behind stack : List Nat} {width last : Nat}

/-- A positive width among those of some lines that no later one of them is left of. -/
def Standing (widths : List Nat) (width : Nat) : Prop :=
  0 < width ∧ ∃ front back, widths = front ++ width :: back ∧ ∀ later ∈ back, width ≤ later

/-- A line may follow unless it goes back to the right of the margin without meeting an open width. -/
def FitsBehind (before : List Nat) (width : Nat) : Prop :=
  ∀ last ∈ before.getLast?, 0 < width → width < last → Standing before width

def Disciplined (widths : List Nat) : Prop :=
  ∀ before width behind, widths = before ++ width :: behind → FitsBehind before width

/-- The open widths behind some lines, in increasing order. -/
structure Levels (widths levels : List Nat) : Prop where
  increasing : levels.Pairwise (· < ·)
  mem_iff : ∀ width, width ∈ levels ↔ Standing widths width

/-! ## Line by line -/

theorem standing_nil : ¬ Standing [] width := by
  rintro ⟨-, front, back, h, -⟩
  simp at h

theorem standing_append_singleton :
    Standing (before ++ [last]) width ↔
      0 < width ∧ (width = last ∨ (width < last ∧ Standing before width)) := by
  constructor
  · rintro ⟨hpos, front, back, h, hback⟩
    refine ⟨hpos, ?_⟩
    rcases List.eq_nil_or_concat back with rfl | ⟨back, later, rfl⟩
    · exact .inl (by simpa using (List.append_inj' h rfl).2.symm)
    · rw [List.concat_eq_append, ← List.cons_append, ← List.append_assoc] at h
      obtain ⟨rfl, hlast⟩ := List.append_inj' h rfl
      obtain rfl : last = later := by simpa using hlast
      have hle : width ≤ last := hback last (by simp)
      rcases Nat.eq_or_lt_of_le hle with heq | hlt
      · exact .inl heq
      · exact .inr ⟨hlt, hpos, front, back, rfl, fun later hlater => hback later (by simp [hlater])⟩
  · rintro ⟨hpos, rfl | ⟨hlt, -, front, back, rfl, hback⟩⟩
    · exact ⟨hpos, before, [], rfl, by simp⟩
    · refine ⟨hpos, front, back ++ [last], by simp, ?_⟩
      intro later hlater
      rcases List.mem_append.1 hlater with hlater | hlater
      · exact hback later hlater
      · rw [List.mem_singleton.1 hlater]
        exact Nat.le_of_lt hlt

theorem disciplined_append :
    Disciplined (before ++ width :: behind) ↔
      Disciplined before ∧ FitsBehind before width ∧
        ∀ front next back, behind = front ++ next :: back →
          FitsBehind (before ++ width :: front) next := by
  constructor
  · intro h
    refine ⟨?_, h before width behind rfl, ?_⟩
    · rintro front next back rfl
      exact h front next (back ++ width :: behind) (by simp)
    · rintro front next back rfl
      exact h (before ++ width :: front) next back (by simp)
  · rintro ⟨hbefore, hfits, hbehind⟩ front next back h
    rcases List.append_eq_append_iff.1 h with ⟨middle, rfl, hmiddle⟩ | ⟨middle, rfl, hmiddle⟩
    · cases middle with
      | nil =>
          obtain ⟨rfl, rfl⟩ := List.cons.inj hmiddle
          simpa using hfits
      | cons first middle =>
          rw [List.cons_append, List.cons.injEq] at hmiddle
          obtain ⟨rfl, rfl⟩ := hmiddle
          exact hbehind middle next back rfl
    · cases middle with
      | nil =>
          obtain ⟨rfl, rfl⟩ := List.cons.inj hmiddle
          simpa using hfits
      | cons first middle =>
          rw [List.cons_append, List.cons.injEq] at hmiddle
          obtain ⟨rfl, rfl⟩ := hmiddle
          exact hbefore front next middle (by simp)

/-! ## The stack -/

structure Stack (widths stack : List Nat) : Prop where
  decreasing : stack.Pairwise (· > ·)
  mem_iff : ∀ width, width ∈ stack ↔ width = 0 ∨ Standing widths width

theorem stack_nil : Stack [] [0] := by
  refine ⟨by simp, ?_⟩
  intro width
  simp [standing_nil]

namespace Stack

theorem head?_eq (h : Stack before stack) : stack.head? = some (before.getLast?.getD 0) := by
  have hlast : before.getLast?.getD 0 ∈ stack := by
    rw [h.mem_iff]
    rcases List.eq_nil_or_concat before with rfl | ⟨front, last, rfl⟩
    · simp
    · rcases Nat.eq_zero_or_pos last with rfl | hpos
      · simp
      · refine .inr ⟨?_, front, [], ?_, ?_⟩ <;> simp [hpos]
  cases stack with
  | nil => simp at hlast
  | cons top rest =>
      have htop : top ≤ before.getLast?.getD 0 := by
        rcases (h.mem_iff top).1 List.mem_cons_self with rfl | ⟨-, front, back, rfl, hback⟩
        · exact Nat.zero_le _
        · rcases List.eq_nil_or_concat back with rfl | ⟨back, last, rfl⟩
          · simp
          · have hle : top ≤ last := hback last (by simp)
            rw [List.concat_eq_append, ← List.cons_append, ← List.append_assoc, List.getLast?_concat]
            exact hle
      rcases List.mem_cons.1 hlast with heq | hmem
      · rw [heq]
        rfl
      · have hless := (List.pairwise_cons.1 h.decreasing).1 _ hmem
        omega

theorem push (h : Stack before stack) (hless : ∀ level ∈ stack, level < width) :
    Stack (before ++ [width]) (width :: stack) := by
  have hpos : 0 < width := hless 0 ((h.mem_iff 0).2 (.inl rfl))
  refine ⟨List.pairwise_cons.2 ⟨hless, h.decreasing⟩, ?_⟩
  intro level
  rw [standing_append_singleton, List.mem_cons, h.mem_iff]
  constructor
  · rintro (rfl | rfl | hstanding)
    · exact .inr ⟨hpos, .inl rfl⟩
    · exact .inl rfl
    · exact .inr ⟨hstanding.1,
        .inr ⟨hless level ((h.mem_iff level).2 (.inr hstanding)), hstanding⟩⟩
  · rintro (rfl | ⟨-, rfl | ⟨-, hstanding⟩⟩)
    · exact .inr (.inl rfl)
    · exact .inl rfl
    · exact .inr (.inr hstanding)

theorem pop {inner : List Nat} (h : Stack before (inner ++ width :: stack)) :
    Stack (before ++ [width]) (width :: stack) := by
  have hpairs := List.pairwise_append.1 h.decreasing
  refine ⟨hpairs.2.1, ?_⟩
  intro level
  rw [standing_append_singleton]
  constructor
  · intro hmem
    rcases (h.mem_iff level).1 (List.mem_append_right inner hmem) with hzero | hstanding
    · exact .inl hzero
    · refine .inr ⟨hstanding.1, ?_⟩
      rcases List.mem_cons.1 hmem with heq | hmem
      · exact .inl heq
      · exact .inr ⟨(List.pairwise_cons.1 hpairs.2.1).1 _ hmem, hstanding⟩
  · have hlow : ∀ level, level ∈ inner ++ width :: stack → level < width → level ∈ stack := by
      intro level hmem hlt
      rcases List.mem_append.1 hmem with hmem | hmem
      · have hmore := hpairs.2.2 level hmem width List.mem_cons_self
        omega
      · rcases List.mem_cons.1 hmem with rfl | hmem
        · omega
        · exact hmem
    rintro (rfl | ⟨-, rfl | ⟨hlt, hstanding⟩⟩)
    · rcases Nat.eq_zero_or_pos width with rfl | hpos
      · exact List.mem_cons_self
      · exact List.mem_cons_of_mem _ (hlow 0 ((h.mem_iff 0).2 (.inl rfl)) hpos)
    · exact List.mem_cons_self
    · exact List.mem_cons_of_mem _ (hlow level ((h.mem_iff level).2 (.inr hstanding)) hlt)

theorem exists_levels (h : Stack before stack) :
    ∃ levels, Levels before levels ∧ stack = levels.reverse ++ [0] := by
  obtain ⟨inner, outer, rfl⟩ := List.append_of_mem ((h.mem_iff 0).2 (.inl rfl))
  obtain ⟨hinner, houter, habove⟩ := List.pairwise_append.1 h.decreasing
  have hnil : outer = [] := by
    cases outer with
    | nil => rfl
    | cons first outer =>
        have hless := (List.pairwise_cons.1 houter).1 first List.mem_cons_self
        omega
  subst hnil
  refine ⟨inner.reverse, ⟨List.pairwise_reverse.2 hinner, ?_⟩, by rw [List.reverse_reverse]⟩
  intro level
  have hmem := h.mem_iff level
  rw [List.mem_append, List.mem_singleton] at hmem
  rw [List.mem_reverse]
  constructor
  · intro hlevel
    have hpos : 0 < level := habove level hlevel 0 (by simp)
    rcases hmem.1 (.inl hlevel) with rfl | hstanding
    · omega
    · exact hstanding
  · intro hstanding
    rcases hmem.2 (.inr hstanding) with hlevel | rfl
    · exact hlevel
    · exact absurd hstanding.1 (by omega)

end Stack

end Offside.Scan
