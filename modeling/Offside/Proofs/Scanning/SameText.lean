import Offside.Proofs.Scanning.Lockstep
import Offside.Proofs.Scanning.Places

/-!
# Scanners in front of the same text

What a scanner gives depends on its position for one thing only: whether the text that is left begins
in the first column.
-/

namespace Offside

/-- What is read depends on the text only, and so does the number of bytes of a line break. -/
theorem Text.Cursor.read?_cases (rest : List Char) :
    (∀ position, (⟨rest, position⟩ : Cursor).read? = none) ∨
    (∃ more bytes, ∀ position, (⟨rest, position⟩ : Cursor).read? =
      some ('\n', ⟨more, position.newline bytes⟩)) ∨
    ∃ c more, c ≠ '\n' ∧ ∀ position, (⟨rest, position⟩ : Cursor).read? =
      some (c, ⟨more, position.advance c⟩) := by
  cases rest with
  | nil => exact .inl fun _ => rfl
  | cons c rest =>
      by_cases hreturn : c = '\r'
      · subst hreturn
        right
        left
        cases rest with
        | nil => exact ⟨[], 1, fun _ => rfl⟩
        | cons d rest =>
            by_cases hfeed : d = '\n'
            · subst hfeed
              exact ⟨rest, 2, fun _ => rfl⟩
            · exact ⟨d :: rest, 1, fun _ => by simp [read?, hfeed]⟩
      · have hread : ∀ position, (⟨c :: rest, position⟩ : Cursor).read? =
            some (c, ⟨rest, position.advance c⟩) := by
          simp [read?, hreturn]
        by_cases hfeed : c = '\n'
        · subst hfeed
          exact .inr (.inl ⟨rest, 1, hread⟩)
        · exact .inr (.inr ⟨c, rest, hfeed, hread⟩)

namespace Scan

open Text (Cursor)

variable {cursor cursor' : Cursor}

structure SameText (cursor cursor' : Cursor) : Prop where
  rest : cursor'.rest = cursor.rest
  column : cursor.atEnd = false → cursor'.position.column = cursor.position.column

theorem lockstep_sameText : Lockstep SameText SameText := by
  rintro ⟨rest, position⟩ ⟨rest', position'⟩ ⟨hrest, hcolumn⟩
  obtain rfl : rest' = rest := hrest
  rcases Cursor.read?_cases rest' with hread | ⟨more, bytes, hread⟩ | ⟨c, more, hc, hread⟩
  · exact .ended (hread _) (hread _)
  · exact .breaks (hread _) (hread _) ⟨rfl, fun _ => rfl⟩
  · refine .reads hc (hread _) (hread _) ⟨rfl, fun _ => ?_⟩
    have hend := Cursor.atEnd_of_read? (hread position)
    simp only [Text.Position.advance, hc, if_false]
    exact congrArg (· + 1) (hcolumn hend)

theorem Lockstep.skipBlanks_sameText {within behind : Cursor → Cursor → Prop}
    (hlock : Lockstep within behind)
    (hrest : ∀ ⦃cursor cursor' : Cursor⦄, within cursor cursor' → cursor'.rest = cursor.rest)
    (hbehind : ∀ ⦃cursor cursor' : Cursor⦄, behind cursor cursor' → within cursor cursor')
    (h : within cursor cursor') (tabWidth limit : UInt64) (joined : Bool) :
    (Scan.skipBlanks tabWidth limit joined cursor').1 =
        (Scan.skipBlanks tabWidth limit joined cursor).1 ∧
      within (Scan.skipBlanks tabWidth limit joined cursor).2
        (Scan.skipBlanks tabWidth limit joined cursor').2 := by
  cases joined with
  | false =>
      obtain ⟨hflag, hflag', hafter⟩ := hlock.skipBlanks h tabWidth limit
      exact ⟨by rw [hflag, hflag'], hafter⟩
  | true =>
      induction hlength : cursor.rest.length using Nat.strongRecOn generalizing cursor cursor' with
      | ind length ih =>
          cases hlock h with
          | ended hread hread' =>
              rw [skipBlanks_of_end hread, skipBlanks_of_end hread']
              exact ⟨rfl, h⟩
          | breaks hread hread' hnext =>
              rw [skipBlanks_of_joined hread, skipBlanks_of_joined hread', hrest h]
              split
              · exact ⟨rfl, h⟩
              · exact ih _ (hlength ▸ Cursor.length_lt_of_read? hread) (hbehind hnext) rfl
          | reads hc hread hread' hnext =>
              rw [skipBlanks_of_char hread hc, skipBlanks_of_char hread' hc]
              split
              · exact ih _ (hlength ▸ Cursor.length_lt_of_read? hread) hnext rfl
              · exact ⟨rfl, h⟩

theorem SameText.skipBlanks (h : SameText cursor cursor') (tabWidth limit : UInt64)
    (joined : Bool) :
    (Scan.skipBlanks tabWidth limit joined cursor').1 =
        (Scan.skipBlanks tabWidth limit joined cursor).1 ∧
      SameText (Scan.skipBlanks tabWidth limit joined cursor).2
        (Scan.skipBlanks tabWidth limit joined cursor').2 :=
  lockstep_sameText.skipBlanks_sameText (fun _ _ h => h.rest) (fun _ _ h => h) h tabWidth limit
    joined

namespace Scanner

variable {scanner scanner' : Scanner}

theorem Abreast.step_sameText (h : scanner.Abreast SameText scanner') :
    StepsAlike SameText SameText scanner.step scanner'.step := by
  by_cases hmode : scanner.mode = .dispatch
  · have hmode' := h.mode.trans hmode
    have hskip := h.context.cursor.skipBlanks scanner.tabWidth scanner.context.bracketIndent
      scanner.context.inBrackets
    unfold Scanner.step
    simp only [hmode, hmode']
    apply h.stepDispatch lockstep_sameText
    all_goals
      rw [h.tabWidth, h.context.bracketIndent, h.context.inBrackets_eq]
    · exact hskip.1
    · exact hskip.2
  · exact h.step (fun _ => lockstep_sameText.sameLine h.context.cursor h.context.cursor.column)
      (.inl fun _ _ hnext => hnext) hmode

theorem Abreast.outcomes_of_sameText (h : scanner.Abreast SameText scanner') :
    scanner'.outcomes.map bareItem = scanner.outcomes.map bareItem := by
  induction scanner using step_induction generalizing scanner' with
  | done scanner hmode => rw [outcomes_of_done hmode, outcomes_of_done (h.mode.trans hmode)]
  | step scanner hmode ih =>
      obtain ⟨hbare, hafter⟩ := h.step_sameText
      rw [outcomes_eq_items_append hmode, outcomes_eq_items_append (h.mode ▸ hmode), List.map_append,
        List.map_append, Emission.items_bare hbare, ih (hafter.elim id And.right)]

end Scanner

end Scan

end Offside
