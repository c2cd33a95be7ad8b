import Offside.Scan.Symbol

/-!
# Brackets that pair

A sequence of brackets is well nested if each opener is closed by its own closer behind well nested
brackets.  The scanner pushes openers on a stack, pops them with their closers and leaves the stack
alone at any other closer.  It meets no such closer and ends with an empty stack exactly if the
brackets are well nested.
-/

namespace Offside.Scan

open Text (Position)

/-- Brackets each of which is paired with one that closes it. -/
inductive WellNested : List Char → Prop where
  | nil : WellNested []
  | enclose {opener : Char} {inner : List Char} (h : isOpener opener = true)
      (hinner : WellNested inner) : WellNested (opener :: (inner ++ [closingOf opener]))
  | append {front back : List Char} (hfront : WellNested front) (hback : WellNested back) :
      WellNested (front ++ back)

def isBracket (c : Char) : Bool := isOpener c || isCloser c

theorem facts_of_isBracket {c : Char} (h : isBracket c = true) :
    isReserved c = true ∧ Text.isBlank c = false ∧ c.isDigit = false ∧ c ≠ '"' := by
  simp only [isBracket, isOpener, isCloser, Bool.or_eq_true, beq_iff_eq] at h
  rcases h with ((rfl | rfl) | rfl) | ((rfl | rfl) | rfl) <;> decide

/-! ## The stack of open brackets -/

/-- What is wrong with a bracket that stands inside of the openers, innermost first. -/
def bracketFault? (openers : List Char) (c : Char) : Option Fault :=
  if isOpener c then none
  else
    match openers with
    | [] => some (.unmatchedCloser c)
    | opener :: _ =>
        if closingOf opener = c then none else some (.mismatchedBracket (closingOf opener) c)

/-- The openers behind a bracket: one that closes nothing leaves them alone. -/
def openersBehind (openers : List Char) (c : Char) : List Char :=
  if isOpener c then c :: openers
  else if bracketFault? openers c = none then openers.tail else openers

def Faultless : List Char → List Char → Prop
  | _, [] => True
  | openers, c :: rest => bracketFault? openers c = none ∧ Faultless (openersBehind openers c) rest

variable {openers front back chars : List Char} {c : Char}

theorem faultless_append :
    Faultless openers (front ++ back) ↔
      Faultless openers front ∧ Faultless (front.foldl openersBehind openers) back := by
  induction front generalizing openers with
  | nil => simp [Faultless]
  | cons c front ih => simp [Faultless, ih, and_assoc]

theorem isOpener_closingOf {opener : Char} (h : isOpener opener = true) :
    isOpener (closingOf opener) = false ∧ isCloser (closingOf opener) = true := by
  simp only [isOpener, Bool.or_eq_true, beq_iff_eq] at h
  rcases h with (rfl | rfl) | rfl <;> decide

theorem WellNested.faultless (h : WellNested chars) (openers : List Char) :
    Faultless openers chars ∧ chars.foldl openersBehind openers = openers := by
  induction h generalizing openers with
  | nil => exact ⟨trivial, rfl⟩
  | @enclose opener inner h hinner ih =>
      obtain ⟨hfaultless, hopeners⟩ := ih (opener :: openers)
      have hcloser := (isOpener_closingOf h).1
      have hpair : bracketFault? (opener :: openers) (closingOf opener) = none := by
        simp [bracketFault?, hcloser]
      constructor
      · refine ⟨by simp [bracketFault?, h], ?_⟩
        rw [openersBehind, if_pos h, faultless_append, hopeners]
        exact ⟨hfaultless, hpair, trivial⟩
      · rw [List.foldl_cons, List.foldl_append, openersBehind, if_pos h, hopeners]
        simp [openersBehind, hcloser, hpair]
  | append hfront hback ihfront ihback =>
      obtain ⟨hfaultless, hopeners⟩ := ihfront openers
      obtain ⟨hfaultless', hopeners'⟩ := ihback openers
      rw [faultless_append, List.foldl_append, hopeners]
      exact ⟨⟨hfaultless, hfaultless'⟩, hopeners'⟩

inductive Closing : List Char → List Char → Prop where
  | done {chars : List Char} (h : WellNested chars) : Closing [] chars
  | close {opener : Char} {openers inner rest : List Char} (hinner : WellNested inner)
      (hrest : Closing openers rest) :
      Closing (opener :: openers) (inner ++ closingOf opener :: rest)

theorem Closing.behind (hfront : WellNested front) (h : Closing openers back) :
    Closing openers (front ++ back) := by
  cases h with
  | done hback => exact .done (.append hfront hback)
  | close hinner hrest =>
      rw [← List.append_assoc]
      exact .close (.append hfront hinner) hrest

theorem closing_of_faultless (hfaultless : Faultless openers chars)
    (hopeners : chars.foldl openersBehind openers = []) : Closing openers chars := by
  induction chars generalizing openers with
  | nil =>
      obtain rfl : openers = [] := hopeners
      exact .done .nil
  | cons c chars ih =>
      have hrest := ih hfaultless.2 hopeners
      by_cases hopener : isOpener c = true
      · rw [openersBehind, if_pos hopener] at hrest
        cases hrest with
        | @close _ _ inner rest hinner hrest =>
            have hpair : c :: (inner ++ closingOf c :: rest) =
                (c :: (inner ++ [closingOf c])) ++ rest := by simp
            rw [hpair]
            exact hrest.behind (.enclose hopener hinner)
      · have hfault := hfaultless.1
        rw [openersBehind, if_neg hopener, if_pos hfault] at hrest
        cases openers with
        | nil => simp [bracketFault?, hopener] at hfault
        | cons opener openers =>
            obtain rfl : closingOf opener = c := by simpa [bracketFault?, hopener] using hfault
            exact .close .nil hrest

theorem wellNested_iff :
    WellNested chars ↔ Faultless [] chars ∧ chars.foldl openersBehind [] = [] := by
  constructor
  · exact fun h => h.faultless []
  · rintro ⟨hfaultless, hopeners⟩
    cases closing_of_faultless hfaultless hopeners with
    | done h => exact h

/-! ## Brackets as tokens -/

/-- The openers that are open behind brackets, innermost first: each closer closes one. -/
def openersOf (chars : List Char) : List Char :=
  chars.foldl (fun openers c => if isOpener c then c :: openers else openers.tail) []

theorem openersOf_eq (h : Faultless [] chars) : chars.foldl openersBehind [] = openersOf chars := by
  unfold openersOf
  generalize ([] : List Char) = openers at h ⊢
  induction chars generalizing openers with
  | nil => rfl
  | cons c chars ih =>
      rw [List.foldl_cons, List.foldl_cons, ih _ h.2, openersBehind, if_pos h.1]

/-- The token of a bracket that stands inside of the openers. -/
def bracketToken (openers : List Char) (c : Char) (position : Position) : Token :=
  match bracketFault? openers c with
  | none => .plain (if isOpener c then openerKind c else closerKind c) position
  | some fault => .error fault position

theorem scanSymbol_bracket (hbracket : isBracket c = true) (position : Position)
    (context : Context) :
    (scanSymbol c position context).1 = bracketToken context.openers c position ∧
      (scanSymbol c position context).2.openers = openersBehind context.openers c ∧
      (scanSymbol c position context).2.cursor = context.cursor := by
  unfold scanSymbol bracketToken openersBehind bracketFault?
  by_cases hopener : isOpener c = true
  · simp [hopener, Context.openBracket]
  · have hcloser : isCloser c = true := by simpa [isBracket, hopener] using hbracket
    cases hopeners : context.openers with
    | nil => simp [hopener, hcloser, Context.closeBracket, hopeners]
    | cons opener openers =>
        by_cases hpair : closingOf opener = c
        · simp [hopener, hcloser, Context.closeBracket, hopeners, hpair]
        · simp [hopener, hcloser, Context.closeBracket, hopeners, hpair]

end Offside.Scan
