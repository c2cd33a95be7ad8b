import Offside.Parse.Run
import Offside.Proofs.Parsing.Parting

/-!
# What the settings of recovery change

Without recovery a parse stops at the error that it would record first otherwise.  A lower limit on
the recorded errors cuts a parse short behind the first error too many.  Neither changes anything
about a parse that gives no occasion for it.
-/

namespace Offside.Parse

open Scan (TokenStream)

/-! ## Without recovery -/

def Parting.recovery (config : Config) : Parting where
  lenient := { config with recover := true }
  strict := { config with recover := false }
  agreed errors := errors = []
  parted error errors recorded := errors = [] ∧ [error] <+: recorded

theorem Parting.recovery_sound (config : Config) : (recovery config).Sound where
  maxDepth := rfl
  maxErrors := Nat.le_refl _
  recover := nofun
  start := rfl
  stops := by
    rintro errors error rfl - -
    exact ⟨rfl, List.prefix_rfl⟩
  exceeds _ hstrict := nomatch hstrict
  records _ hstrict := nomatch hstrict
  grows h hgrown := ⟨h.1, h.2.trans hgrown⟩
  final _ := by simp [recovery]

/-- Without recovery nothing is recorded, and the first error that would be is the result. -/
theorem parseStream_without_recovery (stream : TokenStream) (config : Config) :
    let tolerant := parseStream stream { config with recover := true }
    let strict := parseStream stream { config with recover := false }
    strict.errors = [] ∧
      strict.result =
        match tolerant.errors with
        | [] => tolerant.result
        | error :: _ => .error error := by
  intro tolerant strict
  rcases Parting.parseStream_cases (Parting.recovery_sound config) stream with
    ⟨hsame, hnone⟩ | ⟨error, hresult, hnone, rest, hfirst⟩
  · have herrors : tolerant.errors = [] := hnone
    have hstrict : strict = tolerant := hsame
    rw [hstrict, herrors]
    exact ⟨rfl, rfl⟩
  · have herrors : tolerant.errors = error :: rest := hfirst.symm
    rw [herrors]
    exact ⟨hnone, hresult⟩

/-! ## Fewer errors -/

/-- A run with a lower limit agrees with one that may record more errors up to the first one too
many. -/
def Parting.limit (config : Config) (lower higher : Nat) : Parting where
  lenient := { config with maxErrors := higher }
  strict := { config with maxErrors := lower }
  agreed errors := errors.length ≤ lower
  parted error errors recorded :=
    error.cause = .tooManyErrors (lower + 1) ∧ errors.length = lower + 1 ∧ errors <+: recorded

theorem Parting.limit_sound (config : Config) {lower higher : Nat} (h : lower ≤ higher) :
    (limit config lower higher).Sound where
  maxDepth := rfl
  maxErrors := h
  recover := id
  start := Nat.zero_le _
  stops _ hstrict hlenient := absurd (hstrict.symm.trans hlenient) nofun
  exceeds := by
    intro errors error position hfew _ hmany
    have hlength : errors.length = lower := by
      change errors.length ≤ lower at hfew
      change lower < errors.length + 1 at hmany
      omega
    exact ⟨by rw [hlength], by simp [hlength], List.prefix_rfl⟩
  records _ _ hfew := by simpa [limit] using hfew
  grows h hgrown := ⟨h.1, h.2.1, h.2.2.trans hgrown⟩
  final h := by simp [Error.isFatal, h.1]

/-- A lower limit on the recorded errors only cuts a parse short. -/
theorem parseStream_maxErrors (stream : TokenStream) (config : Config) (lower higher : Nat)
    (h : lower ≤ higher) :
    let unlimited := parseStream stream { config with maxErrors := higher }
    let limited := parseStream stream { config with maxErrors := lower }
    (unlimited.errors.length ≤ lower → limited = unlimited) ∧
      (lower < unlimited.errors.length →
        (∃ position, limited.result = .error ⟨.tooManyErrors (lower + 1), position⟩) ∧
          limited.errors = unlimited.errors.take (lower + 1)) ∧
      ∀ block, limited.result = .ok block → limited.errors.length ≤ lower := by
  intro unlimited limited
  rcases Parting.parseStream_cases (Parting.limit_sound config h) stream with
    ⟨hsame, hfew⟩ | ⟨⟨cause, position⟩, hresult, hcause, hlength, hshort⟩
  · have hlimited : limited = unlimited := hsame
    have herrors : unlimited.errors.length ≤ lower := hfew
    refine ⟨fun _ => hlimited, fun hmany => absurd hmany (Nat.not_lt.2 herrors), fun _ _ => ?_⟩
    rwa [hlimited]
  · have hlimited : limited.errors.length = lower + 1 := hlength
    have herrors : limited.errors <+: unlimited.errors := hshort
    have hmany := herrors.length_le
    refine ⟨fun hfew => by omega, fun _ => ⟨⟨position, ?_⟩, ?_⟩, fun block hblock => ?_⟩
    · cases hcause
      exact hresult
    · rw [← hlimited]
      exact List.prefix_iff_eq_take.1 herrors
    · exact absurd (hblock.symm.trans hresult) nofun

/-- Two broken lines, where one error is too many. -/
theorem parseStream_maxErrors_two :
    0 ≤ UInt64.size - 1 ∧
      (parseStream (.ofText ")\n)\n" 4)
        { Config.default with maxErrors := UInt64.size - 1 }).errors.length = 2 ∧
      (∃ position, (parseStream (.ofText ")\n)\n" 4) { Config.default with maxErrors := 0 }).result =
        .error ⟨.tooManyErrors 1, position⟩) ∧
      (parseStream (.ofText ")\n)\n" 4) { Config.default with maxErrors := 0 }).errors =
        (parseStream (.ofText ")\n)\n" 4)
          { Config.default with maxErrors := UInt64.size - 1 }).errors.take 1 := by
  have htwo : (parseStream (.ofText ")\n)\n" 4)
      { Config.default with maxErrors := UInt64.size - 1 }).errors.length = 2 := by decide +kernel
  obtain ⟨-, hmany, -⟩ :=
    parseStream_maxErrors (.ofText ")\n)\n" 4) .default 0 (UInt64.size - 1) (by decide)
  obtain ⟨hresult, herrors⟩ := hmany (by rw [htwo]; decide)
  exact ⟨by decide, htwo, hresult, herrors⟩

end Offside.Parse
