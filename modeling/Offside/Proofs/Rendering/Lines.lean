import Offside.Proofs.Rendering.Expression
import Offside.Proofs.Scanning.Layout

/-!
# Lines of a rendered program are read back

The lines of a block stand at the depth of the block, or further in.  In front of any text that goes
on at this depth, or further out, they give their tokens, and all blocks that they open are closed.
-/

namespace Offside.Scan

open Text (Position)

/-! ## Texts of lines -/

def written (lines : List String) : List Char := lines.flatMap fun line => line.toList ++ ['\n']

theorem toList_unlines (lines : List String) : (unlines lines).toList = written lines := by
  simp [unlines, written, String.toList_join, List.flatMap_map]

theorem written_cons (line : String) (lines : List String) :
    written (line :: lines) = line.toList ++ '\n' :: written lines := by
  simp [written]

theorem written_append (lines lines' : List String) :
    written (lines ++ lines') = written lines ++ written lines' :=
  List.flatMap_append

theorem toList_margin (depth : Nat) : (margin depth).toList = List.replicate (4 * depth) ' ' := by
  simp [margin]

variable {depth outer : Nat} {lead : String} {lines lines' below : List String}
  {tokens tokens' : List Token} {rest content : List Char} {position : Position}

def Leads (depth : Nat) (lines : List String) : Prop :=
  ∃ lead below, lines = (margin depth ++ lead) :: below ∧ Begins lead.toList

theorem leads_cons (hlead : Begins lead.toList) : Leads depth ((margin depth ++ lead) :: below) :=
  ⟨lead, below, rfl, hlead⟩

theorem margined_cons (hlead : Begins lead.toList) (rest : List Char) :
    Margined (written ((margin depth ++ lead) :: below) ++ rest) depth
      (lead.toList ++ '\n' :: (written below ++ rest)) := by
  obtain ⟨c, more, hcons, hblank, -⟩ := hlead
  constructor
  · simp [written_cons, toList_margin]
  · simp
  · simpa [hcons] using hblank

theorem Leads.margined (h : Leads depth lines) (rest : List Char) :
    ∃ content, Margined (written lines ++ rest) depth content := by
  obtain ⟨lead, below, rfl, hlead⟩ := h
  exact ⟨_, margined_cons hlead rest⟩

theorem Leads.margin_lt (h : Leads depth lines) (hlength : (written lines).length < 2 ^ 64) :
    4 * depth < 2 ^ 64 := by
  obtain ⟨lead, below, rfl, hlead⟩ := h
  simp only [written_cons, String.toList_append, toList_margin, List.length_append,
    List.length_replicate] at hlength
  omega

def ReadsLine (text : List Char) (tokens : List Token) : Prop :=
  ∀ (rest : List Char) (indents : List UInt64),
    Scans (InLine (text ++ '\n' :: rest) [] indents) tokens (InLine ('\n' :: rest) [] indents)

theorem Reads.line {text : List Char} (h : Reads text tokens) : ReadsLine text tokens :=
  fun rest indents => h ('\n' :: rest) [] indents (stops_of_ne_point (by decide) (by decide) (by decide))

theorem Reads.assign {text : List Char} (h : Reads text tokens) :
    ReadsLine (text ++ [' ', '=']) (tokens ++ [.plain .assign position]) := by
  intro rest indents
  have hsign : Scans (InLine ('=' :: '\n' :: rest) [] indents) [.plain .assign position]
      (InLine ('\n' :: rest) [] indents) :=
    @scans_sign _ _ _ ('=', .assign) _ (by decide) (by simp)
  rw [List.append_assoc]
  exact (h _ [] indents Reads.stops_blank).trans (scans_blank.silent hsign)

/-! ## Lines with and without a block -/

private theorem scans_lead (hlead : Begins lead.toList) (h : ReadsLine lead.toList tokens) :
    Scans (AtMargin (written ((margin depth ++ lead) :: below) ++ rest) depth)
      (tokens ++ [.plain .newline position]) (AtStart (written below ++ rest) (widths depth)) := by
  have hcontent : lead.toList ++ '\n' :: (written below ++ rest) ≠ [] := by simp
  apply (scans_enter (margined_cons hlead rest) hcontent).silent
  exact (h _ _).trans scans_newline

theorem scans_line (hdepth : 4 * depth < 2 ^ 64) (hlead : Begins lead.toList)
    (h : ReadsLine lead.toList tokens) (hrest : Margined rest outer content) (houter : outer ≤ depth) :
    Scans (AtMargin (written [margin depth ++ lead] ++ rest) depth)
      (tokens ++ [.plain .newline position]) (AtMargin rest depth) := by
  have hline : Scans (AtMargin (written [margin depth ++ lead] ++ rest) depth)
      (tokens ++ [.plain .newline position]) (AtStart rest (widths depth)) := scans_lead hlead h
  have hscans := hline.trans (scans_settle hdepth hrest houter)
  rwa [List.append_nil] at hscans

theorem scans_block {opening closing : Position} (hdepth : 4 * (depth + 1) < 2 ^ 64)
    (hlead : Begins lead.toList) (h : ReadsLine lead.toList tokens) (hleads : Leads (depth + 1) lines)
    (hbody : Scans (AtMargin (written lines ++ rest) (depth + 1)) tokens' (AtMargin rest (depth + 1)))
    (hrest : Margined rest outer content) (houter : outer ≤ depth) :
    Scans (AtMargin (written ((margin depth ++ lead) :: lines) ++ rest) depth)
      (tokens ++ .plain .newline position :: .plain .indent opening ::
        (tokens' ++ [.plain .dedent closing])) (AtMargin rest depth) := by
  obtain ⟨content', hmargined⟩ := hleads.margined rest
  have hlead : Scans (AtMargin (written ((margin depth ++ lead) :: lines) ++ rest) depth)
      (tokens ++ [.plain .newline position]) (AtStart (written lines ++ rest) (widths depth)) :=
    scans_lead hlead h
  have hindent : Scans (AtStart (written lines ++ rest) (widths depth)) [.plain .indent opening]
      (AtMargin (written lines ++ rest) (depth + 1)) := scans_indent hdepth hmargined
  have hdedent : Scans (AtMargin rest (depth + 1)) [.plain .dedent closing] (AtMargin rest depth) :=
    scans_dedent hdepth hrest houter
  have hscans := hlead.trans (hindent.cons (hbody.trans hdedent))
  rwa [List.append_assoc] at hscans

/-! ## Blocks of lines -/

structure Laid (depth : Nat) (lines : List String) (tokens : List Token) : Prop where
  leads : lines ≠ [] → Leads depth lines
  scans : (written lines).length < 2 ^ 64 → ∀ {rest content : List Char} {outer : Nat},
    Margined rest outer content → outer ≤ depth →
      Scans (AtMargin (written lines ++ rest) depth) tokens (AtMargin rest depth)

namespace Laid

theorem margined (h : Laid depth lines tokens) (hrest : Margined rest outer content)
    (houter : outer ≤ depth) :
    ∃ inner content', inner ≤ depth ∧ Margined (written lines ++ rest) inner content' := by
  by_cases hlines : lines = []
  · subst hlines
    exact ⟨outer, content, houter, hrest⟩
  · obtain ⟨content', hmargined⟩ := (h.leads hlines).margined rest
    exact ⟨depth, content', Nat.le_refl _, hmargined⟩

theorem nil : Laid depth [] [] :=
  ⟨fun h => absurd rfl h, fun _ _ _ _ _ _ => .refl _⟩

theorem append (h : Laid depth lines tokens) (h' : Laid depth lines' tokens') :
    Laid depth (lines ++ lines') (tokens ++ tokens') := by
  constructor
  · intro hlines
    by_cases hempty : lines = []
    · subst hempty
      exact h'.leads hlines
    · obtain ⟨lead, below, rfl, hlead⟩ := h.leads hempty
      exact ⟨lead, below ++ lines', rfl, hlead⟩
  · intro hlength rest content outer hrest houter
    rw [written_append, List.length_append] at hlength
    obtain ⟨inner, content', hinner, hmiddle⟩ := h'.margined hrest houter
    rw [written_append, List.append_assoc]
    exact (h.scans (by omega) hmiddle hinner).trans (h'.scans (by omega) hrest houter)

theorem line (hlead : Begins lead.toList) (h : ReadsLine lead.toList tokens) :
    Laid depth [margin depth ++ lead] (tokens ++ [.plain .newline position]) := by
  refine ⟨fun _ => leads_cons hlead, ?_⟩
  intro hlength rest content outer hrest houter
  have hleads : Leads depth [margin depth ++ lead] := leads_cons hlead
  exact scans_line (hleads.margin_lt hlength) hlead h hrest houter

theorem block {opening closing : Position} (hlead : Begins lead.toList)
    (h : ReadsLine lead.toList tokens) (hbody : Laid (depth + 1) lines tokens') (hne : lines ≠ []) :
    Laid depth ((margin depth ++ lead) :: lines)
      (tokens ++ .plain .newline position :: .plain .indent opening ::
        (tokens' ++ [.plain .dedent closing])) := by
  refine ⟨fun _ => leads_cons hlead, ?_⟩
  intro hlength rest content outer hrest houter
  have hlines : (written lines).length < 2 ^ 64 := by
    rw [written_cons] at hlength
    simp only [List.length_append, List.length_cons] at hlength
    omega
  have hleads := hbody.leads hne
  have hinside := hbody.scans hlines hrest (Nat.le_succ_of_le houter)
  exact scans_block (hleads.margin_lt hlines) hlead h hleads hinside hrest houter

end Laid

end Offside.Scan
