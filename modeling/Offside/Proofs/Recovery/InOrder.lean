import Offside.Proofs.Command.ExitCode
import Offside.Proofs.Parsing.Harvest
import Offside.Proofs.Scanning.Spelling

/-!
# Recovery keeps the order of the source

Whatever is skipped behind broken statements, the names and literals of a program stand in the source
as they stand in the tree, one token for each; and the recorded errors mention tokens of the source in
its order.
-/

namespace Offside

open Parse
open Scan (Scanner itemPosition)

/-! ## Names are not empty -/

namespace Text.Cursor

variable {cursor after : Cursor}

theorem Reaches.offset_lt (h : cursor.Reaches after) (hrest : cursor.rest ≠ after.rest) :
    cursor.position.offset < after.position.offset := by
  cases h with
  | refl => exact absurd rfl hrest
  | @read cursor next after c hread hreaches =>
      have hnext : cursor.position.offset < next.position.offset := by
        unfold Cursor.read? Position.advance Position.newline at hread
        grind [Char.utf8Size_pos]
      exact Nat.lt_of_lt_of_le hnext hreaches.offset_le

end Text.Cursor

namespace Scan

theorem Cuts.offset_lt {start after : Text.Cursor} {token : Token} (h : Cuts start token after)
    (hkind : token.kind = .identifier) (hrange : token.InRange) :
    token.position.offset < after.position.offset := by
  obtain ⟨written, hcovers, hspells⟩ := h.text
  have hwritten : written ≠ [] := by
    generalize after.rest = rest at hspells
    cases hspells with
    | identifier hends =>
        obtain ⟨c, more, hname, -⟩ := (Token.inRange_identifier.1 hrange).first
        rw [hname]
        exact List.cons_ne_nil _ _
    | keyword hkeyword =>
        obtain rfl : _ = TokenKind.identifier := hkind
        contradiction
    | symbol hsymbol hlexeme =>
        obtain rfl : _ = TokenKind.identifier := hkind
        contradiction
    | mark hmark =>
        obtain rfl : _ = TokenKind.identifier := hkind
        simp at hmark
    | _ => cases hkind
  rw [h.identifier hkind]
  apply hcovers.reaches.offset_lt
  intro hrest
  rw [hcovers.rest] at hrest
  exact hwritten (List.append_left_eq_self.1 hrest)

theorem Scanner.names_ordered (scanner : Scanner) :
    scanner.outcomes.Pairwise fun item later =>
      ∀ token, item = .ok token → token.kind = .identifier →
        token.position.offset < (itemPosition later).offset := by
  fun_induction outcomes scanner with
  | case1 => exact .nil
  | case2 scanner hmode result ih =>
      refine .cons (fun later hlater token hitem hkind => ?_) ih
      have hmem : .ok token ∈ scanner.outcomes := by
        rw [outcomes, dif_neg hmode]
        exact hitem ▸ List.mem_cons_self
      have hgives : Gives scanner.context.cursor (result.1, result.2) := next_gives scanner
      rw [hitem] at hgives
      obtain ⟨start, -, hcuts⟩ := hgives
      obtain ⟨place, hplace, hposition⟩ := exists_place_of_mem hlater
      rw [hposition]
      exact Nat.lt_of_lt_of_le
        (hcuts.offset_lt hkind (given_of_mem_outcomes scanner token hmem).inRange) hplace.offset_le

end Scan

/-! ## Programs -/

def Token.name? (token : Token) : Option Identifier := token.leaf?.bind Leaf.name?

theorem Token.eq_of_name? {token : Token} {name : Identifier} (h : token.name? = some name) :
    token.kind = .identifier ∧ token.position = name.position := by
  obtain ⟨leaf, hleaf, hname⟩ := Option.bind_eq_some_iff.1 h
  cases leaf with
  | name identifier =>
      obtain rfl : identifier = name := Option.some.inj hname
      obtain ⟨hkind, -, hposition⟩ := Token.eq_name_of_leaf? hleaf
      exact ⟨hkind, hposition⟩
  | literal value => cases hname

variable {text : String} {config : RunConfig}

theorem names_ordered {tokens : List Token} (h : tokenize text config = .ok tokens) :
    (tokens.filterMap Token.name?).Pairwise fun name later =>
      name.position.offset < later.position.offset := by
  have hordered := Scanner.names_ordered (.ofText text config.tabWidth)
  rw [tokenize_eq_ok.1 h, List.pairwise_map] at hordered
  rw [List.pairwise_filterMap]
  refine hordered.imp fun {token later} hbehind name hname name' hname' => ?_
  obtain ⟨hkind, hposition⟩ := Token.eq_of_name? hname
  rw [← hposition, ← (Token.eq_of_name? hname').2]
  exact hbehind token rfl hkind

/-- A program has tokens, and its names and literals are among those of its tokens, in their order. -/
theorem parse_keeps_order {parsed : Parsed} (h : parse text config = .ok parsed) :
    ∃ tokens, tokenize text config = .ok tokens ∧
      (Block.leaves parsed.block).Sublist (tokens.filterMap Token.leaf?) ∧
      (Block.names parsed.block).Pairwise fun name later =>
        name.position.offset < later.position.offset := by
  cases htokens : tokenize text config with
  | error failure =>
      obtain ⟨error, herror, -⟩ := parse_of_tokenize_error htokens
      rw [h] at herror
      contradiction
  | ok tokens =>
      have hresult := (Outcome.of_parsed (parsed_of_parse h)).1
      have hleaves := (parseText_tells text config).leaves _ hresult
      rw [tokenize_eq_ok.1 htokens, List.filterMap_map] at hleaves
      have hleaves : (Block.leaves parsed.block).Sublist (tokens.filterMap Token.leaf?) := hleaves
      refine ⟨tokens, rfl, hleaves, ?_⟩
      have hnames := hleaves.filterMap Leaf.name?
      rw [Block.filterMap_leaves, List.filterMap_filterMap] at hnames
      exact (names_ordered htokens).sublist hnames

/-- Of three broken statements one is read on, without the stray `!` in front of its name. -/
theorem parse_keeps_order_broken :
    ∃ parsed tokens, parse "x y\nif a:\n    ! b\n    ] c\nreturn 2\n" .default = .ok parsed ∧
      parsed.errors.length = 3 ∧
      Block.leaves parsed.block =
        [.name ⟨"a", ⟨2, 4, 7⟩⟩, .name ⟨"b", ⟨3, 7, 16⟩⟩, .literal (.integer 2)] ∧
      tokenize "x y\nif a:\n    ! b\n    ] c\nreturn 2\n" .default = .ok tokens ∧
      (Block.leaves parsed.block).Sublist (tokens.filterMap Token.leaf?) ∧
      (Block.names parsed.block).Pairwise fun name later =>
        name.position.offset < later.position.offset := by
  have hleaves : (parse "x y\nif a:\n    ! b\n    ] c\nreturn 2\n" .default).toOption.map
      (fun parsed => (parsed.errors.length, Block.leaves parsed.block)) =
        some (3, [.name ⟨"a", ⟨2, 4, 7⟩⟩, .name ⟨"b", ⟨3, 7, 16⟩⟩, .literal (.integer 2)]) := by
    decide +kernel
  cases hparse : parse "x y\nif a:\n    ! b\n    ] c\nreturn 2\n" .default with
  | error failure =>
      rw [hparse] at hleaves
      contradiction
  | ok parsed =>
      rw [hparse] at hleaves
      obtain ⟨herrors, hleaves⟩ := Prod.mk.inj (Option.some.inj hleaves)
      obtain ⟨tokens, htokens, hkept⟩ := parse_keeps_order hparse
      exact ⟨parsed, tokens, rfl, herrors, hleaves, htokens, hkept⟩

/-! ## Errors -/

/-- The recorded errors, of a parse that ends early too, mention tokens of the text, one behind the
other, and their offsets never go back. -/
theorem errors_mention_tokens (text : String) (config : RunConfig) :
    (∃ mentions, Mentioned (Scanner.ofText text config.tabWidth).outcomes mentions
        (parseText text config).errors) ∧
      (parseText text config).errors.Pairwise fun error later =>
        error.position.offset ≤ later.position.offset := by
  obtain ⟨mentions, hmentioned⟩ := (parseText_tells text config).mentioned
  refine ⟨⟨mentions, hmentioned⟩, ?_⟩
  rw [hmentioned.errors, List.pairwise_map]
  refine hmentioned.ordered.imp_of_mem fun {mention later} hmention hlater hprecedes => ?_
  have hin := hmentioned.isIn mention hmention
  have hin' := hmentioned.isIn later hlater
  rw [hin.noticed.position, hin'.noticed.position]
  obtain ⟨hplace, hitem⟩ := List.getElem?_eq_some_iff.1 hin.item
  obtain ⟨hplace', hitem'⟩ := List.getElem?_eq_some_iff.1 hin'.item
  rcases Nat.eq_or_lt_of_le hprecedes.place_le with hsame | hlater
  · simp only [hsame, hitem', Except.ok.injEq] at hitem
    exact hitem ▸ Nat.le_refl _
  · have hoffset := List.pairwise_iff_getElem.1
      (Scanner.outcomes_ordered (.ofText text config.tabWidth)) _ _ hplace hplace' hlater
    rwa [hitem, hitem'] at hoffset

end Offside
