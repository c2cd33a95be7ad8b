import Offside.Proofs.Rendering.Legible
import Offside.Proofs.Scanning.Reading

/-!
# Rendered expressions are read back

The rendering of a legible expression is read as a phrase for that expression.  As every operator is
rendered in parentheses, the phrase consists of an atom with its suffixes, which every level of the
grammar passes on to.
-/

namespace Offside

namespace Scan

variable {text text' : List Char} {tokens tokens' : List Token} {position : Text.Position}

def Reads (text : List Char) (tokens : List Token) : Prop :=
  ∀ (rest openers : List Char) (indents : List UInt64), Stops rest →
    Scans (InLine (text ++ rest) openers indents) tokens (InLine rest openers indents)

namespace Reads

theorem nil : Reads [] [] :=
  fun _ _ _ _ => .refl _

theorem append (h : Reads text tokens) (h' : Reads text' tokens')
    (hstops : ∀ rest, Stops rest → Stops (text' ++ rest)) :
    Reads (text ++ text') (tokens ++ tokens') := by
  intro rest openers indents hrest
  rw [List.append_assoc]
  exact (h _ openers indents (hstops rest hrest)).trans (h' rest openers indents hrest)

theorem blank (h : Reads text tokens) : Reads (' ' :: text) tokens :=
  fun rest openers indents hrest => scans_blank.silent (h rest openers indents hrest)

theorem mark {mark : Char × TokenKind} (hmark : mark ∈ marks) (h : Reads text tokens) :
    Reads (mark.1 :: text) (.plain mark.2 position :: tokens) :=
  fun rest openers indents hrest => (scans_mark hmark).cons (h rest openers indents hrest)

theorem comma (h : Reads text tokens) :
    Reads (',' :: ' ' :: text) (.plain .comma position :: tokens) :=
  @mark _ _ _ (',', .comma) (by decide) h.blank

theorem keyword {kind : TokenKind} {word : String}
    (hkeyword : TokenKind.keyword? word = some kind) : Reads word.toList [.plain kind position] :=
  fun _ _ _ hrest => scans_keyword hkeyword hrest

theorem name {name : Identifier} (hname : name.Legible) : Reads name.name.toList [name.token] :=
  fun _ _ _ hrest => scans_name hname hrest

theorem stops_blank {rest : List Char} : Stops (' ' :: rest) :=
  stops_of_ne_point (by decide) (by decide) (by decide)

theorem behind_keyword {kind : TokenKind} {word : String}
    (hkeyword : TokenKind.keyword? word = some kind) (h : Reads text tokens) :
    Reads (word.toList ++ ' ' :: text) (.plain kind position :: tokens) :=
  (keyword hkeyword).append h.blank fun _ _ => stops_blank

theorem bracketed {opener : Char} {position' : Text.Position} (hopener : isOpener opener = true)
    (h : Reads text tokens) :
    Reads (opener :: (text ++ [closingOf opener]))
      (.plain (openerKind opener) position ::
        (tokens ++ [.plain (closerKind (closingOf opener)) position'])) := by
  intro rest openers indents hrest
  have hfacts : isReserved (closingOf opener) = true ∧ closingOf opener ≠ '\r' ∧
      closingOf opener ≠ '.' := by
    simp only [isOpener, Bool.or_eq_true, beq_iff_eq] at hopener
    rcases hopener with (rfl | rfl) | rfl <;> decide
  have hstops : Stops (closingOf opener :: rest) :=
    stops_of_ne_point hfacts.1 hfacts.2.1 hfacts.2.2
  have hinside := h (closingOf opener :: rest) (opener :: openers) indents hstops
  have htext : (opener :: (text ++ [closingOf opener])) ++ rest =
      opener :: (text ++ closingOf opener :: rest) := by simp
  rw [htext]
  exact (scans_opener hopener).cons (hinside.trans (scans_closer hopener))

theorem binary {op : BinaryOp} (h : Reads text tokens) (h' : Reads text' tokens') :
    Reads (text ++ ' ' :: (op.symbol.toList ++ ' ' :: text'))
      (tokens ++ .plain op.token position :: tokens') := by
  have hright : Reads (' ' :: (op.symbol.toList ++ ' ' :: text'))
      (.plain op.token position :: tokens') := by
    intro rest openers indents hrest
    have hsymbol := @scans_binary (text' ++ rest) openers indents op position
    have htext : (' ' :: (op.symbol.toList ++ ' ' :: text')) ++ rest =
        ' ' :: (op.symbol.toList ++ ' ' :: (text' ++ rest)) := by simp
    rw [htext]
    exact scans_blank.silent (hsymbol.cons (scans_blank.silent (h' rest openers indents hrest)))
  exact h.append hright fun _ _ => stops_blank

theorem minus (h : Reads text tokens) (htext : ∀ c ∈ text.head?, c ≠ '=') (hne : text ≠ []) :
    Reads ('-' :: text) (.plain .minus position :: tokens) := by
  intro rest openers indents hrest
  have hhead : ∀ c ∈ (text ++ rest).head?, c ≠ '=' := by
    obtain ⟨c, more, rfl⟩ := List.exists_cons_of_ne_nil hne
    exact htext
  exact (@scans_sign _ _ _ ('-', .minus) _ (by decide) hhead).cons (h rest openers indents hrest)

theorem integer {value : Int} (h : 0 ≤ value ∧ value < integerLimit) :
    Reads (Literal.integer value).render.toList [(Literal.integer value).token position] := by
  obtain ⟨value, rfl⟩ := Int.eq_ofNat_of_zero_le h.1
  intro rest openers indents hrest
  have hrender : (Literal.integer value).render.toList = Nat.toDigits 10 value := by
    simp [Literal.render, Int.repr]
  rw [hrender]
  exact scans_integer (by omega) hrest

theorem literal {value : Literal} (h : value.Legible) :
    Reads value.render.toList [value.token position] := by
  cases value with
  | integer value => exact integer h.inRange
  | float value => exact h.exact.elim
  | boolean value =>
      cases value with
      | true => exact @keyword _ .trueKeyword "true" (by decide)
      | false => exact @keyword _ .falseKeyword "false" (by decide)
  | string content => exact fun _ _ _ _ => scans_string h.exact

end Reads

theorem stops_opener {c : Char} {rest : List Char} (h : isOpener c = true) : Stops (c :: rest) := by
  simp only [isOpener, Bool.or_eq_true, beq_iff_eq] at h
  rcases h with (rfl | rfl) | rfl <;>
    exact stops_of_ne_point (by decide) (by decide) (by decide)

theorem intercalate_cons (separator first : List Char) (more : List (List Char)) :
    separator.intercalate (first :: more) = first ++ more.flatMap (separator ++ ·) := by
  induction more generalizing first with
  | nil => simp
  | cons next more ih =>
      rw [List.intercalate_cons_cons, ih, List.flatMap_cons, List.append_assoc, List.append_assoc]

theorem length_le_intercalate (separator : List Char) {part : List Char} {parts : List (List Char)}
    (h : part ∈ parts) : part.length ≤ (separator.intercalate parts).length := by
  induction parts with
  | nil => cases h
  | cons first more ih =>
      cases more with
      | nil =>
          obtain rfl := List.mem_singleton.1 h
          simp
      | cons next more =>
          rw [List.intercalate_cons_cons, List.length_append, List.length_append]
          rcases List.mem_cons.1 h with rfl | hmore
          · omega
          · have hlength := ih hmore
            omega

theorem stops_further {α : Type} {items : List α} {render : α → List Char} {rest : List Char}
    (h : Stops rest) : Stops ((items.flatMap fun item => ',' :: ' ' :: render item) ++ rest) := by
  cases items with
  | nil => exact h
  | cons item items => exact stops_of_ne_point (by decide) (by decide) (by decide)

end Scan

theorem Identifier.Legible.stops_point {name : Identifier} {rest : List Char} (h : name.Legible) :
    Scan.Stops ('.' :: name.name.toList ++ rest) := by
  obtain ⟨c, more, hcons, hdigit⟩ := h.first
  refine ⟨⟨'.', _, rfl, by decide, by decide⟩, ?_⟩
  intro behind hbehind d hd
  obtain rfl : c = d := by
    rw [← (List.cons.inj hbehind).2, hcons] at hd
    simpa using hd
  rw [Bool.eq_false_iff]
  intro hten
  rw [Scan.isDigit_of_isDigitIn hten] at hdigit
  contradiction

namespace Grammar

open Scan
open Text (Position)

def Printed (symbol : Symbol) (text : List Char) (tree : symbol.Tree) (bound : Nat) : Prop :=
  ∃ phrase : Phrase symbol, phrase.tree = tree ∧ phrase.depth ≤ bound ∧ Reads text phrase.tokens

/-! ## Levels -/

inductive Level.Contains : Level → Level → Prop where
  | self (here : Level) : Contains here here
  | inner {here inner : Level} (h : Level.passesOn here = true) (more : Contains here.tighter inner) :
      Contains here inner

theorem Level.contains_suffix {here : Level} (h : here ≠ .atom) : Level.Contains here .suffix := by
  cases here with
  | atom => exact absurd rfl h
  | _ => repeat first | exact .self .suffix | refine .inner rfl ?_

theorem Level.assignment_contains {here : Level} (h : here ≠ .atom) :
    Level.Contains .assignment here := by
  cases here with
  | atom => exact absurd rfl h
  | _ => repeat first | exact .self _ | refine .inner rfl ?_

/-! ## Suffixes -/

theorem Phrase.exists_appended (further : Phrase .suffixes) : ∀ more : Phrase .suffixes,
    ∃ both : Phrase .suffixes, (∀ object, both.tree object = further.tree (more.tree object)) ∧
      both.depth = max more.depth further.depth ∧ both.tokens = more.tokens ++ further.tokens
  | .noSuffix => ⟨further, fun _ => rfl, by simp [depth], by simp [tokens]⟩
  | .call opener arguments closer more => by
      obtain ⟨both, htree, hdepth, htokens⟩ := exists_appended further more
      exact ⟨.call opener arguments closer both, fun object => htree _,
        by simp [depth, hdepth, Nat.max_assoc], by simp [tokens, htokens]⟩
  | .field dot name more => by
      obtain ⟨both, htree, hdepth, htokens⟩ := exists_appended further more
      exact ⟨.field dot name both, fun object => htree _, by simp [depth, hdepth],
        by simp [tokens, htokens]⟩
  | .subscript opener index closer more => by
      obtain ⟨both, htree, hdepth, htokens⟩ := exists_appended further more
      exact ⟨.subscript opener index closer both, fun object => htree _,
        by simp [depth, hdepth, Nat.max_assoc], by simp [tokens, htokens]⟩

theorem Phrase.exists_extended (phrase : Phrase (.level .suffix)) (further : Phrase .suffixes) :
    ∃ extended : Phrase (.level .suffix), extended.tree = further.tree phrase.tree ∧
      extended.depth = max phrase.depth further.depth ∧
      extended.tokens = phrase.tokens ++ further.tokens := by
  cases phrase with
  | operand hpasses body => contradiction
  | binary left op hop position right => cases op <;> contradiction
  | chain object more =>
      obtain ⟨both, htree, hdepth, htokens⟩ := further.exists_appended more
      exact ⟨.chain object both, htree _, by simp [depth, hdepth, Nat.max_assoc],
        by simp [tokens, htokens]⟩

namespace Printed

variable {text text' : List Char} {expr object : Expr} {exprs : List Expr} {bound bound' : Nat}

theorem operand {here : Level} (hpasses : Level.passesOn here = true)
    (h : Printed (.level here.tighter) text expr bound) : Printed (.level here) text expr bound := by
  obtain ⟨phrase, hphrase⟩ := h
  exact ⟨.operand hpasses phrase, hphrase⟩

theorem contained {here inner : Level} (hinner : Level.Contains here inner)
    (h : Printed (.level inner) text expr bound) : Printed (.level here) text expr bound := by
  induction hinner with
  | self => exact h
  | inner hpasses _ ih => exact operand hpasses (ih h)

theorem lift {here : Level} (hhere : here ≠ .atom) (h : Printed (.level .suffix) text expr bound) :
    Printed (.level here) text expr bound :=
  h.contained (Level.contains_suffix hhere)

theorem whole {here : Level} (hhere : here ≠ .atom) (h : Printed (.level here) text expr bound) :
    Printed .expression text expr (bound + 1) := by
  obtain ⟨phrase, htree, hdepth, hreads⟩ := h.contained (Level.assignment_contains hhere)
  exact ⟨.whole phrase, htree, Nat.succ_le_succ hdepth, hreads⟩

theorem atom (h : Printed (.level .atom) text expr bound) :
    Printed (.level .suffix) text expr bound := by
  obtain ⟨phrase, htree, hdepth, hreads⟩ := h
  refine ⟨.chain phrase .noSuffix, htree, ?_, ?_⟩
  · simpa [Phrase.depth] using hdepth
  · simpa [Phrase.tokens] using hreads

/-! ### Atoms -/

theorem literal {value : Literal} (h : value.Legible) :
    Printed (.level .suffix) value.render.toList (.literal value) 0 :=
  atom ⟨.literal value .start, rfl, Nat.le_refl _, Reads.literal h⟩

theorem identifier {name : Identifier} (h : name.Legible) :
    Printed (.level .suffix) name.name.toList (.identifier name) 0 :=
  atom ⟨.identifier name, rfl, Nat.le_refl _, Reads.name h⟩

theorem parenthesized (h : Printed .expression text expr bound) :
    Printed (.level .suffix) ('(' :: (text ++ [')'])) expr bound := by
  obtain ⟨phrase, htree, hdepth, hreads⟩ := h
  exact atom ⟨.parenthesized .start phrase .start, htree, hdepth,
    @Reads.bracketed _ _ _ '(' _ rfl hreads⟩

/-! ### Operators -/

theorem operation {op : BinaryOp} (h : Printed (.level op.level.tighter) text expr bound)
    (h' : Printed (.level op.level.right) text' object bound) :
    Printed (.level op.level) (text ++ ' ' :: (op.symbol.toList ++ ' ' :: text'))
      (.binary expr op object) bound := by
  obtain ⟨left, rfl, hleftDepth, hleftReads⟩ := h
  obtain ⟨right, rfl, hrightDepth, hrightReads⟩ := h'
  exact ⟨.binary left op rfl .start right, rfl, Nat.max_le.2 ⟨hleftDepth, hrightDepth⟩,
    hleftReads.binary hrightReads⟩

theorem binary {op : BinaryOp} (h : Printed (.level .suffix) text expr bound)
    (h' : Printed (.level .suffix) text' object bound) :
    Printed (.level op.level) (text ++ ' ' :: (op.symbol.toList ++ ' ' :: text'))
      (.binary expr op object) bound := by
  have hleft : op.level.tighter ≠ .atom := by cases op <;> simp [BinaryOp.level, Level.tighter]
  have hright : op.level.right ≠ .atom := by cases op <;> simp [BinaryOp.level, Level.right]
  exact (h.lift hleft).operation (h'.lift hright)

theorem negation (h : Printed (.level .suffix) text expr bound) :
    Printed (.level .negation) ("not".toList ++ ' ' :: text) (.unary .not expr) (bound + 1) := by
  obtain ⟨phrase, rfl, hdepth, hreads⟩ := h.lift (show Level.negation ≠ .atom by decide)
  exact ⟨.negation .start phrase, rfl, Nat.succ_le_succ hdepth,
    hreads.behind_keyword (by decide)⟩

theorem sign (h : Printed (.level .suffix) text expr bound) (htext : ∀ c ∈ text.head?, c ≠ '=')
    (hne : text ≠ []) : Printed (.level .sign) ('-' :: text) (.unary .negate expr) (bound + 1) := by
  obtain ⟨phrase, rfl, hdepth, hreads⟩ := h.lift (show Level.sign ≠ .atom by decide)
  exact ⟨.sign .start phrase, rfl, Nat.succ_le_succ hdepth, hreads.minus htext hne⟩

/-! ### Suffixes -/

theorem extended {more : Phrase .suffixes} (h : Printed (.level .suffix) text object bound)
    (hdepth : more.depth ≤ bound) (hmore : Reads text' more.tokens)
    (hstops : ∀ rest, Stops rest → Stops (text' ++ rest)) :
    Printed (.level .suffix) (text ++ text') (more.tree object) bound := by
  obtain ⟨phrase, rfl, hphrase, hreads⟩ := h
  obtain ⟨both, htree, hboth, htokens⟩ := phrase.exists_extended more
  refine ⟨both, htree, ?_, ?_⟩
  · rw [hboth]
    exact Nat.max_le.2 ⟨hphrase, hdepth⟩
  · rw [htokens]
    exact hreads.append hmore hstops

theorem field {name : Identifier} (h : Printed (.level .suffix) text object bound)
    (hname : name.Legible) :
    Printed (.level .suffix) (text ++ '.' :: name.name.toList) (.field object name) bound := by
  have hmore : Reads ('.' :: name.name.toList) (Phrase.field .start name .noSuffix).tokens :=
    @Reads.mark _ _ _ ('.', .dot) (by decide) (Reads.name hname)
  exact @extended _ _ _ _ (.field .start name .noSuffix) h (Nat.zero_le _) hmore
    fun _ _ => hname.stops_point

theorem subscript (h : Printed (.level .suffix) text object bound)
    (hindex : Printed .expression text' expr bound) :
    Printed (.level .suffix) (text ++ '[' :: (text' ++ [']'])) (.subscript object expr) bound := by
  obtain ⟨index, rfl, hdepth, hreads⟩ := hindex
  have hmore : Reads ('[' :: (text' ++ [']']))
      (Phrase.subscript .start index .start .noSuffix).tokens :=
    @Reads.bracketed _ _ _ '[' _ rfl hreads
  exact @extended _ _ _ _ (.subscript .start index .start .noSuffix) h
    (by simpa [Phrase.depth] using hdepth) hmore fun _ _ => stops_opener rfl

theorem call (h : Printed (.level .suffix) text object bound)
    (harguments : Printed .arguments text' exprs bound) :
    Printed (.level .suffix) (text ++ '(' :: (text' ++ [')'])) (.call object exprs) bound := by
  obtain ⟨arguments, rfl, hdepth, hreads⟩ := harguments
  have hmore : Reads ('(' :: (text' ++ [')']))
      (Phrase.call .start arguments .start .noSuffix).tokens :=
    @Reads.bracketed _ _ _ '(' _ rfl hreads
  exact @extended _ _ _ _ (.call .start arguments .start .noSuffix) h
    (by simpa [Phrase.depth] using hdepth) hmore fun _ _ => stops_opener rfl

/-! ### Arguments -/

theorem further {render : Expr → List Char}
    (h : ∀ expr ∈ exprs, Printed .expression (render expr) expr bound) :
    Printed .moreArguments (exprs.flatMap fun expr => ',' :: ' ' :: render expr) exprs bound := by
  induction exprs with
  | nil => exact ⟨.lastArgument, rfl, Nat.zero_le _, Reads.nil⟩
  | cons expr exprs ih =>
      obtain ⟨argument, rfl, hdepth, hreads⟩ := h expr (by simp)
      obtain ⟨more, rfl, hmore, hfurther⟩ := ih fun other hother => h other (List.mem_cons_of_mem _ hother)
      refine ⟨.nextArgument .start argument more, rfl, Nat.max_le.2 ⟨hdepth, hmore⟩, ?_⟩
      exact hreads.comma.append hfurther fun _ => stops_further

theorem arguments {render : Expr → List Char}
    (h : ∀ expr ∈ exprs, Printed .expression (render expr) expr bound) :
    Printed .arguments ([',', ' '].intercalate (exprs.map render)) exprs bound := by
  cases exprs with
  | nil => exact ⟨.noArgument, rfl, Nat.zero_le _, Reads.nil⟩
  | cons expr exprs =>
      obtain ⟨first, rfl, hdepth, hreads⟩ := h expr (by simp)
      obtain ⟨more, rfl, hmore, hfurther⟩ := further fun other hother => h other (List.mem_cons_of_mem _ hother)
      refine ⟨.firstArgument first more, rfl, Nat.max_le.2 ⟨hdepth, hmore⟩, ?_⟩
      rw [List.map_cons, intercalate_cons, List.flatMap_map]
      exact hreads.append hfurther fun _ => stops_further

theorem weaken {symbol : Symbol} {tree : symbol.Tree} (h : Printed symbol text tree bound)
    (hbound : bound ≤ bound') : Printed symbol text tree bound' := by
  obtain ⟨phrase, htree, hdepth, hreads⟩ := h
  exact ⟨phrase, htree, Nat.le_trans hdepth hbound, hreads⟩

end Printed

end Grammar

open Grammar (Printed)

/-! ## How expressions begin -/

def Begins (text : List Char) : Prop :=
  ∃ c more, text = c :: more ∧ Text.isBlank c = false ∧ c ≠ '='

theorem Begins.append {text text' : List Char} (h : Begins text) : Begins (text ++ text') := by
  obtain ⟨c, more, rfl, hc⟩ := h
  exact ⟨c, more ++ text', rfl, hc⟩

theorem begins_of_isWordChar {c : Char} {more : List Char} (h : isWordChar c = true) :
    Begins (c :: more) := by
  refine ⟨c, more, rfl, isBlank_of_isWordChar h, ?_⟩
  rintro rfl
  contradiction

theorem Identifier.Legible.begins {name : Identifier} (h : name.Legible) :
    Begins name.name.toList := by
  obtain ⟨c, more, hcons, -⟩ := h.first
  rw [hcons]
  exact begins_of_isWordChar (h.chars c (by simp [hcons]))

theorem begins_quoted (content : String) : Begins (Text.quoted content).toList := by
  have hquoted : (Text.quoted content).toList =
      '"' :: (content.toList.flatMap (Text.quoteChar '"') ++ ['"']) := by
    simp [Text.quoted, Text.quotedWith]
  exact ⟨'"', _, hquoted, by decide, by decide⟩

theorem Literal.Legible.begins {value : Literal} (h : value.Legible) :
    Begins value.render.toList := by
  cases value with
  | integer value =>
      obtain ⟨value, rfl⟩ := Int.eq_ofNat_of_zero_le h.inRange.1
      have hrender : (Literal.integer value).render.toList = Nat.toDigits 10 value := by
        simp [Literal.render, Int.repr]
      obtain ⟨c, more, hcons⟩ :=
        List.exists_cons_of_ne_nil (@Nat.toDigits_ne_nil value 10)
      rw [hrender, hcons]
      have hdigit : c.isDigit = true :=
        @Nat.isDigit_of_mem_toDigits 10 value c (by omega) (by omega) (by simp [hcons])
      exact begins_of_isWordChar (Scan.isWordChar_of_isDigit hdigit)
  | float value => exact h.exact.elim
  | boolean value => cases value <;> exact ⟨_, _, rfl, by decide, by decide⟩
  | string content => exact begins_quoted content

theorem Expr.begins : ∀ expr : Expr, expr.Legible → Begins expr.render.toList
  | .literal _, h => h.begins
  | .identifier _, h => h.begins
  | .unary op operand, _ =>
      ⟨'(', (op.sign ++ operand.render ++ ")").toList, by simp [Expr.render], by decide, by decide⟩
  | .binary left op right, _ =>
      ⟨'(', (left.render ++ " " ++ op.symbol ++ " " ++ right.render ++ ")").toList,
        by simp [Expr.render], by decide, by decide⟩
  | .call callee arguments, h => by
      simpa [Expr.render] using (begins callee h.1).append
  | .field object name, h => by
      simpa [Expr.render] using (begins object h.1).append
  | .subscript object index, h => by
      simpa [Expr.render] using (begins object h.1).append

/-! ## Expressions -/

def Expr.Readable (expr : Expr) : Prop :=
  Printed (.level .suffix) expr.render.toList expr expr.render.toList.length

theorem Expr.Readable.whole {expr : Expr} (h : expr.Readable) {bound : Nat}
    (hbound : expr.render.toList.length < bound) :
    Printed .expression expr.render.toList expr bound :=
  (Printed.whole (by decide) h).weaken hbound

theorem Expr.Readable.negate {operand : Expr} (h : operand.Readable)
    (hbegins : Begins operand.render.toList) : (Expr.unary .negate operand).Readable := by
  obtain ⟨c, more, hcons, -, hc⟩ := hbegins
  have hsign := h.sign (by simpa [hcons] using hc) (by simp [hcons])
  have hrender : (Expr.unary .negate operand).render.toList =
      '(' :: (('-' :: operand.render.toList) ++ [')']) := by
    simp [Expr.render, UnaryOp.sign]
  rw [Expr.Readable, hrender]
  apply (hsign.whole (by decide)).parenthesized.weaken
  simp

theorem Expr.Readable.not {operand : Expr} (h : operand.Readable) :
    (Expr.unary .not operand).Readable := by
  have hrender : (Expr.unary .not operand).render.toList =
      '(' :: (("not".toList ++ ' ' :: operand.render.toList) ++ [')']) := by
    simp [Expr.render, UnaryOp.sign]
  rw [Expr.Readable, hrender]
  apply (h.negation.whole (by decide)).parenthesized.weaken
  simp

theorem Expr.Readable.binary {left right : Expr} {op : BinaryOp} (hleft : left.Readable)
    (hright : right.Readable) : (Expr.binary left op right).Readable := by
  have hrender : (Expr.binary left op right).render.toList =
      '(' :: ((left.render.toList ++ ' ' :: (op.symbol.toList ++ ' ' :: right.render.toList)) ++
        [')']) := by
    simp [Expr.render]
  rw [Expr.Readable, hrender]
  have hbinary := @Printed.binary _ _ _ _ _ op
    (hleft.weaken (Nat.le_max_left _ right.render.toList.length))
    (hright.weaken (Nat.le_max_right left.render.toList.length _))
  apply (hbinary.whole (by cases op <;> decide)).parenthesized.weaken
  simp only [List.length_cons, List.length_append, List.length_nil]
  omega

theorem Expr.Readable.call {callee : Expr} {arguments : List Expr} (hcallee : callee.Readable)
    (harguments : ∀ argument ∈ arguments, argument.Readable) :
    (Expr.call callee arguments).Readable := by
  have hrender : (Expr.call callee arguments).render.toList =
      callee.render.toList ++ '(' ::
        ([',', ' '].intercalate (arguments.map fun argument => argument.render.toList) ++
          [')']) := by
    simp [Expr.render, Expr.renderAll_eq_map, String.toList_intercalate, Function.comp_def]
  rw [Expr.Readable, hrender]
  apply Printed.call
  · apply hcallee.weaken
    simp
  · apply Printed.arguments
    intro argument hmem
    apply (harguments argument hmem).whole
    have hlength := Scan.length_le_intercalate [',', ' ']
      (List.mem_map_of_mem (f := fun argument : Expr => argument.render.toList) hmem)
    simp only [List.length_cons, List.length_append, List.length_nil]
    omega

theorem Expr.Readable.field {object : Expr} {name : Identifier} (h : object.Readable)
    (hname : name.Legible) : (Expr.field object name).Readable := by
  have hrender : (Expr.field object name).render.toList =
      object.render.toList ++ '.' :: name.name.toList := by
    simp [Expr.render]
  rw [Expr.Readable, hrender]
  apply (Printed.field h hname).weaken
  simp

theorem Expr.Readable.subscript {object index : Expr} (hobject : object.Readable)
    (hindex : index.Readable) : (Expr.subscript object index).Readable := by
  have hrender : (Expr.subscript object index).render.toList =
      object.render.toList ++ '[' :: (index.render.toList ++ [']']) := by
    simp [Expr.render]
  rw [Expr.Readable, hrender]
  apply Printed.subscript
  · apply hobject.weaken
    simp
  · apply hindex.whole
    simp only [List.length_cons, List.length_append, List.length_nil]
    omega

mutual

theorem Expr.Legible.readable : ∀ expr : Expr, expr.Legible → expr.Readable
  | .literal _, h => (Printed.literal h).weaken (Nat.zero_le _)
  | .identifier _, h => (Printed.identifier h).weaken (Nat.zero_le _)
  | .unary .negate operand, h => (readable operand h).negate (operand.begins h)
  | .unary .not operand, h => (readable operand h).not
  | .binary left _ right, h => (readable left h.1).binary (readable right h.2)
  | .call callee arguments, h => (readable callee h.1).call (readable_of_mem arguments h.2)
  | .field object _, h => (readable object h.1).field h.2
  | .subscript object index, h => (readable object h.1).subscript (readable index h.2)

theorem Expr.Legible.readable_of_mem : ∀ exprs : List Expr, Expr.LegibleAll exprs →
    ∀ expr ∈ exprs, expr.Readable
  | [], _, _, hmem => by cases hmem
  | first :: rest, h, expr, hmem => by
      have hfirst := readable first h.1
      rcases List.mem_cons.1 hmem with heq | hmem
      · rw [heq]
        exact hfirst
      · exact readable_of_mem rest h.2 expr hmem

end

end Offside
