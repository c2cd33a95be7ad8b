import Offside.Proofs.Grammar.ClauseSoundness
import Offside.Proofs.Grammar.PhraseCompleteness

/-!
# Clauses are read

A grammar function of statements in front of the tokens of a clause gives the tree of the clause, if
the token behind the clause does not belong to it and there is room for its depth.  So no statement
of a derivable block is ever skipped.
-/

namespace Offside.Grammar

open Parse (Accepts Ensures State)
open Parse.Parser

variable {fuel : Nat} {state : State} {rest : List Token}

/-! ## Headers -/

private theorem moreParameters_accepts (more : List (Text.Position × Identifier)) (fuel : Nat) :
    ∀ (state : State) (rest : List Token),
      state.Sees (more.flatMap (fun further => [.plain .comma further.1, further.2.token]) ++ rest) →
      Heads (fun kind => kind ≠ .comma) rest →
      Accepts (moreParameters fuel) state (more.map Prod.snd) rest := by
  induction more generalizing fuel with
  | nil =>
      intro state rest hsees hends
      cases fuel with
      | zero => exact Accepts.of_exhausted
      | succ fuel =>
          apply Accepts.currentKind_bind
          obtain ⟨behind, hrest⟩ := hsees.exists_cons
          obtain rfl : rest = state.current :: behind := hrest
          rw [heads_cons, decide_eq_true_eq] at hends
          rw [if_neg hends]
          exact .of_pure hsees
  | cons further more ih =>
      intro state rest hsees hends
      cases fuel with
      | zero => exact Accepts.of_exhausted
      | succ fuel =>
          apply Accepts.currentKind_bind
          simp only [List.flatMap_cons, List.cons_append, List.nil_append] at hsees
          have hkind : state.current.kind = .comma := by rw [hsees.current]; rfl
          rw [if_pos hkind]
          apply Accepts.bind (Accepts.advance hsees (by simp [Token.plain]))
          intro behind hbehind
          apply Accepts.bind (Accepts.identifier hbehind.sees)
          intro middle hmiddle
          apply Accepts.bind (ih fuel middle rest hmiddle.sees hends)
          intro last hlast
          exact .of_pure hlast.sees

private theorem optionalParameters_accepts (parameters? : Option NameList)
    (hsees : state.Sees (Heading.parameterTokens parameters? ++ rest))
    (hends : Heads (fun kind => kind = .rightParen) rest) :
    Accepts (optionalParameters fuel) state ((parameters?.map NameList.tree).getD []) rest := by
  apply Accepts.currentKind_bind
  cases parameters? with
  | none =>
      obtain ⟨behind, hrest⟩ := hsees.exists_cons
      obtain rfl : rest = state.current :: behind := hrest
      rw [heads_cons, decide_eq_true_eq] at hends
      rw [if_neg (by simp [hends])]
      exact .of_pure hsees
  | some names =>
      simp only [Heading.parameterTokens, NameList.tokens, List.cons_append] at hsees
      have hkind : state.current.kind = .identifier := by rw [hsees.current]; rfl
      rw [if_pos hkind]
      apply Accepts.bind (Accepts.identifier hsees)
      intro middle hmiddle
      have hends' : Heads (fun kind => kind ≠ .comma) rest := by
        apply hends.weaken
        intro kind hkind
        simp_all
      apply Accepts.bind (moreParameters_accepts names.more fuel middle rest hmiddle.sees hends')
      intro last hlast
      exact .of_pure hlast.sees

theorem header_accepts (heading : Heading) (hsees : state.Sees (heading.tokens ++ rest))
    (hends : Heading.EndsBefore rest) : Accepts (header fuel) state heading.tree rest := by
  obtain ⟨keyword, name, opener, parameters?, closer, returnType?⟩ := heading
  simp only [Heading.tokens, List.cons_append, List.append_assoc] at hsees
  apply Accepts.bind (Accepts.expect hsees (by simp))
  intro begun hbegun
  apply Accepts.bind (Accepts.identifier hbegun.sees)
  intro named hnamed
  apply Accepts.bind (Accepts.expect hnamed.sees (by simp))
  intro opened hopened
  apply Accepts.bind (optionalParameters_accepts parameters? hopened.sees (by simp [Token.plain]))
  intro listed hlisted
  apply Accepts.bind (Accepts.expect hlisted.sees (by simp))
  intro closed hclosed
  apply Accepts.currentKind_bind
  apply Accepts.nextKind_bind
  have hcloses := hclosed.sees
  cases returnType? with
  | none =>
      have hnot : ¬ ((closed.current.kind = .colon && closed.next.kind = .identifier) = true) := by
        intro hcolon
        simp only [Bool.and_eq_true, decide_eq_true_eq] at hcolon
        obtain ⟨more, hrest⟩ := hcloses.exists_cons
        have hrest : rest = closed.current :: more := hrest
        cases more with
        | nil =>
            obtain ⟨last, hlast, heof⟩ := hcloses.ended
            have hlast : closed.current = last := by simpa [Heading.typeTokens, hrest] using hlast
            rw [← hlast, hcolon.1] at heof
            contradiction
        | cons second more =>
            have hahead := hcloses.ahead
            simp only [Heading.typeTokens, List.nil_append, hrest, List.map_cons] at hahead
            have hnext := State.next_of_ahead hahead
            exact hends _ _ _ hrest ⟨hcolon.1, hnext ▸ hcolon.2⟩
      rw [if_neg hnot]
      exact .of_pure hcloses
  | some type =>
      simp only [Heading.typeTokens, List.cons_append, List.nil_append] at hcloses
      have hcurrent : closed.current.kind = .colon := by rw [hcloses.current]; rfl
      have hnext : closed.next.kind = .identifier := by
        rw [State.next_of_ahead hcloses.ahead]
        rfl
      rw [if_pos (by simp [hcurrent, hnext])]
      apply Accepts.bind (Accepts.advance hcloses (by simp [Token.plain]))
      intro behind hbehind
      apply Accepts.bind (Accepts.identifier hbehind.sees)
      intro last hlast
      exact .of_pure hlast.sees

private theorem fields_accepts (fields : List (Identifier × Text.Position)) (fuel : Nat) :
    ∀ (state : State) (rest : List Token), state.Sees (fieldTokens fields ++ rest) →
      Heads (fun kind => kind ≠ .identifier) rest →
      Accepts (Parse.Parser.fields fuel) state (fields.map Prod.fst) rest := by
  induction fields generalizing fuel with
  | nil =>
      intro state rest hsees hends
      cases fuel with
      | zero => exact Accepts.of_exhausted
      | succ fuel =>
          apply Accepts.currentKind_bind
          obtain ⟨behind, hrest⟩ := hsees.exists_cons
          obtain rfl : rest = state.current :: behind := hrest
          rw [heads_cons, decide_eq_true_eq] at hends
          rw [if_neg hends]
          exact .of_pure hsees
  | cons field fields ih =>
      intro state rest hsees hends
      cases fuel with
      | zero => exact Accepts.of_exhausted
      | succ fuel =>
          apply Accepts.currentKind_bind
          simp only [fieldTokens, List.flatMap_cons, List.cons_append, List.nil_append] at hsees
          have hkind : state.current.kind = .identifier := by rw [hsees.current]; rfl
          rw [if_pos hkind]
          apply Accepts.bind (Accepts.identifier hsees)
          intro named hnamed
          apply Accepts.bind (Accepts.expect hnamed.sees (by simp))
          intro middle hmiddle
          apply Accepts.bind (ih fuel middle rest hmiddle.sees hends)
          intro last hlast
          exact .of_pure hlast.sees

/-! ## Blocks -/

/-- The parser is in front of the tokens of a clause, and the clause ends in front of the rest. -/
structure Awaits {construct : Construct} (clause : Clause construct) (state : State)
    (rest : List Token) : Prop where
  sees : state.Sees (clause.tokens ++ rest)
  ends : Heads construct.endsBefore rest
  room : clause.depth ≤ state.room

structure AcceptsClauses (fuel : Nat) : Prop where
  statements : ∀ (clause : Clause .statements) (state : State) (rest : List Token),
    Awaits clause state rest → Accepts (statements fuel) state clause.tree rest
  statement : ∀ (clause : Clause .statement) (state : State) (rest : List Token),
    Awaits clause state rest → Accepts (statement fuel) state clause.tree rest
  block : ∀ (clause : Clause .block) (state : State) (rest : List Token),
    Awaits clause state rest → Accepts (block fuel) state clause.tree rest
  function : ∀ (heading : Heading) (marker : TokenKind) (h : marker ∈ bodyMarkers)
    (position line : Text.Position) (body : Clause .block) (state : State) (rest : List Token),
    Awaits (.function heading marker h position line body) state rest →
      Accepts (function fuel) state (.function heading.tree body.tree) rest
  conditional : ∀ (keyword : Text.Position) (chosen : Clause .branch) (state : State)
    (rest : List Token), Awaits (.conditional keyword chosen) state rest →
      Accepts (conditional fuel) state (Clause.conditional keyword chosen).tree rest
  branch : ∀ (clause : Clause .branch) (state : State) (rest : List Token),
    Awaits clause state rest → Accepts (branch fuel) state clause.tree rest
  loop : ∀ (keyword : Text.Position) (condition : Phrase .expression) (colon line : Text.Position)
    (body : Clause .block) (state : State) (rest : List Token),
    Awaits (.loop keyword condition colon line body) state rest →
      Accepts (loop fuel) state (.loop condition.tree body.tree) rest

private theorem expressionStatement_accepts {value : Phrase .expression} {line : Text.Position}
    (hawaits : Awaits (.expression value line) state rest) :
    Accepts (expressionStatement fuel) state (.expression value.tree) rest := by
  have hsees := hawaits.sees
  simp only [Clause.tokens, List.append_assoc, List.cons_append, List.nil_append] at hsees
  apply Accepts.bind ((acceptsPhrases fuel).expression value state _
    ⟨hsees, heads_cons.2 rfl, hawaits.room⟩)
  intro middle hmiddle
  apply Accepts.bind (Accepts.expect hmiddle.sees (by simp))
  intro last hlast
  exact .of_pure hlast.sees

private theorem returnStatement_accepts {keyword line : Text.Position}
    {value? : Option (Phrase .expression)} (hawaits : Awaits (.ret keyword value? line) state rest) :
    Accepts (returnStatement fuel) state (.ret (value?.map Phrase.tree)) rest := by
  have hsees := hawaits.sees
  simp only [Clause.tokens, List.append_assoc, List.cons_append, List.nil_append] at hsees
  apply Accepts.bind (Accepts.expect hsees (by simp))
  intro begun hbegun
  have hbegins := hbegun.sees
  have hvalue : Accepts (returnValue? fuel) begun (value?.map Phrase.tree)
      (.plain .newline line :: rest) := by
    apply Accepts.currentKind_bind
    cases value? with
    | none =>
        have hkind : begun.current.kind = .newline := by rw [hbegins.current]; rfl
        rw [if_pos hkind]
        exact .of_pure hbegins
    | some value =>
        obtain ⟨more, hmore⟩ := hbegins.exists_cons
        have hhead : Heads Symbol.expression.startsWith (begun.current :: more) := by
          rw [← hmore]
          exact value.heads.append_of_ne_nil (value.tokens_ne_nil rfl)
        have hkind : begun.current.kind ≠ .newline := by
          intro hkind
          rw [heads_cons, hkind] at hhead
          contradiction
        rw [if_neg hkind]
        apply Accepts.bind ((acceptsPhrases fuel).expression value begun _
          ⟨hbegins, heads_cons.2 rfl, by rw [hbegun.room_eq]; exact hawaits.room⟩)
        intro last hlast
        exact .of_pure hlast.sees
  apply Accepts.bind hvalue
  intro middle hmiddle
  apply Accepts.bind (Accepts.expect hmiddle.sees (by simp))
  intro last hlast
  exact .of_pure hlast.sees

private theorem recordStatement_accepts {keyword : Text.Position} {name : Identifier}
    {colon line opening closing : Text.Position} {fields : List (Identifier × Text.Position)}
    (hsees : state.Sees
      ((Clause.record keyword name colon line opening fields closing).tokens ++ rest)) :
    Accepts (recordStatement fuel) state (.record name (fields.map Prod.fst)) rest := by
  simp only [Clause.tokens, Clause.colonLine, List.append_assoc, List.cons_append,
    List.nil_append] at hsees
  apply Accepts.bind (Accepts.expect hsees (by simp))
  intro begun hbegun
  apply Accepts.bind (Accepts.identifier hbegun.sees)
  intro named hnamed
  apply Accepts.bind (Accepts.expect hnamed.sees (by simp))
  intro behind hbehind
  apply Accepts.bind (Accepts.expect hbehind.sees (by simp))
  intro broken hbroken
  apply Accepts.bind (Accepts.expect hbroken.sees (by simp))
  intro opened hopened
  apply Accepts.bind (fields_accepts fields fuel opened _ hopened.sees
    (by simp [Token.plain]))
  intro listed hlisted
  apply Accepts.bind (Accepts.expect hlisted.sees (by simp))
  intro last hlast
  exact .of_pure hlast.sees

private theorem colonLine_bind {β : Type} {colon line : Text.Position} {next : Parse.Parser β}
    {value : β} {tokens : List Token}
    (hsees : state.Sees (Clause.colonLine colon line ++ tokens))
    (h : ∀ middle, state.Leaves middle tokens → Accepts next middle value rest) :
    Accepts (do
      let _ ← expect .colon
      let _ ← expect .newline
      next) state value rest := by
  apply Accepts.bind (Accepts.expect hsees (by simp))
  intro behind hbehind
  apply Accepts.bind (Accepts.expect hbehind.sees (by simp))
  intro middle hmiddle
  exact h middle (hbehind.trans hmiddle)

private theorem statements_accepts (ih : AcceptsClauses fuel) (clause : Clause .statements)
    (hawaits : Awaits clause state rest) :
    Accepts (statements (fuel + 1)) state clause.tree rest := by
  have hsees := hawaits.sees
  have hends := hawaits.ends
  obtain ⟨behind, hbehind⟩ := hsees.exists_cons
  unfold statements
  apply Accepts.get_bind
  cases clause with
  | noStatement =>
      obtain rfl : rest = state.current :: behind := hbehind
      have hkind : state.current.kind = .dedent := by simpa [Construct.endsBefore] using hends
      rw [if_pos (by simp [hkind])]
      exact .of_pure hsees
  | nextStatement first more =>
      have hroom : max first.depth more.depth ≤ state.room := hawaits.room
      simp only [Clause.tokens, List.append_assoc] at hsees hbehind
      have hhead : Heads Construct.statement.startsWith (state.current :: behind) := by
        rw [← hbehind]
        exact first.heads.append_of_ne_nil (first.tokens_ne_nil rfl)
      rw [heads_cons] at hhead
      have hinside :
          ¬ ((state.current.kind = .dedent || state.current.kind = .eof) = true) := by
        intro hend
        rw [Bool.or_eq_true, decide_eq_true_eq, decide_eq_true_eq] at hend
        rcases hend with hkind | hkind
        all_goals
          rw [hkind] at hhead
          contradiction
      rw [if_neg hinside]
      apply Ensures.bind (Ensures.attempt (ih.statement first state _
        ⟨hsees, more.heads_more hends, by omega⟩))
      intro result middle hmiddle
      cases result with
      | error error => contradiction
      | ok stmt =>
          obtain ⟨rfl, hleaves⟩ := hmiddle
          have hrest : Accepts (statements fuel) middle more.tree rest :=
            ih.statements more middle rest
              ⟨hleaves.sees, hends, by rw [hleaves.room_eq]; omega⟩
          apply Ensures.bind hrest
          rintro _ last ⟨rfl, hlast⟩
          exact Ensures.of_pure ⟨rfl, hleaves.trans hlast⟩

private theorem statement_accepts (ih : AcceptsClauses fuel) (clause : Clause .statement)
    (hawaits : Awaits clause state rest) :
    Accepts (statement (fuel + 1)) state clause.tree rest := by
  have hsees := hawaits.sees
  apply Accepts.currentToken_bind
  apply Accepts.note_bind hsees
  intro noted hnoted
  have hawaits' : Awaits clause noted rest :=
    ⟨hnoted.sees, hawaits.ends, by rw [hnoted.room_eq]; exact hawaits.room⟩
  cases clause with
  | expression value line =>
      obtain ⟨behind, hbehind⟩ := hsees.exists_cons
      have hhead : Heads (Level.startsWith .assignment) (state.current :: behind) := by
        rw [← hbehind, Clause.tokens, List.append_assoc]
        exact value.heads.append_of_ne_nil (value.tokens_ne_nil rfl)
      rw [heads_cons] at hhead
      split
      case h_6 => exact expressionStatement_accepts hawaits'
      all_goals
        rename_i hkind
        rw [hkind] at hhead
        contradiction
  | ret keyword value? line =>
      rw [hsees.current]
      exact returnStatement_accepts hawaits'
  | record keyword name colon line opening fields closing =>
      rw [hsees.current]
      exact recordStatement_accepts hawaits'.sees
  | function heading marker h position line body =>
      rw [hsees.current]
      exact ih.function heading marker h position line body noted rest hawaits'
  | loop keyword condition colon line body =>
      rw [hsees.current]
      exact ih.loop keyword condition colon line body noted rest hawaits'
  | conditional keyword chosen =>
      rw [hsees.current]
      exact ih.conditional keyword chosen noted rest hawaits'

private theorem block_accepts (ih : AcceptsClauses fuel) (clause : Clause .block)
    (hawaits : Awaits clause state rest) :
    Accepts (block (fuel + 1)) state clause.tree rest := by
  cases clause with
  | block opening body closing =>
      have hsees := hawaits.sees
      have hroom : body.depth + 1 ≤ state.room := hawaits.room
      simp only [Clause.tokens, List.cons_append, List.append_assoc, List.nil_append] at hsees
      apply Accepts.bind (Accepts.expect hsees (by simp))
      intro opened hopened
      have hbody : Accepts (nested (statements fuel)) opened body.tree
          (.plain .dedent closing :: rest) := by
        apply Accepts.nested hopened.sees (by rw [hopened.room_eq]; omega)
        intro deeper hdeeper hless
        rw [hopened.room_eq] at hless
        exact ih.statements body deeper _ ⟨hdeeper, heads_cons.2 rfl, by omega⟩
      apply Accepts.bind hbody
      intro middle hmiddle
      apply Accepts.bind (Accepts.expect hmiddle.sees (by simp))
      intro last hlast
      exact .of_pure hlast.sees

private theorem function_accepts (ih : AcceptsClauses fuel) {heading : Heading}
    {marker : TokenKind} {h : marker ∈ bodyMarkers} {position line : Text.Position}
    {body : Clause .block}
    (hawaits : Awaits (.function heading marker h position line body) state rest) :
    Accepts (function (fuel + 1)) state (.function heading.tree body.tree) rest := by
  have hsees := hawaits.sees
  simp only [Clause.tokens, List.append_assoc, List.cons_append] at hsees
  have hmarker : marker ≠ .eof := by
    rintro rfl
    simp [bodyMarkers] at h
  apply Accepts.bind (header_accepts heading hsees (Heading.endsBefore_marker _ _ _ rfl))
  intro headed hheaded
  apply Accepts.bind (Accepts.expectOneOf hheaded.sees hmarker h)
  intro marked hmarked
  apply Accepts.bind (Accepts.expect hmarked.sees (by simp))
  intro broken hbroken
  have hroom : body.depth ≤ broken.room := by
    rw [hbroken.room_eq, hmarked.room_eq, hheaded.room_eq]
    exact hawaits.room
  apply Accepts.bind (ih.block body broken rest ⟨hbroken.sees, fun _ _ => rfl, hroom⟩)
  intro last hlast
  exact .of_pure hlast.sees

private theorem loop_accepts (ih : AcceptsClauses fuel) {keyword colon line : Text.Position}
    {condition : Phrase .expression} {body : Clause .block}
    (hawaits : Awaits (.loop keyword condition colon line body) state rest) :
    Accepts (loop (fuel + 1)) state (.loop condition.tree body.tree) rest := by
  have hsees := hawaits.sees
  have hroom : max condition.depth body.depth ≤ state.room := hawaits.room
  simp only [Clause.tokens, List.append_assoc, List.cons_append] at hsees
  apply Accepts.bind (Accepts.expect hsees (by simp))
  intro begun hbegun
  apply Accepts.bind ((acceptsPhrases fuel).expression condition begun _
    ⟨hbegun.sees, heads_cons.2 rfl, by rw [hbegun.room_eq]; omega⟩)
  intro tested htested
  apply colonLine_bind htested.sees
  intro broken hbroken
  have hroom' : body.depth ≤ broken.room := by
    rw [hbroken.room_eq, htested.room_eq, hbegun.room_eq]
    omega
  apply Accepts.bind (ih.block body broken rest ⟨hbroken.sees, fun _ _ => rfl, hroom'⟩)
  intro last hlast
  exact .of_pure hlast.sees

private theorem conditional_accepts (ih : AcceptsClauses fuel) {keyword : Text.Position}
    {chosen : Clause .branch} (hawaits : Awaits (.conditional keyword chosen) state rest) :
    Accepts (conditional (fuel + 1)) state (Clause.conditional keyword chosen).tree rest := by
  apply Accepts.bind (Accepts.expect hawaits.sees (by simp))
  intro begun hbegun
  apply Accepts.bind (ih.branch chosen begun rest
    ⟨hbegun.sees, hawaits.ends, by rw [hbegun.room_eq]; exact hawaits.room⟩)
  intro last hlast
  exact .of_pure hlast.sees

private theorem branch_accepts (ih : AcceptsClauses fuel) (clause : Clause .branch)
    (hawaits : Awaits clause state rest) :
    Accepts (branch (fuel + 1)) state clause.tree rest := by
  cases clause with
  | branch condition colon line body alternative =>
      have hsees := hawaits.sees
      have hroom : max condition.depth (max body.depth alternative.depth) ≤ state.room :=
        hawaits.room
      simp only [Clause.tokens, List.append_assoc] at hsees
      apply Accepts.bind ((acceptsPhrases fuel).expression condition state _
        ⟨hsees, heads_cons.2 rfl, by omega⟩)
      intro tested htested
      apply colonLine_bind htested.sees
      intro broken hbroken
      have hbrokenRoom : broken.room = state.room := by rw [hbroken.room_eq, htested.room_eq]
      apply Accepts.bind (ih.block body broken _
        ⟨hbroken.sees, fun _ _ => rfl, by rw [hbrokenRoom]; omega⟩)
      intro closed hclosed
      have hclosedRoom : closed.room = state.room := by rw [hclosed.room_eq, hbrokenRoom]
      have hcloses := hclosed.sees
      apply Accepts.currentKind_bind
      cases alternative with
      | noAlternative =>
          have hends := hawaits.ends
          obtain ⟨more, hmore⟩ := hcloses.exists_cons
          obtain rfl : rest = closed.current :: more := hmore
          rw [heads_cons] at hends
          split
          · rename_i hkind
            rw [hkind] at hends
            contradiction
          · rename_i hkind
            rw [hkind] at hends
            contradiction
          · exact .of_pure hcloses
      | elif keyword chosen =>
          simp only [Clause.depth] at hroom
          rw [hcloses.current]
          apply Accepts.bind (Accepts.advance hcloses (by simp [Token.plain]))
          intro begun hbegun
          apply Accepts.bind (ih.branch chosen begun rest
            ⟨hbegun.sees, hawaits.ends, by rw [hbegun.room_eq, hclosedRoom]; omega⟩)
          intro last hlast
          exact .of_pure hlast.sees
      | otherwise keyword colon' line' otherBody =>
          simp only [Clause.depth] at hroom
          simp only [Clause.tokens, List.cons_append, List.append_assoc] at hcloses
          rw [hcloses.current]
          apply Accepts.bind (Accepts.advance hcloses (by simp [Token.plain]))
          intro begun hbegun
          apply colonLine_bind hbegun.sees
          intro broken' hbroken'
          have hroom' : otherBody.depth ≤ broken'.room := by
            rw [hbroken'.room_eq, hbegun.room_eq, hclosedRoom]
            omega
          apply Accepts.bind (ih.block otherBody broken' rest
            ⟨hbroken'.sees, fun _ _ => rfl, hroom'⟩)
          intro last hlast
          exact .of_pure hlast.sees

theorem acceptsClauses (fuel : Nat) : AcceptsClauses fuel := by
  induction fuel with
  | zero => constructor <;> intros <;> exact Accepts.of_exhausted
  | succ fuel ih =>
      constructor
      case statements => exact fun clause state rest => statements_accepts ih clause
      case statement => exact fun clause state rest => statement_accepts ih clause
      case block => exact fun clause state rest => block_accepts ih clause
      case function => exact fun _ _ _ _ _ _ _ _ => function_accepts ih
      case conditional => exact fun _ _ _ _ => conditional_accepts ih
      case branch => exact fun clause state rest => branch_accepts ih clause
      case loop => exact fun _ _ _ _ _ _ _ => loop_accepts ih

end Offside.Grammar
