import Offside.Parse.Progress.Statement
import Offside.Proofs.Grammar.PhraseCompleteness

/-!
# The tree of a chain of operators

A chain is a list of operands with binary operators between them.  Its tree has the leftmost operator
among those of the lowest precedence at its root, and the trees of the two parts below it.  Reading
level by level gives this tree: each level ends in front of the first operator that is looser.
-/

namespace Offside

namespace Grammar

open Parse (Ensures Item Meets State untilEof)
open Parse.Parser
open Text (Position)

/-! ## Chains -/

inductive Operand where
  | identifier (name : Identifier)
  | integer (value : Int) (position : Position)

namespace Operand

def token : Operand → Token
  | .identifier name => name.token
  | .integer value position => .integer value position

def tree : Operand → Expr
  | .identifier name => .identifier name
  | .integer value _ => .literal (.integer value)

theorem token_ne_eof (operand : Operand) : operand.token.kind ≠ .eof := by
  cases operand <;> nofun

end Operand

structure Link where
  op : BinaryOp
  position : Position
  operand : Operand

def Link.tokens (link : Link) : List Token := [.plain link.op.token link.position, link.operand.token]

def chainTokens (first : Operand) (links : List Link) : List Token :=
  first.token :: links.flatMap Link.tokens

def precedence : BinaryOp → Nat
  | .assign | .addAssign | .subAssign | .mulAssign | .divAssign | .modAssign | .powAssign => 0
  | .or => 1
  | .and => 2
  | .eq | .ne | .lt | .gt | .le | .ge => 3
  | .add | .sub => 4
  | .mul | .div | .mod => 5
  | .pow => 6

/-- The lowest precedence of the operators of a chain. -/
def lowest (links : List Link) : Nat :=
  ((links.map fun link => precedence link.op).min?).getD 0

/-- The tree of a chain, split at the leftmost operator among those of the lowest precedence. -/
def chainTree (first : Operand) (links : List Link) : Expr :=
  match _h : links.dropWhile fun link => lowest links < precedence link.op with
  | [] => first.tree
  | link :: back =>
      .binary (chainTree first (links.takeWhile fun link => lowest links < precedence link.op))
        link.op (chainTree link.operand back)
termination_by links.length
decreasing_by
  all_goals
    have hlength := congrArg List.length
      (List.takeWhile_append_dropWhile (p := fun link => lowest links < precedence link.op)
        (l := links))
    simp only [List.length_append, _h, List.length_cons] at hlength
    omega

theorem chainTree_nil (first : Operand) : chainTree first [] = first.tree := by
  unfold chainTree
  rfl

theorem lowest_split {front back : List Link} {link : Link}
    (hfront : ∀ other ∈ front, precedence link.op < precedence other.op)
    (hback : ∀ other ∈ back, precedence link.op ≤ precedence other.op) :
    lowest (front ++ link :: back) = precedence link.op := by
  have hmin : ((front ++ link :: back).map fun link => precedence link.op).min? =
      some (precedence link.op) := by
    rw [List.min?_eq_some_iff]
    constructor
    · simp
    · simp only [List.mem_map, List.mem_append, List.mem_cons, forall_exists_index, and_imp]
      rintro _ other (hother | rfl | hother) rfl
      · exact Nat.le_of_lt (hfront other hother)
      · exact Nat.le_refl _
      · exact hback other hother
  rw [lowest, hmin, Option.getD_some]

/-- An operator that is looser than all on its left and not tighter than any on its right is the root
of the tree. -/
theorem chainTree_split (first : Operand) {front back : List Link} {link : Link}
    (hfront : ∀ other ∈ front, precedence link.op < precedence other.op)
    (hback : ∀ other ∈ back, precedence link.op ≤ precedence other.op) :
    chainTree first (front ++ link :: back) =
      .binary (chainTree first front) link.op (chainTree link.operand back) := by
  have hlowest := lowest_split hfront hback
  have htake : (front ++ link :: back).takeWhile (fun other => precedence link.op < precedence other.op)
      = front := by
    rw [List.takeWhile_append_of_pos (by simpa using hfront)]
    simp
  have hdrop : (front ++ link :: back).dropWhile (fun other => precedence link.op < precedence other.op)
      = link :: back := by
    rw [List.dropWhile_append_of_pos (by simpa using hfront)]
    simp
  rw [chainTree, hlowest]
  split
  · rename_i hnone
    rw [hdrop] at hnone
    contradiction
  · rename_i other rest hsome
    rw [hdrop, List.cons.injEq] at hsome
    obtain ⟨rfl, rfl⟩ := hsome
    rw [htake]

/-- All levels associate to the right: an operator that is not tighter than any behind it is the root
of their tree. -/
theorem chainTree_cons (first : Operand) {link : Link} {back : List Link}
    (hback : ∀ other ∈ back, precedence link.op ≤ precedence other.op) :
    chainTree first (link :: back) =
      .binary first.tree link.op (chainTree link.operand back) := by
  have hsplit := @chainTree_split first [] back link nofun hback
  rwa [List.nil_append, chainTree_nil] at hsplit

/-! ## Precedences and levels -/

theorem height_level (op : BinaryOp) :
    Level.height op.level + precedence op + (if 3 ≤ precedence op then 1 else 0) +
      (if 6 ≤ precedence op then 1 else 0) = 10 := by
  cases op <;> rfl

theorem precedence_lt_of_height {op other : BinaryOp}
    (h : Level.height other.level < Level.height op.level) : precedence op < precedence other := by
  have hop := height_level op
  have hother := height_level other
  split at hop <;> split at hother <;> split at hop <;> split at hother <;> omega

theorem precedence_le_of_height {op other : BinaryOp}
    (h : Level.height other.level ≤ Level.height op.level) : precedence op ≤ precedence other := by
  have hop := height_level op
  have hother := height_level other
  split at hop <;> split at hother <;> split at hop <;> split at hother <;> omega

theorem Level.height_tighter {here : Level} (h : here ≠ .atom) :
    Level.height here.tighter + 1 = Level.height here := by
  cases here <;> first | contradiction | rfl

theorem Level.goesOnWith_right (here : Level) (kind : TokenKind) :
    Level.goesOnWith here.right kind = Level.goesOnWith here kind := by
  cases here with
  | power => cases kind <;> rfl
  | _ => rfl

theorem Level.goesOnWith_tighter {here : Level} {kind : TokenKind}
    (h : Level.goesOnWith here kind = false) : Level.goesOnWith here.tighter kind = false := by
  apply Bool.eq_false_iff.2
  intro hmore
  rw [Level.goesOnWith_of_tighter hmore] at h
  contradiction

theorem Level.height_injective {here there : Level} (h : Level.height here = Level.height there) :
    here = there := by
  cases here <;> cases there <;> first | rfl | contradiction

/-! ## Consuming a chain -/

/-- The tokens that are consumed from one state to another, and what stays as it is. -/
structure Passes (before after : State) (tokens : List Token) : Prop where
  ahead : before.ahead = tokens.map .ok ++ after.ahead
  consumed : after.consumed = before.consumed + tokens.length
  errors : after.errors = before.errors
  nesting : after.nesting = before.nesting
  config : after.config = before.config

variable {state middle after : State} {token stop : Token} {rest tail : List Item}

theorem Passes.trans {tokens tokens' : List Token} (h : Passes state middle tokens)
    (h' : Passes middle after tokens') : Passes state after (tokens ++ tokens') where
  ahead := by rw [h.ahead, h'.ahead, List.map_append, List.append_assoc]
  consumed := by rw [h'.consumed, h.consumed, List.length_append, Nat.add_assoc]
  errors := by rw [h'.errors, h.errors]
  nesting := by rw [h'.nesting, h.nesting]
  config := by rw [h'.config, h.config]

theorem Passes.ahead_eq {tokens : List Token} (h : Passes state after tokens)
    (hahead : state.ahead = tokens.map .ok ++ rest) : after.ahead = rest :=
  List.append_cancel_left (h.ahead.symm.trans hahead)

def Fed (tail : List Item) : Prop := ∃ token rest, tail = .ok token :: rest

def Starved : List Item → Parse.Error → Prop
  | [], error => ∃ position, error = .ofFailure (.pastEndOfInput position)
  | .error failure :: _, error => error = .ofFailure failure
  | .ok _ :: _, _ => False

theorem advance_passes {second : Token} (heof : token.kind ≠ .eof) (hsecond : second.kind ≠ .eof)
    (hahead : state.ahead = .ok token :: .ok second :: tail) :
    Ensures advance state (fun value after => value = token ∧ Passes state after [token] ∧ Fed tail)
      fun error _ => Starved tail error := by
  obtain rfl := State.current_of_ahead hahead
  obtain rfl := State.next_of_ahead hahead
  have htail : tail = untilEof state.stream.items := by
    rw [State.ahead_of_ne_eof heof, untilEof, if_neg hsecond] at hahead
    exact (List.cons.inj (List.cons.inj hahead).2).2.symm
  cases hitems : state.stream.items with
  | nil =>
      rw [hitems] at htail
      subst htail
      exact .of_advance (State.advance_of_failure (State.pull_of_nil hsecond hitems)) ⟨_, rfl⟩
  | cons item items =>
      rw [hitems] at htail
      cases item with
      | error failure =>
          subst htail
          exact .of_advance (State.advance_of_failure (State.pull_of_items hsecond hitems)) rfl
      | ok third =>
          have hfed : Fed tail := by
            rw [htail, untilEof]
            split
            · exact ⟨_, _, rfl⟩
            · exact ⟨_, _, rfl⟩
          obtain ⟨following, rest, hthird⟩ := hfed
          rcases State.advance_cases heof with ⟨after, hadvance, hconsumes⟩ |
            ⟨failure, after, -, -, -, -, hnone⟩
          · apply Ensures.of_advance hadvance
            exact ⟨rfl, ⟨hconsumes.ahead, hconsumes.consumed, hconsumes.errors, hconsumes.nesting,
              hconsumes.config⟩, following, rest, hthird⟩
          · rw [hahead, hthird] at hnone
            simp at hnone

theorem atom_passes (fuel : Nat) (operand : Operand)
    (hstop : stop.kind ≠ .eof) (hahead : state.ahead = .ok operand.token :: .ok stop :: tail) :
    Ensures (atom fuel) state
      (fun value after => value = operand.tree ∧ Passes state after [operand.token] ∧ Fed tail)
      fun error _ => Starved tail error := by
  have hcurrent := State.current_of_ahead hahead
  cases fuel with
  | zero => exact .of_exhausted
  | succ fuel =>
      cases operand with
      | integer value position =>
          have hliteral : Ensures
              (literal? [.float, .integer, .trueKeyword, .falseKeyword, .string]) state
              (fun value? after => value? = some (.literal (.integer value)) ∧
                Passes state after [.integer value position] ∧ Fed tail)
              fun error _ => Starved tail error := by
            apply Ensures.currentToken_bind
            rw [hcurrent]
            apply Ensures.bind (advance_passes (by simp [Operand.token, Token.integer]) hstop hahead)
            rintro _ after ⟨-, hpasses⟩
            exact .of_pure ⟨rfl, hpasses⟩
          apply Ensures.bind hliteral
          rintro _ after ⟨rfl, hpasses⟩
          exact .of_pure ⟨rfl, hpasses⟩
      | identifier name =>
          have hliteral : Ensures
              (literal? [.float, .integer, .trueKeyword, .falseKeyword, .string]) state
              (fun value? after => value? = none ∧ after = state)
              fun error _ => Starved tail error := by
            apply Ensures.currentToken_bind
            rw [hcurrent]
            exact .of_pure ⟨rfl, rfl⟩
          apply Ensures.bind hliteral
          rintro _ same ⟨rfl, hsame⟩
          rw [hsame]
          apply Ensures.currentKind_bind
          have hkind : state.current.kind = .identifier := by
            rw [hcurrent]
            rfl
          rw [if_pos hkind]
          have hexpect : Ensures (expect .identifier) state
              (fun token after => token = name.token ∧ Passes state after [name.token] ∧ Fed tail)
              fun error _ => Starved tail error := by
            apply Ensures.currentToken_bind
            rw [hkind, if_pos (by simp)]
            exact advance_passes (by simp [Identifier.token, Token.identifier]) hstop hahead
          have hname : Ensures identifier state
              (fun value after => value = name ∧ Passes state after [name.token] ∧ Fed tail)
              fun error _ => Starved tail error := by
            apply Ensures.bind hexpect
            rintro _ after ⟨rfl, hpasses⟩
            exact .of_pure ⟨rfl, hpasses⟩
          apply Ensures.bind hname
          rintro _ after ⟨rfl, hpasses⟩
          exact .of_pure ⟨rfl, hpasses⟩

/-! ## Levels -/

def ReadsChains (fuel : Nat) : Prop :=
  ∀ (here : Level) (first : Operand) (links : List Link) (state : State) (stop : Token)
    (tail : List Item), (∀ link ∈ links, Level.goesOnWith here link.op.token = true) →
    stop.kind ≠ .eof → Level.goesOnWith here stop.kind = false →
    state.ahead = (chainTokens first links).map .ok ++ .ok stop :: tail →
    Ensures (level fuel here) state
      (fun value after => value = chainTree first links ∧
        Passes state after (chainTokens first links) ∧ Fed tail) fun error _ => Starved tail error

theorem goesOnWith_links {here : Level} {links : List Link}
    (h : ∀ link ∈ links, Level.goesOnWith here link.op.token = true) :
    ∀ link ∈ links, Level.height link.op.level ≤ Level.height here := by
  intro link hlink
  simpa [Level.goesOnWith_op] using h link hlink

theorem links_eq_nil {here : Level} {links : List Link}
    (h : ∀ link ∈ links, Level.goesOnWith here link.op.token = true)
    (hhere : Level.height here ≤ 1) : links = [] := by
  apply List.eq_nil_iff_forall_not_mem.2
  intro link hlink
  have hheight := goesOnWith_links h link hlink
  have hop : 2 ≤ Level.height link.op.level := by cases link.op <;> decide
  omega

/-- The operators of a level are all tighter, or one of them is the first one of this level. -/
theorem links_cases {here : Level} (hatom : here ≠ .atom) {links : List Link}
    (h : ∀ link ∈ links, Level.goesOnWith here link.op.token = true) :
    (∀ link ∈ links, Level.goesOnWith here.tighter link.op.token = true) ∨
      ∃ front link back, links = front ++ link :: back ∧ link.op.level = here ∧
        ∀ other ∈ front, Level.goesOnWith here.tighter other.op.token = true := by
  have htighter := Level.height_tighter hatom
  induction links with
  | nil => exact .inl nofun
  | cons link links ih =>
      have hlink := goesOnWith_links h link List.mem_cons_self
      by_cases hhere : link.op.level = here
      · exact .inr ⟨[], link, links, rfl, hhere, nofun⟩
      · have hne : Level.height link.op.level ≠ Level.height here :=
          fun hsame => hhere (Level.height_injective hsame)
        have hless : Level.goesOnWith here.tighter link.op.token = true := by
          rw [Level.goesOnWith_op, decide_eq_true_eq]
          omega
        rcases ih fun other hother => h other (List.mem_cons_of_mem _ hother) with
          hall | ⟨front, other, back, rfl, hother, hfront⟩
        · exact .inl (List.forall_mem_cons.2 ⟨hless, hall⟩)
        · exact .inr ⟨link :: front, other, back, rfl, hother,
            List.forall_mem_cons.2 ⟨hless, hfront⟩⟩

theorem links_tighter {here : Level} (hatom : here ≠ .atom) (hnone : ∀ op : BinaryOp, op.level ≠ here)
    {links : List Link} (h : ∀ link ∈ links, Level.goesOnWith here link.op.token = true) :
    ∀ link ∈ links, Level.goesOnWith here.tighter link.op.token = true := by
  rcases links_cases hatom h with htight | ⟨_, link, _, _, hlink, _⟩
  · exact htight
  · exact absurd hlink (hnone link.op)

theorem exists_behind (links : List Link) (stop : Token) (tail : List Item) :
    ∃ second more, (links.flatMap Link.tokens).map Except.ok ++ .ok stop :: tail =
      .ok second :: more := by
  cases links with
  | nil => exact ⟨stop, tail, rfl⟩
  | cons link links => exact ⟨_, _, rfl⟩

theorem chainTokens_append (first : Operand) (front back : List Link) (link : Link) :
    chainTokens first (front ++ link :: back) =
      chainTokens first front ++
        .plain link.op.token link.position :: chainTokens link.operand back := by
  simp [chainTokens, Link.tokens]

/-- A level of binary operators reads its left operand up to the first operator of the level. -/
private theorem binaryLevel_passes {fuel : Nat} (ih : ReadsChains fuel) {here : Level}
    (hatom : here ≠ .atom) {first : Operand} {links : List Link}
    (hlinks : ∀ link ∈ links, Level.goesOnWith here link.op.token = true)
    (heof : stop.kind ≠ .eof) (hstop : Level.goesOnWith here stop.kind = false)
    (hahead : state.ahead = (chainTokens first links).map .ok ++ .ok stop :: tail) :
    Ensures
      (do
        let left ← level fuel here.tighter
        match here.operator? (← currentKind) with
        | some op =>
            let _ ← advance
            return .binary left op (← level fuel here.right)
        | none => return left)
      state
      (fun value after => value = chainTree first links ∧
        Passes state after (chainTokens first links) ∧ Fed tail)
      fun error _ => Starved tail error := by
  rcases links_cases hatom hlinks with htight | ⟨front, link, back, rfl, rfl, hfront⟩
  · apply Ensures.bind
      (ih _ first links state stop tail htight heof (Level.goesOnWith_tighter hstop) hahead)
    rintro _ middle ⟨rfl, hpasses, hfed⟩
    apply Ensures.currentKind_bind
    rw [State.current_of_ahead (hpasses.ahead_eq hahead),
      operator?_of_endsBefore (by simp [Symbol.endsBefore, hstop])]
    exact .of_pure ⟨rfl, hpasses, hfed⟩
  · have hahead' : state.ahead = (chainTokens first front).map .ok ++
        .ok (.plain link.op.token link.position) :: .ok link.operand.token ::
          ((back.flatMap Link.tokens).map .ok ++ .ok stop :: tail) := by
      rw [hahead, chainTokens_append]
      simp [chainTokens]
    have hends : Level.goesOnWith link.op.level.tighter link.op.token = false := by
      rw [Level.goesOnWith_op, decide_eq_false_iff_not]
      have := Level.height_tighter hatom
      omega
    have hleft := ih _ first front state _ _ hfront (BinaryOp.token_ne_eof link.op) hends hahead'
    apply Ensures.bind (hleft.weaken (fun _ _ hvalue => hvalue) fun _ _ hstarved => hstarved.elim)
    rintro _ middle ⟨rfl, hleft, -⟩
    have hmiddle := hleft.ahead_eq hahead'
    apply Ensures.currentKind_bind
    rw [State.current_of_ahead hmiddle]
    simp only [Token.plain]
    rw [operator?_token]
    obtain ⟨second, more, hmore⟩ := exists_behind back stop tail
    rw [hmore] at hmiddle
    have hop := advance_passes (BinaryOp.token_ne_eof link.op) link.operand.token_ne_eof hmiddle
    apply Ensures.bind (hop.weaken (fun _ _ hvalue => hvalue) fun _ _ hstarved => hstarved.elim)
    rintro _ opened ⟨-, hopened, -⟩
    have hbehind : opened.ahead =
        (chainTokens link.operand back).map .ok ++ .ok stop :: tail := by
      rw [hopened.ahead_eq hmiddle, ← hmore]
      rfl
    have hback : ∀ other ∈ back, Level.goesOnWith link.op.level other.op.token = true :=
      fun other hother => hlinks other (by simp [hother])
    simp only [← Level.goesOnWith_right link.op.level] at hback hstop
    apply Ensures.bind (ih _ link.operand back opened stop tail hback heof hstop hbehind)
    rintro _ last ⟨rfl, hlast, hfed⟩
    refine .of_pure ⟨?_, ?_, hfed⟩
    · apply (chainTree_split first ?_ ?_).symm
      · intro other hother
        have hheight := goesOnWith_links hfront other hother
        have := Level.height_tighter hatom
        exact precedence_lt_of_height (by omega)
      · intro other hother
        simp only [Level.goesOnWith_right] at hback
        exact precedence_le_of_height (goesOnWith_links hback other hother)
    · rw [chainTokens_append]
      exact hleft.trans (hopened.trans hlast)

theorem suffixes_passes (fuel : Nat) (object : Expr)
    (hstop : Level.goesOnWith .suffix state.current.kind = false) :
    Ensures (suffixes fuel object) state (fun value after => value = object ∧ after = state)
      fun _ _ => False := by
  cases fuel with
  | zero => exact .of_exhausted
  | succ fuel =>
      apply Ensures.currentKind_bind
      split
      case h_4 => exact .of_pure ⟨rfl, rfl⟩
      all_goals
        rename_i hkind
        rw [hkind] at hstop
        contradiction

theorem readsChains (fuel : Nat) : ReadsChains fuel := by
  induction fuel with
  | zero => exact fun _ _ _ _ _ _ _ _ _ _ => .of_exhausted
  | succ fuel ih =>
      intro here first links state stop tail hlinks heof hstop hahead
      obtain ⟨second, more, hmore⟩ := exists_behind links stop tail
      have hfirst : state.ahead = .ok first.token :: .ok second :: more := by
        rw [hahead, ← hmore]
        rfl
      have hcurrent := State.current_of_ahead hfirst
      cases here with
      | assignment | disjunction | conjunction | comparison | sum | product | power =>
          exact binaryLevel_passes ih (by decide) hlinks heof hstop hahead
      | negation =>
          apply Ensures.currentKind_bind
          have hkind : state.current.kind ≠ .notKeyword := by
            rw [hcurrent]
            cases first <;> nofun
          rw [if_neg hkind]
          exact ih .comparison first links state stop tail
            (links_tighter (by decide) (fun op => by cases op <;> nofun) hlinks)
            heof (Level.goesOnWith_tighter hstop) hahead
      | sign =>
          have hsign : Ensures signAhead? state (fun op? middle => op? = none ∧ middle = state)
              fun error _ => Starved tail error := by
            apply Ensures.get_bind
            have hkind : state.current.kind ≠ .minus := by
              rw [hcurrent]
              cases first <;> nofun
            have hfault : state.current.fault? ≠ some .strayBang := by
              rw [hcurrent]
              cases first <;> nofun
            rw [if_neg hkind, if_neg hfault]
            exact .of_pure ⟨rfl, rfl⟩
          apply Ensures.bind hsign
          rintro _ same ⟨rfl, hsame⟩
          rw [hsame]
          exact ih .power first links state stop tail
            (links_tighter (by decide) (fun op => by cases op <;> nofun) hlinks)
            heof (Level.goesOnWith_tighter hstop) hahead
      | suffix =>
          obtain rfl := links_eq_nil hlinks (by decide)
          apply Ensures.bind (ih .atom first [] state stop tail nofun heof
            (Level.goesOnWith_atom _) hahead)
          rintro _ middle ⟨rfl, hmiddle, hfed⟩
          have hstopped := State.current_of_ahead (hmiddle.ahead_eq hahead)
          exact (suffixes_passes fuel _ (hstopped ▸ hstop)).weaken
            (fun _ _ hsame => ⟨hsame.1, hsame.2 ▸ hmiddle, hfed⟩) fun _ _ => False.elim
      | atom =>
          obtain rfl := links_eq_nil hlinks (by decide)
          rw [chainTree_nil]
          exact atom_passes fuel first heof hahead

private theorem expression_chain_ensures (first : Operand) (links : List Link) (state : State)
    (newline : Token) (tail : List Item) (hnewline : newline.kind = .newline)
    (hahead : state.ahead = (chainTokens first links).map .ok ++ .ok newline :: tail)
    (hroom : state.nesting < state.config.maxDepth) :
    Ensures (expression state.fuel) state
      (fun value after => value = chainTree first links ∧
        Passes state after (chainTokens first links) ∧ Fed tail)
      fun error _ => Starved tail error := by
  have hlinks : ∀ link ∈ links, Level.goesOnWith .assignment link.op.token = true := by
    intro link _
    cases link.op <;> rfl
  have heof : newline.kind ≠ .eof := by
    rw [hnewline]
    nofun
  have hstop : Level.goesOnWith .assignment newline.kind = false := by
    rw [hnewline]
    rfl
  cases hfuel : state.fuel with
  | zero => exact .of_exhausted
  | succ fuel =>
      intro result after hrun
      obtain ⟨inner, hinner, hback⟩ := run_nested_eq_some (Nat.not_le.2 hroom) hrun
      obtain rfl : after = { inner with nesting := inner.nesting - 1 } := hback
      have hmeets := readsChains fuel .assignment first links
        { state with nesting := state.nesting + 1 } newline tail hlinks heof hstop hahead
        result inner hinner
      cases result with
      | error error => exact hmeets
      | ok value =>
          obtain ⟨hvalue, hpasses, hfed⟩ := hmeets
          refine ⟨hvalue, ⟨hpasses.ahead, hpasses.consumed, hpasses.errors, ?_, hpasses.config⟩, hfed⟩
          show inner.nesting - 1 = state.nesting
          rw [hpasses.nesting]
          rfl

private theorem expression_chain_meets (first : Operand) (links : List Link) (state : State)
    (newline : Token) (tail : List Item) (hnewline : newline.kind = .newline)
    (hahead : state.ahead = (chainTokens first links).map .ok ++ .ok newline :: tail)
    (hroom : state.nesting < state.config.maxDepth) :
    Meets (fun value after => value = chainTree first links ∧
        Passes state after (chainTokens first links) ∧ Fed tail)
      (fun error _ => Starved tail error) (state.run expression).1 (state.run expression).2 := by
  have hwell : state.WellFormed := by
    intro heof
    rw [State.current_of_ahead hahead] at heof
    exact absurd heof first.token_ne_eof
  have hneed := state.need_le_fuel
  have hcompletes := (expressionsComplete state.fuel).expression state hwell (by omega)
  exact expression_chain_ensures first links state newline tail hnewline hahead hroom _ _
    (State.run_eq_of_completes hcompletes)

/-- An expression that is a chain is read as the tree of the chain: exactly its tokens are consumed.
The parser is one token ahead of what it consumes, so that one more token has to follow the line
break.  A parser that has not gone deeper yet reads expressions if at least one level is allowed. -/
theorem expression_chain (first : Operand) (links : List Link) (state : State)
    (newline behind : Token) (rest : List Item) (hnewline : newline.kind = .newline)
    (hahead : state.ahead = (chainTokens first links).map .ok ++ .ok newline :: .ok behind :: rest)
    (hroom : state.nesting < state.config.maxDepth) :
    ∃ after, state.run expression = (.ok (chainTree first links), after) ∧
      Passes state after (chainTokens first links) := by
  have hmeets := expression_chain_meets first links state newline _ hnewline hahead hroom
  cases hresult : state.run expression with
  | mk result after =>
      rw [hresult] at hmeets
      cases result with
      | error error => exact hmeets.elim
      | ok value =>
          obtain ⟨rfl, hpasses, -⟩ := hmeets
          exact ⟨after, rfl, hpasses⟩

/-- With no token behind the line break a chain is not read to its end: the last operand is consumed
only together with a look behind the line break. -/
theorem expression_chain_starved (first : Operand) (links : List Link) (state : State)
    (newline : Token) (tail : List Item) (hnewline : newline.kind = .newline)
    (hahead : state.ahead = (chainTokens first links).map .ok ++ .ok newline :: tail)
    (htail : ¬ Fed tail) (hroom : state.nesting < state.config.maxDepth) :
    ∃ error after, state.run expression = (.error error, after) ∧ Starved tail error := by
  have hmeets := expression_chain_meets first links state newline _ hnewline hahead hroom
  cases hresult : state.run expression with
  | mk result after =>
      rw [hresult] at hmeets
      cases result with
      | error error => exact ⟨error, after, rfl, hmeets⟩
      | ok value => exact absurd hmeets.2.2 htail

/-- Two differences and a product: `1 - 2 - 3 * x`. -/
theorem expression_chain_differences :
    let first : Operand := .integer 1 .start
    let product : Link := ⟨.mul, .start, .identifier ⟨"x", .start⟩⟩
    let links : List Link := [⟨.sub, .start, .integer 2 .start⟩, ⟨.sub, .start, .integer 3 .start⟩, product]
    let newline : Token := .plain .newline .start
    let eof : Token := .plain .eof .start
    let state : State :=
      ⟨⟨(links.flatMap Link.tokens ++ [newline, eof]).tail.map .ok, .start⟩, first.token,
        .plain .minus .start, 0, 0, 0, [], .default, []⟩
    state.ahead = (chainTokens first links).map .ok ++ [.ok newline, .ok eof] ∧
      state.nesting < state.config.maxDepth ∧
      ∃ after, Passes state after (chainTokens first links) ∧
        state.run expression =
          (.ok (.binary (.literal (.integer 1)) .sub
            (.binary (.literal (.integer 2)) .sub
              (.binary (.literal (.integer 3)) .mul (.identifier ⟨"x", .start⟩)))), after) := by
  intro first product links newline eof state
  have hahead : state.ahead = (chainTokens first links).map .ok ++ [.ok newline, .ok eof] := rfl
  obtain ⟨after, hrun, hpasses⟩ :=
    expression_chain first links state newline eof [] rfl hahead (by decide)
  refine ⟨hahead, by decide, after, hpasses, ?_⟩
  rw [hrun, chainTree_cons first (by decide), chainTree_cons _ (by decide),
    chainTree_cons _ (by decide), chainTree_nil]
  rfl

end Grammar

end Offside
