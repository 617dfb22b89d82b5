import Prosaic.Proofs.Pairing.Rules

/-!
Levels of nesting. Whatever a rule of the grammar enters or opens on the way, it has left and closed
when it returns, and also when it fails: the same constructs are open as before, and the depth is
the same. Only a limit that is exceeded may leave a reading deeper than it was.

A reading is paired with itself here. What a pair of readings keeps, each of them keeps alone.

How constructs are opened and closed. A closer takes the words that close its construct, or it
complains once and names the construct; then the construct is no longer open. Nothing in between
fails, so what is opened is not left open by a failure.
-/

namespace Prosaic.Parser

variable {α : Type}

/-- How deep a state is: the constructs that are open, and the depth of nesting. -/
def State.level (s : State) : Level := ⟨s.blocks, s.budget.depth⟩

/-- A parser that returns, or fails, at the level at which it starts. -/
structure Balanced (p : Parser α) : Prop where
  done : ∀ {s a t}, p s = .done a t → t.level = s.level
  failed : ∀ {s d t}, p s = .failed d t → t.level = s.level

/-- A balanced parser that gives no token back and forgets no finding. -/
structure Steady (p : Parser α) : Prop extends Balanced p where
  moves : Moves p

namespace Pairing

/-- A reading that goes on from a state, by itself. It may complain about the given token. -/
def single (s : State) (t : Token) :
    Pairing := ⟨t :: s.rest, [], s.stop, define_nil, s.found, False⟩

theorem twin_single (s : State) (t : Token) :
    (single s t).Twin s.level s { s with found := [] } where
  rest := rfl
  inside := ⟨[t], (List.append_nil _).symm⟩
  stop := rfl
  stop' := rfl
  last := rfl
  blocks := rfl
  blocks' := rfl
  depth := rfl
  found := rfl
  placed := nofun
  budget := .inr (.inl rfl)

theorem Twin.level {c : Pairing} {l : Level} {s s' : State} (h : c.Twin l s s') : s.level = l := by
  rw [State.level, h.blocks, h.depth]

theorem Keeps.steady {p : Parser α} {Q : Pairing → α → Prop} (t : Token)
    (h : ∀ c : Pairing, c.Keeps (c.Here t) p (Q c)) : Steady p := by
  have hfollows : ∀ s, (single s t).Follows s.level (Q (single s t)) (p s)
      (p { s with found := [] }) := by
    intro s
    exact (h (single s t)).follows (.inl List.mem_cons_self) (twin_single s t) List.nil_suffix
  refine ⟨⟨?_, ?_⟩, fun s => (h (single s t)).moves s⟩
  · intro s a u hdone
    have hends := hfollows s
    rw [hdone] at hends
    generalize p { s with found := [] } = o at hends
    cases hends with
    | done _ htwin => exact htwin.level
    | second hlax => exact hlax.elim
  · intro s d u hfailed
    have hends := hfollows s
    rw [hfailed] at hends
    generalize p { s with found := [] } = o at hends
    cases hends with
    | failed _ htwin => exact htwin.level
    | second hlax => exact hlax.elim

/-- A parser that complains about nothing but tokens to come. -/
theorem Keeps.steady_any {p : Parser α} {Q : Pairing → α → Prop}
    (h : ∀ (c : Pairing) (H : Prop), c.Keeps H p (Q c)) : Steady p :=
  Keeps.steady default fun c => h c _

end Pairing

/-! ### The rules of the grammar -/

/-- What is read in place of an expression inside another one; where no token is left, none is. -/
inductive Inner : Parser Expr → Prop
  | nothing : Inner noExpression
  | nested (fuel : Nat) : Inner (expressionUpTo fuel)

/-- The rules of the grammar, as they are tried: those for expressions with what is read inside, and
those for statements with what reads their blocks. -/
inductive Rule : {α : Type} → Parser α → Prop
  | expression : Rule expression
  | inner {inner : Parser Expr} (h : Inner inner) : Rule inner
  | conjunction {inner : Parser Expr} (h : Inner inner) : Rule (andRung inner)
  | comparison {inner : Parser Expr} (h : Inner inner) : Rule (comparisonRung inner)
  | sum {inner : Parser Expr} (h : Inner inner) : Rule (additiveRung inner)
  | term {inner : Parser Expr} (h : Inner inner) : Rule (termRung inner)
  | unary {inner : Parser Expr} (h : Inner inner) : Rule (unaryRung inner)
  | application {inner : Parser Expr} (h : Inner inner) : Rule (application inner)
  | callExpression {inner : Parser Expr} (h : Inner inner) : Rule (callWith inner)
  | arguments {inner : Parser Expr} (h : Inner inner) : Rule (arguments inner)
  | selection {inner : Parser Expr} (h : Inner inner) : Rule (selection inner)
  | primary {inner : Parser Expr} (h : Inner inner) : Rule (primary inner)
  | call : Rule call
  | letStatement : Rule letStatement
  | returnStatement : Rule returnStatement
  | callStatement : Rule callStatement
  | expressionStatement : Rule expressionStatement
  | ifStatement (depth : Nat) : Rule (ifStatement (blockUpTo depth))
  | forStatement (depth : Nat) : Rule (forStatement (blockUpTo depth))
  | statement (depth : Nat) : Rule (statement (blockUpTo depth))
  | recoveringStatement (depth : Nat) : Rule (recoveringStatement (blockUpTo depth))
  | nestedBlock (depth : Nat) : Rule (blockUpTo depth)
  | block : Rule block
  | typeRef : Rule typeRef
  | element (fuel : Nat) : Rule (typeRefUpTo fuel)
  | parameter : Rule parameter
  | functionDecl (define : Token) (purity : Purity) : Rule (functionDecl define purity)
  | typeDecl (define : Token) : Rule (typeDecl define)
  | recordDecl (define : Token) : Rule (recordDecl define)
  | declaration : Rule declaration
  | recoveringDeclaration : Rule recoveringDeclaration

namespace Pairing

theorem keeps_inner {inner : Parser Expr} (h : Inner inner) (c : Pairing) (H : Prop) :
    c.Keeps H inner fun _ => True := by
  cases h with
  | nothing => exact keeps_noExpression
  | nested fuel => exact keeps_expressionUpTo fuel

end Pairing

open Pairing in
/-- Every rule of the grammar gives back all the levels that it takes. -/
theorem Rule.steady {p : Parser α} (h : Rule p) : Steady p := by
  cases h with
  | expression => exact Keeps.steady_any fun _ _ => keeps_expression
  | inner h => exact Keeps.steady_any (keeps_inner h)
  | conjunction h =>
      exact Keeps.steady_any fun c H => keeps_chain (keeps_comparisonRung (keeps_inner h c H)) _
  | comparison h => exact Keeps.steady_any fun c H => keeps_comparisonRung (keeps_inner h c H)
  | sum h => exact Keeps.steady_any fun c H => keeps_additiveRung (keeps_inner h c H)
  | term h =>
      exact Keeps.steady_any fun c H => keeps_chain (keeps_unaryRung (keeps_inner h c H)) _
  | unary h => exact Keeps.steady_any fun c H => keeps_unaryRung (keeps_inner h c H)
  | application h => exact Keeps.steady_any fun c H => keeps_application (keeps_inner h c H)
  | callExpression h => exact Keeps.steady_any fun c H => keeps_callWith (keeps_inner h c H)
  | arguments h => exact Keeps.steady_any fun c H => keeps_arguments (keeps_inner h c H)
  | selection h => exact Keeps.steady_any fun c H => keeps_selection (keeps_inner h c H)
  | primary h => exact Keeps.steady_any fun c H => keeps_primary (keeps_inner h c H)
  | call => exact Keeps.steady_any fun _ _ => keeps_call
  | letStatement => exact Keeps.steady_any fun _ _ => keeps_letStatement
  | returnStatement => exact Keeps.steady_any fun _ _ => keeps_returnStatement
  | callStatement => exact Keeps.steady_any fun _ _ => keeps_callStatement
  | expressionStatement => exact Keeps.steady_any fun _ _ => keeps_expressionStatement
  | ifStatement depth =>
      exact Keeps.steady_any fun _ _ =>
        keeps_ifStatement (keeps_blockUpTo depth) (recovers_blockUpTo depth)
  | forStatement depth =>
      exact Keeps.steady_any fun _ _ =>
        keeps_forStatement (keeps_blockUpTo depth) (recovers_blockUpTo depth)
  | statement depth =>
      exact Keeps.steady_any fun _ _ =>
        keeps_statement (keeps_blockUpTo depth) (recovers_blockUpTo depth)
  | recoveringStatement depth =>
      exact Keeps.steady_any fun _ _ =>
        keeps_recoveringStatement (keeps_blockUpTo depth) (recovers_blockUpTo depth)
  | nestedBlock depth => exact Keeps.steady_any fun _ _ => keeps_blockUpTo depth
  | block => exact Keeps.steady_any fun _ _ => keeps_block
  | typeRef => exact Keeps.steady_any fun _ _ => keeps_typeRef
  | element fuel => exact Keeps.steady_any fun _ _ => keeps_typeRefUpTo fuel
  | parameter => exact Keeps.steady_any fun _ _ => keeps_parameter
  | functionDecl define purity =>
      exact Keeps.steady_any fun _ _ => keeps_functionDecl define purity
  | typeDecl define => exact Keeps.steady define fun _ => keeps_typeDecl id
  | recordDecl define => exact Keeps.steady_any fun _ _ => keeps_recordDecl define
  | declaration => exact Keeps.steady_any fun _ _ => keeps_declaration
  | recoveringDeclaration => exact Keeps.steady_any fun _ _ => keeps_recoveringDeclaration

/-! ### Steps -/

namespace Steady

variable {p : Parser α} {f : α → Parser β}

theorem pure (a : α) : Steady (Pure.pure a) where
  done h := by cases h; rfl
  failed h := by cases h
  moves := .pure a

theorem bind (hp : Steady p) (hf : ∀ a, Steady (f a)) : Steady (p >>= f) where
  done := by
    intro s b t h
    obtain ⟨a, s₁, hps, hfs⟩ := bind_eq_done h
    rw [(hf a).done hfs, hp.done hps]
  failed := by
    intro s d t h
    simp only [Bind.bind] at h
    cases hps : p s with
    | done a s₁ =>
        rw [hps] at h
        rw [(hf a).failed h, hp.done hps]
    | failed d' s₁ =>
        rw [hps] at h
        cases h
        exact hp.failed hps
    | stopped e s₁ =>
        rw [hps] at h
        cases h
  moves := hp.moves.bind fun a => (hf a).moves

theorem ite {c : Prop} [Decidable c] {p q : Parser α} (hp : Steady p) (hq : Steady q) :
    Steady (if c then p else q) := by
  split
  · exact hp
  · exact hq

end Steady

theorem steady_report (d : Diagnostic) : Steady (report d) where
  done h := by cases h; rfl
  failed h := by cases h
  moves := moves_report d

theorem steady_fail (d : Diagnostic) : Steady (fail d : Parser α) where
  done h := by cases h
  failed h := by cases h; rfl
  moves := .refl

section

open Pairing

theorem steady_current : Steady current := Keeps.steady_any fun _ _ => keeps_current

theorem steady_remaining : Steady remaining := Keeps.steady_any fun _ _ => keeps_remaining

theorem steady_advance : Steady advance := Keeps.steady_any fun _ _ => keeps_advance

theorem steady_atKeyword (word : Keyword) : Steady (atKeyword word) :=
  Keeps.steady_any fun _ _ => keeps_atKeyword word

theorem steady_acceptKeyword (word : Keyword) : Steady (acceptKeyword word) :=
  Keeps.steady_any fun _ _ => keeps_acceptKeyword word

theorem steady_acceptSign (sign : Sign) : Steady (acceptSign sign) :=
  Keeps.steady_any fun _ _ => keeps_acceptSign sign

theorem steady_expectKeyword (word : Keyword) (context : String) (hint : Option String) :
    Steady (expectKeyword word context hint) :=
  Keeps.steady_any fun _ _ => keeps_expectKeyword word context hint

theorem steady_expectSign (sign : Sign) (context : String) (hint : Option String) :
    Steady (expectSign sign context hint) :=
  Keeps.steady_any fun _ _ => keeps_expectSign sign context hint

theorem steady_expectIdentifier (context what : String) : Steady (expectIdentifier context what) :=
  Keeps.steady_any fun _ _ => keeps_expectIdentifier context what

theorem steady_checkTime (t : Token) : Steady (checkTime t) :=
  Keeps.steady_any fun _ _ => keeps_checkTime t

theorem steady_skipStrayCloser (endToken word : Token) : Steady (skipStrayCloser endToken word) :=
  Keeps.steady endToken fun _ => keeps_skipStrayCloser id word

theorem steady_synchronize (start : Nat) (colonToo : Bool) : Steady (synchronize start colonToo) :=
  Keeps.steady_any fun _ _ => keeps_synchronize start colonToo

theorem steady_spanFrom (start : Token) : Steady (spanFrom start) :=
  Keeps.steady_any fun _ _ => keeps_spanFrom start

theorem steady_countNode (t : Token) : Steady (countNode t) :=
  Keeps.steady_any fun _ _ => keeps_countNode t

theorem steady_ifHeader : Steady ifHeader := Keeps.steady_any fun _ _ => keeps_ifHeader

theorem steady_forHeader : Steady forHeader := Keeps.steady_any fun _ _ => keeps_forHeader

theorem steady_functionHeader : Steady functionHeader :=
  Keeps.steady_any fun _ _ => keeps_functionHeader

theorem steady_typeDecl (define : Token) : Steady (typeDecl define) := (Rule.typeDecl define).steady

theorem steady_blockStep : Steady blockStep := Keeps.steady_any fun _ _ => keeps_blockStep

theorem steady_recordFields (record : String) (fuel : Nat) : Steady (recordFields record fuel) :=
  Keeps.steady_any fun _ _ => keeps_recordFields record fuel

theorem steady_skipToDefine (fuel : Nat) : Steady (skipToDefine fuel) :=
  Keeps.steady_any fun _ _ => keeps_skipToDefine fuel

theorem steady_letStatement : Steady letStatement := Rule.letStatement.steady

theorem steady_callStatement : Steady callStatement := Rule.callStatement.steady

theorem steady_returnStatement : Steady returnStatement := Rule.returnStatement.steady

theorem steady_expressionStatement : Steady expressionStatement := Rule.expressionStatement.steady

theorem steady_closer (b : Block) : Steady (closer b) :=
  Keeps.steady_any fun _ _ => keeps_closer b

end

theorem steady_recoverHeader (start : Nat) (failure : Option Diagnostic) :
    Steady (recoverHeader start failure) := by
  cases failure with
  | none => exact .pure _
  | some d =>
      refine (steady_synchronize start true).bind fun colon => ?_
      exact .ite (steady_report d) (steady_fail d)

/-- How a construct is closed: by its own words, with a period or one complaint that it is missing,
or else by one complaint that names the construct. -/
inductive Closing (b : Block) (s t : State) : Prop
  | matched {end_ word : Token} {more : List Token} (rest : s.rest = end_ :: word :: more)
      (hend : end_.isKeyword .end_ = true) (hword : word.isKeyword b.kind.closer = true)
      (behind :
        (∃ period, period.isTerminator = true ∧ more = period :: t.rest ∧ t.found = s.found) ∨
        (t.rest = more ∧ ∃ d, t.found = d :: s.found ∧
          d.message = "Missing '.' after 'End " ++ word.lexeme ++ "'"))
  | reported {d : Diagnostic} (found : t.found = d :: s.found)
      (names : ∃ before after, d.message = before ++ b.describe ++ after)

/-! ### What comes next -/

theorem State.rest_eq_of_current {s : State} (hstop : s.stop.isEof = true)
    (h : s.current.isEof = false) : s.rest = s.current :: s.rest.tail := by
  unfold State.current at h ⊢
  cases hrest : s.rest with
  | nil =>
      rw [hrest, List.headD_nil, hstop] at h
      cases h
  | cons t rest => rfl

theorem State.tail_eq_of_second {s : State} (hstop : s.stop.isEof = true)
    (h : s.second.isEof = false) : s.rest.tail = s.second :: s.rest.tail.tail := by
  unfold State.second at h ⊢
  cases hrest : s.rest.tail with
  | nil =>
      rw [hrest, List.headD_nil, hstop] at h
      cases h
  | cons t rest => rfl

theorem isEof_of_isKeyword {t : Token} {word : Keyword} (h : t.isKeyword word = true) :
    t.isEof = false := by
  have hkind : t.kind = .keyword word := by simpa [Token.isKeyword] using h
  simp [Token.isEof, hkind]

/-- The word that closes a construct is the one that it is closed by. -/
theorem isKeyword_of_closes? {t : Token} {kind : BlockKind} (h : closes? t = some kind) :
    t.isKeyword kind.closer = true := by
  unfold closes? Token.keyword? at h
  split at h
  · next word hword =>
      rw [Token.isKeyword, hword]
      simp only [Option.bind_some, BlockKind.ofCloser?] at h
      split at h <;> cases h <;> rfl
  · cases h

/-- A parser that, started in one state, closes a construct. -/
def ClosesAt (b : Block) (s : State) (p : Parser (Option Span)) : Prop :=
  ∀ span t, p s = .done span t → Closing b s t

section

variable {b : Block} {s : State}

theorem closesAt_lookahead {f : Token → Token → Parser (Option Span)}
    (h : ClosesAt b s (f s.current s.second)) :
    ClosesAt b s (do let t ← current; let word ← second; f t word) := h

/-- One complaint that names the construct closes it, whatever is skipped behind it. -/
theorem closesAt_report {d : Diagnostic} {q : PUnit → Parser (Option Span)}
    (hnames : ∃ before after, d.message = before ++ b.describe ++ after)
    (hq : ∀ s span t, q ⟨⟩ s = .done span t → t.found = s.found) :
    ClosesAt b s (report d >>= q) :=
  fun _ _ h => .reported (hq _ _ _ h) hnames

theorem closesAt_matched {word : Token} {span : Option Span} {hint : Option String}
    (hstop : s.stop.isEof = true) (hrest : s.rest = s.current :: word :: s.rest.tail.tail)
    (hend : s.current.isKeyword .end_ = true) (hword : word.isKeyword b.kind.closer = true) :
    ClosesAt b s (do
      let _ ← advance
      let _ ← advance
      unless ← acceptTerminator do
        report (problem ("Missing '.' after 'End " ++ word.lexeme ++ "'") (← current) hint)
      return span) := by
  intro span t h
  refine .matched hrest hend hword ?_
  have hfound : s.advance.advance.found = s.found := by
    rw [State.found_advance, State.found_advance]
  have hmore : s.advance.advance.rest = s.rest.tail.tail := by
    rw [State.rest_advance, State.rest_advance]
  have hstop' : s.advance.advance.stop.isEof = true := by
    rw [s.advance.reaches_advance.stop, s.reaches_advance.stop, hstop]
  simp only [Bind.bind, advance, acceptTerminator] at h
  by_cases hperiod : s.advance.advance.current.isTerminator = true
  · rw [if_pos hperiod] at h
    cases h
    have htoken : s.advance.advance.current.isEof = false := by
      have hkind : s.advance.advance.current.kind = .terminator := by
        simpa [Token.isTerminator] using hperiod
      simp [Token.isEof, hkind]
    refine .inl ⟨_, hperiod, ?_, ?_⟩
    · rw [State.rest_advance, ← hmore]
      exact State.rest_eq_of_current hstop' htoken
    · rw [State.found_advance, hfound]
  · rw [if_neg hperiod] at h
    cases h
    exact .inr ⟨hmore, _, congrArg _ hfound, rfl⟩

theorem names_expectation (b : Block) (front : String) (expected : List String) (t : Token)
    (hint : Option String) : ∃ before after,
      (expectation (front ++ b.describe) expected t hint).message =
        before ++ b.describe ++ after := by
  obtain ⟨wanted, hmessage⟩ : ∃ wanted,
      (expectation (front ++ b.describe) expected t hint).message =
      front ++ b.describe ++ ": expected " ++ wanted ++ ", found " ++ t.describe := ⟨_, rfl⟩
  refine ⟨front, ": expected " ++ wanted ++ ", found " ++ t.describe, ?_⟩
  simp only [hmessage, String.append_assoc]

theorem closesAt_closer (hstop : s.stop.isEof = true) : ClosesAt b s (closer b) := by
  have hnothing : ∀ s span t, (pure none : Parser (Option Span)) s = .done span t →
      t.found = s.found := by
    intro s span t h
    cases h
    rfl
  refine closesAt_lookahead ?_
  split
  · next hkind =>
      have hend : s.current.isKeyword .end_ = true := by simp [Token.isKeyword, hkind]
      have hfirst := State.rest_eq_of_current hstop (isEof_of_isKeyword hend)
      split
      · next kind hcloses =>
          split
          · next heq =>
              have hword : s.second.isKeyword b.kind.closer = true :=
                heq ▸ isKeyword_of_closes? hcloses
              have hnext := State.tail_eq_of_second hstop (isEof_of_isKeyword hword)
              rw [hnext] at hfirst
              exact closesAt_matched hstop hfirst hend hword
          · exact closesAt_report ⟨_, " is still open", rfl⟩ hnothing
      · refine closesAt_report (names_expectation b _ _ _ _) ?_
        intro s span t h
        simp only [Bind.bind, advance, acceptTerminator] at h
        by_cases hperiod : s.advance.current.isTerminator = true
        · rw [if_pos hperiod] at h
          cases h
          rw [State.found_advance, State.found_advance]
        · rw [if_neg hperiod] at h
          cases h
          exact s.found_advance
  · refine closesAt_report ?_ hnothing
    dsimp only [problem]
    split <;> exact ⟨_, " is still open", rfl⟩

end

/-- Opening a construct puts it in front of those that are open, one level deeper. -/
theorem openBlock_level {b : Block} {opener : Token} {s t : State} {u : PUnit}
    (h : openBlock b opener s = .done u t) : t.level = s.level.inside b := by
  have hdepth := (Budget.use_enter opener.span.start.location).depth s.budget
  simp only [openBlock, Bind.bind, enter, spend] at h
  generalize s.budget.enter opener.span.start.location = used at h hdepth
  obtain ⟨exceeded, budget⟩ := used
  cases exceeded with
  | none =>
      cases h
      exact congrArg (Level.mk (b :: s.blocks)) hdepth
  | some e => cases h

theorem recovers_openBlock (b : Block) (opener : Token) : Recovers (openBlock b opener) :=
  (recovers_spend _).bind fun _ _ _ _ h => by cases h

theorem recovers_closeBlock (b : Block) : Recovers (closeBlock b) := by
  refine (recovers_closer b).bind fun span => ?_
  exact Recovers.bind (fun _ _ _ h => by cases h) fun _ => .pure span

theorem closeBlock_closing {b : Block} {l : Level} {s t : State} {span : Option Span}
    (hstop : s.stop.isEof = true) (hlevel : s.level = l.inside b)
    (h : closeBlock b s = .done span t) : Closing b s t ∧ t.level = l := by
  obtain ⟨value, s₁, hcloser, hpop⟩ := bind_eq_done h
  cases hpop
  have hclosing := closesAt_closer hstop _ _ hcloser
  have hinside := ((steady_closer b).done hcloser).trans hlevel
  constructor
  · cases hclosing with
    | matched rest hend hword behind => exact .matched rest hend hword behind
    | reported found names => exact .reported found names
  · injection hinside with hblocks hdepth
    simp only [State.level, State.exit, Budget.exit, hblocks, hdepth, List.tail_cons,
      Int.add_sub_cancel]

end Prosaic.Parser
