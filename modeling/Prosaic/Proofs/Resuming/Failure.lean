import Prosaic.Proofs.Blocks.Balance
import Prosaic.Proofs.Resuming.Inner

/-!
Where a statement fails. A statement with a block fails only if its header does, and any other one
fails inside: of the tokens that it has taken by then only the first one can be one at which a
reading resumes.
-/

namespace Prosaic

/-- A statement that starts with this word has a header. -/
def Token.headed (t : Token) : Bool := t.isKeyword .if_ || t.isKeyword .for_

namespace Parser

variable {block : Parser (List Stmt)} {s e r : State} {d : Diagnostic} {t : Token}

theorem attempt_eq_ok {α : Type} {p : Parser α} {s s' : State} {a : α}
    (h : attempt p s = .done (.ok a) s') : p s = .done a s' := by
  unfold attempt at h
  cases hp : p s with
  | done b s₁ => simpa [hp] using h
  | failed d s₁ | stopped d s₁ => simp [hp] at h

theorem attempt_eq_error {α : Type} {p : Parser α} {s s' : State} {d : Diagnostic}
    (h : attempt p s = .done (.error d) s') : p s = .failed d s' := by
  unfold attempt at h
  cases hp : p s with
  | failed b s₁ => simpa [hp] using h
  | done d s₁ | stopped d s₁ => simp [hp] at h

/-! ### Headers -/

theorem inner_ifHeader {condition : Option Expr}
    (h : ifHeader s = .done (condition, some d) e) :
    s.Inner e ∧ d.location = e.current.span.start.location := by
  have hrest : FailsInside (fun _ => True) (do
      let _ ← expectKeyword .then_ "'If' header" (some "Write 'If <condition> then:'.")
      expectSign .colon "'If' header" (some "Write 'If <condition> then:'.")) :=
    .bind (inside_expectKeyword rfl _ _) fun _ => failsInside_expectSign _ _ _
  obtain ⟨first, s₁, hfirst, h⟩ := bind_eq_done h
  cases first with
  | error d' =>
      cases h
      exact inside_expression.fails trivial (attempt_eq_error hfirst)
  | ok condition =>
      have hinner := inside_expression.done trivial (attempt_eq_ok hfirst)
      obtain ⟨rest, s₂, hsecond, h⟩ := bind_eq_done h
      cases rest with
      | ok t => cases h
      | error d' =>
          cases h
          have hfails := hrest trivial (attempt_eq_error hsecond)
          exact ⟨hinner.trans hfails.1, hfails.2⟩

theorem inner_forHeader {header : Option (Token × Option Expr)}
    (h : forHeader s = .done (header, some d) e) :
    s.Inner e ∧ d.location = e.current.span.start.location := by
  have hitem : Inward (do
      let _ ← expectKeyword .each "'For' header" (some "Write 'For each <item> in <list>:'.")
      expectIdentifier "'For each' header" "a loop variable name") :=
    (inside_expectKeyword rfl _ _).bind fun _ => inside_expectIdentifier _ _
  have hiterable : Inward (do
      let _ ← expectKeyword .in_ "'For each' header" (some "Write 'For each <item> in <list>:'.")
      expression) :=
    (inside_expectKeyword rfl _ _).bind fun _ => inside_expression
  obtain ⟨item, s₁, hfirst, h⟩ := bind_eq_done h
  cases item with
  | error d' =>
      cases h
      exact hitem.fails trivial (attempt_eq_error hfirst)
  | ok item =>
      have hinner₁ := hitem.done trivial (attempt_eq_ok hfirst)
      obtain ⟨iterable, s₂, hsecond, h⟩ := bind_eq_done h
      cases iterable with
      | error d' =>
          cases h
          have hfails := hiterable.fails trivial (attempt_eq_error hsecond)
          exact ⟨hinner₁.trans hfails.1, hfails.2⟩
      | ok iterable =>
          have hinner₂ := hinner₁.trans (hiterable.done trivial (attempt_eq_ok hsecond))
          obtain ⟨colon, s₃, hthird, h⟩ := bind_eq_done h
          cases colon with
          | ok t => cases h
          | error d' =>
              cases h
              have hfails := failsInside_expectSign (P := fun _ => True) _ _ _ trivial
                (attempt_eq_error hthird)
              exact ⟨hinner₂.trans hfails.1, hfails.2⟩

/-- What is wrong with the header behind such a word, if anything is. -/
def headerFailure (opener : Token) : Parser (Option Diagnostic) :=
  if opener.isKeyword .if_ then Prod.snd <$> ifHeader else Prod.snd <$> forHeader

theorem inner_headerFailure (h : headerFailure t s = .done (some d) e) :
    s.Inner e ∧ d.location = e.current.span.start.location := by
  unfold headerFailure at h
  split at h
  · obtain ⟨⟨condition, failure⟩, s₁, hheader, h⟩ := bind_eq_done h
    cases h
    exact inner_ifHeader hheader
  · obtain ⟨⟨header, failure⟩, s₁, hheader, h⟩ := bind_eq_done h
    cases h
    exact inner_forHeader hheader

/-! ### Statements without a header -/

/-- How far a statement comes that fails: nowhere, or past its first token, which is no period, and
inner tokens behind it. -/
def State.Breaks (s e : State) : Prop :=
  e.rest = s.rest ∨ s.current.isTerminator = false ∧ s.advance.Inner e

theorem State.Inner.breaks (h : s.Inner e) : s.Breaks e := by
  obtain ⟨taken, htaken, hinner⟩ := h
  cases taken with
  | nil => exact .inl htaken.symm
  | cons t taken =>
      obtain ⟨ht, hinner⟩ := List.forall_mem_cons.mp hinner
      have hcurrent : s.current = t := by rw [State.current, htaken]; rfl
      refine .inr ⟨hcurrent ▸ Token.not_isTerminator_of_inner ht, taken, ?_, hinner⟩
      rw [State.rest_advance, htaken]
      rfl

/-- A parser that fails so, if it does, at the token that it stands at. -/
def BreaksOff (P : State → Prop) {α : Type} (p : Parser α) : Prop :=
  ∀ ⦃s d e⦄, P s → p s = .failed d e → s.Breaks e ∧ d.location = e.current.span.start.location

section

variable {α β : Type} {P : State → Prop} {p : Parser α}

theorem FailsInside.breaksOff (h : FailsInside P p) : BreaksOff P p :=
  fun _ _ _ hs hp => (h hs hp).imp_left State.Inner.breaks

theorem BreaksOff.map {g : α → β} (h : BreaksOff P p) : BreaksOff P (g <$> p) := by
  intro s d e hs hp
  obtain hp | ⟨a, s₁, -, hp⟩ := bind_eq_failed hp
  · exact h hs hp
  · cases hp

theorem BreaksOff.weaken {P' : State → Prop} (h : BreaksOff P p) (hP : ∀ s, P' s → P s) :
    BreaksOff P' p := fun s _ _ hs hp => h (hP s hs) hp

/-- Looking at the current token. -/
theorem BreaksOff.current {f : Token → Parser β}
    (hf : ∀ u, t = u → BreaksOff (Facing u) (f u)) : BreaksOff (Facing t) (Parser.current >>= f) :=
  fun s _ _ hs hp => hf s.current hs.symm rfl hp

/-- What stands behind the first word of a statement fails. -/
theorem BreaksOff.word {f : Token → Parser α} (ht : t.isTerminator = false)
    (hf : ∀ t, FailsInside (fun _ => True) (f t)) : BreaksOff (Facing t) (advance >>= f) := by
  intro s d e hs hp
  obtain ⟨hinner, hlocation⟩ := hf s.current trivial hp
  exact ⟨.inr ⟨hs ▸ ht, hinner⟩, hlocation⟩

end

theorem recovers_finish {α : Type} (start : Token) (value : Span → α) :
    Recovers (do let span ← spanFrom start; countNode start; return value span) :=
  Recovers.bind (fun _ _ _ h => nomatch h) fun _ => (recovers_spend _).bind fun _ => .pure _

/-- What a simple statement ends with. -/
theorem failsInside_end (context : String) (start : Token) (value : Span → Stmt) :
    FailsInside (fun _ => True) (do
      let _ ← expectTerminator context
      let span ← spanFrom start
      countNode start
      return value span) :=
  (failsInside_expectTerminator _).last fun _ => recovers_finish start value

theorem breaksOff_letStatement (ht : t.isTerminator = false) :
    BreaksOff (Facing t) letStatement := by
  refine .word ht fun start => .bind (inside_expectIdentifier _ _) fun name => ?_
  refine .bind (inside_expectKeyword rfl _ _) fun _ => .bind inside_expression fun init => ?_
  exact failsInside_end _ start _

theorem breaksOff_returnStatement (ht : t.isTerminator = false) :
    BreaksOff (Facing t) returnStatement := by
  refine .word ht fun start => .look fun t => ?_
  extract_lets rest
  have hrest : ∀ value, FailsInside (fun _ => True) (rest value) :=
    fun value => failsInside_end _ start _
  exact .ite (.bind .pure hrest) (.bind inside_expression.map hrest)

theorem breaksOff_callStatement (ht : t.inner = true) : BreaksOff (Facing t) callStatement :=
  FailsInside.breaksOff <| .look fun start => .bind (inside_call ht) fun _ =>
    failsInside_end _ start _

theorem breaksOff_expressionStatement : BreaksOff (fun _ => True) expressionStatement := by
  have hmisspelt : Inward rejectMisspelt := by
    refine .current fun t => .look fun next => ?_
    split
    · exact inside_problem rfl
    · exact .pure
  refine FailsInside.breaksOff (.bind hmisspelt fun _ => .look fun start => ?_)
  exact .bind inside_expression fun _ => failsInside_end _ start _

theorem breaksOff_statement (ht : t.headed = false) :
    BreaksOff (Facing t) (statement block) := by
  refine .current fun t ht => ?_
  subst ht
  have hword : ∀ {word}, t.kind = .keyword word → t.isTerminator = false := by
    intro word hkind
    simp [Token.isTerminator, hkind]
  split
  · next hkind => exact (breaksOff_letStatement (hword hkind)).map
  · next hkind => simp [Token.headed, Token.isKeyword, hkind] at ht
  · next hkind => simp [Token.headed, Token.isKeyword, hkind] at ht
  · next hkind => exact (breaksOff_callStatement (Token.inner_of_keyword hkind rfl)).map
  · next hkind => exact (breaksOff_returnStatement (hword hkind)).map
  · exact (inside_problem rfl).fails.breaksOff
  · exact (breaksOff_expressionStatement.weaken fun _ _ => trivial).map

/-! ### Failures -/

/-- A statement fails, or its header does, at a state that its reading has come to. -/
def FailsAt (block : Parser (List Stmt)) (s : State) (d : Diagnostic) (e : State) : Prop :=
  if s.current.headed then headerFailure s.current s.advance = .done (some d) e
  else statement block s = .failed d e

/-- What a failed header comes to is what the statement comes to. -/
theorem statement_of_headerFailure (hs : s.current.headed = true)
    (h : headerFailure s.current s.advance = .done (some d) e)
    (hrecover : recoverHeader s.advance.left (some d) e = .failed d r) :
    statement block s = .failed d r := by
  simp only [Token.headed, Bool.or_eq_true] at hs
  unfold headerFailure at h
  split at h
  · next hif =>
      obtain ⟨⟨condition, failure⟩, s₁, hheader, h⟩ := bind_eq_done h
      cases h
      have hkind : s.current.kind = .keyword .if_ := of_decide_eq_true hif
      simp only [statement, liftM_eq, lift_eq, Bind.bind, Parser.current, hkind, ifStatement,
        advance, remaining, hheader, hrecover]
  · next hif =>
      obtain ⟨⟨header, failure⟩, s₁, hheader, h⟩ := bind_eq_done h
      cases h
      have hkind : s.current.kind = .keyword .for_ := of_decide_eq_true (hs.resolve_left hif)
      simp only [statement, liftM_eq, lift_eq, Bind.bind, Parser.current, hkind, forStatement,
        advance, remaining, hheader, hrecover]

theorem failed_of_recoverHeader {failure : Option Diagnostic} {start : Nat}
    (h : recoverHeader start failure s = .failed d e) : failure = some d := by
  cases failure with
  | none => cases h
  | some d' =>
      obtain h | ⟨colon, s₁, -, h⟩ := bind_eq_failed h
      · exact absurd h (recovers_synchronize start true s d e)
      · cases colon <;> cases h
        rfl

theorem recovers_ifHeader : Recovers ifHeader := by
  refine (recovers_attempt _).bind fun condition => ?_
  cases condition with
  | error d => exact .pure _
  | ok condition =>
      refine (recovers_attempt _).bind fun rest => ?_
      cases rest with
      | error d => exact .pure _
      | ok t => exact .pure _

theorem recovers_forHeader : Recovers forHeader := by
  refine (recovers_attempt _).bind fun item => ?_
  cases item with
  | error d => exact .pure _
  | ok item =>
      refine (recovers_attempt _).bind fun iterable => ?_
      cases iterable with
      | error d => exact .pure _
      | ok iterable =>
          refine (recovers_attempt _).bind fun colon => ?_
          cases colon with
          | error d => exact .pure _
          | ok t => exact .pure _

/-- Where nothing fails behind a header, a failure is one of the header. -/
theorem exists_of_header {α β : Type} {header : Parser (α × Option Diagnostic)} {start : Nat}
    {rest : α × Option Diagnostic → PUnit → Parser β} (hheader : Recovers header)
    (hrest : ∀ a u, Recovers (rest a u))
    (h : (do let a ← header; let u ← recoverHeader start a.2; rest a u) s = .failed d e) :
    ∃ e', (Prod.snd <$> header) s = .done (some d) e' := by
  obtain h | ⟨⟨a, failure⟩, s₁, hfirst, h⟩ := bind_eq_failed h
  · exact absurd h (hheader s d e)
  · obtain h | ⟨u, s₂, -, h⟩ := bind_eq_failed h
    · obtain rfl := failed_of_recoverHeader h
      exact ⟨s₁, by simp only [Functor.map, hfirst]; rfl⟩
    · exact absurd h (hrest _ u s₂ d e)

/-- A statement with a header fails only if its header does. -/
theorem failsAt_of_failed (hblock : Recovers block) (h : statement block s = .failed d e) :
    ∃ e', FailsAt block s d e' := by
  unfold FailsAt
  split
  · next hs =>
      simp only [Token.headed, Bool.or_eq_true] at hs
      unfold headerFailure
      split
      · next hif =>
          have hkind : s.current.kind = .keyword .if_ := of_decide_eq_true hif
          simp only [statement, liftM_eq, lift_eq, Bind.bind, Parser.current, hkind] at h
          refine exists_of_header recovers_ifHeader (fun header _ => ?_) h
          refine (recovers_openBlock _ _).bind fun _ => hblock.bind fun thenBlock => ?_
          refine (recovers_otherwiseBranch hblock _).bind fun otherwise => ?_
          refine (recovers_closeBlock _).bind fun _ => ?_
          split
          · exact .pure none
          · exact recovers_finish _ _
      · next hif =>
          have hkind : s.current.kind = .keyword .for_ := of_decide_eq_true (hs.resolve_left hif)
          simp only [statement, liftM_eq, lift_eq, Bind.bind, Parser.current, hkind] at h
          refine exists_of_header recovers_forHeader (fun header _ => ?_) h
          refine (recovers_openBlock _ _).bind fun _ => hblock.bind fun body => ?_
          refine (recovers_closeBlock _).bind fun _ => ?_
          split
          · exact recovers_finish _ _
          · exact .pure none
  · exact ⟨e, h⟩

end Parser

end Prosaic
