import Prosaic.Proofs.Grammar.Declaration

/-!
Which parsers take a token wherever the end of the text is not reached yet. The rules of the grammar
do, since each starts or ends with a token of its own; and so does a rule behind whose failure the
reading resumes, since resuming skips a token if the rule took none.
-/

namespace Prosaic.Parser

variable {α β : Type} {p : Parser α} {f : α → Parser β}

/-! ### Moving on -/

/-- The state that an outcome leaves. -/
def Outcome.state : Outcome α → State
  | .done _ s | .failed _ s | .stopped _ s => s

/-- A parser that never gives a token back. -/
def Moves (p : Parser α) : Prop := ∀ s : State, s.Reaches (p s).state

theorem Reads.moves {Q : α → Prop} (h : Reads True p Q) : Moves p := by
  intro s
  have hs := h s
  cases hps : p s with
  | done a s' => rw [hps] at hs; exact hs.1
  | failed d s' => rw [hps] at hs; exact hs
  | stopped e s' => rw [hps] at hs; exact hs

theorem Moves.done (h : Moves p) {s s' : State} {a : α} (hps : p s = .done a s') :
    s.Reaches s' := by
  have hs := h s
  rwa [hps] at hs

theorem Moves.bind (hp : Moves p) (hf : ∀ a, Moves (f a)) : Moves (p >>= f) := by
  intro s
  have hs := hp s
  simp only [Bind.bind]
  cases hps : p s with
  | done a s₁ => rw [hps] at hs; exact hs.trans (hf a s₁)
  | failed d s₁ => rwa [hps] at hs
  | stopped e s₁ => rwa [hps] at hs

theorem Moves.pure (a : α) : Moves (Pure.pure a) := fun s => .refl s

theorem Moves.ite {c : Prop} [Decidable c] {p q : Parser α} (hp : Moves p) (hq : Moves q) :
    Moves (if c then p else q) := by
  split
  · exact hp
  · exact hq

theorem Moves.attempt (h : Moves p) : Moves (attempt p) := by
  intro s
  have hs := h s
  unfold Parser.attempt
  cases hps : p s with
  | done a s₁ | failed d s₁ | stopped e s₁ => rwa [hps] at hs

theorem moves_current : Moves current := fun s => .refl s

theorem moves_remaining : Moves remaining := fun s => .refl s

theorem moves_advance : Moves advance := State.reaches_advance

theorem moves_spanFrom (start : Token) : Moves (spanFrom start) := (reads_spanFrom start).moves

theorem moves_report (d : Diagnostic) : Moves (report d) := (reads_report d).moves

theorem moves_countNode (t : Token) : Moves (countNode t) := (reads_countNode t).moves

/-- What a construct ends with, behind its last token. -/
theorem moves_finish (start : Token) (value : Span → α) :
    Moves (do let span ← spanFrom start; countNode start; return value span) :=
  (moves_spanFrom start).bind fun _ => (moves_countNode start).bind fun _ => .pure _

theorem State.Reaches.left_le {s s' : State} (h : s.Reaches s') : s'.left ≤ s.left := by
  rw [s.left_eq, s'.left_eq]
  exact h.rest.length_le

/-- A state that is reached without taking a token has the same current token. -/
theorem State.Reaches.current_eq {s s' : State} (h : s.Reaches s') (hleft : s'.left = s.left) :
    s'.current = s.current := by
  have hrest : s'.rest = s.rest := h.rest.eq_of_length (by rw [← s.left_eq, ← s'.left_eq, hleft])
  unfold State.current
  rw [hrest, h.stop]

/-! ### Taking a token -/

/-- Before the end of the text there is a token to take. -/
theorem State.advance_left_lt {s : State} (hstop : s.stop.isEof = true)
    (hcurrent : s.current.isEof = false) : s.advance.left < s.left := by
  have hleft := s.left_eq
  unfold State.current at hcurrent
  unfold State.advance
  split
  · next hrest => simp [hrest, hstop] at hcurrent
  · next t rest hrest =>
      rw [hrest, List.length_cons] at hleft
      simp only [hleft]
      omega

/-- A parser that takes a token if it succeeds, with a value of some sort, before the end of the
text. -/
structure TakesIf (R : α → Prop) (p : Parser α) : Prop where
  moves : Moves p
  left_lt : ∀ ⦃s : State⦄, s.stop.isEof = true → s.current.isEof = false →
    ∀ ⦃a s'⦄, p s = .done a s' → R a → s'.left < s.left

/-- A parser that takes a token whenever it succeeds before the end of the text. -/
abbrev Takes (p : Parser α) : Prop := TakesIf (fun _ => True) p

variable {R : β → Prop}

theorem bind_eq_done {s s' : State} {b : β} (h : (p >>= f) s = .done b s') :
    ∃ a s₁, p s = .done a s₁ ∧ f a s₁ = .done b s' := by
  simp only [Bind.bind] at h
  cases hps : p s with
  | done a s₁ =>
      rw [hps] at h
      exact ⟨a, s₁, rfl, h⟩
  | failed d s₁ =>
      rw [hps] at h
      cases h
  | stopped e s₁ =>
      rw [hps] at h
      cases h

/-- A token that the first of two parsers takes is gone. -/
theorem TakesIf.bind (hp : Takes p) (hf : ∀ a, Moves (f a)) : TakesIf R (p >>= f) where
  moves := hp.moves.bind hf
  left_lt := by
    intro s hstop hcurrent b s' h _
    obtain ⟨a, s₁, hps, hfs⟩ := bind_eq_done h
    exact Nat.lt_of_le_of_lt ((hf a).done hfs).left_le (hp.left_lt hstop hcurrent hps trivial)

/-- If the first of two parsers takes no token, the second one still stands before the end. -/
theorem TakesIf.bind_right (hp : Moves p) (hf : ∀ a, TakesIf R (f a)) : TakesIf R (p >>= f) where
  moves := hp.bind fun a => (hf a).moves
  left_lt := by
    intro s hstop hcurrent b s' h hb
    obtain ⟨a, s₁, hps, hfs⟩ := bind_eq_done h
    have hreach := hp.done hps
    rcases Nat.lt_or_eq_of_le hreach.left_le with hlt | heq
    · exact Nat.lt_of_le_of_lt ((hf a).moves.done hfs).left_le hlt
    · have hcurrent₁ := (hreach.current_eq heq).symm ▸ hcurrent
      rw [← heq]
      exact (hf a).left_lt (hreach.stop ▸ hstop) hcurrent₁ hfs hb

theorem TakesIf.map {g : α → β} (hp : Takes p) : TakesIf R (g <$> p) := hp.bind fun _ => .pure _

theorem TakesIf.ite {c : Prop} [Decidable c] {p q : Parser β} (hp : TakesIf R p)
    (hq : TakesIf R q) : TakesIf R (if c then p else q) := by
  split
  · exact hp
  · exact hq

/-- What does not succeed takes what it wants. -/
theorem takes_fail (d : Diagnostic) : TakesIf R (fail d : Parser β) where
  moves := .refl
  left_lt := fun _ _ _ _ _ h => by cases h

theorem takes_advance : Takes advance where
  moves := moves_advance
  left_lt := by
    intro s hstop hcurrent a s' h _
    cases h
    exact s.advance_left_lt hstop hcurrent

theorem takes_expectKeyword (word : Keyword) (context : String) (hint : Option String) :
    Takes (expectKeyword word context hint) :=
  .bind_right moves_current fun _ => .ite takes_advance (takes_fail _)

theorem takes_expectTerminator (context : String) : Takes (expectTerminator context) :=
  .bind_right moves_current fun _ => .ite takes_advance (takes_fail _)

theorem takes_expectIdentifier (context what : String) : Takes (expectIdentifier context what) := by
  refine .bind_right moves_current fun t => ?_
  split
  · exact takes_advance
  · exact takes_fail _
  · exact takes_fail _

/-! ### Recovery -/

theorem moves_synchronize (start : Nat) (colonToo : Bool) : Moves (synchronize start colonToo) :=
  (reads_synchronize start colonToo).moves

/-- Resuming behind something that has taken no token skips one. -/
theorem synchronize_left_lt {s s' : State} {colonToo colon : Bool} (hstop : s.stop.isEof = true)
    (hcurrent : s.current.isEof = false) (h : synchronize s.left colonToo s = .done colon s') :
    s'.left < s.left := by
  have hskip : (remaining >>= skipToBoundary colonToo) s.advance = .done colon s' := by
    unfold synchronize at h
    simp only [Bind.bind, remaining] at h
    exact h
  have hmoves : Moves (remaining >>= skipToBoundary colonToo) :=
    moves_remaining.bind fun fuel => (reads_skipToBoundary colonToo fuel).moves
  exact Nat.lt_of_le_of_lt (hmoves.done hskip).left_le (s.advance_left_lt hstop hcurrent)

theorem takes_skipStrayCloser (endToken word : Token) : Takes (skipStrayCloser endToken word) := by
  refine .bind_right reads_openBlocks.moves fun blocks => .bind_right (moves_report _) fun _ => ?_
  refine takes_advance.bind fun _ => moves_advance.bind fun _ => ?_
  exact reads_acceptTerminator.moves.bind fun _ => .pure _

/-- A rule that takes a token if it succeeds takes one also if it fails, the failure is reported and
the reading resumes behind it. -/
theorem takes_recovering {next : Nat → Except Diagnostic α → Parser β} {resumed : Parser β}
    (hp : Takes p) (hok : ∀ start a, Moves (next start (.ok a))) (hresumed : Moves resumed)
    (herror : ∀ start d, next start (.error d) = do
      report d
      let _ ← synchronize start false
      resumed) :
    TakesIf R (do let start ← remaining; let r ← attempt p; next start r) where
  moves := by
    refine moves_remaining.bind fun start => hp.moves.attempt.bind fun r => ?_
    cases r with
    | ok a => exact hok start a
    | error d =>
        rw [herror]
        exact (moves_report d).bind fun _ => (moves_synchronize _ _).bind fun _ => hresumed
  left_lt := by
    intro s hstop hcurrent b s' h _
    obtain ⟨r, s₁, hattempt, h⟩ :
        ∃ r s₁, attempt p s = .done r s₁ ∧ next s.left r s₁ = .done b s' :=
      bind_eq_done (p := attempt p) h
    have hreach := hp.moves s
    unfold attempt at hattempt
    cases hps : p s with
    | stopped e s₂ =>
        rw [hps] at hattempt
        cases hattempt
    | done a s₂ =>
        rw [hps] at hattempt
        cases hattempt
        have htakes := hp.left_lt hstop hcurrent hps trivial
        exact Nat.lt_of_le_of_lt ((hok _ a).done h).left_le htakes
    | failed d s₂ =>
        rw [hps] at hattempt hreach
        cases hattempt
        change s.Reaches s₁ at hreach
        rw [herror] at h
        let reported : State := { s₁ with found := d :: s₁.found }
        obtain ⟨colon, s₂, hsync, h⟩ : ∃ colon s₂,
            synchronize s.left false reported = .done colon s₂ ∧ resumed s₂ = .done b s' :=
          bind_eq_done h
        refine Nat.lt_of_le_of_lt (hresumed.done h).left_le ?_
        -- either the failure has taken a token, or one is skipped now
        rcases Nat.lt_or_eq_of_le hreach.left_le with hlt | heq
        · exact Nat.lt_of_le_of_lt ((moves_synchronize _ _).done hsync).left_le hlt
        · rw [← heq] at hsync ⊢
          exact synchronize_left_lt (s := reported) (hreach.stop ▸ hstop)
            ((hreach.current_eq heq).symm ▸ hcurrent) hsync

/-! ### Statements -/

theorem moves_expression : Moves expression := reads_expression.moves

theorem moves_expectTerminator (context : String) : Moves (expectTerminator context) :=
  (reads_expectTerminator context).moves

theorem takes_letStatement : Takes letStatement := by
  refine takes_advance.bind fun start => (reads_expectIdentifier _ _).moves.bind fun name => ?_
  refine (reads_expectKeyword _ _ _).moves.bind fun _ => moves_expression.bind fun init => ?_
  exact (moves_expectTerminator _).bind fun _ => moves_finish start _

theorem takes_returnStatement : Takes returnStatement := by
  refine takes_advance.bind fun start => moves_current.bind fun t => ?_
  extract_lets rest
  have hrest : ∀ value, Moves (rest value) :=
    fun value => (moves_expectTerminator _).bind fun _ => moves_finish start _
  refine .ite ((Moves.pure none).bind hrest) (Moves.bind ?_ hrest)
  exact moves_expression.bind fun _ => .pure _

theorem takes_callStatement : Takes callStatement := by
  refine .bind_right moves_current fun start => .bind_right reads_call.moves fun c => ?_
  exact (takes_expectTerminator _).bind fun _ => moves_finish start _

theorem takes_expressionStatement : Takes expressionStatement := by
  refine .bind_right reads_rejectMisspelt.moves fun _ => .bind_right moves_current fun start => ?_
  refine .bind_right moves_expression fun value => ?_
  exact (takes_expectTerminator _).bind fun _ => moves_finish start _

section

variable {inner : Parser (List Stmt)} (hinner : Reads True inner fun ss => ∀ s ∈ ss, s.WellFormed)

include hinner

theorem takes_ifStatement : Takes (ifStatement inner) := by
  refine takes_advance.bind fun start => moves_remaining.bind fun headerStart => ?_
  refine reads_ifHeader.moves.bind fun header => (reads_recoverHeader _ _).moves.bind fun _ => ?_
  refine (reads_openBlock _ _).moves.bind fun _ => hinner.moves.bind fun thenBlock => ?_
  refine (reads_otherwiseBranch hinner _).moves.bind fun otherwise => ?_
  refine (reads_closeBlock _).moves.bind fun _ => ?_
  split
  · exact .pure none
  · exact moves_finish start _

theorem takes_forStatement : Takes (forStatement inner) := by
  refine takes_advance.bind fun start => moves_remaining.bind fun headerStart => ?_
  refine reads_forHeader.moves.bind fun header => (reads_recoverHeader _ _).moves.bind fun _ => ?_
  refine (reads_openBlock _ _).moves.bind fun _ => hinner.moves.bind fun body => ?_
  refine (reads_closeBlock _).moves.bind fun _ => ?_
  split
  · exact moves_finish start _
  · exact .pure none

theorem takes_statement : Takes (statement inner) := by
  refine .bind_right moves_current fun t => ?_
  split
  · exact takes_letStatement.map
  · exact takes_ifStatement hinner
  · exact takes_forStatement hinner
  · exact takes_callStatement.map
  · exact takes_returnStatement.map
  · exact takes_fail _
  · exact takes_expressionStatement.map

theorem takes_recoveringStatement : Takes (recoveringStatement inner) :=
  takes_recovering (takes_statement hinner) (fun _ _ => .pure _) (.pure none) fun _ _ => rfl

end

/-! ### Declarations -/

theorem takes_recordField (record : String) : Takes (recordField record) := by
  refine (takes_expectIdentifier _ _).bind fun field => (reads_expectKeyword _ _ _).moves.bind ?_
  refine fun _ => reads_typeRef.moves.bind fun _ => (moves_expectTerminator _).bind fun _ => ?_
  exact (moves_spanFrom field).bind fun _ => .pure _

theorem takes_declaration : Takes declaration := by
  refine (takes_expectKeyword _ _ _).bind fun define => (reads_acceptKeyword _).moves.bind ?_
  refine fun effectful => moves_current.bind fun t => ?_
  split
  · exact (reads_functionDecl _ _).moves.bind fun _ => .pure _
  · refine .ite (reads_fail _ (Q := fun _ => True)).moves ?_
    split
    · exact (reads_typeDecl _).moves.bind fun _ => .pure _
    · exact (reads_recordDecl _).moves.bind fun _ => .pure _
    · exact (reads_fail _ (Q := fun _ => True)).moves

theorem moves_skipToDefine : Moves (do skipToDefine (← remaining); return (none : Option Decl)) :=
  moves_remaining.bind fun fuel => (reads_skipToDefine fuel).moves.bind fun _ => .pure _

theorem takes_recoveringDeclaration : Takes recoveringDeclaration :=
  takes_recovering takes_declaration (fun _ _ => .pure _) moves_skipToDefine fun _ _ => rfl

/-- Before the end of a text, the top level takes a token in each turn. -/
theorem takes_topLevel : Takes topLevel := by
  refine .bind_right moves_current fun t => .ite takes_recoveringDeclaration ?_
  refine .bind_right (moves_report _) fun _ => takes_advance.bind fun _ => ?_
  exact moves_skipToDefine

end Prosaic.Parser
