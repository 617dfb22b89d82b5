import Prosaic.Proofs.Pairing.Basic
import Prosaic.Proofs.Token.Selection

/-!
No field access is malformed. Where the scanner takes a dot for one that selects a field, a name
comes next, so the one rule that reads such a dot finds what it expects. Whatever else can be wrong
is told in other words: `Avoids p Q` says that a parser keeps to them, if every dot to come has its
name.

Of the rules for expressions only the one for field selections could complain about a field access,
and it comes to such a dot only where the name is the next token.
-/

namespace Prosaic

/-! ### Messages -/

/-- How the finding about a dot without a field name starts. -/
def accessWords : List Char := "Malformed field access".toList

/-- A text that already differs from those words. -/
def Diverges (s : String) : Prop := ¬accessWords <+: s.toList ∧ ¬s.toList <+: accessWords

instance (s : String) : Decidable (Diverges s) := inferInstanceAs (Decidable (_ ∧ _))

theorem Diverges.append {s : String} (h : Diverges s) (t : String) : Diverges (s ++ t) := by
  unfold Diverges
  rw [String.toList_append]
  have hfront : s.toList <+: s.toList ++ t.toList := List.prefix_append _ _
  refine ⟨fun hwords => ?_, fun hwords => h.2 (hfront.trans hwords)⟩
  exact (List.prefix_or_prefix_of_prefix hwords hfront).elim h.1 h.2

/-- A construct that can be malformed, other than a field access. -/
def DivergesWithin (context : String) : Prop := Diverges ("Malformed " ++ context)

instance (context : String) : Decidable (DivergesWithin context) :=
  inferInstanceAs (Decidable (Diverges _))

theorem DivergesWithin.append {context : String} (h : DivergesWithin context) (t : String) :
    DivergesWithin (context ++ t) := by
  unfold DivergesWithin
  rw [← String.append_assoc]
  exact Diverges.append h t

/-- A finding about something else than a dot without a field name. -/
def Diagnostic.Avoids (d : Diagnostic) : Prop := ¬accessWords <+: d.message.toList

theorem Diverges.problem {message : String} (h : Diverges message) (t : Token)
    (hint : Option String) : (Parser.problem message t hint).Avoids := h.1

theorem Diverges.expectation {context : String} (h : Diverges context) (expected : List String)
    (t : Token) (hint : Option String) : (Parser.expectation context expected t hint).Avoids :=
  ((((h.append _).append _).append _).append _).problem t hint

theorem Exceeded.avoids (e : Exceeded) (phase : Phase) : (e.diagnostic phase).Avoids := by
  obtain ⟨limit, location⟩ := e
  cases limit with
  | nestingDepth most =>
      have hwords : Diverges "Nesting depth exceeds the limit of " := by decide
      exact (hwords.append _).1
  | nodes most =>
      have hwords : Diverges "Program exceeds the limit of " := by decide
      exact ((hwords.append _).append _).1
  | time budget =>
      have hwords : Diverges "Compilation exceeded its time budget of " := by decide
      exact ((hwords.append _).append _).1

namespace Parser

variable {α β : Type} {p : Parser α} {f : α → Parser β} {Q Q' : α → Prop} {R : β → Prop}

/-! ### States -/

/-- Behind each dot that selects a field there is a name. -/
def Followed : List Token → Prop
  | [] => True
  | t :: ts =>
    (t.kind = .sign .dot → ∃ u ∈ ts.head?, u.kind.isName = true) ∧ Followed ts

theorem Followed.suffix {ts us : List Token} (h : Followed ts) (hsuffix : us <:+ ts) :
    Followed us := by
  obtain ⟨front, rfl⟩ := hsuffix
  induction front with
  | nil => exact h
  | cons t front ih => exact ih h.2

/-- A state that has only other things to say. -/
structure State.Avoiding (s : State) : Prop where
  rest : Followed s.rest
  stop : s.stop.isEof = true
  found : ∀ d ∈ s.found, d.Avoids

theorem State.Avoiding.advance {s : State} (h : s.Avoiding) : s.advance.Avoiding where
  rest := h.rest.suffix s.reaches_advance.rest
  stop := s.reaches_advance.stop ▸ h.stop
  found := s.found_advance ▸ h.found

/-- A dot that selects a field comes with its name. -/
theorem State.Avoiding.name {s : State} (h : s.Avoiding) (hdot : s.current.kind = .sign .dot) :
    s.advance.current.kind.isName = true := by
  have hstop := h.stop
  have hrest := h.rest
  unfold State.current at hdot
  unfold State.advance
  split
  · next hnil =>
      rw [hnil, List.headD_nil] at hdot
      simp [Token.isEof, hdot] at hstop
  · next t ts hcons =>
      rw [hcons] at hdot hrest
      obtain ⟨u, hu, hname⟩ := hrest.1 hdot
      obtain ⟨us, rfl⟩ := List.head?_eq_some_iff.mp hu
      exact hname

/-- An outcome with other things to say, and a value of which something is known. -/
inductive Outcome.Avoiding (Q : α → Prop) : Outcome α → Prop
  | done {a : α} {s : State} (ha : Q a) (hs : s.Avoiding) : (Outcome.done a s).Avoiding Q
  | failed {d : Diagnostic} {s : State} (hd : d.Avoids) (hs : s.Avoiding) :
      (Outcome.failed d s).Avoiding Q
  | stopped {e : Exceeded} {s : State} (hfound : ∀ d ∈ s.found, d.Avoids) :
      (Outcome.stopped e s).Avoiding Q

/-- A parser that has only other things to say, wherever each dot to come has its name. -/
def Avoids (p : Parser α) (Q : α → Prop) : Prop := ∀ ⦃s : State⦄, s.Avoiding → (p s).Avoiding Q

/-! ### Combining parsers -/

theorem Avoids.mono (h : Avoids p Q) (hQ : ∀ a, Q a → Q' a) : Avoids p Q' := by
  intro s hs
  have hp := h hs
  generalize p s = o at hp ⊢
  cases hp with
  | done ha hs => exact .done (hQ _ ha) hs
  | failed hd hs => exact .failed hd hs
  | stopped hfound => exact .stopped hfound

theorem Avoids.pure {a : α} (h : Q a) : Avoids (Pure.pure a) Q := fun _ hs => .done h hs

theorem Avoids.bind (hp : Avoids p Q) (hf : ∀ a, Q a → Avoids (f a) R) : Avoids (p >>= f) R := by
  intro s hs
  have hfirst := hp hs
  simp only [Bind.bind]
  generalize p s = o at hfirst ⊢
  cases hfirst with
  | done ha hs => exact hf _ ha hs
  | failed hd hs => exact .failed hd hs
  | stopped hfound => exact .stopped hfound

theorem Outcome.Avoiding.of_done {s s' : State} {a : α} (h : p s = .done a s')
    (hf : (f a s').Avoiding R) : ((p >>= f) s).Avoiding R := by
  simp only [Bind.bind, h]
  exact hf

/-- A step whose value does not matter. -/
theorem Avoids.step (hp : Avoids p Q) (hf : ∀ a, Avoids (f a) R) : Avoids (p >>= f) R :=
  hp.bind fun a _ => hf a

theorem Avoids.map {g : α → β} (h : Avoids p Q) (hR : ∀ a, R (g a)) : Avoids (g <$> p) R :=
  h.step fun a => .pure (hR a)

theorem Avoids.ite {c : Prop} [Decidable c] {p q : Parser α} (hp : Avoids p Q)
    (hq : Avoids q Q) : Avoids (if c then p else q) Q := by
  split
  · exact hp
  · exact hq

theorem Avoids.attempt (h : Avoids p Q) :
    Avoids (attempt p) fun r => ∀ d, r = .error d → d.Avoids := by
  intro s hs
  have hp := h hs
  unfold Parser.attempt
  generalize p s = o at hp ⊢
  cases hp with
  | done ha hs => exact .done nofun hs
  | failed hd hs => exact .done (fun _ h => Except.error.inj h ▸ hd) hs
  | stopped hfound => exact .stopped hfound

/-! ### Tokens -/

theorem avoids_current : Avoids current fun _ => True := fun _ hs => .done trivial hs

theorem avoids_second : Avoids second fun _ => True := fun _ hs => .done trivial hs

theorem avoids_remaining : Avoids remaining fun _ => True := fun _ hs => .done trivial hs

theorem avoids_advance : Avoids advance fun _ => True := fun _ hs => .done trivial hs.advance

theorem avoids_openBlocks : Avoids openBlocks fun _ => True := fun _ hs => .done trivial hs

theorem avoids_atKeyword (word : Keyword) : Avoids (atKeyword word) fun _ => True :=
  fun _ hs => .done trivial hs

theorem avoids_spanFrom (start : Token) : Avoids (spanFrom start) fun _ => True :=
  fun _ hs => .done trivial hs

/-- Taking the current token if it passes a test. -/
theorem avoids_accept (test : Token → Bool) :
    Avoids (fun s => if test s.current then .done true s.advance else .done false s)
      fun _ => True := by
  intro s hs
  dsimp only
  split
  · exact .done trivial hs.advance
  · exact .done trivial hs

theorem avoids_acceptKeyword (word : Keyword) : Avoids (acceptKeyword word) fun _ => True :=
  avoids_accept (·.isKeyword word)

theorem avoids_acceptSign (sign : Sign) : Avoids (acceptSign sign) fun _ => True :=
  avoids_accept (·.isSign sign)

theorem avoids_acceptTerminator : Avoids acceptTerminator fun _ => True :=
  avoids_accept Token.isTerminator

/-! ### Findings and failures -/

theorem avoids_report {d : Diagnostic} (h : d.Avoids) : Avoids (report d) fun _ => True :=
  fun _ hs => .done trivial { hs with found := List.forall_mem_cons.mpr ⟨h, hs.found⟩ }

theorem avoids_fail {d : Diagnostic} (h : d.Avoids) : Avoids (fail d : Parser α) Q :=
  fun _ hs => .failed h hs

/-! ### Resources -/

theorem avoids_spend (use : Budget → Option Exceeded × Budget) :
    Avoids (spend use) fun _ => True := by
  intro s hs
  unfold spend
  split
  · exact .done trivial { hs with }
  · exact .stopped hs.found

theorem avoids_countNode (t : Token) : Avoids (countNode t) fun _ => True := avoids_spend _

theorem avoids_checkTime (t : Token) : Avoids (checkTime t) fun _ => True := avoids_spend _

theorem avoids_enter (t : Token) : Avoids (enter t) fun _ => True := avoids_spend _

/-- What is read one level deeper starts in the same state, but for the budget. -/
theorem State.Avoiding.nested {s : State} (hs : s.Avoiding) (t : Token)
    (h : ∀ budget, (p { s with budget := budget }).Avoiding Q) : (nested t p s).Avoiding Q := by
  unfold Parser.nested enter spend
  simp only [Bind.bind]
  cases s.budget.enter t.span.start.location with
  | mk exceeded budget =>
      cases exceeded with
      | some e => exact .stopped hs.found
      | none =>
          have hp := h budget
          dsimp only
          generalize p _ = o at hp ⊢
          cases hp with
          | done ha hs => exact .done ha { hs with }
          | failed hd hs => exact .failed hd { hs with }
          | stopped hfound => exact .stopped hfound

theorem Avoids.nested (h : p.Avoids Q) (t : Token) : Avoids (nested t p) Q :=
  fun _ hs => hs.nested t fun _ => h { hs with }

/-- The end of most rules: the text that was read, which counts as a node. -/
theorem avoids_finish (start : Token) (g : Span → α) :
    Avoids (do let span ← spanFrom start; countNode start; return g span) fun _ => True :=
  (avoids_spanFrom start).step fun _ => (avoids_countNode start).step fun _ => .pure trivial

/-! ### What has to come next -/

section

variable {context : String} (h : DivergesWithin context)

include h

theorem avoids_expectKeyword (word : Keyword) (hint : Option String) :
    Avoids (expectKeyword word context hint) fun _ => True :=
  avoids_current.step fun _ => .ite avoids_advance (avoids_fail (Diverges.expectation h _ _ _))

theorem avoids_expectSign (sign : Sign) (hint : Option String) :
    Avoids (expectSign sign context hint) fun _ => True :=
  avoids_current.step fun _ => .ite avoids_advance (avoids_fail (Diverges.expectation h _ _ _))

theorem avoids_expectIdentifier (what : String) :
    Avoids (expectIdentifier context what) fun _ => True := by
  refine avoids_current.step fun t => ?_
  split
  · exact avoids_advance
  · exact avoids_fail (Diverges.expectation h _ _ _)
  · exact avoids_fail (Diverges.expectation h _ _ _)

end

theorem avoids_expectTerminator (context : String) :
    Avoids (expectTerminator context) fun _ => True := by
  have hwords : Diverges "Missing '.' at the end of the " := by decide
  exact avoids_current.step fun _ =>
    .ite avoids_advance (avoids_fail ((hwords.append _).problem _ _))

/-! ### Field selections -/

/-- A name is taken, whatever it is expected for. -/
theorem expectIdentifier_name {s : State} (h : s.current.kind.isName = true)
    (context what : String) : expectIdentifier context what s = .done s.current s.advance := by
  unfold expectIdentifier
  simp only [Bind.bind, current]
  cases hkind : s.current.kind with
  | identifier name => rfl
  | _ => simp [hkind, Token.Kind.isName] at h

theorem selectionRest_succ (start : Token) (fuel : Nat) (base : Expr) (s : State) :
    selectionRest start (fuel + 1) base s =
      if s.current.isSign .dot then
        nested s.current (do
          let name ← expectIdentifier "field access" "a field name"
          let span ← spanFrom start
          countNode start
          selectionRest start fuel (.field base (nameOf name) ⟨span, none⟩)) s.advance
      else .done base s := by
  rw [selectionRest]
  change (if s.current.isSign .dot then _ else _ : Parser Expr) s = _
  split <;> rfl

/-- The one rule that reads a dot that selects a field finds the name behind it. -/
theorem avoids_selectionRest (start : Token) (fuel : Nat) (base : Expr) :
    Avoids (selectionRest start fuel base) fun _ => True := by
  induction fuel generalizing base with
  | zero => exact .pure trivial
  | succ fuel ih =>
      intro s hs
      have hmore : ∀ node, Avoids (do countNode start; selectionRest start fuel node)
          fun _ => True := fun node => (avoids_countNode start).step fun _ => ih node
      rw [selectionRest_succ]
      split
      · next hdot =>
          refine hs.advance.nested _ fun budget => ?_
          let behind : State := { s.advance with budget := budget }
          have hbehind : behind.Avoiding := { hs.advance with }
          have hname : behind.current.kind.isName = true := hs.name (of_decide_eq_true hdot)
          exact .of_done (expectIdentifier_name hname _ _) (hmore _ hbehind.advance)
      · exact .done trivial hs

section

variable {operand : Parser Expr} (hoperand : Avoids operand fun _ => True)

include hoperand

theorem avoids_chainRest (operator : Token → Option BinaryOp) (start : Token) (fuel : Nat)
    (left : Expr) : Avoids (chainRest operator operand start fuel left) fun _ => True := by
  induction fuel generalizing left with
  | zero => exact .pure trivial
  | succ fuel ih =>
      refine avoids_current.step fun t => ?_
      cases operator t with
      | none => exact .pure trivial
      | some op =>
          refine avoids_advance.step fun _ => .nested ?_ t
          exact hoperand.step fun right => (avoids_finish start _).step ih

theorem avoids_chain (operator : Token → Option BinaryOp) :
    Avoids (chain operator operand) fun _ => True := by
  refine avoids_current.step fun start => hoperand.step fun left => ?_
  exact avoids_remaining.step fun fuel => avoids_chainRest hoperand operator start fuel left

theorem avoids_prefixed (fuel : Nat) : Avoids (prefixed operand fuel) fun _ => True := by
  induction fuel with
  | zero => exact hoperand
  | succ fuel ih =>
      refine avoids_current.step fun t => ?_
      cases prefixOp? t with
      | none => exact hoperand
      | some op => exact avoids_advance.step fun _ => (ih.nested t).step fun e => avoids_finish t _

end

theorem avoids_leaf (t : Token) (node : ExprNote → Expr) : Avoids (leaf t node) fun _ => True :=
  avoids_advance.step fun _ => (avoids_countNode t).step fun _ => .pure trivial

theorem avoids_noExpression : Avoids noExpression fun _ => True := by
  have hwords : Diverges "Expected an expression" := by decide
  exact avoids_current.step fun _ => avoids_fail (hwords.problem _ _)

section

variable {inner : Parser Expr} (hinner : Avoids inner fun _ => True)

include hinner

theorem avoids_argumentsRest (fuel : Nat) : Avoids (argumentsRest inner fuel) fun _ => True := by
  induction fuel with
  | zero => exact .pure trivial
  | succ fuel ih =>
      refine (avoids_acceptSign .comma).step fun more => .ite ?_ (.pure trivial)
      exact hinner.step fun arg => ih.step fun args => .pure trivial

theorem avoids_arguments : Avoids (arguments inner) fun _ => True := by
  refine hinner.step fun arg => avoids_remaining.step fun fuel => ?_
  exact (avoids_argumentsRest hinner fuel).step fun args => .pure trivial

theorem avoids_callWith : Avoids (callWith inner) fun _ => True := by
  have hcall : DivergesWithin "'Call'" := by decide
  have hwords : Diverges "Malformed 'Call " := by decide
  refine avoids_advance.step fun start => (avoids_expectIdentifier hcall _).step fun callee => ?_
  refine (avoids_acceptKeyword .with_).step fun passes => ?_
  extract_lets rest
  have hrest : ∀ args, Avoids (rest args) fun _ => True := fun args => avoids_finish start _
  refine .ite ((avoids_arguments hinner).step hrest) (avoids_current.step fun t => .ite ?_ ?_)
  · exact Avoids.step (Q := fun _ => True)
      (avoids_fail (((hwords.append _).append _).problem _ _)) hrest
  · exact Avoids.step (Q := fun _ => True) (.pure trivial) hrest

theorem avoids_primary : Avoids (primary inner) fun _ => True := by
  have hparentheses : DivergesWithin "parenthesised expression" := by decide
  have hlist : DivergesWithin "list literal" := by decide
  refine avoids_current.step fun t => ?_
  split
  · exact avoids_leaf t _
  · exact avoids_leaf t _
  · exact avoids_leaf t _
  · exact avoids_leaf t _
  · exact avoids_leaf t _
  · refine avoids_advance.step fun _ => hinner.step fun e => ?_
    exact (avoids_expectSign hparentheses _ _).step fun _ => .pure trivial
  · refine avoids_advance.step fun _ => avoids_current.step fun next => ?_
    extract_lets rest
    have hrest : ∀ elements, Avoids (rest elements) fun _ => True :=
      fun elements => (avoids_expectSign hlist _ _).step fun _ => avoids_finish t _
    refine .ite ?_ ((avoids_arguments hinner).step hrest)
    exact Avoids.step (Q := fun _ => True) (.pure trivial) hrest
  · exact avoids_noExpression

theorem avoids_selection : Avoids (selection inner) fun _ => True := by
  refine avoids_current.step fun start => (avoids_primary hinner).step fun base => ?_
  exact avoids_remaining.step fun fuel => avoids_selectionRest start fuel base

theorem avoids_application : Avoids (application inner) fun _ => True := by
  refine avoids_current.step fun t => avoids_second.step fun next => ?_
  split
  · exact (avoids_callWith hinner).step fun _ => .pure trivial
  · refine avoids_advance.step fun _ => avoids_advance.step fun _ => ?_
    exact (avoids_arguments hinner).step fun args => avoids_finish t _
  · exact avoids_selection hinner

theorem avoids_additiveRung : Avoids (additiveRung inner) fun _ => True :=
  avoids_chain (avoids_chain
    (avoids_remaining.step fun fuel => avoids_prefixed (avoids_application hinner) fuel) _) _

omit hinner in
theorem avoids_acceptComparison : Avoids acceptComparison fun _ => True := by
  refine (avoids_acceptKeyword .is).step fun _ => .ite ?_ ?_
  · exact (avoids_acceptKeyword .not).step fun _ => .ite (.pure trivial) (.pure trivial)
  · refine avoids_current.step fun t => ?_
    cases orderOp? t with
    | none => exact .pure trivial
    | some op => exact avoids_advance.step fun _ => .pure trivial

theorem avoids_comparisonRung : Avoids (comparisonRung inner) fun _ => True := by
  have hwords : Diverges "Comparisons cannot be chained" := by decide
  refine avoids_current.step fun start => (avoids_additiveRung hinner).step fun left => ?_
  refine avoids_acceptComparison.step fun op? => ?_
  cases op? with
  | none => exact .pure trivial
  | some op =>
      refine (avoids_additiveRung hinner).step fun right => ?_
      refine (avoids_finish start _).step fun node => avoids_current.step fun t => ?_
      exact .ite (avoids_fail (hwords.problem _ _)) (.pure trivial)

theorem avoids_expressionWith : Avoids (expressionWith inner) fun _ => True :=
  avoids_current.step fun start =>
    (avoids_chain (avoids_chain (avoids_comparisonRung hinner) _) _).nested start

end

theorem avoids_expressionUpTo (fuel : Nat) : Avoids (expressionUpTo fuel) fun _ => True := by
  induction fuel with
  | zero => exact avoids_expressionWith avoids_noExpression
  | succ fuel ih => exact avoids_expressionWith ih

theorem avoids_expression : Avoids expression fun _ => True :=
  avoids_remaining.step avoids_expressionUpTo

theorem avoids_call : Avoids call fun _ => True :=
  avoids_remaining.step fun fuel => avoids_callWith (avoids_expressionUpTo fuel)

end Parser

end Prosaic
