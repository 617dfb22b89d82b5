import Prosaic.Grammar.Statement
import Prosaic.Proofs.Grammar.Declaration
import Prosaic.Proofs.Pairing.Basic

/-!
What a failure leaves behind. Neither an expression nor the pieces of a header take a period or a
word before which a reading can resume, and they take a colon last, if at all; and whatever fails,
fails at the token that it stands at. So between the start of a statement and the place of its
failure there is nothing at which the reading could have resumed.

Expressions take none but inner tokens: names, literals, operators, brackets and the words of a
call.
-/

namespace Prosaic

/-- A reading can resume before this token: a word that starts a statement, a branch, a closer or a
declaration, or the end. -/
def Token.resumes (t : Token) : Bool :=
  match t.kind with
  | .eof => true
  | .keyword word => Parser.isBoundaryWord word
  | _ => false

/-- A token inside a statement or a header: none before or behind which a reading can resume. -/
def Token.inner (t : Token) : Bool :=
  !t.resumes && !t.isTerminator && !t.isSign .colon

namespace Token

variable {t : Token}

theorem not_resumes_of_isTerminator (h : t.isTerminator = true) : t.resumes = false := by
  simp only [isTerminator, decide_eq_true_eq] at h
  simp [resumes, h]

theorem not_resumes_of_isSign {sign : Sign} (h : t.isSign sign = true) : t.resumes = false := by
  simp only [isSign, decide_eq_true_eq] at h
  simp [resumes, h]

theorem not_resumes_of_inner (h : t.inner = true) : t.resumes = false := by
  simp only [inner, Bool.and_eq_true, Bool.not_eq_true'] at h
  exact h.1.1

theorem not_isTerminator_of_inner (h : t.inner = true) : t.isTerminator = false := by
  simp only [inner, Bool.and_eq_true, Bool.not_eq_true'] at h
  exact h.1.2

theorem not_colon_of_inner (h : t.inner = true) : t.isSign .colon = false := by
  simp only [inner, Bool.and_eq_true, Bool.not_eq_true'] at h
  exact h.2

/-- A reading can resume before a token or behind it, if it is no inner one. -/
theorem cases_boundary (t : Token) :
    t.resumes = true ∨ t.isTerminator = true ∨ t.isSign .colon = true ∨ t.inner = true := by
  unfold inner
  cases t.resumes <;> cases t.isTerminator <;> cases t.isSign .colon <;> simp

theorem inner_of_keyword {word : Keyword} (h : t.kind = .keyword word)
    (hword : Parser.isBoundaryWord word = false) : t.inner = true := by
  simp [inner, resumes, isTerminator, isSign, h, hword]

theorem inner_of_isKeyword {word : Keyword} (h : t.isKeyword word = true)
    (hword : Parser.isBoundaryWord word = false) : t.inner = true :=
  inner_of_keyword (of_decide_eq_true h) hword

theorem inner_of_sign {sign : Sign} (h : t.kind = .sign sign) (hsign : sign ≠ .colon) :
    t.inner = true := by
  simp [inner, resumes, isTerminator, isSign, h, hsign]

theorem inner_of_isSign {sign : Sign} (h : t.isSign sign = true) (hsign : sign ≠ .colon) :
    t.inner = true :=
  inner_of_sign (of_decide_eq_true h) hsign

theorem inner_of_identifier {name : String} (h : t.kind = .identifier name) : t.inner = true := by
  simp [inner, resumes, isTerminator, isSign, h]

theorem inner_of_number {n : Number} (h : t.kind = .number n) : t.inner = true := by
  simp [inner, resumes, isTerminator, isSign, h]

theorem inner_of_string {value : String} (h : t.kind = .string value) : t.inner = true := by
  simp [inner, resumes, isTerminator, isSign, h]

end Token

namespace Parser

variable {α β : Type} {P : State → Prop} {p : Parser α} {f : α → Parser β} {t u : Token}

/-- Between two states of one reading only such tokens are taken. -/
def State.Inner (s s' : State) : Prop :=
  ∃ taken, s.rest = taken ++ s'.rest ∧ ∀ t ∈ taken, t.inner = true

theorem State.Inner.refl (s : State) : s.Inner s := ⟨[], rfl, List.forall_mem_nil _⟩

theorem State.Inner.trans {s₁ s₂ s₃ : State} (h₁ : s₁.Inner s₂) (h₂ : s₂.Inner s₃) :
    s₁.Inner s₃ := by
  obtain ⟨ts, hts, hinner⟩ := h₁
  obtain ⟨us, hus, hinner'⟩ := h₂
  refine ⟨ts ++ us, by rw [hts, hus, List.append_assoc], fun t ht => ?_⟩
  exact (List.mem_append.mp ht).elim (hinner t) (hinner' t)

/-- A given token comes next. -/
def Facing (t : Token) (s : State) : Prop := s.current = t

/-- Two given tokens come next. -/
def FacingTwo (t u : Token) (s : State) : Prop := s.current = t ∧ s.second = u

theorem State.current_advance (s : State) : s.advance.current = s.second := by
  unfold State.current State.second
  rw [State.rest_advance]
  unfold State.advance
  split <;> rfl

theorem State.inner_advance {s : State} (h : s.current.inner = true) : s.Inner s.advance := by
  cases hrest : s.rest with
  | nil => exact ⟨[], by rw [State.rest_advance, hrest]; rfl, List.forall_mem_nil _⟩
  | cons t rest =>
      have hcurrent : s.current = t := by rw [State.current, hrest]; rfl
      refine ⟨[t], by rw [State.rest_advance, hrest]; rfl, List.forall_mem_singleton.mpr ?_⟩
      exact hcurrent ▸ h

/-! ### Failing inside -/

/-- A parser that fails, if it does, at the token that it stands at, and has taken none but inner
tokens before. -/
def FailsInside (P : State → Prop) (p : Parser α) : Prop :=
  ∀ ⦃s d s'⦄, P s → p s = .failed d s' →
    s.Inner s' ∧ d.location = s'.current.span.start.location

/-- A parser that takes none but inner tokens, whether it fails or not. -/
structure Inside (P : State → Prop) (p : Parser α) : Prop where
  fails : FailsInside P p
  done : ∀ ⦃s a s'⦄, P s → p s = .done a s' → s.Inner s'

/-- Anywhere. -/
abbrev Inward (p : Parser α) : Prop := Inside (fun _ => True) p

theorem FailsInside.of_recovers (h : Recovers p) : FailsInside P p :=
  fun s d s' _ hp => absurd hp (h s d s')

theorem Inside.weaken {P' : State → Prop} (h : Inside P p) (hP : ∀ s, P' s → P s) :
    Inside P' p where
  fails s _ _ hs hp := h.fails (hP s hs) hp
  done s _ _ hs hp := h.done (hP s hs) hp

theorem Inside.of (h : Inward p) : Inside P p := h.weaken fun _ _ => trivial

theorem bind_eq_failed {s s' : State} {d : Diagnostic} (h : (p >>= f) s = .failed d s') :
    p s = .failed d s' ∨ ∃ a s₁, p s = .done a s₁ ∧ f a s₁ = .failed d s' := by
  simp only [Bind.bind] at h
  cases hp : p s with
  | done a s₁ =>
      rw [hp] at h
      exact .inr ⟨a, s₁, rfl, h⟩
  | failed d' s₁ =>
      rw [hp] at h
      cases h
      exact .inl rfl
  | stopped e s₁ =>
      rw [hp] at h
      cases h

theorem FailsInside.bind (hp : Inside P p) (hf : ∀ a, FailsInside (fun _ => True) (f a)) :
    FailsInside P (p >>= f) := by
  intro s d s' hs h
  obtain hfirst | ⟨a, s₁, hfirst, hsecond⟩ := bind_eq_failed h
  · exact hp.fails hs hfirst
  · obtain ⟨hinner, hlocation⟩ := hf a trivial hsecond
    exact ⟨(hp.done hs hfirst).trans hinner, hlocation⟩

/-- Behind the last thing that can fail it does not matter what is taken. -/
theorem FailsInside.last (hp : FailsInside P p) (hf : ∀ a, Recovers (f a)) :
    FailsInside P (p >>= f) := by
  intro s d s' hs h
  obtain hfirst | ⟨a, s₁, -, hsecond⟩ := bind_eq_failed h
  · exact hp hs hfirst
  · exact absurd hsecond (hf a s₁ d s')

theorem FailsInside.ite {c : Prop} [Decidable c] {p q : Parser α} (hp : FailsInside P p)
    (hq : FailsInside P q) : FailsInside P (if c then p else q) := by
  split
  · exact hp
  · exact hq

theorem Inside.bind (hp : Inside P p) (hf : ∀ a, Inward (f a)) : Inside P (p >>= f) where
  fails := .bind hp fun a => (hf a).fails
  done s b s' hs h := by
    obtain ⟨a, s₁, hfirst, hsecond⟩ := bind_eq_done h
    exact (hp.done hs hfirst).trans ((hf a).done trivial hsecond)

theorem Inside.pure {a : α} : Inside P (Pure.pure a : Parser α) where
  fails := .of_recovers (.pure a)
  done s b s' _ h := by
    cases h
    exact .refl s

theorem Inside.map {g : α → β} (h : Inside P p) : Inside P (g <$> p) := h.bind fun _ => .pure

theorem Inside.ite {c : Prop} [Decidable c] {p q : Parser α} (hp : c → Inside P p)
    (hq : ¬c → Inside P q) : Inside P (if c then p else q) := by
  split
  · exact hp ‹c›
  · exact hq ‹¬c›

theorem inside_fail {failure : State → Diagnostic}
    (h : ∀ s, P s → (failure s).location = s.current.span.start.location) :
    Inside P (fun s => .failed (failure s) s : Parser α) where
  fails s d s' hs hp := by
    cases hp
    exact ⟨.refl s, h s hs⟩
  done s a s' _ hp := by cases hp

/-- A failure at the current token. -/
theorem inside_problem {d : Diagnostic} (hd : d.location = t.span.start.location) :
    Inside (Facing t) (fail d : Parser α) :=
  inside_fail fun s hs => by rw [hd, ← hs]

/-! ### Steps -/

/-- A first step that only looks. -/
theorem Inside.look {look : State → α} (hf : ∀ a, Inside P (f a)) :
    Inside P ((fun s => .done (look s) s : Parser α) >>= f) where
  fails s _ _ hs h := (hf (look s)).fails hs h
  done s _ _ hs h := (hf (look s)).done hs h

theorem FailsInside.look {look : State → α} (hf : ∀ a, FailsInside P (f a)) :
    FailsInside P ((fun s => .done (look s) s : Parser α) >>= f) :=
  fun s _ _ hs h => hf (look s) hs h

/-- Looking at the current token. -/
theorem Inside.current {f : Token → Parser β} (hf : ∀ t, Inside (Facing t) (f t)) :
    Inside P (current >>= f) where
  fails s _ _ _ h := (hf s.current).fails rfl h
  done s _ _ _ h := (hf s.current).done rfl h

/-- Looking at the token behind the current one. -/
theorem Inside.second {f : Token → Parser β} (hf : ∀ u, Inside (FacingTwo t u) (f u)) :
    Inside (Facing t) (second >>= f) where
  fails s _ _ hs h := (hf s.second).fails ⟨hs, rfl⟩ h
  done s _ _ hs h := (hf s.second).done ⟨hs, rfl⟩ h

theorem inside_advance (ht : t.inner = true) : Inside (Facing t) advance where
  fails := .of_recovers recovers_advance
  done s a s' hs h := by
    cases h
    exact s.inner_advance (hs ▸ ht)

/-- Taking the current token. -/
theorem Inside.take {f : Token → Parser β} (ht : t.inner = true) (hf : ∀ a, Inward (f a)) :
    Inside (Facing t) (advance >>= f) :=
  (inside_advance ht).bind hf

/-- Taking the first of two tokens. -/
theorem Inside.takeFirst {f : Token → Parser β} (ht : t.inner = true)
    (hf : ∀ a, Inside (Facing u) (f a)) : Inside (FacingTwo t u) (advance >>= f) where
  fails s d s' hs h := by
    have hsecond : Facing u s.advance := s.current_advance.trans hs.2
    obtain ⟨hinner, hlocation⟩ := (hf s.current).fails hsecond h
    exact ⟨(s.inner_advance (hs.1 ▸ ht)).trans hinner, hlocation⟩
  done s b s' hs h := by
    have hsecond : Facing u s.advance := s.current_advance.trans hs.2
    exact (s.inner_advance (hs.1 ▸ ht)).trans ((hf s.current).done hsecond h)

theorem inside_spend (use : Budget → Option Exceeded × Budget) : Inside P (spend use) where
  fails := .of_recovers (recovers_spend use)
  done s a s' _ h := by
    unfold spend at h
    split at h <;> cases h
    exact .refl s

/-- Taking the current token if it passes a test that only inner tokens pass. -/
theorem inside_accept {test : Token → Bool} (h : ∀ t, test t = true → t.inner = true) :
    Inside P (fun s => if test s.current then .done true s.advance else .done false s :
      Parser Bool) where
  fails s d s' _ hp := by
    dsimp only at hp
    split at hp <;> cases hp
  done s a s' _ hp := by
    split at hp
    · next htest =>
        cases hp
        exact s.inner_advance (h s.current htest)
    · cases hp
      exact .refl s

theorem inside_acceptKeyword {word : Keyword} (hword : isBoundaryWord word = false) :
    Inside P (acceptKeyword word) :=
  inside_accept fun _ ht => Token.inner_of_isKeyword ht hword

theorem inside_acceptSign (sign : Sign) (hsign : sign ≠ .colon) : Inside P (acceptSign sign) :=
  inside_accept fun _ ht => Token.inner_of_isSign ht hsign

theorem inside_expectKeyword {word : Keyword} (hword : isBoundaryWord word = false)
    (context : String) (hint : Option String) : Inside P (expectKeyword word context hint) :=
  .current fun _ => .ite (fun ht => inside_advance (Token.inner_of_isKeyword ht hword)) fun _ =>
    inside_problem rfl

theorem inside_expectSign {sign : Sign} (hsign : sign ≠ .colon) (context : String)
    (hint : Option String) : Inside P (expectSign sign context hint) :=
  .current fun _ => .ite (fun ht => inside_advance (Token.inner_of_isSign ht hsign)) fun _ =>
    inside_problem rfl

theorem inside_expectIdentifier (context what : String) :
    Inside P (expectIdentifier context what) := by
  refine .current fun t => ?_
  split
  · next hkind => exact inside_advance (Token.inner_of_identifier hkind)
  · exact inside_problem rfl
  · exact inside_problem rfl

/-- Any sign is expected where the parser stands. -/
theorem failsInside_expectSign (sign : Sign) (context : String) (hint : Option String) :
    FailsInside P (expectSign sign context hint) := by
  intro s d s' _ h
  change (if s.current.isSign sign then advance else _) s = _ at h
  split at h
  · cases h
  · cases h
    exact ⟨.refl s, rfl⟩

theorem failsInside_expectTerminator (context : String) :
    FailsInside P (expectTerminator context) := by
  intro s d s' _ h
  change (if s.current.isTerminator then advance else _) s = _ at h
  split at h
  · cases h
  · cases h
    exact ⟨.refl s, rfl⟩

theorem Inside.nested (h : Inward p) (t : Token) : Inside P (nested t p) := by
  refine (inside_spend _).bind fun _ => ?_
  constructor
  · intro s d s' _ hp
    cases hps : p s with
    | done a s₁ | stopped e s₁ => simp only [hps] at hp; cases hp
    | failed d' s₁ =>
        simp only [hps] at hp
        cases hp
        exact (h.fails trivial hps :)
  · intro s a s' _ hp
    cases hps : p s with
    | failed d' s₁ | stopped e s₁ => simp only [hps] at hp; cases hp
    | done b s₁ =>
        simp only [hps] at hp
        cases hp
        exact (h.done trivial hps :)

/-- What a construct ends with, behind its last token. -/
theorem inside_finish (start : Token) (value : Span → α) :
    Inside P (do let span ← spanFrom start; countNode start; return value span) :=
  .look fun _ => (inside_spend _).bind fun _ => .pure

/-! ### Operators -/

/-- Every operator of a rung is an inner token. -/
def Operates {ω : Type} (operator : Token → Option ω) : Prop :=
  ∀ t op, operator t = some op → t.inner = true

theorem operates_or : Operates orOp? := by
  intro t op h
  unfold orOp? at h
  split at h
  · next hkind => exact Token.inner_of_keyword hkind rfl
  · cases h

theorem operates_and : Operates andOp? := by
  intro t op h
  unfold andOp? at h
  split at h
  · next hkind => exact Token.inner_of_keyword hkind rfl
  · cases h

theorem operates_order : Operates orderOp? := by
  intro t op h
  unfold orderOp? at h
  split at h
  iterate 4
    · next hkind => exact Token.inner_of_sign hkind (by decide)
  · cases h

theorem operates_additive : Operates additiveOp? := by
  intro t op h
  unfold additiveOp? at h
  split at h
  iterate 2
    · next hkind => exact Token.inner_of_sign hkind (by decide)
  · cases h

theorem operates_multiplicative : Operates multiplicativeOp? := by
  intro t op h
  unfold multiplicativeOp? at h
  split at h
  iterate 2
    · next hkind => exact Token.inner_of_sign hkind (by decide)
  · cases h

theorem operates_unary : Operates prefixOp? := by
  intro t op h
  unfold prefixOp? at h
  split at h
  · next hkind => exact Token.inner_of_keyword hkind rfl
  · next hkind => exact Token.inner_of_sign hkind (by decide)
  · cases h

section

variable {operand : Parser Expr} (hoperand : Inward operand)
  {operator : Token → Option BinaryOp} (hoperator : Operates operator)

theorem inside_binary (op : BinaryOp) (left right : Expr) (start : Token) :
    Inside P (binary op left right start) := inside_finish start _

include hoperand

theorem inside_prefixed (fuel : Nat) : Inside P (prefixed operand fuel) := by
  induction fuel generalizing P with
  | zero => exact .of hoperand
  | succ fuel ih =>
      refine .current fun t => ?_
      cases hop : prefixOp? t with
      | none => exact .of hoperand
      | some op =>
          refine .take (operates_unary t op hop) fun _ => ?_
          exact (Inside.nested ih t).bind fun e => inside_finish t _

include hoperator

theorem inside_chainRest (start : Token) (fuel : Nat) (left : Expr) :
    Inward (chainRest operator operand start fuel left) := by
  induction fuel generalizing left with
  | zero => exact .pure
  | succ fuel ih =>
      refine .current fun t => ?_
      cases hop : operator t with
      | none => exact .pure
      | some op =>
          refine .take (hoperator t op hop) fun _ => .nested ?_ t
          exact hoperand.bind fun right => (inside_binary op left right start).bind ih

theorem inside_chain : Inward (chain operator operand) :=
  .look fun start => hoperand.bind fun left => .look fun fuel =>
    inside_chainRest hoperand hoperator start fuel left

end

/-! ### Rungs -/

section

variable {inner : Parser Expr} (hinner : Inward inner)

theorem inside_leaf (ht : t.inner = true) (node : ExprNote → Expr) :
    Inside (Facing t) (leaf t node) :=
  .take ht fun _ => (inside_spend _).bind fun _ => .pure

theorem inside_noExpression : Inside P noExpression := .current fun _ => inside_problem rfl

include hinner

theorem inside_argumentsRest (fuel : Nat) : Inward (argumentsRest inner fuel) := by
  induction fuel with
  | zero => exact .pure
  | succ fuel ih =>
      refine (inside_acceptSign .comma (by decide)).bind fun more => ?_
      exact .ite (fun _ => hinner.bind fun _ => ih.bind fun _ => .pure) fun _ => .pure

theorem inside_arguments : Inward (arguments inner) :=
  hinner.bind fun _ => .look fun fuel => (inside_argumentsRest hinner fuel).bind fun _ => .pure

theorem inside_callWith (ht : t.inner = true) : Inside (Facing t) (callWith inner) := by
  refine .take ht fun start => (inside_expectIdentifier _ _).bind fun callee => ?_
  refine (inside_acceptKeyword rfl).bind fun passes => ?_
  extract_lets rest
  have hrest : ∀ args, Inward (rest args) := fun args => inside_finish start _
  refine .ite (fun _ => (inside_arguments hinner).bind hrest) fun _ => .current fun t => ?_
  exact .ite (fun _ => (inside_problem rfl).bind hrest) fun _ => Inside.pure.bind hrest

theorem inside_primary : Inward (primary inner) := by
  refine .current fun t => ?_
  split
  · next hkind => exact inside_leaf (Token.inner_of_number hkind) _
  · next hkind => exact inside_leaf (Token.inner_of_string hkind) _
  · next hkind => exact inside_leaf (Token.inner_of_keyword hkind rfl) _
  · next hkind => exact inside_leaf (Token.inner_of_keyword hkind rfl) _
  · next hkind => exact inside_leaf (Token.inner_of_identifier hkind) _
  · next hkind =>
      refine .take (Token.inner_of_sign hkind (by decide)) fun _ => hinner.bind fun e => ?_
      exact (inside_expectSign (by decide) _ _).bind fun _ => .pure
  · next hkind =>
      refine .take (Token.inner_of_sign hkind (by decide)) fun _ => .look fun next => ?_
      extract_lets rest
      have hrest : ∀ elements, Inward (rest elements) :=
        fun elements => (inside_expectSign (by decide) _ _).bind fun _ => inside_finish t _
      refine .ite (fun _ => Inside.pure.bind hrest) fun _ => ?_
      exact (inside_arguments hinner).bind hrest
  · exact inside_noExpression

omit hinner in
theorem inside_selectionRest (start : Token) (fuel : Nat) (base : Expr) :
    Inward (selectionRest start fuel base) := by
  induction fuel generalizing base with
  | zero => exact .pure
  | succ fuel ih =>
      refine .current fun t => .ite (fun hdot => ?_) fun _ => .pure
      refine .take (Token.inner_of_isSign hdot (by decide)) fun _ => .nested ?_ t
      refine (inside_expectIdentifier _ _).bind fun name => .look fun span => ?_
      exact (inside_spend _).bind fun _ => ih _

theorem inside_selection : Inward (selection inner) :=
  .look fun start => (inside_primary hinner).bind fun base => .look fun fuel =>
    inside_selectionRest start fuel base

theorem inside_application : Inward (application inner) := by
  refine .current fun t => .second fun next => ?_
  split
  · next hkind =>
      have ht : t.inner = true := Token.inner_of_keyword hkind rfl
      exact ((inside_callWith hinner ht).weaken fun _ => And.left).bind fun _ => .pure
  · next hkind hnext =>
      have hof : next.inner = true := Token.inner_of_keyword hnext rfl
      refine .takeFirst (Token.inner_of_identifier hkind) fun _ => .take hof fun _ => ?_
      exact (inside_arguments hinner).bind fun args => inside_finish t _
  · exact .of (inside_selection hinner)

theorem inside_unaryRung : Inward (unaryRung inner) :=
  .look fun fuel => inside_prefixed (inside_application hinner) fuel

theorem inside_additiveRung : Inward (additiveRung inner) :=
  inside_chain (inside_chain (inside_unaryRung hinner) operates_multiplicative) operates_additive

omit hinner in
theorem inside_acceptComparison : Inside P acceptComparison := by
  refine (inside_acceptKeyword rfl).bind fun _ => .ite (fun _ => ?_) fun _ => ?_
  · exact (inside_acceptKeyword rfl).bind fun _ => .ite (fun _ => .pure) fun _ => .pure
  · refine .current fun t => ?_
    cases hop : orderOp? t with
    | none => exact .pure
    | some op => exact .take (operates_order t op hop) fun _ => .pure

theorem inside_comparisonRung : Inward (comparisonRung inner) := by
  refine .look fun start => (inside_additiveRung hinner).bind fun left => ?_
  refine inside_acceptComparison.bind fun op? => ?_
  cases op? with
  | none => exact .pure
  | some op =>
      refine (inside_additiveRung hinner).bind fun right => ?_
      refine (inside_binary op left right start).bind fun node => .current fun t => ?_
      exact .ite (fun _ => inside_problem rfl) fun _ => .pure

theorem inside_expressionWith : Inward (expressionWith inner) := by
  have hand : Inward (andRung inner) := inside_chain (inside_comparisonRung hinner) operates_and
  exact .look fun start => .nested (inside_chain hand operates_or) start

end

theorem inside_expressionUpTo (fuel : Nat) : Inward (expressionUpTo fuel) := by
  induction fuel with
  | zero => exact inside_expressionWith inside_noExpression
  | succ fuel ih => exact inside_expressionWith ih

theorem inside_expression : Inward expression := .look inside_expressionUpTo

theorem inside_call (ht : t.inner = true) : Inside (Facing t) call :=
  .look fun fuel => inside_callWith (inside_expressionUpTo fuel) ht

end Parser

end Prosaic
