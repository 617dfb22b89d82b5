import Mathlib.Data.List.Basic
import Prosaic.Grammar.Parser
import Prosaic.Proofs.Token.Scan

/-!
What holds of every parser: it takes tokens and never gives one back, and it adds findings and never
drops one. A property of its value is claimed where the tokens to come are proper: of every reading
or, where `quiet` holds, only of those that report nothing. Every rule of the grammar has one lemma
of this form, built from those of its parts.
-/

namespace Prosaic.Parser

variable {α β : Type} {quiet : Prop}

/-- The tokens to come are proper. -/
structure State.Proper (s : State) : Prop where
  stop : s.stop.Proper
  rest : ∀ t ∈ s.rest, t.Proper

/-- A state that a reading can come to from another one. -/
structure State.Reaches (s s' : State) : Prop where
  rest : s'.rest <:+ s.rest
  stop : s'.stop = s.stop
  found : s.found <:+ s'.found

theorem State.Reaches.refl (s : State) : s.Reaches s :=
  ⟨List.suffix_rfl, rfl, List.suffix_rfl⟩

theorem State.Reaches.trans {s₁ s₂ s₃ : State} (h₁ : s₁.Reaches s₂) (h₂ : s₂.Reaches s₃) :
    s₁.Reaches s₃ :=
  ⟨h₂.rest.trans h₁.rest, h₂.stop.trans h₁.stop, h₁.found.trans h₂.found⟩

theorem State.Reaches.proper {s s' : State} (h : s.Reaches s') (hs : s.Proper) : s'.Proper :=
  ⟨h.stop ▸ hs.stop, fun t ht => hs.rest t (h.rest.subset ht)⟩

/-- If nothing is reported on the way to a later state, nothing is reported on either part of it. -/
theorem State.Reaches.found_eq {s₁ s₂ s₃ : State} (h₁ : s₁.Reaches s₂) (h₂ : s₂.Reaches s₃)
    (h : s₃.found = s₁.found) : s₂.found = s₁.found ∧ s₃.found = s₂.found := by
  have hlength := congrArg List.length h
  have hle₁ := h₁.found.length_le
  have hle₂ := h₂.found.length_le
  have heq : s₁.found = s₂.found := h₁.found.eq_of_length (by omega)
  exact ⟨heq.symm, h.trans heq⟩

/-- An outcome of reading on from a state: a later state and, if the tokens are proper, a value that
has a property; where `quiet` holds, only if nothing is reported on the way. -/
def Outcome.From (quiet : Prop) (s : State) (Q : α → Prop) : Outcome α → Prop
  | .done a s' => s.Reaches s' ∧ (s.Proper → (quiet → s'.found = s.found) → Q a)
  | .failed _ s' | .stopped _ s' => s.Reaches s'

/-- A parser reads on from wherever it starts. -/
def Reads (quiet : Prop) (p : Parser α) (Q : α → Prop) : Prop :=
  ∀ s : State, (p s).From quiet s Q

/-! ### Combining parsers -/

variable {p : Parser α} {f : α → Parser β} {Q : α → Prop} {R : β → Prop}

theorem Reads.mono {R : α → Prop} (h : Reads quiet p Q) (hQR : ∀ a, Q a → R a) :
    Reads quiet p R := by
  intro s
  have := h s
  cases hps : p s with
  | done a s' =>
      rw [hps] at this
      exact ⟨this.1, fun hs hfound => hQR a (this.2 hs hfound)⟩
  | failed d s' => rwa [hps] at this
  | stopped e s' => rwa [hps] at this

theorem Reads.pure {a : α} (h : Q a) : Reads quiet (Pure.pure a) Q :=
  fun s => ⟨.refl s, fun _ _ => h⟩

/-- What is known of the value of the first parser may be used for that of the second. -/
theorem Reads.bind (hp : Reads quiet p Q) (hf : ∀ a, Reads quiet (f a) fun b => Q a → R b) :
    Reads quiet (p >>= f) R := by
  intro s
  have hfirst := hp s
  simp only [Bind.bind]
  cases hps : p s with
  | failed d s₁ => rwa [hps] at hfirst
  | stopped e s₁ => rwa [hps] at hfirst
  | done a s₁ =>
      rw [hps] at hfirst
      obtain ⟨hreach, hQ⟩ := hfirst
      have hsecond := hf a s₁
      dsimp only
      cases hfs : f a s₁ with
      | done b s₂ =>
          rw [hfs] at hsecond
          obtain ⟨hmore, hR⟩ := hsecond
          refine ⟨hreach.trans hmore, fun hs hfound => ?_⟩
          have hboth := fun hquiet => hreach.found_eq hmore (hfound hquiet)
          have ha := hQ hs fun hquiet => (hboth hquiet).1
          exact hR (hreach.proper hs) (fun hquiet => (hboth hquiet).2) ha
      | failed d s₂ =>
          rw [hfs] at hsecond
          exact hreach.trans hsecond
      | stopped e s₂ =>
          rw [hfs] at hsecond
          exact hreach.trans hsecond

/-- A step whose value does not matter. -/
theorem Reads.step (hp : Reads quiet p Q) (hf : ∀ a, Reads quiet (f a) R) :
    Reads quiet (p >>= f) R :=
  hp.bind fun a => (hf a).mono fun _ hR _ => hR

theorem Reads.map {g : α → β} (h : Reads quiet p fun a => R (g a)) :
    Reads quiet (g <$> p) R :=
  h.bind fun _ => .pure id

theorem Reads.ite {c : Prop} [Decidable c] {p q : Parser α} (hp : c → Reads quiet p Q)
    (hq : ¬c → Reads quiet q Q) : Reads quiet (if c then p else q) Q := by
  split
  · exact hp ‹c›
  · exact hq ‹¬c›

/-- What a failure is turned into says nothing. -/
theorem Reads.attempt (h : Reads quiet p Q) :
    Reads quiet (attempt p) fun r => ∀ a, r = .ok a → Q a := by
  intro s
  have hp := h s
  unfold Parser.attempt
  cases hps : p s with
  | done a s₁ =>
      rw [hps] at hp
      refine ⟨hp.1, fun hs hfound b hb => ?_⟩
      obtain rfl := Except.ok.inj hb
      exact hp.2 hs hfound
  | failed d s₁ =>
      rw [hps] at hp
      exact ⟨hp, fun _ _ b hb => by cases hb⟩
  | stopped e s₁ => rwa [hps] at hp

/-! ### Tokens -/

theorem State.Proper.current {s : State} (h : s.Proper) : s.current.Proper := by
  unfold State.current
  cases hrest : s.rest with
  | nil => exact h.stop
  | cons t rest => exact h.rest t (hrest ▸ List.mem_cons_self)

theorem State.Proper.second {s : State} (h : s.Proper) : s.second.Proper := by
  unfold State.second
  cases hrest : s.rest.tail with
  | nil => exact h.stop
  | cons t rest => exact h.rest t (List.mem_of_mem_tail (hrest ▸ List.mem_cons_self))

theorem State.reaches_advance (s : State) : s.Reaches s.advance := by
  unfold State.advance
  split
  · exact .refl s
  · next t rest hrest => exact ⟨⟨[t], hrest.symm⟩, rfl, List.suffix_rfl⟩

theorem reads_current : Reads quiet current Token.Proper :=
  fun s => ⟨.refl s, fun hs _ => hs.current⟩

theorem reads_second : Reads quiet second Token.Proper :=
  fun s => ⟨.refl s, fun hs _ => hs.second⟩

theorem reads_remaining : Reads quiet remaining fun _ => True :=
  fun s => ⟨.refl s, fun _ _ => trivial⟩

theorem reads_advance : Reads quiet advance Token.Proper :=
  fun s => ⟨s.reaches_advance, fun hs _ => hs.current⟩

theorem reads_acceptKeyword (word : Keyword) : Reads quiet (acceptKeyword word) fun _ => True := by
  intro s
  unfold acceptKeyword
  split
  · exact ⟨s.reaches_advance, fun _ _ => trivial⟩
  · exact ⟨.refl s, fun _ _ => trivial⟩

theorem reads_acceptSign (sign : Sign) : Reads quiet (acceptSign sign) fun _ => True := by
  intro s
  unfold acceptSign
  split
  · exact ⟨s.reaches_advance, fun _ _ => trivial⟩
  · exact ⟨.refl s, fun _ _ => trivial⟩

theorem reads_acceptTerminator : Reads quiet acceptTerminator fun _ => True := by
  intro s
  unfold acceptTerminator
  split
  · exact ⟨s.reaches_advance, fun _ _ => trivial⟩
  · exact ⟨.refl s, fun _ _ => trivial⟩

theorem reads_spanFrom (start : Token) : Reads quiet (spanFrom start) fun _ => True :=
  fun s => ⟨.refl s, fun _ _ => trivial⟩

/-! ### Findings and failures -/

/-- A reading that reports something is not quiet. -/
theorem reads_report (d : Diagnostic) : Reads quiet (report d) fun _ => ¬quiet := by
  intro s
  refine ⟨⟨List.suffix_rfl, rfl, List.suffix_cons d s.found⟩, fun _ hfound hquiet => ?_⟩
  exact List.cons_ne_self d s.found (hfound hquiet)

theorem reads_fail (d : Diagnostic) : Reads quiet (fail d : Parser α) Q := fun s => .refl s

/-! ### Resources -/

theorem reads_spend (use : Budget → Option Exceeded × Budget) :
    Reads quiet (spend use) fun _ => True := by
  intro s
  unfold spend
  split
  · next b => exact ⟨⟨List.suffix_rfl, rfl, List.suffix_rfl⟩, fun _ _ => trivial⟩
  · next e b => exact ⟨List.suffix_rfl, rfl, List.suffix_rfl⟩

theorem reads_countNode (t : Token) : Reads quiet (countNode t) fun _ => True := reads_spend _

theorem reads_checkTime (t : Token) : Reads quiet (checkTime t) fun _ => True := reads_spend _

theorem reads_enter (t : Token) : Reads quiet (enter t) fun _ => True := reads_spend _

theorem Reads.nested (h : Reads quiet p Q) (t : Token) : Reads quiet (nested t p) Q := by
  refine (reads_enter t).step fun _ s => ?_
  have := h s
  have hexit : ∀ s' : State, s.Reaches s' → s.Reaches s'.exit := fun s' h' => ⟨h'.1, h'.2, h'.3⟩
  cases hps : p s with
  | done a s₁ =>
      rw [hps] at this
      exact ⟨hexit _ this.1, this.2⟩
  | failed d s₁ =>
      rw [hps] at this
      exact hexit _ this
  | stopped e s₁ =>
      rw [hps] at this
      exact hexit _ this

/-! ### What has to come next -/

theorem reads_expectKeyword (word : Keyword) (context : String) (hint : Option String) :
    Reads quiet (expectKeyword word context hint) Token.Proper :=
  reads_current.step fun _ => .ite (fun _ => reads_advance) fun _ => reads_fail _

theorem reads_expectSign (sign : Sign) (context : String) (hint : Option String) :
    Reads quiet (expectSign sign context hint) Token.Proper :=
  reads_current.step fun _ => .ite (fun _ => reads_advance) fun _ => reads_fail _

theorem reads_expectTerminator (context : String) :
    Reads quiet (expectTerminator context) Token.Proper :=
  reads_current.step fun _ => .ite (fun _ => reads_advance) fun _ => reads_fail _

theorem reads_expectIdentifier (context what : String) :
    Reads quiet (expectIdentifier context what) fun t => IsName t.lexeme := by
  intro s
  unfold expectIdentifier
  simp only [Bind.bind, Parser.current]
  cases hkind : s.current.kind with
  | identifier name => exact ⟨s.reaches_advance, fun hs _ => hs.current.name hkind⟩
  | _ => exact State.Reaches.refl s

end Prosaic.Parser
