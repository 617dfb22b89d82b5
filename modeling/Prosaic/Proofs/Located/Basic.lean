import Prosaic.Proofs.Pairing.Basic
import Prosaic.Proofs.Program.Placed

/-!
What a reading keeps to. The tokens to come start at certain places, and so does all that is found;
the limit on nesting stays the same, and a reading is as deep as the constructs that it is in.
`Stays c k k' p Q` says so of one parser: started at level `k` it ends at level `k'` with a value of
which `Q` holds, or fails there. Both the places of a tree and its height can be read off the
values.
-/

namespace Prosaic.Parser

variable {α β : Type}

/-- The places that a reading may name, and its limit on nesting. -/
structure Frame where
  mark : Location → Prop
  /-- A limit is reported at such a place too. -/
  reported : ∀ l, mark l → mark l.reported
  most : Int

namespace Frame

variable {c : Frame} {k k' l : Int}

/-- A token starts at one of the places. -/
def At (c : Frame) (t : Token) : Prop := c.mark t.span.start.location

/-- The levels that are left at a level. -/
def room (c : Frame) (k : Int) : Nat := (c.most - k).toNat

theorem room_le (h : k ≤ k') : c.room k' ≤ c.room k := by
  unfold room
  omega

theorem room_eq_succ (h : k + 1 ≤ c.most) : c.room k = c.room (k + 1) + 1 := by
  unfold room
  omega

/-- A state at a level. -/
structure Inside (c : Frame) (k : Int) (s : State) : Prop where
  rest : ∀ t ∈ s.rest, c.At t
  stop : c.At s.stop
  found : ∀ d ∈ s.found, c.mark d.location
  limit : s.budget.limits.nestingDepth = c.most
  depth : s.budget.depth = k

/-- An outcome at a level, unless a limit is exceeded. -/
inductive Ends (c : Frame) (k : Int) (Q : α → Prop) : Outcome α → Prop
  | done {a : α} {s : State} (ha : Q a) (hs : c.Inside k s) : c.Ends k Q (.done a s)
  | failed {d : Diagnostic} {s : State} (hd : c.mark d.location) (hs : c.Inside k s) :
      c.Ends k Q (.failed d s)
  | stopped {e : Exceeded} {s : State} (he : c.mark e.location)
      (hfound : ∀ d ∈ s.found, c.mark d.location) : c.Ends k Q (.stopped e s)

/-- A parser leads from one level to another one. -/
def Stays (c : Frame) (k k' : Int) (p : Parser α) (Q : α → Prop) : Prop :=
  ∀ ⦃s⦄, c.Inside k s → c.Ends k' Q (p s)

variable {p : Parser α} {f : α → Parser β} {Q Q' : α → Prop} {R : β → Prop}

/-! ### Combining parsers -/

theorem Ends.mono {o : Outcome α} (h : c.Ends k Q o) (hQ : ∀ a, Q a → Q' a) : c.Ends k Q' o := by
  cases h with
  | done ha hs => exact .done (hQ _ ha) hs
  | failed hd hs => exact .failed hd hs
  | stopped he hfound => exact .stopped he hfound

theorem Stays.mono (h : c.Stays k k' p Q) (hQ : ∀ a, Q a → Q' a) : c.Stays k k' p Q' :=
  fun _ hs => (h hs).mono hQ

theorem Stays.pure {a : α} (h : Q a) : c.Stays k k (Pure.pure a) Q := fun _ hs => .done h hs

/-- Goes on at another level. A failure before would not be one there. -/
theorem Stays.through (hp : c.Stays k l p Q) (hlevel : l = k' ∨ Recovers p)
    (hf : ∀ a, Q a → c.Stays l k' (f a) R) : c.Stays k k' (p >>= f) R := by
  intro s hs
  have hfirst := hp hs
  simp only [Bind.bind]
  cases hps : p s with
  | done a s₁ =>
      rw [hps] at hfirst
      obtain ⟨ha, hs₁⟩ := hfirst
      exact hf a ha hs₁
  | failed d s₁ =>
      rw [hps] at hfirst
      rcases hlevel with rfl | hrecovers
      · cases hfirst with
        | failed hd hs₁ => exact .failed hd hs₁
      · exact (hrecovers s d s₁ hps).elim
  | stopped e s₁ =>
      rw [hps] at hfirst
      cases hfirst with
      | stopped he hfound => exact .stopped he hfound

theorem Stays.bind (hp : c.Stays k k' p Q) (hf : ∀ a, Q a → c.Stays k' k' (f a) R) :
    c.Stays k k' (p >>= f) R := hp.through (.inl rfl) hf

/-- A step whose value does not matter. -/
theorem Stays.step (hp : c.Stays k k' p Q) (hf : ∀ a, c.Stays k' k' (f a) R) :
    c.Stays k k' (p >>= f) R := hp.bind fun a _ => hf a

theorem Stays.map {g : α → β} (h : c.Stays k k p fun a => R (g a)) : c.Stays k k (g <$> p) R :=
  h.bind fun _ ha => .pure ha

theorem Stays.ite {b : Prop} [Decidable b] {p q : Parser α} (hp : c.Stays k k' p Q)
    (hq : c.Stays k k' q Q) : c.Stays k k' (if b then p else q) Q := by
  split
  · exact hp
  · exact hq

theorem Stays.attempt (h : c.Stays k k p Q) : c.Stays k k (attempt p) fun r =>
    (∀ a, r = .ok a → Q a) ∧ ∀ d, r = .error d → c.mark d.location := by
  intro s hs
  have hp := h hs
  unfold Parser.attempt
  generalize p s = o at hp ⊢
  cases hp with
  | done ha hs => exact .done ⟨fun _ h => Except.ok.inj h ▸ ha, nofun⟩ hs
  | failed hd hs => exact .done ⟨nofun, fun _ h => Except.error.inj h ▸ hd⟩ hs
  | stopped he hfound => exact .stopped he hfound

/-! ### Tokens -/

section

variable {s : State}

theorem at_headD {ts : List Token} (hts : ∀ t ∈ ts, c.At t) {stop : Token} (hstop : c.At stop) :
    c.At (ts.headD stop) := by
  cases ts with
  | nil => exact hstop
  | cons t ts => exact hts t List.mem_cons_self

theorem Inside.current (h : c.Inside k s) : c.At s.current := at_headD h.rest h.stop

theorem Inside.second (h : c.Inside k s) : c.At s.second :=
  at_headD (fun t ht => h.rest t (List.mem_of_mem_tail ht)) h.stop

theorem Inside.advance (h : c.Inside k s) : c.Inside k s.advance where
  rest t ht := h.rest t (s.reaches_advance.rest.subset ht)
  stop := s.reaches_advance.stop ▸ h.stop
  found := s.found_advance ▸ h.found
  limit := s.budget_advance ▸ h.limit
  depth := s.budget_advance ▸ h.depth

end

theorem stays_current : c.Stays k k current c.At := fun _ hs => .done hs.current hs

theorem stays_second : c.Stays k k second c.At := fun _ hs => .done hs.second hs

theorem stays_remaining : c.Stays k k remaining fun _ => True := fun _ hs => .done trivial hs

theorem stays_advance : c.Stays k k advance c.At := fun _ hs => .done hs.current hs.advance

theorem stays_openBlocks : c.Stays k k openBlocks fun _ => True := fun _ hs => .done trivial hs

theorem stays_atKeyword (word : Keyword) : c.Stays k k (atKeyword word) fun _ => True :=
  fun _ hs => .done trivial hs

/-- Taking the current token if it passes a test. -/
theorem stays_accept (test : Token → Bool) :
    c.Stays k k (fun s => if test s.current then .done true s.advance else .done false s)
      fun _ => True := by
  intro s hs
  dsimp only
  split
  · exact .done trivial hs.advance
  · exact .done trivial hs

theorem stays_acceptKeyword (word : Keyword) : c.Stays k k (acceptKeyword word) fun _ => True :=
  stays_accept (·.isKeyword word)

theorem stays_acceptSign (sign : Sign) : c.Stays k k (acceptSign sign) fun _ => True :=
  stays_accept (·.isSign sign)

theorem stays_acceptTerminator : c.Stays k k acceptTerminator fun _ => True :=
  stays_accept Token.isTerminator

/-- Whatever is read from a token on starts where the token does. -/
theorem stays_spanFrom {start : Token} (h : c.At start) :
    c.Stays k k (spanFrom start) fun span => c.mark span.start.location :=
  fun _ hs => .done h hs

/-! ### Findings and failures -/

theorem stays_report {d : Diagnostic} (h : c.mark d.location) :
    c.Stays k k (report d) fun _ => True :=
  fun _ hs => .done trivial { hs with found := List.forall_mem_cons.mpr ⟨h, hs.found⟩ }

theorem stays_fail {d : Diagnostic} (h : c.mark d.location) : c.Stays k k (fail d) Q :=
  fun _ hs => .failed h hs

/-! ### Resources -/

/-- A use of the budget that leads from one level to another one, as far as the limits allow. -/
theorem stays_spend {use : Budget → Option Exceeded × Budget} {P : Prop}
    (hlimits : ∀ b, (use b).2.limits = b.limits) (hdepth : ∀ b, (use b).2.depth - b.depth = k' - k)
    (hallowed : ∀ b, b.depth = k → b.limits.nestingDepth = c.most → (use b).1 = none → P)
    (hplace : ∀ b, ∀ e ∈ (use b).1, c.mark e.location) :
    c.Stays k k' (spend use) fun _ => P := by
  intro s hs
  have hlimit := (congrArg Limits.nestingDepth (hlimits s.budget)).trans hs.limit
  have hdeeper := hdepth s.budget
  have hstart := hs.depth
  unfold spend
  split
  · next b hb =>
      rw [hb] at hlimit hdeeper
      refine .done (hallowed s.budget hs.depth hs.limit (by rw [hb])) ?_
      exact { hs with limit := hlimit, depth := by dsimp only at hdeeper ⊢; omega }
  · next e b hb => exact .stopped (hplace s.budget e (by rw [hb]; rfl)) hs.found

section

variable {t : Token} (h : c.At t)

include h

theorem stays_countNode : c.Stays k k (countNode t) fun _ => True := by
  refine stays_spend (fun _ => rfl) (fun b => ?_) (fun _ _ _ _ => trivial) fun b e he => ?_
  · simp [Budget.countNode]
  · exact Exceeded.location_of_mem_ite he ▸ h

theorem stays_checkTime : c.Stays k k (checkTime t) fun _ => True := by
  refine stays_spend (fun _ => rfl) (fun b => ?_) (fun _ _ _ _ => trivial) fun b e he => ?_
  · simp [Budget.checkTime]
  · exact Exceeded.location_of_mem_ite he ▸ h

/-- One level deeper, there was room for one more level. -/
theorem stays_enter : c.Stays k (k + 1) (enter t) fun _ => k + 1 ≤ c.most := by
  refine stays_spend (fun _ => rfl) (fun b => ?_) (fun b hdepth hlimit hnone => ?_) fun b e he => ?_
  · simp only [Budget.enter]
    omega
  · simp only [Budget.enter, ite_eq_right_iff, reduceCtorEq, imp_false] at hnone
    omega
  · exact Exceeded.location_of_mem_ite he ▸ h

end

theorem Inside.exit {s : State} (h : c.Inside (k + 1) s) : c.Inside k s.exit where
  rest := h.rest
  stop := h.stop
  found := h.found
  limit := h.limit
  depth := by
    have hdepth := h.depth
    simp only [State.exit, Budget.exit]
    omega

theorem Stays.exiting (h : c.Stays (k + 1) (k + 1) p Q) : c.Stays (k + 1) k (exiting p) Q := by
  intro s hs
  have hp := h hs
  unfold Parser.exiting
  generalize p s = o at hp ⊢
  cases hp with
  | done ha hs => exact .done ha hs.exit
  | failed hd hs => exact .failed hd hs.exit
  | stopped he hfound => exact .stopped he hfound

theorem Stays.nested {t : Token} (ht : c.At t)
    (h : k + 1 ≤ c.most → c.Stays (k + 1) (k + 1) p Q) : c.Stays k k (nested t p) Q :=
  (stays_enter ht).through (.inr (recovers_spend _)) fun _ hroom => (h hroom).exiting

/-! ### What has to come next -/

theorem stays_expectKeyword (word : Keyword) (context : String) (hint : Option String) :
    c.Stays k k (expectKeyword word context hint) c.At :=
  stays_current.bind fun _ ht => .ite stays_advance (stays_fail ht)

theorem stays_expectSign (sign : Sign) (context : String) (hint : Option String) :
    c.Stays k k (expectSign sign context hint) c.At :=
  stays_current.bind fun _ ht => .ite stays_advance (stays_fail ht)

theorem stays_expectTerminator (context : String) :
    c.Stays k k (expectTerminator context) c.At :=
  stays_current.bind fun _ ht => .ite stays_advance (stays_fail ht)

theorem stays_expectIdentifier (context what : String) :
    c.Stays k k (expectIdentifier context what) c.At := by
  refine stays_current.bind fun t ht => ?_
  split
  · exact stays_advance
  · exact stays_fail ht
  · exact stays_fail ht

/-- The end of most rules: the text that was read, which counts as a node. -/
theorem stays_finish {start : Token} (h : c.At start) {g : Span → α}
    (hg : ∀ span : Span, c.mark span.start.location → Q (g span)) :
    c.Stays k k (do let span ← spanFrom start; countNode start; return g span) Q :=
  (stays_spanFrom h).bind fun span hspan => (stays_countNode h).step fun _ => .pure (hg span hspan)

end Frame

end Prosaic.Parser
