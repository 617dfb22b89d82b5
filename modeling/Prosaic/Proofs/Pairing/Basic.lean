import Prosaic.Proofs.Grammar.Progress
import Prosaic.Proofs.Grammar.Declaration
import Prosaic.Proofs.Printing.Tokens

/-!
Two readings of the same tokens, side by side. They differ in the resources that they may use and in
what the first one has found before they meet; as long as neither exceeds a limit they take the same
steps. `Keeps c p Q` says so of one parser: started in two states that are paired, it ends in the
same way in both, with equal values of which `Q` holds, in states that are paired again. On the way
it reports the same in both readings, at tokens that it has come to, and it closes every construct
and gives back every level of nesting.

Some last tokens may be held back. What is claimed then is claimed of parsers that leave all of
these tokens to come.
-/

namespace Prosaic

/-! ### Budgets -/

/-- The first of two limits on nesting and nodes is at most as wide as the second. -/
structure Limits.Within (l l' : Limits) : Prop where
  nestingDepth : l.nestingDepth ≤ l'.nestingDepth
  nodes : l.nodes ≤ l'.nodes

/-- Two budgets of which the same was used, and of which the second allows as much as the first.
Neither runs out of time. -/
structure Budget.Within (b b' : Budget) : Prop where
  limits : b.limits.Within b'.limits
  depth : b'.depth = b.depth
  nodes : b'.nodes = b.nodes
  timely : b.Timely
  timely' : b'.Timely

/-- Two budgets of which the second allows whatever the first one does: the same one, or a wider
one. -/
def Budget.Below (b b' : Budget) : Prop := b' = b ∨ b.Within b'

instance (b : Budget) : Decidable b.Timely :=
  inferInstanceAs (Decidable (∀ t ∈ b.clock.next :: b.clock.later, b.deadline.lt t = false))

/-- A way to use a budget that adds so many levels of nesting, and that one budget allows if it
allows it within another one. -/
structure Budget.Use (use : Budget → Option Exceeded × Budget) (levels : Int) : Prop where
  depth : ∀ b, (use b).2.depth = b.depth + levels
  within : ∀ b b', b.Within b' → (use b).2.Within (use b').2
  allowed : ∀ b b', b.Within b' → (use b).1 = none → (use b').1 = none

namespace Budget

variable {b b' : Budget}

theorem Timely.tick (h : b.Timely) (l : Location) : (b.checkTime l).2.Timely :=
  fun t ht => h t (Clock.mem_tick ht)

theorem Within.exit (h : b.Within b') : b.exit.Within b'.exit :=
  ⟨h.limits, by simp only [Budget.exit, h.depth], h.nodes, h.timely, h.timely'⟩

theorem Below.exit (h : b.Below b') : b.exit.Below b'.exit :=
  h.imp (congrArg Budget.exit) Within.exit

section

variable {use : Budget → Option Exceeded × Budget} {levels : Int}

theorem Use.below (huse : Use use levels) (h : b.Below b') : (use b).2.Below (use b').2 :=
  h.imp (congrArg fun b => (use b).2) (huse.within b b')

theorem Use.allows (huse : Use use levels) (h : b.Below b') (hnone : (use b).1 = none) :
    (use b').1 = none := by
  cases h with
  | inl heq => rw [heq, hnone]
  | inr hwithin => exact huse.allowed b b' hwithin hnone

end

theorem use_enter (l : Location) : Use (·.enter l) 1 where
  depth _ := rfl
  within b b' h :=
    ⟨h.limits, by simp only [Budget.enter, h.depth], h.nodes, h.timely, h.timely'⟩
  allowed b b' h := by
    have hlimit := h.limits.nestingDepth
    have hdepth := h.depth
    simp only [Budget.enter, ite_eq_right_iff, reduceCtorEq, imp_false]
    omega

theorem use_countNode (l : Location) : Use (·.countNode l) 0 where
  depth _ := (Int.add_zero _).symm
  within b b' h :=
    ⟨h.limits, h.depth, by simp only [Budget.countNode, h.nodes], h.timely, h.timely'⟩
  allowed b b' h := by
    have hlimit := h.limits.nodes
    have hnodes := h.nodes
    simp only [Budget.countNode, ite_eq_right_iff, reduceCtorEq, imp_false]
    omega

theorem use_checkTime (l : Location) : Use (·.checkTime l) 0 where
  depth _ := (Int.add_zero _).symm
  within b b' h := ⟨h.limits, h.depth, h.nodes, h.timely.tick l, h.timely'.tick l⟩
  allowed b b' h _ := by
    have htime := h.timely' b'.clock.next List.mem_cons_self
    simp [Budget.checkTime, htime]

end Budget

namespace Parser

variable {α β : Type}

/-! ### Moving on by a token -/

theorem State.rest_advance (s : State) : s.advance.rest = s.rest.tail := by
  unfold State.advance
  split <;> simp [*]

theorem State.last_advance (s : State) :
    s.advance.last = (s.rest.head?.map (·.span.stop)).or s.last := by
  unfold State.advance
  split <;> simp [*]

theorem State.blocks_advance (s : State) : s.advance.blocks = s.blocks := by
  unfold State.advance
  split <;> rfl

theorem State.found_advance (s : State) : s.advance.found = s.found := by
  unfold State.advance
  split <;> rfl

/-! ### Outcomes -/

/-- Goes on behind a success. -/
def Outcome.bind (o : Outcome α) (f : α → Parser β) : Outcome β :=
  match o with
  | .done a s => f a s
  | .failed d s => .failed d s
  | .stopped e s => .stopped e s

/-- Gives one level of nesting back. -/
def Outcome.exit : Outcome α → Outcome α
  | .done a s => .done a s.exit
  | .failed d s => .failed d s.exit
  | .stopped e s => .stopped e s.exit

theorem Outcome.reaches_bind (o : Outcome α) {f : α → Parser β} (hf : ∀ a, Moves (f a)) :
    o.state.Reaches (o.bind f).state := by
  cases o with
  | done a s => exact hf a s
  | failed d s | stopped e s => exact .refl s

theorem State.Reaches.exit {s s' : State} (h : s.Reaches s') : s.Reaches s'.exit :=
  ⟨h.rest, h.stop, h.found⟩

/-- Gives one level of nesting back at the end of a parser. -/
def exiting (p : Parser α) : Parser α := fun s => (p s).exit

theorem Moves.exiting {p : Parser α} (h : Moves p) : Moves (exiting p) := by
  intro s
  have hs := (h s).exit
  unfold Parser.exiting
  cases hps : p s with
  | done a s₁ | failed d s₁ | stopped e s₁ => rwa [hps] at hs

theorem Moves.nested {p : Parser α} (h : Moves p) (t : Token) : Moves (nested t p) :=
  (reads_enter t).moves.bind fun _ => h.exiting

/-! ### Paired states -/

/-- The open constructs and the depth of nesting. -/
structure Level where
  blocks : List Block
  depth : Int

/-- So many levels deeper. -/
def Level.deeper (l : Level) (levels : Int) : Level :=
  { l with depth := l.depth + levels }

/-- Inside one more construct. -/
def Level.inside (l : Level) (b : Block) : Level := ⟨b :: l.blocks, l.depth + 1⟩

/-- What two readings of the same tokens have in common, and what they need not have. -/
structure Pairing where
  /-- The tokens to be read. -/
  before : List Token
  /-- The tokens behind these, which are held back. -/
  behind : List Token
  /-- The token that marks the end. -/
  stop : Token
  /-- A declaration starts where tokens are held back. -/
  define : ∀ t ∈ behind.head?, t.isKeyword .define = true
  /-- What the first reading has found before. -/
  older : List Diagnostic
  /-- Whether nothing is known of the budgets. -/
  lax : Prop

namespace Pairing

/-- Where nothing is held back, no declaration has to start there. -/
theorem define_nil : ∀ t ∈ ([] : List Token).head?, t.isKeyword .define = true := nofun

variable {c : Pairing} {l : Level}

/-- The tokens that may be looked at: those to be read, and the one behind them. -/
def Here (c : Pairing) (t : Token) : Prop := t ∈ c.before ∨ t = c.behind.headD c.stop

/-- A syntax error at one of these tokens. -/
structure Places (c : Pairing) (d : Diagnostic) : Prop where
  code : d.code = Diagnostic.syntaxError
  phase : d.phase = .parse
  location : ∃ t, c.Here t ∧ d.location = t.span.start.location

/-- Two states that are paired, at a level. -/
structure Twin (c : Pairing) (l : Level) (s s' : State) : Prop where
  rest : s'.rest = s.rest
  inside : s.rest <:+ c.before ++ c.behind
  stop : s.stop = c.stop
  stop' : s'.stop = c.stop
  last : s'.last = s.last
  blocks : s.blocks = l.blocks
  blocks' : s'.blocks = l.blocks
  depth : s.budget.depth = l.depth
  found : s.found = s'.found ++ c.older
  placed : ∀ d ∈ s'.found, c.Places d
  budget : c.lax ∨ s.budget.Below s'.budget

/-- Two outcomes that agree. If the first reading exceeds a limit, the second one finds the same and
maybe more. If nothing is known of the budgets, either reading may exceed a limit anywhere. -/
inductive Follows (c : Pairing) (l : Level) (Q : α → Prop) : Outcome α → Outcome α → Prop
  | done {a : α} {t t' : State} (ha : Q a) (ht : c.Twin l t t') :
      c.Follows l Q (.done a t) (.done a t')
  | failed {d : Diagnostic} {t t' : State} (hd : c.Places d) (ht : c.Twin l t t') :
      c.Follows l Q (.failed d t) (.failed d t')
  | stopped {e : Exceeded} {t : State} {o : Outcome α} (new : List Diagnostic)
      (hfound : t.found = new ++ c.older) (hmore : new <:+ o.state.found)
      (hplaced : ∀ d ∈ new, c.Places d) : c.Follows l Q (.stopped e t) o
  | first {e : Exceeded} {t : State} {o : Outcome α} (hlax : c.lax) : c.Follows l Q (.stopped e t) o
  | second {e : Exceeded} {t : State} {o : Outcome α} (hlax : c.lax) :
      c.Follows l Q o (.stopped e t)

/-- A parser keeps two readings paired, if `H` holds. -/
structure Keeps (c : Pairing) (H : Prop) (p : Parser α) (Q : α → Prop) : Prop where
  moves : Moves p
  follows : H → ∀ ⦃l s s'⦄, c.Twin l s s' → c.behind <:+ (p s).state.rest →
    c.Follows l Q (p s) (p s')

variable {H : Prop} {p : Parser α} {f : α → Parser β} {Q : α → Prop} {R : β → Prop}

/-! ### Combining parsers -/

theorem Follows.imp {o o' : Outcome α} {Q' : α → Prop} (h : c.Follows l Q o o')
    (hQ : ∀ a, Q a → Q' a) : c.Follows l Q' o o' := by
  cases h with
  | done ha ht => exact .done (hQ _ ha) ht
  | failed hd ht => exact .failed hd ht
  | stopped new hfound hmore hplaced => exact .stopped new hfound hmore hplaced
  | first hlax => exact .first hlax
  | second hlax => exact .second hlax

theorem Keeps.imp {H' : Prop} {Q' : α → Prop} (h : c.Keeps H p Q) (hH : H' → H)
    (hQ : ∀ a, H' → Q a → Q' a) : c.Keeps H' p Q' where
  moves := h.moves
  follows hH' _ _ _ htwin hbehind :=
    (h.follows (hH hH') htwin hbehind).imp fun a => hQ a hH'

theorem Keeps.mono {H' : Prop} (h : c.Keeps H p Q) (hH : H' → H) : c.Keeps H' p Q :=
  h.imp hH fun _ _ => id

theorem Keeps.pure {a : α} (h : H → Q a) : c.Keeps H (Pure.pure a) Q where
  moves := .pure a
  follows hH _ _ _ htwin _ := .done (h hH) htwin

/-- Goes on behind two outcomes that agree, possibly at another level. At another level than the one
before, nothing may have failed. -/
theorem Follows.bind {l' : Level} {o o' : Outcome α} (h : c.Follows l Q o o')
    (hfailed : ∀ d t, o = .failed d t → l' = l) (hmoves : ∀ a, Moves (f a))
    (hf : ∀ a t t', Q a → c.Twin l t t' → c.behind <:+ (f a t).state.rest →
      c.Follows l' R (f a t) (f a t')) (hbehind : c.behind <:+ (o.bind f).state.rest) :
    c.Follows l' R (o.bind f) (o'.bind f) := by
  cases h with
  | done ha ht => exact hf _ _ _ ha ht hbehind
  | failed hd ht =>
      rw [hfailed _ _ rfl]
      exact .failed hd ht
  | stopped new hfound hmore hplaced =>
      refine .stopped new hfound (hmore.trans ?_) hplaced
      -- the second reading goes on, and keeps what it has found
      exact (o'.reaches_bind hmoves).found
  | first hlax => exact .first hlax
  | second hlax => exact .second hlax

/-- What is known of the value of the first parser is known in the second. -/
theorem Keeps.bind (hp : c.Keeps H p Q) (hf : ∀ a, c.Keeps (H ∧ Q a) (f a) R) :
    c.Keeps H (p >>= f) R where
  moves := hp.moves.bind fun a => (hf a).moves
  follows hH l s s' htwin hbehind := by
    have hmoves := fun a => (hf a).moves
    have hlater := ((p s).reaches_bind hmoves).rest
    refine (hp.follows hH htwin (hbehind.trans hlater)).bind (fun _ _ _ => rfl) hmoves ?_ hbehind
    exact fun a t t' ha ht => (hf a).follows ⟨hH, ha⟩ ht

/-- A step whose value does not matter. -/
theorem Keeps.step (hp : c.Keeps H p Q) (hf : ∀ a, c.Keeps H (f a) R) :
    c.Keeps H (p >>= f) R :=
  hp.bind fun a => (hf a).mono And.left

theorem Keeps.map {g : α → β} (h : c.Keeps H p fun a => R (g a)) : c.Keeps H (g <$> p) R :=
  h.bind fun _ => .pure And.right

theorem Keeps.ite {b : Prop} [Decidable b] {p q : Parser α} (hp : c.Keeps H p Q)
    (hq : c.Keeps H q Q) : c.Keeps H (if b then p else q) Q := by
  split
  · exact hp
  · exact hq

theorem Keeps.attempt (h : c.Keeps H p Q) :
    c.Keeps H (attempt p) fun r => (∀ a, r = .ok a → Q a) ∧ ∀ d, r = .error d → c.Places d where
  moves := h.moves.attempt
  follows := by
    intro hH l s s' htwin hbehind
    have hstate : (Parser.attempt p s).state = (p s).state := by
      unfold Parser.attempt
      cases p s <;> rfl
    have hp := h.follows hH htwin (hstate ▸ hbehind)
    unfold Parser.attempt
    generalize p s = o at hp ⊢
    generalize p s' = o' at hp ⊢
    cases hp with
    | done ha ht => exact .done ⟨fun _ h => Except.ok.inj h ▸ ha, nofun⟩ ht
    | failed hd ht => exact .done ⟨nofun, fun _ h => Except.error.inj h ▸ hd⟩ ht
    | stopped new hfound hmore hplaced =>
        refine .stopped new hfound ?_ hplaced
        cases o' <;> exact hmore
    | first hlax => exact .first hlax
    | second hlax => exact .second hlax

/-! ### Tokens -/

section

variable {s s' : State}

theorem Twin.left (h : c.Twin l s s') : s'.left = s.left := by
  rw [s.left_eq, s'.left_eq, h.rest]

theorem Twin.current (h : c.Twin l s s') : s'.current = s.current := by
  rw [State.current, State.current, h.rest, h.stop, h.stop']

theorem Twin.second (h : c.Twin l s s') : s'.second = s.second := by
  rw [State.second, State.second, h.rest, h.stop, h.stop']

theorem Twin.advance (h : c.Twin l s s') : c.Twin l s.advance s'.advance where
  rest := by rw [State.rest_advance, State.rest_advance, h.rest]
  inside := s.reaches_advance.rest.trans h.inside
  stop := s.reaches_advance.stop.trans h.stop
  stop' := s'.reaches_advance.stop.trans h.stop'
  last := by rw [State.last_advance, State.last_advance, h.rest, h.last]
  blocks := by rw [State.blocks_advance, h.blocks]
  blocks' := by rw [State.blocks_advance, h.blocks']
  depth := by rw [State.budget_advance, h.depth]
  found := by rw [State.found_advance, State.found_advance, h.found]
  placed := by
    rw [State.found_advance]
    exact h.placed
  budget := by
    rw [State.budget_advance, State.budget_advance]
    exact h.budget

/-- The next one of the tokens that are left to come may be looked at. -/
theorem here_headD {rest : List Token} (hinside : rest <:+ c.before ++ c.behind)
    (hbehind : c.behind <:+ rest) : c.Here (rest.headD c.stop) := by
  obtain ⟨front, rfl⟩ := hbehind
  cases front with
  | nil => exact .inr rfl
  | cons t front =>
      refine .inl ?_
      obtain ⟨taken, htaken⟩ := hinside
      rw [← List.append_assoc] at htaken
      rw [← List.append_cancel_right htaken]
      exact List.mem_append_right taken List.mem_cons_self

theorem Twin.here_current (h : c.Twin l s s') (hbehind : c.behind <:+ s.rest) :
    c.Here s.current := by
  rw [State.current, h.stop]
  exact here_headD h.inside hbehind

/-- The token behind the current one may be looked at unless tokens are held back from the current
one on. -/
theorem Twin.here_second (h : c.Twin l s s') (hbehind : c.behind <:+ s.rest)
    (hcurrent : s.current.isKeyword .define = false) : c.Here s.second := by
  rw [State.second, h.stop]
  refine here_headD ((List.tail_suffix _).trans h.inside) ?_
  cases hrest : s.rest with
  | nil => rwa [hrest] at hbehind
  | cons t rest =>
      rw [hrest] at hbehind
      rcases List.suffix_cons_iff.mp hbehind with heq | htail
      · have hdefine := c.define t (by rw [heq]; rfl)
        have ht : s.current = t := by rw [State.current, hrest]; rfl
        rw [ht, hdefine] at hcurrent
        cases hcurrent
      · exact htail

end

theorem keeps_current : c.Keeps H current c.Here where
  moves := moves_current
  follows _ _ s s' htwin hbehind := by
    have hvalue : s'.current = s.current := htwin.current
    simp only [Parser.current, hvalue]
    exact .done (htwin.here_current hbehind) htwin

/-- Looking at two tokens. Unless a declaration starts with the first one, both may be looked at. -/
theorem keeps_lookahead {f : Token → Token → Parser β}
    (hf : ∀ t word, c.Keeps (H ∧ c.Here t ∧ (t.isKeyword .define = false → c.Here word))
      (f t word) R) : c.Keeps H (do let t ← current; let word ← second; f t word) R where
  moves := moves_current.bind fun t => reads_second.moves.bind fun word => (hf t word).moves
  follows hH l s s' htwin hbehind := by
    have hcurrent : s'.current = s.current := htwin.current
    have hsecond : s'.second = s.second := htwin.second
    have hrest := hbehind.trans ((hf s.current s.second).moves s).rest
    have hhere : c.Here s.current := htwin.here_current hrest
    have hnext := htwin.here_second hrest
    simp only [Bind.bind, Parser.current, Parser.second, hcurrent, hsecond] at hbehind ⊢
    exact (hf s.current s.second).follows ⟨hH, hhere, hnext⟩ htwin hbehind

theorem keeps_second : c.Keeps H second fun _ => True where
  moves := reads_second.moves
  follows _ _ s s' htwin _ := by
    have hvalue : s'.second = s.second := htwin.second
    simp only [Parser.second, hvalue]
    exact .done trivial htwin

theorem keeps_remaining : c.Keeps H remaining fun _ => True where
  moves := moves_remaining
  follows _ _ s s' htwin _ := by
    simp only [remaining, htwin.left]
    exact .done trivial htwin

theorem keeps_advance : c.Keeps H advance c.Here where
  moves := moves_advance
  follows _ _ s s' htwin hbehind := by
    have hvalue : s'.current = s.current := htwin.current
    simp only [Parser.advance, hvalue]
    exact .done (htwin.here_current (hbehind.trans s.reaches_advance.rest)) htwin.advance

/-- Taking the current token if it passes a test. -/
theorem keeps_accept (test : Token → Bool) :
    c.Keeps H (fun s => if test s.current then .done true s.advance else .done false s)
      fun _ => True where
  moves s := by
    dsimp only
    split
    · exact s.reaches_advance
    · exact .refl s
  follows _ _ s s' htwin _ := by
    have hvalue : s'.current = s.current := htwin.current
    simp only [hvalue]
    split
    · exact .done trivial htwin.advance
    · exact .done trivial htwin

theorem keeps_acceptKeyword (word : Keyword) :
    c.Keeps H (acceptKeyword word) fun _ => True := keeps_accept (·.isKeyword word)

theorem keeps_acceptSign (sign : Sign) :
    c.Keeps H (acceptSign sign) fun _ => True := keeps_accept (·.isSign sign)

theorem keeps_acceptTerminator : c.Keeps H acceptTerminator fun _ => True :=
  keeps_accept Token.isTerminator

theorem keeps_spanFrom (start : Token) : c.Keeps H (spanFrom start) fun _ => True where
  moves := moves_spanFrom start
  follows _ _ s s' htwin _ := by
    simp only [spanFrom, htwin.last]
    exact .done trivial htwin

theorem keeps_openBlocks : c.Keeps H openBlocks fun _ => True where
  moves := reads_openBlocks.moves
  follows _ _ s s' htwin _ := by
    simp only [openBlocks, htwin.blocks, htwin.blocks']
    exact .done trivial htwin

theorem keeps_atKeyword (word : Keyword) : c.Keeps H (atKeyword word) fun _ => True where
  moves := (reads_atKeyword word).moves
  follows _ _ s s' htwin _ := by
    simp only [atKeyword, htwin.current]
    exact .done trivial htwin

/-! ### Findings and failures -/

/-- What is wrong at a token is a syntax error there. -/
theorem places_problem {t : Token} (h : c.Here t) (message : String) (hint : Option String) :
    c.Places (problem message t hint) := ⟨rfl, rfl, t, h, rfl⟩

theorem places_expectation {t : Token} (h : c.Here t) (context : String) (expected : List String)
    (hint : Option String) : c.Places (expectation context expected t hint) :=
  places_problem h _ hint

theorem keeps_report {d : Diagnostic} (h : H → c.Places d) :
    c.Keeps H (report d) fun _ => True where
  moves := moves_report d
  follows hH _ s s' htwin _ := by
    refine .done trivial { htwin with found := ?_, placed := ?_ }
    · simp only [htwin.found, List.cons_append]
    · exact List.forall_mem_cons.mpr ⟨h hH, htwin.placed⟩

theorem keeps_fail {d : Diagnostic} (h : H → c.Places d) : c.Keeps H (fail d : Parser α) Q where
  moves := .refl
  follows hH _ _ _ htwin _ := .failed (h hH) htwin

/-! ### Resources -/

theorem Twin.spend {use : Budget → Option Exceeded × Budget} {levels : Int} {s s' : State}
    (huse : Budget.Use use levels) (htwin : c.Twin l s s') :
    c.Follows (l.deeper levels) (fun _ => True) (spend use s) (spend use s') := by
  have hdepth := huse.depth s.budget
  have hused : c.Twin (l.deeper levels) { s with budget := (use s.budget).2 }
      { s' with budget := (use s'.budget).2 } :=
    { htwin with
      depth := by rw [hdepth, htwin.depth]; rfl
      budget := htwin.budget.imp_right huse.below }
  have hallowed := htwin.budget.imp_right huse.allows
  unfold Parser.spend
  generalize use s.budget = u at hused hallowed
  generalize use s'.budget = u' at hused hallowed
  obtain ⟨exceeded, b⟩ := u
  obtain ⟨exceeded', b'⟩ := u'
  cases exceeded with
  | some e =>
    exact .stopped s'.found htwin.found (by cases exceeded' <;> exact List.suffix_rfl) htwin.placed
  | none =>
      cases exceeded' with
      | none => exact .done trivial hused
      | some e' =>
        rcases hallowed with hlax | hnone
        · exact .second hlax
        · cases hnone rfl

theorem Keeps.spend {use : Budget → Option Exceeded × Budget} (huse : Budget.Use use 0) :
    c.Keeps H (spend use) fun _ => True where
  moves := (reads_spend use).moves
  follows _ l _ _ htwin _ := by
    have hlevel : l.deeper 0 = l := by simp [Level.deeper]
    exact hlevel ▸ htwin.spend huse

theorem keeps_countNode (t : Token) : c.Keeps H (countNode t) fun _ => True :=
  .spend (Budget.use_countNode _)

theorem keeps_checkTime (t : Token) : c.Keeps H (checkTime t) fun _ => True :=
  .spend (Budget.use_checkTime _)

theorem Twin.exit {s s' : State} (h : c.Twin (l.deeper 1) s s') : c.Twin l s.exit s'.exit :=
  { h with
    depth := by
      have hdepth : s.budget.depth = l.depth + 1 := h.depth
      simp only [State.exit, Budget.exit, hdepth]
      omega
    budget := h.budget.imp_right Budget.Below.exit }

theorem Follows.exit {o o' : Outcome α} (h : c.Follows (l.deeper 1) Q o o') :
    c.Follows l Q o.exit o'.exit := by
  cases h with
  | done ha ht => exact .done ha ht.exit
  | failed hd ht => exact .failed hd ht.exit
  | stopped new hfound hmore hplaced =>
      refine .stopped new hfound ?_ hplaced
      cases o' <;> exact hmore
  | first hlax => exact .first hlax
  | second hlax => exact .second hlax

theorem Keeps.nested (h : c.Keeps H p Q) (t : Token) : c.Keeps H (nested t p) Q where
  moves := h.moves.nested t
  follows hH l s s' htwin hbehind := by
    have henter := htwin.spend (Budget.use_enter t.span.start.location)
    refine henter.bind (f := fun _ => exiting p) ?_ (fun _ => h.moves.exiting) ?_ hbehind
    · exact fun d u hfailed => (recovers_spend _ _ _ _ hfailed).elim
    · intro _ u u' _ hu hrest
      refine (h.follows hH hu ?_).exit
      unfold exiting at hrest
      cases hps : p u <;> rwa [hps] at hrest

/-! ### What has to come next -/

theorem keeps_expectKeyword (word : Keyword) (context : String) (hint : Option String) :
    c.Keeps H (expectKeyword word context hint) c.Here :=
  keeps_current.bind fun _ => .ite keeps_advance (keeps_fail fun h => places_expectation h.2 _ _ _)

theorem keeps_expectSign (sign : Sign) (context : String) (hint : Option String) :
    c.Keeps H (expectSign sign context hint) c.Here :=
  keeps_current.bind fun _ => .ite keeps_advance (keeps_fail fun h => places_expectation h.2 _ _ _)

theorem keeps_expectTerminator (context : String) :
    c.Keeps H (expectTerminator context) c.Here :=
  keeps_current.bind fun _ => .ite keeps_advance (keeps_fail fun h => places_problem h.2 _ _)

theorem keeps_expectIdentifier (context what : String) :
    c.Keeps H (expectIdentifier context what) c.Here := by
  refine keeps_current.bind fun t => ?_
  split
  · exact keeps_advance
  · exact keeps_fail fun h => places_expectation h.2 _ _ _
  · exact keeps_fail fun h => places_expectation h.2 _ _ _

/-- What a construct ends with, behind its last token. -/
theorem keeps_finish (start : Token) (value : Span → α) :
    c.Keeps H (do let span ← spanFrom start; countNode start; return value span) fun _ => True :=
  (keeps_spanFrom start).step fun _ => (keeps_countNode start).step fun _ => .pure fun _ => trivial

end Pairing

end Parser

end Prosaic
