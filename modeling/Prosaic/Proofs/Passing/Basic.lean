import Prosaic.Proofs.Grammar.Loops
import Prosaic.Proofs.Pairing.Basic

/-!
Which tokens a rule takes. A declaration starts with `Define`, and no rule inside a declaration
takes that word, with one exception: behind the word that opens a header, `function`, `If` or `For`,
a `Define` is skipped if the header fails there at once. `Passes b P p` says of a parser that starts
in a state of which `P` holds that the tokens it takes are of this form; `b` tells whether the word
before them opens a header.
-/

namespace Prosaic

/-- A word behind which a header stands. -/
def Token.opens (t : Token) : Bool :=
  t.isKeyword .function || t.isKeyword .if_ || t.isKeyword .for_

theorem Token.opens_of_function {t : Token} (h : t.isKeyword .function = true) :
    t.opens = true := by
  rw [opens, h, Bool.true_or, Bool.true_or]

theorem Token.opens_of_if {t : Token} (h : t.isKeyword .if_ = true) : t.opens = true := by
  rw [opens, h, Bool.or_true, Bool.true_or]

theorem Token.opens_of_for {t : Token} (h : t.isKeyword .for_ = true) : t.opens = true := by
  rw [opens, h, Bool.or_true]

namespace Parser

variable {α β γ : Type} {b : Bool} {t u : Token}

/-! ### Passing over tokens -/

/-- Tokens of which a `Define` only follows a word that opens a header. -/
def Passable : Bool → List Token → Prop
  | _, [] => True
  | b, t :: ts => (t.isKeyword .define = true → b = true) ∧ Passable t.opens ts

theorem Passable.mono {ts : List Token} (h : Passable false ts) : Passable b ts := by
  cases ts with
  | nil => trivial
  | cons t ts => exact ⟨fun ht => absurd (h.1 ht) Bool.false_ne_true, h.2⟩

theorem Passable.append {ts us : List Token} (ht : Passable b ts) (hu : Passable false us) :
    Passable b (ts ++ us) := by
  induction ts generalizing b with
  | nil => exact hu.mono
  | cons t ts ih => exact ⟨ht.1, ih ht.2⟩

/-- A `Define` among such tokens that is not the first one stands behind a word that opens a
header. -/
theorem Passable.opens {front more : List Token} {t define : Token}
    (h : Passable b (front ++ t :: define :: more)) (hdefine : define.isKeyword .define = true) :
    t.opens = true := by
  induction front generalizing b with
  | nil => exact h.2.1 hdefine
  | cons u front ih => exact ih h.2

/-- The tokens between two states are passed over. -/
def Passed (b : Bool) (s s' : State) : Prop := ∃ taken, s.rest = taken ++ s'.rest ∧ Passable b taken

theorem Passed.refl (s : State) : Passed b s s := ⟨[], rfl, trivial⟩

theorem Passed.trans {s₁ s₂ s₃ : State} (h₁ : Passed b s₁ s₂) (h₂ : Passed false s₂ s₃) :
    Passed b s₁ s₃ := by
  obtain ⟨ts, hts, hpass⟩ := h₁
  obtain ⟨us, hus, hpass'⟩ := h₂
  exact ⟨ts ++ us, by rw [hts, hus, List.append_assoc], hpass.append hpass'⟩

theorem Passed.mono {s s' : State} (h : Passed false s s') : Passed b s s' := by
  obtain ⟨ts, hts, hpass⟩ := h
  exact ⟨ts, hts, hpass.mono⟩

/-- Taking the current token, and what is behind it. -/
theorem Passed.advance {s s' : State} (hs : s.rest.head? = some t)
    (ht : t.isKeyword .define = true → b = true) (h : Passed t.opens s.advance s') :
    Passed b s s' := by
  obtain ⟨ts, hts, hpass⟩ := h
  obtain ⟨rest, hrest⟩ := List.head?_eq_some_iff.mp hs
  refine ⟨t :: ts, ?_, ht, hpass⟩
  rw [State.rest_advance, hrest, List.tail_cons] at hts
  rw [hrest, hts, List.cons_append]

/-- At the end there is nothing to pass over. -/
theorem State.Reaches.passed_nil {s s' : State} (h : s.Reaches s') (hs : s.rest = []) :
    Passed b s s' := by
  have hrest := h.rest
  rw [hs, List.suffix_nil] at hrest
  exact ⟨[], by rw [hs, hrest, List.append_nil], trivial⟩

theorem not_define_imp (ht : t.isKeyword .define = false) :
    t.isKeyword .define = true → b = true :=
  fun h => absurd (ht.symm.trans h) Bool.false_ne_true

/-- There is no more than the last token to pass over. -/
theorem State.Reaches.passed_single {s s' : State} (h : s.Reaches s') (hs : s.rest = [t])
    (ht : t.isKeyword .define = false) : Passed b s s' := by
  obtain ⟨taken, htaken⟩ := h.rest
  refine ⟨taken, htaken.symm, ?_⟩
  rw [hs] at htaken
  have hsub : taken.Sublist [t] := htaken ▸ List.sublist_append_left taken _
  rcases List.sublist_singleton.mp hsub with rfl | rfl
  · trivial
  · exact ⟨not_define_imp ht, trivial⟩

/-- With tokens of some sort to come, a parser passes over those that it takes. -/
structure Passes (b : Bool) (P : List Token → Prop) (p : Parser α) : Prop where
  moves : Moves p
  passed : ∀ s, P s.rest → Passed b s (p s).state

/-- Anywhere. -/
abbrev Spares (p : Parser α) : Prop := Passes false (fun _ => True) p

/-- A given token comes next. -/
def At (t : Token) (rest : List Token) : Prop := rest.head? = some t

/-- Two given tokens come next. -/
def AtTwo (t u : Token) (rest : List Token) : Prop := ∃ later, rest = t :: u :: later

theorem AtTwo.at {rest : List Token} (h : AtTwo t u rest) : At t rest := by
  obtain ⟨later, rfl⟩ := h
  rfl

theorem At.of_rest {rest later : List Token} (h : rest = t :: later) : At t rest := by
  rw [At, h]
  rfl

theorem At.current {s : State} (h : At t s.rest) : s.current = t := by
  obtain ⟨rest, hrest⟩ := List.head?_eq_some_iff.mp h
  rw [State.current, hrest]
  rfl

variable {P : List Token → Prop} {p : Parser α} {f : α → Parser β}

/-! ### Combining parsers -/

theorem Passes.of (h : Spares p) : Passes b P p where
  moves := h.moves
  passed s _ := (h.passed s trivial).mono

theorem Passes.weaken {P' : List Token → Prop} (h : Passes b P p)
    (hP : ∀ rest, P' rest → P rest) : Passes b P' p where
  moves := h.moves
  passed s hs := h.passed s (hP s.rest hs)

theorem Passes.bind (hp : Passes b P p) (hf : ∀ a, Spares (f a)) : Passes b P (p >>= f) where
  moves := hp.moves.bind fun a => (hf a).moves
  passed s hs := by
    have hfirst := hp.passed s hs
    simp only [Bind.bind]
    cases hps : p s with
    | done a s₁ =>
        rw [hps] at hfirst
        exact hfirst.trans ((hf a).passed s₁ trivial)
    | failed d s₁ | stopped e s₁ =>
        rw [hps] at hfirst
        exact hfirst

theorem Passes.pure {a : α} : Passes b P (Pure.pure a : Parser α) where
  moves := .pure a
  passed s _ := .refl s

theorem Passes.map {g : α → β} (h : Passes b P p) : Passes b P (g <$> p) := h.bind fun _ => .pure

theorem Passes.ite {c : Prop} [Decidable c] {p q : Parser α} (hp : c → Passes b P p)
    (hq : ¬c → Passes b P q) : Passes b P (if c then p else q) := by
  split
  · exact hp ‹c›
  · exact hq ‹¬c›

theorem Passes.attempt (h : Passes b P p) : Passes b P (attempt p) where
  moves := h.moves.attempt
  passed s hs := by
    have hp := h.passed s hs
    unfold Parser.attempt
    cases hps : p s <;> rwa [hps] at hp

/-- A first step that only looks. -/
theorem Passes.look {look : State → α} (hf : ∀ a, Passes b P (f a)) :
    Passes b P ((fun s => .done (look s) s : Parser α) >>= f) where
  moves s := (hf _).moves s
  passed s hs := (hf _).passed s hs

/-- A parser that takes no token. -/
structure Stays (p : Parser α) : Prop where
  moves : Moves p
  rest : ∀ s, (p s).state.rest = s.rest

theorem Stays.spares (h : Stays p) : Spares p where
  moves := h.moves
  passed s _ := ⟨[], (h.rest s).symm, trivial⟩

/-- A first step that takes no token. -/
theorem Passes.stay (hp : Stays p) (hf : ∀ a, Passes b P (f a)) : Passes b P (p >>= f) where
  moves := hp.moves.bind fun a => (hf a).moves
  passed s hs := by
    have hrest := hp.rest s
    simp only [Bind.bind]
    cases hps : p s with
    | done a s₁ =>
        rw [hps] at hrest
        change s₁.rest = s.rest at hrest
        obtain ⟨taken, htaken, hpass⟩ := (hf a).passed s₁ (hrest ▸ hs)
        exact ⟨taken, hrest.symm.trans htaken, hpass⟩
    | failed d s₁ | stopped e s₁ =>
        rw [hps] at hrest
        exact ⟨[], hrest.symm, trivial⟩

/-- Looking at the current token. At the end there is none, and nothing is taken. -/
theorem Passes.current {f : Token → Parser β} (hf : ∀ t, Passes b (At t) (f t)) :
    Passes b P (current >>= f) where
  moves := moves_current.bind fun t => (hf t).moves
  passed s _ := by
    cases hrest : s.rest with
    | nil => exact State.Reaches.passed_nil ((hf s.current).moves s) hrest
    | cons t rest =>
        have hat : At t s.rest := .of_rest hrest
        change Passed b s (f s.current s).state
        rw [hat.current]
        exact (hf t).passed s hat

/-- Looking at the token behind the current one. Behind the last one there is none. -/
theorem Passes.second {f : Token → Parser β} (ht : t.isKeyword .define = false)
    (hf : ∀ u, Passes b (AtTwo t u) (f u)) : Passes b (At t) (second >>= f) where
  moves := reads_second.moves.bind fun u => (hf u).moves
  passed s hs := by
    obtain ⟨rest, hrest⟩ := List.head?_eq_some_iff.mp hs
    cases rest with
    | nil => exact ((hf s.second).moves s).passed_single hrest ht
    | cons u rest =>
        have hsecond : s.second = u := by rw [State.second, hrest]; rfl
        change Passed b s (f s.second s).state
        rw [hsecond]
        exact (hf u).passed s ⟨rest, hrest⟩

/-- Taking the current token. -/
theorem Passes.advance {f : Token → Parser β} (ht : t.isKeyword .define = true → b = true)
    (hf : ∀ a, Passes t.opens (fun _ => True) (f a)) : Passes b (At t) (advance >>= f) where
  moves := moves_advance.bind fun a => (hf a).moves
  passed s hs := Passed.advance hs ht ((hf s.current).passed s.advance trivial)

/-- Taking the first of two tokens. -/
theorem Passes.advanceTwo {f : Token → Parser β} (ht : t.isKeyword .define = false)
    (hf : ∀ a, Passes t.opens (At u) (f a)) : Passes b (AtTwo t u) (Parser.advance >>= f) where
  moves := moves_advance.bind fun a => (hf a).moves
  passed s hs := by
    have hu : At u s.advance.rest := by
      obtain ⟨rest, hrest⟩ := hs
      rw [At, State.rest_advance, hrest]
      rfl
    exact Passed.advance hs.at (not_define_imp ht) ((hf s.current).passed s.advance hu)

/-- Taking a token that is no `Define`. -/
theorem Passes.take {f : Token → Parser β} (ht : t.isKeyword .define = false)
    (hf : ∀ a, Spares (f a)) : Passes b (At t) (Parser.advance >>= f) :=
  .advance (not_define_imp ht) fun a => .of (hf a)

theorem passes_advance (ht : t.isKeyword .define = false) : Passes b (At t) Parser.advance where
  moves := moves_advance
  passed s hs := Passed.advance hs (not_define_imp ht) (.refl s.advance)

/-! ### Steps -/

/-- A parser that only looks, and what it tells. -/
def Tells (s : State) (p : Parser α) (R : α → Prop) : Prop := ∃ a, p s = .done a s ∧ R a

theorem Tells.pure {s : State} {a : α} {R : α → Prop} (h : R a) : Tells s (Pure.pure a) R :=
  ⟨a, rfl, h⟩

theorem Tells.look {s : State} {look : State → α} {R : β → Prop} (h : Tells s (f (look s)) R) :
    Tells s ((fun s => .done (look s) s : Parser α) >>= f) R := h

theorem not_define_of_isKeyword {word : Keyword} (h : t.isKeyword word = true)
    (hword : word ≠ .define) : t.isKeyword .define = false := by
  simp only [Token.isKeyword, decide_eq_true_eq, decide_eq_false_iff_not] at h ⊢
  rw [h]
  simpa using hword

theorem not_define_of_isSign {sign : Sign} (h : t.isSign sign = true) :
    t.isKeyword .define = false := by
  simp only [Token.isSign, Token.isKeyword, decide_eq_true_eq, decide_eq_false_iff_not] at h ⊢
  simp [h]

theorem not_define_of_isTerminator (h : t.isTerminator = true) : t.isKeyword .define = false := by
  simp only [Token.isTerminator, Token.isKeyword, decide_eq_true_eq, decide_eq_false_iff_not] at h ⊢
  simp [h]

/-- Taking the current token if it passes a test that `Define` does not pass. -/
theorem spares_accept {test : Token → Bool}
    (h : ∀ t, test t = true → t.isKeyword .define = false) :
    Spares (fun s => if test s.current then .done true s.advance else .done false s :
      Parser Bool) where
  moves s := by
    simp only
    split
    · exact s.reaches_advance
    · exact .refl s
  passed s _ := by
    split
    · next htest =>
        cases hrest : s.rest with
        | nil => exact s.reaches_advance.passed_nil hrest
        | cons t rest =>
            have hat : At t s.rest := .of_rest hrest
            exact (passes_advance (h t (hat.current ▸ htest))).passed s hat
    · exact .refl s

theorem spares_acceptKeyword {word : Keyword} (hword : word ≠ .define) :
    Spares (acceptKeyword word) :=
  spares_accept fun _ ht => not_define_of_isKeyword ht hword

theorem spares_acceptSign (sign : Sign) : Spares (acceptSign sign) :=
  spares_accept fun _ ht => not_define_of_isSign ht

theorem spares_acceptTerminator : Spares acceptTerminator :=
  spares_accept fun _ ht => not_define_of_isTerminator ht

theorem passes_fail (d : Diagnostic) : Passes b P (fail d : Parser α) where
  moves := .refl
  passed s _ := .refl s

theorem stays_report (d : Diagnostic) : Stays (report d) := ⟨moves_report d, fun _ => rfl⟩

theorem stays_spend (use : Budget → Option Exceeded × Budget) : Stays (spend use) where
  moves := (reads_spend use).moves
  rest s := by
    unfold spend
    split <;> rfl

theorem stays_checkTime (t : Token) : Stays (checkTime t) := stays_spend _

theorem spares_spend (use : Budget → Option Exceeded × Budget) : Spares (spend use) :=
  (stays_spend use).spares

theorem spares_expectKeyword {word : Keyword} (hword : word ≠ .define) (context : String)
    (hint : Option String) : Spares (expectKeyword word context hint) :=
  .current fun _ => .ite (fun ht => passes_advance (not_define_of_isKeyword ht hword)) fun _ =>
    passes_fail _

/-- Taking a word that comes next. -/
theorem Passes.expect {word : Keyword} {f : Token → Parser β} (ht : t.isKeyword word = true)
    (hdefine : t.isKeyword .define = true → b = true) (context : String) (hint : Option String)
    (hf : ∀ a, Passes t.opens (fun _ => True) (f a)) :
    Passes b (At t) (expectKeyword word context hint >>= f) where
  moves := (reads_expectKeyword word context hint).moves.bind fun a => (hf a).moves
  passed s hs := by
    have htaken : expectKeyword word context hint s = Parser.advance s := by
      change (if s.current.isKeyword word then Parser.advance else _) s = _
      rw [hs.current, if_pos ht]
    have hall : (expectKeyword word context hint >>= f) s = (Parser.advance >>= f) s := by
      simp only [Bind.bind, htaken]
    rw [hall]
    exact (Passes.advance hdefine hf).passed s hs

theorem spares_expectSign (sign : Sign) (context : String) (hint : Option String) :
    Spares (expectSign sign context hint) :=
  .current fun _ => .ite (fun ht => passes_advance (not_define_of_isSign ht)) fun _ => passes_fail _

theorem spares_expectTerminator (context : String) : Spares (expectTerminator context) :=
  .current fun _ => .ite (fun ht => passes_advance (not_define_of_isTerminator ht)) fun _ =>
    passes_fail _

theorem spares_expectIdentifier (context what : String) :
    Spares (expectIdentifier context what) := by
  refine .current fun t => ?_
  split
  · next hkind => exact passes_advance (by simp [Token.isKeyword, hkind])
  · exact passes_fail _
  · exact passes_fail _

theorem Spares.nested (h : Spares p) (t : Token) : Spares (nested t p) := by
  have hexiting : Spares (exiting p) :=
    { moves := h.moves.exiting
      passed := fun s hs => by
        have hp := h.passed s hs
        unfold exiting
        cases hps : p s <;> rwa [hps] at hp }
  exact (spares_spend _).bind fun _ => hexiting

/-- What a construct ends with, behind its last token. -/
theorem spares_finish (start : Token) (value : Span → α) :
    Spares (do let span ← spanFrom start; countNode start; return value span) :=
  .look fun _ => (spares_spend _).bind fun _ => .pure

/-! ### Recovery -/

theorem spares_skipToBoundary (colonToo : Bool) (fuel : Nat) :
    Spares (skipToBoundary colonToo fuel) := by
  induction fuel with
  | zero => exact .pure
  | succ fuel ih =>
      refine .current fun t => ?_
      split
      · exact .pure
      · next hkind => exact .take (by simp [Token.isKeyword, hkind]) fun _ => .pure
      · next hkind =>
          exact .take (by simp [Token.isKeyword, hkind]) fun _ => .ite (fun _ => .pure) fun _ => ih
      · next word hkind =>
          refine .ite (fun _ => .pure) fun hword => .take ?_ fun _ => ih
          simp only [Token.isKeyword, hkind, decide_eq_false_iff_not]
          rintro hdefine
          cases hdefine
          exact hword rfl
      · next hkind =>
          refine .take ?_ fun _ => ih
          simp only [Token.isKeyword, decide_eq_false_iff_not]
          exact fun h => hkind _ h

/-- Resuming behind something that has come from one state to another. If it has taken nothing, the
next token is skipped. -/
theorem passed_synchronize {s s₁ : State} (h : Passed b s s₁)
    (hb : s.current.isKeyword .define = true → b = true) (colonToo : Bool) :
    Passed b s (synchronize s.left colonToo s₁).state := by
  have hskip : Spares (remaining >>= skipToBoundary colonToo) :=
    .look fun fuel => spares_skipToBoundary colonToo fuel
  by_cases hleft : s₁.left = s.left
  · have hsync : synchronize s.left colonToo s₁ =
        (advance >>= fun _ => remaining >>= skipToBoundary colonToo) s₁ :=
      congrFun (if_pos hleft) s₁
    obtain ⟨taken, htaken, -⟩ := h
    have hnil : taken = [] := by
      have hlength := congrArg List.length htaken
      rw [List.length_append, ← s.left_eq, ← s₁.left_eq, hleft] at hlength
      exact List.eq_nil_of_length_eq_zero (by omega)
    rw [hnil, List.nil_append] at htaken
    have hrest : Passed b s₁ (synchronize s.left colonToo s₁).state := by
      rw [hsync]
      cases hs : s₁.rest with
      | nil => exact State.Reaches.passed_nil (moves_advance.bind (fun _ => hskip.moves) s₁) hs
      | cons t rest =>
          have hcurrent : s.current = t := by rw [State.current, htaken, hs]; rfl
          exact (Passes.advance (hcurrent ▸ hb) fun _ => .of hskip).passed s₁ (.of_rest hs)
    obtain ⟨skipped, hskipped, hpass⟩ := hrest
    exact ⟨skipped, htaken.trans hskipped, hpass⟩
  · have hsync : synchronize s.left colonToo s₁ = (remaining >>= skipToBoundary colonToo) s₁ :=
      congrFun (if_neg hleft) s₁
    rw [hsync]
    exact h.trans (hskip.passed s₁ trivial)

/-- A header behind the word that opens it. -/
theorem passes_header {header : Parser γ} (hheader : Spares header)
    (failure : γ → Option Diagnostic) {rest : γ → PUnit → Parser β}
    (hrest : ∀ h u, Spares (rest h u)) :
    Passes true P (do
      let start ← remaining
      let h ← header
      let u ← recoverHeader start (failure h)
      rest h u) where
  moves := moves_remaining.bind fun start => hheader.moves.bind fun h =>
    (reads_recoverHeader start _).moves.bind fun u => (hrest h u).moves
  passed s _ := by
    have hfirst := hheader.passed s trivial
    simp only [Bind.bind, remaining]
    cases hps : header s with
    | failed d s₁ | stopped e s₁ =>
        rw [hps] at hfirst
        exact hfirst.mono
    | done h s₁ =>
        rw [hps] at hfirst
        simp only
        cases failure h with
        | none => exact hfirst.mono.trans ((hrest h ⟨⟩).passed s₁ trivial)
        | some d =>
            have hsync : Passed true s (synchronize s.left true s₁).state :=
              passed_synchronize hfirst.mono (fun _ => rfl) true
            simp only [recoverHeader, Bind.bind]
            cases hs : synchronize s.left true s₁ with
            | failed d s₂ | stopped e s₂ => rwa [hs] at hsync
            | done colon s₂ =>
                rw [hs] at hsync
                cases colon with
                | false => exact hsync
                | true =>
                  exact hsync.trans ((hrest h ⟨⟩).passed { s₂ with found := d :: s₂.found } trivial)

/-- A rule behind whose failure the reading resumes. -/
theorem passes_recovering {next : Nat → Except Diagnostic α → Parser β} {resumed : Parser β}
    (ht : t.isKeyword .define = true → b = true) (hp : Passes b (At t) p)
    (hok : ∀ start a, Spares (next start (.ok a))) (hresumed : Spares resumed)
    (herror : ∀ start d, next start (.error d) = do
      report d
      let _ ← synchronize start false
      resumed) :
    Passes b (At t) (do let start ← remaining; let r ← attempt p; next start r) where
  moves := by
    refine moves_remaining.bind fun start => hp.moves.attempt.bind fun r => ?_
    cases r with
    | ok a => exact (hok start a).moves
    | error d =>
        rw [herror]
        exact (moves_report d).bind fun _ => (moves_synchronize _ _).bind fun _ => hresumed.moves
  passed s hs := by
    have hfirst := hp.passed s hs
    simp only [Bind.bind, remaining, attempt]
    cases hps : p s with
    | stopped e s₁ => rwa [hps] at hfirst
    | done a s₁ =>
        rw [hps] at hfirst
        exact hfirst.trans ((hok s.left a).passed s₁ trivial)
    | failed d s₁ =>
        rw [hps] at hfirst
        have hreported : Passed b s { s₁ with found := d :: s₁.found } := hfirst
        have hsync := passed_synchronize hreported (hs.current ▸ ht) false
        simp only [herror, Bind.bind, report]
        cases hsynced : synchronize s.left false { s₁ with found := d :: s₁.found } with
        | done colon s₂ =>
            rw [hsynced] at hsync
            exact hsync.trans (hresumed.passed s₂ trivial)
        | failed d s₂ | stopped e s₂ => rwa [hsynced] at hsync

end Parser

end Prosaic
