import Prosaic.Proofs.Pairing.Rules

/-!
What a parser counts. Nodes are counted one by one while a program is read, and the limit on them is
only looked at when one is counted. So where a reading counts some number of nodes, another limit
leaves it as it is if there is room for all of them, and cuts it short if there is not.

`Meters p Q` says of one parser what it counts: where it reports nothing and is not stopped, it
counts some number of nodes, of which, together with its value, `Q` holds. `Free p` says that it
counts none.
-/

namespace Prosaic

/-! ### Another limit -/

/-- The same budget with another limit on the number of nodes. -/
def Budget.allowing (b : Budget) (most : Int) : Budget :=
  { b with limits := { b.limits with nodes := most } }

namespace Parser

variable {α β : Type}

def State.allowing (s : State) (most : Int) : State := { s with budget := s.budget.allowing most }

def Outcome.allowing (o : Outcome α) (most : Int) : Outcome α :=
  match o with
  | .done a s => .done a (s.allowing most)
  | .failed d s => .failed d (s.allowing most)
  | .stopped e s => .stopped e (s.allowing most)

theorem State.advance_allowing (s : State) (most : Int) :
    (s.allowing most).advance = s.advance.allowing most := by
  obtain ⟨rest, left, left_eq, stop, last, budget, blocks, found⟩ := s
  cases rest <;> rfl

/-! ### What a parser counts -/

/-- From a state, so many nodes are counted on the way to an outcome. Under another limit it is the
same if there is room for all of them, and else that limit is exceeded and nothing is reported
before. -/
structure Spends (s : State) (n : Nat) (o : Outcome α) (under : Int → Outcome α) : Prop where
  nodes : o.state.budget.nodes = s.budget.nodes + n
  within : ∀ most, n = 0 ∨ (s.budget.nodes + n : Int) ≤ most → under most = o.allowing most
  beyond : ∀ most, n ≠ 0 → most < (s.budget.nodes + n : Int) →
    ∃ l t, under most = .stopped ⟨.nodes most, l⟩ t ∧ t.found = s.found

/-- Where a parser reports nothing and is not stopped, it counts some number of nodes, of which `Q`
holds together with its value. -/
structure Meters (p : Parser α) (Q : α → Nat → Prop) : Prop where
  moves : Moves p
  spends : ∀ s : State, (p s).state.found = s.found → (∀ e t, p s ≠ .stopped e t) →
    ∃ n, Spends s n (p s) (fun most => p (s.allowing most)) ∧ ∀ a t, p s = .done a t → Q a n

/-- A parser that counts no nodes. -/
abbrev Free (p : Parser α) : Prop := Meters p fun _ n => n = 0

variable {p : Parser α} {f : α → Parser β} {Q : α → Nat → Prop} {R : β → Nat → Prop}

theorem Meters.mono {R : α → Nat → Prop} (h : Meters p Q) (hQR : ∀ a n, Q a n → R a n) :
    Meters p R where
  moves := h.moves
  spends s hquiet hruns :=
    have ⟨n, hspends, hQ⟩ := h.spends s hquiet hruns
    ⟨n, hspends, fun a t hps => hQR a n (hQ a t hps)⟩

/-- What is counted on the way to a value is counted before what comes behind it. -/
theorem Spends.bind {s t : State} {a : α} {m n : Nat}
    (hp : Spends s m (.done a t) fun most => p (s.allowing most))
    (hf : Spends t n (f a t) fun most => f a (t.allowing most)) (hfound : t.found = s.found) :
    Spends s (m + n) (f a t) fun most => (p >>= f) (s.allowing most) where
  nodes := by
    have hfirst : t.budget.nodes = s.budget.nodes + m := hp.nodes
    rw [hf.nodes, hfirst, Nat.add_assoc]
  within most hroom := by
    have hfirst : t.budget.nodes = s.budget.nodes + m := hp.nodes
    have hp' : p (s.allowing most) = .done a (t.allowing most) := hp.within most (by omega)
    have hf' : f a (t.allowing most) = (f a t).allowing most := hf.within most (by omega)
    simp only [Bind.bind, hp', hf']
  beyond most hsome hfull := by
    have hfirst : t.budget.nodes = s.budget.nodes + m := hp.nodes
    by_cases hroom : m = 0 ∨ (s.budget.nodes + m : Int) ≤ most
    · -- the limit is exceeded behind the first value
      have hp' : p (s.allowing most) = .done a (t.allowing most) := hp.within most hroom
      obtain ⟨l, u, hu, hsame⟩ := hf.beyond most (by omega) (by omega)
      refine ⟨l, u, ?_, hsame.trans hfound⟩
      simp only [Bind.bind, hp', hu]
    · obtain ⟨l, u, hu, hsame⟩ := hp.beyond most (by omega) (by omega)
      refine ⟨l, u, ?_, hsame⟩
      simp only [Bind.bind, hu]

/-- A failure of the first of two parsers is one of both. -/
theorem Spends.bind_failed {s t : State} {d : Diagnostic} {n : Nat}
    (hp : Spends s n (.failed d t : Outcome α) fun most => p (s.allowing most)) :
    Spends s n (.failed d t : Outcome β) fun most => (p >>= f) (s.allowing most) where
  nodes := hp.nodes
  within most hroom := by
    have hp' : p (s.allowing most) = .failed d (t.allowing most) := hp.within most hroom
    simp only [Bind.bind, hp']
    rfl
  beyond most hsome hfull := by
    obtain ⟨l, u, hu, hsame⟩ := hp.beyond most hsome hfull
    refine ⟨l, u, ?_, hsame⟩
    simp only [Bind.bind, hu]

/-- A change of outcomes that does not touch what is counted or found counts nothing itself. -/
theorem Spends.through {s : State} {o : Outcome α} {n : Nat} {under : Int → Outcome α}
    {g : Outcome α → Outcome β} (h : Spends s n o under)
    (hnodes : ∀ o, (g o).state.budget.nodes = o.state.budget.nodes)
    (hallowing : ∀ o most, g (o.allowing most) = (g o).allowing most)
    (hstopped : ∀ e t, ∃ u, g (.stopped e t) = .stopped e u ∧ u.found = t.found) :
    Spends s n (g o) fun most => g (under most) where
  nodes := (hnodes o).trans h.nodes
  within most hroom := by rw [h.within most hroom, hallowing]
  beyond most hsome hfull := by
    obtain ⟨l, t, ht, hsame⟩ := h.beyond most hsome hfull
    obtain ⟨u, hu, hfound⟩ := hstopped ⟨.nodes most, l⟩ t
    exact ⟨l, u, (congrArg g ht).trans hu, hfound.trans hsame⟩

/-- What is known of the value of the first parser and of what it counts may be used for the second
one. -/
theorem Meters.bind (hp : Meters p Q) (hf : ∀ a m, Meters (f a) fun b n => Q a m → R b (m + n)) :
    Meters (p >>= f) R where
  moves := hp.moves.bind fun a => (hf a 0).moves
  spends s hquiet hruns := by
    have hreach := hp.moves s
    have hfirst := hp.spends s
    have heq : (p >>= f) s = (p s).bind f := by
      simp only [Bind.bind]
      cases p s <;> rfl
    rw [heq] at hquiet hruns ⊢
    cases hps : p s with
    | stopped e t =>
        rw [hps] at hruns
        exact absurd rfl (hruns e t)
    | failed d t =>
        rw [hps] at hquiet hfirst
        obtain ⟨n, hspends, -⟩ := hfirst hquiet (by rintro _ _ ⟨⟩)
        exact ⟨n, hspends.bind_failed, by rintro _ _ ⟨⟩⟩
    | done a t =>
        rw [hps] at hquiet hruns hreach hfirst
        have hlater : t.Reaches (f a t).state := (hf a 0).moves t
        obtain ⟨hfound, hfound'⟩ := State.Reaches.found_eq hreach hlater hquiet
        obtain ⟨m, hm, hQ⟩ := hfirst hfound (by rintro _ _ ⟨⟩)
        obtain ⟨n, hn, hR⟩ := (hf a m).spends t hfound' hruns
        exact ⟨m + n, hm.bind hn hfound, fun b u hfs => hR b u hfs (hQ a t rfl)⟩

theorem Meters.pure {a : α} (h : Q a 0) : Meters (Pure.pure a) Q where
  moves := .pure a
  spends s _ _ := by
    refine ⟨0, ⟨rfl, fun _ _ => rfl, fun _ h => absurd rfl h⟩, fun b t hps => ?_⟩
    cases hps
    exact h

/-- A step that counts nothing. -/
theorem Meters.step (hp : Free p) (hf : ∀ a, Meters (f a) R) : Meters (p >>= f) R :=
  hp.bind fun a m => (hf a).mono fun b n hR hm => by rwa [hm, Nat.zero_add]

theorem Meters.map {g : α → β} (h : Meters p fun a n => R (g a) n) : Meters (g <$> p) R :=
  h.bind fun _ _ => .pure id

theorem Meters.ite {c : Prop} [Decidable c] {p q : Parser α} (hp : Meters p Q) (hq : Meters q Q) :
    Meters (if c then p else q) Q := by
  split
  · exact hp
  · exact hq

/-- Nothing is claimed where something is reported. -/
theorem meters_report (d : Diagnostic) {Q : PUnit → Nat → Prop} : Meters (report d) Q where
  moves := moves_report d
  spends s hquiet _ := absurd hquiet (List.cons_ne_self d s.found)

/-- Nothing is claimed behind a report either. -/
theorem Meters.reported {d : Diagnostic} {q : PUnit → Parser β} (hq : ∀ u, Moves (q u)) :
    Meters (report d >>= q) R where
  moves := (moves_report d).bind hq
  spends s hquiet _ := by
    have hmore := (hq ⟨⟩ { s with found := d :: s.found }).found.length_le
    have hsame : (q ⟨⟩ { s with found := d :: s.found }).state.found = s.found := hquiet
    rw [hsame, List.length_cons] at hmore
    omega

/-- Turns a failure into a value. -/
def Outcome.attempt : Outcome α → Outcome (Except Diagnostic α)
  | .done a s => .done (.ok a) s
  | .failed d s => .done (.error d) s
  | .stopped e s => .stopped e s

theorem attempt_apply (p : Parser α) (s : State) : attempt p s = (p s).attempt := by
  unfold Parser.attempt
  cases p s <;> rfl

/-- What a failure is turned into says nothing. -/
theorem Meters.attempt (h : Meters p Q) :
    Meters (attempt p) fun r n => ∀ a, r = .ok a → Q a n where
  moves := h.moves.attempt
  spends s hquiet hruns := by
    simp only [attempt_apply] at hquiet hruns ⊢
    have hfound : (p s).state.found = s.found := by
      rw [← hquiet]
      cases p s <;> rfl
    have hgoes : ∀ e t, p s ≠ .stopped e t := fun e t hps =>
      hruns e t (congrArg Outcome.attempt hps)
    obtain ⟨n, hspends, hQ⟩ := h.spends s hfound hgoes
    refine ⟨n, hspends.through ?_ ?_ fun _ t => ⟨t, rfl, rfl⟩, ?_⟩
    · rintro (_ | _ | _) <;> rfl
    · rintro (_ | _ | _) _ <;> rfl
    · rintro r t hr a rfl
      cases hps : p s with
      | done b u =>
          rw [hps] at hr
          cases hr
          exact hQ a t hps
      | failed d u | stopped e u =>
          rw [hps] at hr
          cases hr

/-! ### Steps that count nothing -/

/-- A parser that does not look at the limit on nodes and does not count any. -/
theorem free_of_same (hmoves : Moves p) (hnodes : ∀ s, (p s).state.budget.nodes = s.budget.nodes)
    (hsame : ∀ s most, p (s.allowing most) = (p s).allowing most) : Free p where
  moves := hmoves
  spends s _ _ := ⟨0, ⟨hnodes s, fun most _ => hsame s most, fun _ h => absurd rfl h⟩,
    fun _ _ _ => rfl⟩

theorem free_current : Free current := free_of_same moves_current (fun _ => rfl) fun _ _ => rfl

theorem free_second : Free second := free_of_same reads_second.moves (fun _ => rfl) fun _ _ => rfl

theorem free_remaining : Free remaining :=
  free_of_same moves_remaining (fun _ => rfl) fun _ _ => rfl

theorem free_openBlocks : Free openBlocks :=
  free_of_same reads_openBlocks.moves (fun _ => rfl) fun _ _ => rfl

theorem free_atKeyword (word : Keyword) : Free (atKeyword word) :=
  free_of_same (reads_atKeyword word).moves (fun _ => rfl) fun _ _ => rfl

theorem free_spanFrom (start : Token) : Free (spanFrom start) :=
  free_of_same (moves_spanFrom start) (fun _ => rfl) fun _ _ => rfl

theorem free_popBlock : Free popBlock :=
  free_of_same reads_popBlock.moves (fun _ => rfl) fun _ _ => rfl

theorem free_fail (d : Diagnostic) : Meters (fail d : Parser α) Q where
  moves := .refl
  spends _ _ _ := ⟨0, ⟨rfl, fun _ _ => rfl, fun _ h => absurd rfl h⟩, fun _ _ => nofun⟩

theorem free_advance : Free advance := by
  refine free_of_same moves_advance (fun s => ?_) fun s most => ?_
  · exact congrArg Budget.nodes s.budget_advance
  · exact congrArg (Outcome.done s.current) (s.advance_allowing most)

/-- Taking the current token if it passes a test. -/
theorem free_accept (test : Token → Bool) :
    Free fun s => if test s.current then .done true s.advance else .done false s := by
  refine free_of_same (fun s => ?_) (fun s => ?_) fun s most => ?_
  · show s.Reaches (if test s.current then Outcome.done true s.advance else .done false s).state
    split
    · exact s.reaches_advance
    · exact .refl s
  · show (if test s.current then Outcome.done true s.advance else .done false
      s).state.budget.nodes = _
    split
    · exact congrArg Budget.nodes s.budget_advance
    · rfl
  · show (if test s.current then Outcome.done true (s.allowing most).advance else _) =
      (if test s.current then Outcome.done true s.advance else .done false s).allowing most
    rw [s.advance_allowing]
    split <;> rfl

theorem free_acceptKeyword (word : Keyword) : Free (acceptKeyword word) :=
  free_accept (·.isKeyword word)

theorem free_acceptSign (sign : Sign) : Free (acceptSign sign) := free_accept (·.isSign sign)

theorem free_acceptTerminator : Free acceptTerminator := free_accept Token.isTerminator

theorem free_expectKeyword (word : Keyword) (context : String) (hint : Option String) :
    Free (expectKeyword word context hint) :=
  free_current.step fun _ => .ite free_advance (free_fail _)

theorem free_expectSign (sign : Sign) (context : String) (hint : Option String) :
    Free (expectSign sign context hint) :=
  free_current.step fun _ => .ite free_advance (free_fail _)

theorem free_expectTerminator (context : String) : Free (expectTerminator context) :=
  free_current.step fun _ => .ite free_advance (free_fail _)

theorem free_expectIdentifier (context what : String) : Free (expectIdentifier context what) := by
  refine free_current.step fun t => ?_
  split
  · exact free_advance
  · exact free_fail _
  · exact free_fail _

/-! ### Resources -/

/-- Spending something else than nodes. -/
theorem free_spend {use : Budget → Option Exceeded × Budget}
    (hnodes : ∀ b, (use b).2.nodes = b.nodes)
    (hsame : ∀ b most, use (b.allowing most) = ((use b).1, (use b).2.allowing most)) :
    Free (spend use) := by
  refine free_of_same (reads_spend use).moves (fun s => ?_) fun s most => ?_
  · have hused := hnodes s.budget
    unfold spend
    split <;> simp_all [Outcome.state]
  · have hused := hsame s.budget most
    unfold spend
    rw [show use (s.allowing most).budget = _ from hused]
    obtain ⟨exceeded, b⟩ := use s.budget
    cases exceeded <;> rfl

theorem free_enter (t : Token) : Free (enter t) := free_spend (fun _ => rfl) fun _ _ => rfl

theorem free_checkTime (t : Token) : Free (checkTime t) := free_spend (fun _ => rfl) fun _ _ => rfl

/-- The one step that counts a node. -/
theorem meters_countNode (t : Token) : Meters (countNode t) fun _ n => n = 1 where
  moves := moves_countNode t
  spends s _ hruns := by
    have hcount : ∀ s : State, countNode t s =
        if s.budget.limits.nodes < s.budget.nodes + 1 then
          .stopped ⟨.nodes s.budget.limits.nodes, t.span.start.location⟩
            { s with budget := { s.budget with nodes := s.budget.nodes + 1 } }
        else .done ⟨⟩ { s with budget := { s.budget with nodes := s.budget.nodes + 1 } } := by
      intro s
      unfold countNode spend Budget.countNode
      dsimp only
      split <;> simp_all
    have hroom : ¬s.budget.limits.nodes < s.budget.nodes + 1 := fun hfull =>
      hruns _ _ ((hcount s).trans (if_pos hfull))
    have hdone := (hcount s).trans (if_neg hroom)
    rw [hdone]
    refine ⟨1, ⟨rfl, fun most hmost => ?_, fun most _ hmost => ?_⟩, fun _ _ _ => rfl⟩
    · exact (hcount _).trans (if_neg (by simp [State.allowing, Budget.allowing]; omega))
    · exact ⟨_, _, (hcount _).trans (if_pos hmost), rfl⟩

/-- What is read one level deeper counts as much as elsewhere. -/
theorem Meters.exiting (h : Meters p Q) : Meters (exiting p) Q where
  moves := h.moves.exiting
  spends s hquiet hruns := by
    have hexiting : ∀ s, Parser.exiting p s = (p s).exit := fun _ => rfl
    simp only [hexiting] at hquiet hruns ⊢
    have hfound : (p s).state.found = s.found := by
      rw [← hquiet]
      cases p s <;> rfl
    have hgoes : ∀ e t, p s ≠ .stopped e t := fun e t hps =>
      hruns e t.exit (congrArg Outcome.exit hps)
    obtain ⟨n, hspends, hQ⟩ := h.spends s hfound hgoes
    refine ⟨n, hspends.through ?_ ?_ fun _ t => ⟨t.exit, rfl, rfl⟩, ?_⟩
    · rintro (_ | _ | _) <;> rfl
    · rintro (_ | _ | _) _ <;> rfl
    · intro a t ha
      cases hps : p s with
      | done b u =>
          rw [hps] at ha
          cases ha
          exact hQ a u hps
      | failed d u | stopped e u =>
          rw [hps] at ha
          cases ha

theorem Meters.nested (h : Meters p Q) (t : Token) : Meters (nested t p) Q :=
  (free_enter t).step fun _ => h.exiting

theorem free_openBlock (b : Block) (opener : Token) : Free (openBlock b opener) := by
  refine (free_enter opener).step fun _ => ?_
  refine free_of_same (fun s => ?_) (fun _ => rfl) fun _ _ => rfl
  exact ⟨List.suffix_rfl, rfl, List.suffix_rfl⟩

/-- What a construct ends with, behind its last token, counts the construct. -/
theorem meters_finish (start : Token) (value : Span → α) :
    Meters (do let span ← spanFrom start; countNode start; return value span)
      fun a n => n = 1 ∧ ∃ span, a = value span := by
  refine (free_spanFrom start).step fun span => (meters_countNode start).bind fun _ n => ?_
  exact .pure fun hn => ⟨by rw [hn], span, rfl⟩

end Parser

end Prosaic
