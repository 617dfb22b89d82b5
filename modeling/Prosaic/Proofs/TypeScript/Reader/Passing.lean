import Prosaic.Proofs.TypeScript.Reader.Tree

/-!
What is read without type arguments. Behind an operand, a reader tries type arguments before it
takes a sign for less as an operator. So where there are no type arguments in what it has read, no
sign for less that it has passed starts any.
-/

namespace Prosaic.TypeScript

namespace Reader

section

variable {rules : TypeRules} {ts us rest : List Lexeme}

/-! ### Tokens -/

/-- From the first tokens on to the others, no sign for less is passed that starts type
arguments. -/
structure Passes (rules : TypeRules) (ts rest : List Lexeme) : Prop where
  suffix : rest <:+ ts
  shorter : rest.length < ts.length
  clear : ∀ us, .mark "<" :: us <:+ ts → rest.length ≤ us.length → rules.arguments us = none

/-- A sign for less that comes next starts no type arguments. -/
def Ends (rules : TypeRules) (rest : List Lexeme) : Prop :=
  ∀ us, rest = .mark "<" :: us → rules.arguments us = none

/-- One token is passed. -/
theorem passes_cons {t : Lexeme} (h : Ends rules (t :: ts)) : Passes rules (t :: ts) ts := by
  refine ⟨List.suffix_cons t ts, Nat.lt_succ_self _, fun us hus hlength => ?_⟩
  rcases List.suffix_cons_iff.mp hus with heq | hin
  · exact h us heq.symm
  · have hle := hin.length_le
    rw [List.length_cons] at hle
    omega

theorem ends_cons {t : Lexeme} (h : t ≠ .mark "<") : Ends rules (t :: ts) := by
  rintro us heq
  exact absurd (List.cons.inj heq).1 h

theorem Passes.trans (h : Passes rules ts us) (h' : Passes rules us rest) :
    Passes rules ts rest := by
  refine ⟨h'.suffix.trans h.suffix, h'.shorter.trans h.shorter, fun vs hvs hlength => ?_⟩
  by_cases hpast : us.length ≤ vs.length
  · exact h.clear vs hvs hpast
  · have hin : .mark "<" :: vs <:+ us := by
      refine List.suffix_of_suffix_length_le hvs h.suffix ?_
      rw [List.length_cons]
      omega
    exact h'.clear vs hin hlength

/-- A token that is no sign for less is passed behind others. -/
theorem Passes.snoc {t : Lexeme} (h : Passes rules ts (t :: us)) (ht : t ≠ .mark "<") :
    Passes rules ts us :=
  h.trans (passes_cons (ends_cons ht))

theorem Passes.cons {t : Lexeme} (h : Passes rules ts us) (ht : t ≠ .mark "<") :
    Passes rules (t :: ts) us :=
  (passes_cons (ends_cons ht)).trans h

/-- Where everything is passed, no sign for less starts type arguments. -/
theorem Passes.clear_of_nil (h : Passes rules ts []) : rules.Clear ts :=
  fun us hus => h.clear us hus (Nat.zero_le _)

/-! ### Readers -/

/-- A reader takes an expression without type arguments only from tokens that it may pass. -/
def Tracks (rules : TypeRules) (p : Reader Tree) : Prop :=
  ∀ ⦃ts e rest⦄, p ts = some (e, rest) → e.Everywhere Tree.Bare →
    Passes rules ts rest ∧ e.Everywhere rules.Casts

/-- A reader that also stops before a sign for less only where that starts no type arguments. -/
def TracksToEnd (rules : TypeRules) (p : Reader Tree) : Prop :=
  ∀ ⦃ts e rest⦄, p ts = some (e, rest) → e.Everywhere Tree.Bare →
    Passes rules ts rest ∧ e.Everywhere rules.Casts ∧ Ends rules rest

theorem TracksToEnd.tracks {p : Reader Tree} (h : TracksToEnd rules p) : Tracks rules p :=
  fun _ _ _ hread hbare => ⟨(h hread hbare).1, (h hread hbare).2.1⟩

end

/-! ### Inversions -/

section

variable {α : Type} {ts rest : List Lexeme}

theorem goOn_invariant {step : α → Reader α} {motive : α → List Lexeme → Prop}
    (hstep : ∀ {a ts b rest}, motive a ts → step a ts = some (b, rest) → motive b rest)
    {n : Nat} {a b : α}
    (hinv : motive a ts) (h : goOn step n a ts = some (b, rest)) : motive b rest := by
  induction n generalizing a ts with
  | zero =>
      cases h
      exact hinv
  | succ n ih =>
      rw [goOn] at h
      split at h
      · next hnext => exact ih (hstep hinv hnext) h
      · cases h
        exact hinv

/-- Going on ends where no step can be made, as long as every step takes tokens. -/
theorem goOn_stops {step : α → Reader α} {good : α → Prop}
    (hstep : ∀ {a ts b rest}, step a ts = some (b, rest) → good b →
      good a ∧ rest.length < ts.length)
    {n : Nat} {a b : α} (hn : ts.length ≤ n) (h : goOn step n a ts = some (b, rest)) (hb : good b) :
    rest = [] ∨ step b rest = none := by
  induction n generalizing a ts with
  | zero =>
      cases h
      exact .inl (List.length_eq_zero_iff.mp (Nat.le_zero.mp hn))
  | succ n ih =>
      rw [goOn] at h
      split at h
      · next c us hnext =>
          have hc : good c := goOn_invariant (motive := fun x _ => good x → good c)
            (fun hinv hnext hgood => hinv (hstep hnext hgood).1) id h hb
          have hshorter := (hstep hnext hc).2
          exact ih (by omega) h
      · next hnone =>
          cases h
          exact .inr hnone

theorem chain_cases {first : Reader α} {step : α → Reader α} {b : α}
    (h : chain first step ts = some (b, rest)) :
    ∃ a us, first ts = some (a, us) ∧ goOn step ts.length a us = some (b, rest) := by
  obtain ⟨⟨a, us⟩, hfirst, hsteps⟩ := Option.bind_eq_some_iff.mp h
  exact ⟨a, us, hfirst, hsteps⟩

theorem closed_cases {inner : Reader α} {a : α} (h : closed inner ts = some (a, rest)) :
    inner ts = some (a, .mark ")" :: rest) := by
  obtain ⟨⟨b, us⟩, hinner, h⟩ := Option.bind_eq_some_iff.mp h
  dsimp only at h
  split at h
  · next hhead =>
      obtain ⟨vs, rfl⟩ := List.head?_eq_some_iff.mp hhead
      cases h
      exact hinner
  · cases h

theorem list_cases {element : Reader α} {close : String} {as : List α}
    (h : list element close ts = some (as, rest)) :
    (as = [] ∧ ts = .mark close :: rest) ∨ ∃ a bs us, as = a :: bs ∧ element ts = some (a, us) ∧
      listRest element close us.length us = some (bs, rest) := by
  unfold list at h
  split at h
  · next hhead =>
      obtain ⟨vs, rfl⟩ := List.head?_eq_some_iff.mp hhead
      cases h
      exact .inl ⟨rfl, rfl⟩
  · obtain ⟨⟨a, us⟩, helement, h⟩ := Option.bind_eq_some_iff.mp h
    obtain ⟨⟨bs, vs⟩, hrest, h⟩ := Option.bind_eq_some_iff.mp h
    cases h
    exact .inr ⟨a, bs, us, rfl, helement, hrest⟩

theorem listRest_cases {element : Reader α} {close : String} {n : Nat} {as : List α}
    (h : listRest element close n ts = some (as, rest)) :
    (as = [] ∧ ts = .mark close :: rest) ∨ ∃ m a bs us vs, n = m + 1 ∧ as = a :: bs ∧
      ts = .mark "," :: us ∧ element us = some (a, vs) ∧
        listRest element close m vs = some (bs, rest) := by
  unfold listRest at h
  split at h
  · next n m us =>
      split at h
      · next hclose =>
          cases h
          exact .inl ⟨rfl, by rw [hclose]⟩
      · split at h
        · next hcomma =>
            obtain ⟨⟨a, vs⟩, helement, h⟩ := Option.bind_eq_some_iff.mp h
            obtain ⟨⟨bs, ws⟩, hrest, h⟩ := Option.bind_eq_some_iff.mp h
            cases h
            exact .inr ⟨n, a, bs, us, vs, rfl, rfl, by rw [hcomma], helement, hrest⟩
        · cases h
  · cases h

end

section

variable {rules : TypeRules} {inner : Bool → Reader Tree} {ts rest : List Lexeme} {e e' : Tree}

theorem operand_cases (h : operand rules inner ts = some (e, rest)) :
    (∃ t, ts = t :: rest ∧ t ≠ .mark "<" ∧ e.Everywhere rules.Casts) ∨
    (∃ us, ts = .mark "(" :: us ∧ closed (inner true) us = some (e, rest)) ∨
    ∃ us es, ts = .mark "[" :: us ∧
      list (inner rules.castsAnywhere) "]" us = some (es, rest) ∧ e = .array es := by
  unfold operand at h
  split at h
  · cases h
    exact .inl ⟨_, rfl, nofun, trivial⟩
  · cases h
    exact .inl ⟨_, rfl, nofun, trivial⟩
  · split at h
    · cases h
      exact .inl ⟨_, rfl, nofun, trivial⟩
    · split at h
      · cases h
        exact .inl ⟨_, rfl, nofun, trivial⟩
      · split at h
        · cases h
        · cases h
          exact .inl ⟨_, rfl, nofun, trivial⟩
  · split at h
    · next hopen =>
        subst hopen
        exact .inr (.inl ⟨_, rfl, h⟩)
    · split at h
      · next hopen =>
          subst hopen
          obtain ⟨⟨es, us⟩, hlist, h⟩ := Option.bind_eq_some_iff.mp h
          cases h
          exact .inr (.inr ⟨_, es, rfl, hlist, rfl⟩)
      · cases h
  · cases h

theorem suffix_cases (h : suffix rules inner e ts = some (e', rest)) :
    (∃ name, ts = .mark "." :: .word name :: rest ∧ e' = .member e name) ∨
    (∃ us es, ts = .mark "(" :: us ∧
      list (inner rules.castsAnywhere) ")" us = some (es, rest) ∧ e' = .call e es) ∨
    ∃ types, e' = .instantiated e types := by
  unfold suffix at h
  split at h
  · split at h
    · next hpoint =>
        subst hpoint
        split at h
        · cases h
          exact .inl ⟨_, rfl, rfl⟩
        · cases h
    · split at h
      · next hopen =>
          subst hopen
          obtain ⟨⟨es, us⟩, hlist, h⟩ := Option.bind_eq_some_iff.mp h
          cases h
          exact .inr (.inl ⟨_, es, rfl, hlist, rfl⟩)
      · split at h
        · obtain ⟨⟨types, us⟩, -, h⟩ := Option.bind_eq_some_iff.mp h
          cases h
          exact .inr (.inr ⟨types, rfl⟩)
        · cases h
  · cases h

/-- Where nothing can be read behind an operand, there are no type arguments. -/
theorem ends_of_suffix_eq_none (h : suffix rules inner e ts = none) : Ends rules ts := by
  rintro us rfl
  have hnone : (rules.arguments us).bind (fun r => some (Tree.instantiated e r.1, r.2)) = none := h
  cases hread : rules.arguments us with
  | none => rfl
  | some r =>
      rw [hread] at hnone
      cases hnone

theorem operation_cases {casts : Bool} {p : Nat} {right : Reader Tree}
    (h : operation rules casts p right e ts = some (e', rest)) :
    (∃ t us op r, ts = t :: us ∧ right us = some (r, rest) ∧ e' = .binary op e r) ∨
    ∃ type, ts = .word "as" :: .word type :: rest ∧ e' = .cast e type ∧ type ∉ rules.refused ∧
      rest.head? ≠ some (.mark "<") := by
  unfold operation at h
  split at h
  · obtain ⟨op, -, h⟩ := Option.bind_eq_some_iff.mp h
    split at h
    · obtain ⟨⟨r, us⟩, hright, h⟩ := Option.bind_eq_some_iff.mp h
      cases h
      exact .inl ⟨_, _, op, r, rfl, hright, rfl⟩
    · cases h
  · split at h
    · next hcast =>
        obtain ⟨-, -, rfl, htype, hless⟩ := hcast
        cases h
        exact .inr ⟨_, rfl, rfl, htype, hless⟩
    · cases h
  · cases h

theorem prefixOf?_cases {t : Lexeme} {apply : Tree → Tree} (h : prefixOf? t = some apply) :
    t ≠ .mark "<" ∧ ((∃ op, apply = .unary op) ∨ apply = .await) := by
  unfold prefixOf? at h
  split at h
  · split at h
    · next hnot =>
        cases h
        exact ⟨by rw [hnot]; decide, .inl ⟨_, rfl⟩⟩
    · split at h
      · next hnegate =>
          cases h
          exact ⟨by rw [hnegate]; decide, .inl ⟨_, rfl⟩⟩
      · cases h
  · split at h
    · cases h
      exact ⟨nofun, .inr rfl⟩
    · cases h
  · cases h

theorem prefixed_cases (h : prefixed rules inner ts = some (e, rest)) :
    (∃ t us apply e₀, ts = t :: us ∧ prefixOf? t = some apply ∧
      prefixed rules inner us = some (e₀, rest) ∧ e = apply e₀) ∨
    chain (operand rules inner) (suffix rules inner) ts = some (e, rest) := by
  cases ts with
  | nil => cases h
  | cons t us =>
      rw [prefixed] at h
      split at h
      · next apply hprefix =>
          obtain ⟨⟨e₀, vs⟩, hread, h⟩ := Option.map_eq_some_iff.mp h
          cases h
          exact .inl ⟨t, us, apply, e₀, rfl, hprefix, hread, rfl⟩
      · exact .inr h

end

/-! ### Rules -/

section

variable {rules : TypeRules} {inner : Bool → Reader Tree}

theorem Tracks.closed {p : Reader Tree} (h : Tracks rules p) : Tracks rules (closed p) := by
  intro ts e rest hread hbare
  obtain ⟨hpasses, hcasts⟩ := h (closed_cases hread) hbare
  exact ⟨hpasses.snoc nofun, hcasts⟩

theorem Tracks.listRest {element : Reader Tree} (h : Tracks rules element) {close : String}
    (hclose : close ≠ "<") {n : Nat} {ts rest : List Lexeme} {es : List Tree}
    (hread : listRest element close n ts = some (es, rest))
    (hbare : Tree.EverywhereIn Tree.Bare es) :
    Passes rules ts rest ∧ Tree.EverywhereIn rules.Casts es := by
  have hmark : Lexeme.mark close ≠ .mark "<" := fun heq => hclose (Lexeme.mark.inj heq)
  induction es generalizing n ts with
  | nil =>
      rcases listRest_cases hread with ⟨-, rfl⟩ | ⟨m, a, bs, us, vs, -, hcons, -⟩
      · exact ⟨passes_cons (ends_cons hmark), trivial⟩
      · cases hcons
  | cons e es ih =>
      rcases listRest_cases hread with ⟨hnil, -⟩ | ⟨m, a, bs, us, vs, -, hcons, rfl, hfirst, hrest⟩
      · cases hnil
      · cases hcons
        obtain ⟨hpasses, hcasts⟩ := h hfirst hbare.1
        obtain ⟨hpasses', hcasts'⟩ := ih hrest hbare.2
        exact ⟨(hpasses.trans hpasses').cons nofun, hcasts, hcasts'⟩

theorem Tracks.list {element : Reader Tree} (h : Tracks rules element) {close : String}
    (hclose : close ≠ "<") {ts rest : List Lexeme} {es : List Tree}
    (hread : list element close ts = some (es, rest)) (hbare : Tree.EverywhereIn Tree.Bare es) :
    Passes rules ts rest ∧ Tree.EverywhereIn rules.Casts es := by
  rcases list_cases hread with ⟨rfl, rfl⟩ | ⟨e, bs, us, rfl, hfirst, hrest⟩
  · exact ⟨passes_cons (ends_cons fun heq => hclose (Lexeme.mark.inj heq)), trivial⟩
  · obtain ⟨hpasses, hcasts⟩ := h hfirst hbare.1
    obtain ⟨hpasses', hcasts'⟩ := h.listRest hclose hrest hbare.2
    exact ⟨hpasses.trans hpasses', hcasts, hcasts'⟩

variable (hinner : ∀ casts, Tracks rules (inner casts))

include hinner

theorem tracks_operand : Tracks rules (operand rules inner) := by
  intro ts e rest hread hbare
  rcases operand_cases hread with
    ⟨t, rfl, ht, hcasts⟩ | ⟨us, rfl, hclosed⟩ | ⟨us, es, rfl, hlist, rfl⟩
  · exact ⟨passes_cons (ends_cons ht), hcasts⟩
  · obtain ⟨hpasses, hcasts⟩ := (hinner true).closed hclosed hbare
    exact ⟨hpasses.cons nofun, hcasts⟩
  · obtain ⟨hpasses, hcasts⟩ := (hinner _).list (by decide) hlist hbare.2
    exact ⟨hpasses.cons nofun, trivial, hcasts⟩

/-- What follows an operand at once goes on from it. -/
theorem suffix_tracks {ts rest : List Lexeme} {e e' : Tree}
    (hread : suffix rules inner e ts = some (e', rest)) (hbare : e'.Everywhere Tree.Bare) :
    e.Everywhere Tree.Bare ∧ Passes rules ts rest ∧
      (e.Everywhere rules.Casts → e'.Everywhere rules.Casts) := by
  rcases suffix_cases hread with ⟨name, rfl, rfl⟩ | ⟨us, es, rfl, hlist, rfl⟩ | ⟨types, rfl⟩
  · have hname : Passes rules (.word name :: rest) rest := passes_cons (ends_cons nofun)
    exact ⟨hbare.2, hname.cons nofun, fun hcasts => ⟨trivial, hcasts⟩⟩
  · obtain ⟨hpasses, hcasts'⟩ := (hinner _).list (by decide) hlist hbare.2.2
    exact ⟨hbare.2.1, hpasses.cons nofun, fun hcasts => ⟨trivial, hcasts, hcasts'⟩⟩
  · exact hbare.1.elim

/-- An operand with what follows it at once stops before a sign for less only after type arguments
have been tried. -/
theorem tracksToEnd_operand :
    TracksToEnd rules (chain (operand rules inner) (suffix rules inner)) := by
  intro ts e rest hread hbare
  obtain ⟨e₀, us, hfirst, hsteps⟩ := chain_cases hread
  have hoperand := tracks_operand hinner hfirst
  obtain ⟨hpasses, hcasts⟩ := goOn_invariant
    (motive := fun e us => e.Everywhere Tree.Bare → Passes rules ts us ∧ e.Everywhere rules.Casts)
    (fun hinv hnext hbare => by
      obtain ⟨hbefore, hpasses', hcasts'⟩ := suffix_tracks hinner hnext hbare
      obtain ⟨hpasses, hcasts⟩ := hinv hbefore
      exact ⟨hpasses.trans hpasses', hcasts' hcasts⟩)
    hoperand hsteps hbare
  have hbare₀ : e₀.Everywhere Tree.Bare := goOn_invariant
    (motive := fun e _ => e.Everywhere Tree.Bare → e₀.Everywhere Tree.Bare)
    (fun hinv hnext hbare => hinv (suffix_tracks hinner hnext hbare).1) id hsteps hbare
  have hlength : us.length ≤ ts.length := (hoperand hbare₀).1.shorter.le
  refine ⟨hpasses, hcasts, ?_⟩
  rcases goOn_stops (fun hnext hbare => ⟨(suffix_tracks hinner hnext hbare).1,
    (suffix_tracks hinner hnext hbare).2.1.shorter⟩) hlength hsteps hbare with rfl | hnone
  · exact nofun
  · exact ends_of_suffix_eq_none hnone

theorem tracksToEnd_prefixed : TracksToEnd rules (prefixed rules inner) := by
  intro ts e rest hread hbare
  induction ts generalizing e with
  | nil => cases hread
  | cons t us ih =>
      rcases prefixed_cases hread with ⟨_, _, apply, e₀, heq, hprefix, hoperand, rfl⟩ | hchain
      · cases heq
        obtain ⟨ht, hop⟩ := prefixOf?_cases hprefix
        rcases hop with ⟨op, rfl⟩ | rfl
        · obtain ⟨hpasses, hcasts, hends⟩ := ih hoperand hbare.2
          exact ⟨hpasses.cons ht, ⟨trivial, hcasts⟩, hends⟩
        · obtain ⟨hpasses, hcasts, hends⟩ := ih hoperand hbare.2
          exact ⟨hpasses.cons ht, ⟨trivial, hcasts⟩, hends⟩
      · exact tracksToEnd_operand hinner hchain hbare

omit hinner

theorem operation_tracks {casts : Bool} {p : Nat} {right : Reader Tree}
    (hright : TracksToEnd rules right) {ts rest : List Lexeme} {e e' : Tree}
    (hread : operation rules casts p right e ts = some (e', rest))
    (hbare : e'.Everywhere Tree.Bare) :
    e.Everywhere Tree.Bare ∧ (Ends rules ts → Passes rules ts rest) ∧
      (e.Everywhere rules.Casts → e'.Everywhere rules.Casts) ∧ Ends rules rest := by
  rcases operation_cases hread with ⟨t, us, op, r, rfl, hr, rfl⟩ | ⟨type, rfl, rfl, htype, hless⟩
  · obtain ⟨hpasses, hcasts', hends⟩ := hright hr hbare.2.2
    exact ⟨hbare.2.1, fun hstart => (passes_cons hstart).trans hpasses,
      fun hcasts => ⟨trivial, hcasts, hcasts'⟩, hends⟩
  · have hword : Passes rules (.word type :: rest) rest := passes_cons (ends_cons nofun)
    refine ⟨hbare.2, fun _ => hword.cons nofun, fun hcasts => ⟨htype, hcasts⟩, ?_⟩
    rintro us rfl
    exact absurd rfl hless

theorem tracksToEnd_rung {casts : Bool} {unary : Reader Tree} (hunary : TracksToEnd rules unary)
    (k : Nat) : TracksToEnd rules (rung rules casts unary k) := by
  induction k with
  | zero => exact hunary
  | succ k ih =>
      intro ts e rest hread hbare
      obtain ⟨e₀, us, hfirst, hsteps⟩ := chain_cases hread
      refine goOn_invariant (motive := fun e us => e.Everywhere Tree.Bare →
        Passes rules ts us ∧ e.Everywhere rules.Casts ∧ Ends rules us) ?_ (ih hfirst) hsteps hbare
      intro a us b vs hinv hnext hbare
      obtain ⟨hbefore, hpasses', hcasts', hends'⟩ := operation_tracks ih hnext hbare
      obtain ⟨hpasses, hcasts, hends⟩ := hinv hbefore
      exact ⟨hpasses.trans (hpasses' hends), hcasts' hcasts, hends'⟩

theorem tracks_expressionUpTo (d : Nat) (casts : Bool) :
    Tracks rules (expressionUpTo rules d casts) := by
  induction d generalizing casts with
  | zero => exact nofun
  | succ d ih => exact (tracksToEnd_rung (tracksToEnd_prefixed ih) 6).tracks

end

end Reader

/-- In a text that is read as an expression without type arguments, no sign for less starts any, and
nothing is cast to what can be no type. -/
theorem clear_of_read {rules : TypeRules} {text : String} {ts : List Lexeme} {e : Tree}
    (hread : read rules text = some e) (hlexemes : lexemes? text = some ts)
    (hbare : e.Everywhere Tree.Bare) : rules.Clear ts ∧ e.Everywhere rules.Casts := by
  simp only [read, hlexemes, Option.bind_eq_bind, Option.bind_some] at hread
  obtain ⟨⟨e', rest⟩, hexpression, hread⟩ := Option.bind_eq_some_iff.mp hread
  split at hread
  · next hrest =>
      subst hrest
      cases hread
      obtain ⟨hpasses, hcasts⟩ := Reader.tracks_expressionUpTo _ _ hexpression hbare
      exact ⟨hpasses.clear_of_nil, hcasts⟩
  · cases hread

end Prosaic.TypeScript
