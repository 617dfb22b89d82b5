import Prosaic.Proofs.Pairing.Basic
import Prosaic.Proofs.Token.Layout
import Prosaic.Proofs.Token.Selection

/-!
The tokens of a node. The text of a node goes from the start of its first token to the end of its
last one. Where its parts have tokens of their own, one behind the other, the texts of the parts lie
in the text of the node, one behind the other.

`Consumes c ts p Q` says of a parser that behind some tokens of its rule it takes further ones, and
which tokens its rule has taken then. So the end of the token before, from which spans are made, is
known to be the end of the last of these tokens.
-/

namespace Prosaic

variable {α β : Type}

/-! ### Texts of tokens -/

namespace Span

/-- The text from the start of the first of some tokens to the end of the last one. -/
def Over (span : Span) (ts : List Token) : Prop :=
  ∃ first ∈ ts.head?, ∃ last ∈ ts.getLast?, span = ⟨first.span.start, last.span.stop⟩

/-- One text lies in another one. -/
structure Contains (a b : Span) : Prop where
  start : a.start.offset ≤ b.start.offset
  stop : b.stop.offset ≤ a.stop.offset

/-- One text ends where or before another one starts. -/
def Before (a b : Span) : Prop := a.stop.offset ≤ b.start.offset

theorem over_singleton (t : Token) : t.span.Over [t] := ⟨t, rfl, t, rfl, rfl⟩

theorem Over.ne_nil {span : Span} {ts : List Token} (h : span.Over ts) : ts ≠ [] := by
  obtain ⟨_, hfirst, -⟩ := h
  rintro rfl
  cases hfirst

end Span

/-- Tokens that stand one behind the other. -/
structure Ordered (ts : List Token) : Prop where
  apart : ts.Pairwise fun a b => a.span.stop.offset ≤ b.span.start.offset
  forward : ∀ t ∈ ts, t.span.start.offset ≤ t.span.stop.offset

theorem Token.ordered_of_scan {source : String} {tokens : List Token}
    (h : Token.scan source = .ok tokens) : Ordered tokens where
  apart := (scan_lossless h).ordered.imp And.right
  forward t ht := ((scan_lossless h).sliced t ht).1

namespace Ordered

variable {ts us : List Token}

theorem sublist (h : Ordered ts) (hus : us.Sublist ts) : Ordered us where
  apart := h.apart.sublist hus
  forward t ht := h.forward t (hus.subset ht)

theorem start_le (h : Ordered ts) {first t : Token} (hfirst : first ∈ ts.head?) (ht : t ∈ ts) :
    first.span.start.offset ≤ t.span.start.offset := by
  obtain ⟨later, rfl⟩ := List.head?_eq_some_iff.mp hfirst
  rcases List.mem_cons.mp ht with rfl | ht
  · exact Nat.le_refl _
  · have hstop := (List.pairwise_cons.mp h.apart).1 t ht
    exact (h.forward first List.mem_cons_self).trans hstop

theorem stop_le (h : Ordered ts) {last t : Token} (hlast : last ∈ ts.getLast?) (ht : t ∈ ts) :
    t.span.stop.offset ≤ last.span.stop.offset := by
  obtain ⟨front, rfl⟩ := List.getLast?_eq_some_iff.mp hlast
  rcases List.mem_append.mp ht with ht | ht
  · have hstop := (List.pairwise_append.mp h.apart).2.2 t ht last List.mem_cons_self
    exact hstop.trans (h.forward last (List.mem_append_right _ List.mem_cons_self))
  · rw [List.mem_singleton.mp ht]

/-- Some of the tokens stand in a part of the text of all. -/
theorem contains (h : Ordered ts) {a b : Span} (ha : a.Over ts) (hus : us <:+: ts)
    (hb : b.Over us) : a.Contains b := by
  obtain ⟨first, hfirst, last, hlast, rfl⟩ := ha
  obtain ⟨u, hu, v, hv, rfl⟩ := hb
  exact ⟨h.start_le hfirst (hus.subset (List.mem_of_mem_head? hu)),
    h.stop_le hlast (hus.subset (List.mem_of_mem_getLast? hv))⟩

/-- The text of some tokens ends before that of later ones starts. -/
theorem before (h : Ordered (ts ++ us)) {a b : Span} (ha : a.Over ts) (hb : b.Over us) :
    a.Before b := by
  obtain ⟨_, -, last, hlast, rfl⟩ := ha
  obtain ⟨first, hfirst, _, -, rfl⟩ := hb
  exact (List.pairwise_append.mp h.apart).2.2 last (List.mem_of_mem_getLast? hlast) first
    (List.mem_of_mem_head? hfirst)

end Ordered

/-! ### Parts -/

/-- Some things have tokens of their own among some tokens, one behind the other. Other tokens may
stand before, between and behind them. -/
inductive Laid (P : α → List Token → Prop) : List α → List Token → Prop
  | nil {ts : List Token} : Laid P [] ts
  | cons {skipped run rest : List Token} {a : α} {as : List α} (ha : P a run)
      (has : Laid P as rest) : Laid P (a :: as) (skipped ++ run ++ rest)

namespace Laid

variable {P : α → List Token → Prop} {a : α} {as bs : List α} {ts us : List Token}

theorem skip (skipped : List Token) (h : Laid P as ts) : Laid P as (skipped ++ ts) := by
  cases h with
  | nil => exact .nil
  | @cons more run rest a as ha has =>
      rw [← List.append_assoc, ← List.append_assoc]
      exact .cons ha has

theorem single (ha : P a ts) : Laid P [a] ts := by
  have h : Laid P [a] ([] ++ ts ++ []) := .cons ha .nil
  rwa [List.nil_append, List.append_nil] at h

theorem append (has : Laid P as ts) (hbs : Laid P bs us) : Laid P (as ++ bs) (ts ++ us) := by
  induction has with
  | nil => exact hbs.skip _
  | cons ha _ ih =>
      rw [List.append_assoc]
      exact .cons ha ih

/-- Nothing more has to stand behind. -/
theorem extend (has : Laid P as ts) (us : List Token) : Laid P as (ts ++ us) := by
  have h : Laid P (as ++ []) (ts ++ us) := has.append .nil
  rwa [List.append_nil] at h

theorem map {Q : β → List Token → Prop} {f : α → β} (h : Laid P as ts)
    (hPQ : ∀ a us, P a us → Q (f a) us) : Laid Q (as.map f) ts := by
  induction h with
  | nil => exact .nil
  | cons ha _ ih => exact .cons (hPQ _ _ ha) ih

/-- What is optional, if it is there. -/
theorem toList {a? : Option α} (h : ∀ a ∈ a?, P a ts) : Laid P a?.toList ts := by
  cases a? with
  | none => exact .nil
  | some a => exact .single (h a rfl)

theorem exists_run (h : Laid P as ts) (ha : a ∈ as) : ∃ run, run <:+: ts ∧ P a run := by
  induction h with
  | nil => cases ha
  | @cons skipped run rest b bs hb _ ih =>
      rcases List.mem_cons.mp ha with rfl | ha
      · exact ⟨run, List.infix_append _ _ _, hb⟩
      · obtain ⟨own, hown, hP⟩ := ih ha
        exact ⟨own, hown.trans (List.suffix_append _ _).isInfix, hP⟩

/-- Texts of tokens that stand one behind the other do so as well. -/
theorem ordered {parts : List Span} (h : Laid Span.Over parts ts) (hts : Ordered ts) :
    parts.Pairwise Span.Before := by
  induction h with
  | nil => exact .nil
  | @cons skipped run rest part parts hpart hparts ih =>
      have hrest : Ordered rest := hts.sublist (List.sublist_append_right _ _)
      refine List.pairwise_cons.mpr ⟨fun later hlater => ?_, ih hrest⟩
      obtain ⟨own, hown, hlater⟩ := hparts.exists_run hlater
      have hboth : Ordered (run ++ own) :=
        hts.sublist ((List.sublist_append_right _ _).append hown.sublist)
      exact hboth.before hpart hlater

end Laid

/-! ### Nodes -/

/-- A node as far as its text goes: where it stands, and where its children and names do, in the
order in which they are read. -/
structure Extent where
  span : Span
  parts : List Span

namespace Extent

variable {x : Extent} {xs ys : List Extent} {ts us : List Token}

/-- The parts lie in the node, one behind the other. -/
structure Nests (x : Extent) : Prop where
  contains : ∀ part ∈ x.parts, x.span.Contains part
  ordered : x.parts.Pairwise Span.Before

/-- Some tokens among others have the text of a node, and its parts have tokens of their own among
these. -/
def In (ts : List Token) (x : Extent) : Prop :=
  ∃ run, run <:+: ts ∧ x.span.Over run ∧ Laid Span.Over x.parts run

theorem In.nests (hx : x.In ts) (hts : Ordered ts) : x.Nests := by
  obtain ⟨run, hrun, hspan, hparts⟩ := hx
  have hordered := hts.sublist hrun.sublist
  refine ⟨fun part hpart => ?_, hparts.ordered hordered⟩
  obtain ⟨own, hown, hover⟩ := hparts.exists_run hpart
  exact hordered.contains hspan hown hover

/-- Nodes among some tokens. -/
def AllIn (ts : List Token) (xs : List Extent) : Prop := ∀ x ∈ xs, x.In ts

namespace AllIn

theorem nil : AllIn ts [] := nofun

theorem append (hxs : AllIn ts xs) (hys : AllIn ts ys) : AllIn ts (xs ++ ys) :=
  List.forall_mem_append.mpr ⟨hxs, hys⟩

theorem mono (hxs : AllIn us xs) (hus : us <:+: ts) : AllIn ts xs := by
  intro x hx
  obtain ⟨run, hrun, hx⟩ := hxs x hx
  exact ⟨run, hrun.trans hus, hx⟩

theorem skip (skipped : List Token) (hxs : AllIn ts xs) : AllIn (skipped ++ ts) xs :=
  hxs.mono (List.suffix_append _ _).isInfix

theorem extend (hxs : AllIn ts xs) (us : List Token) : AllIn (ts ++ us) xs :=
  hxs.mono (List.prefix_append _ _).isInfix

/-- A node and what is below it. -/
theorem node {span : Span} {parts : List Span} (hspan : span.Over ts)
    (hparts : Laid Span.Over parts ts) (hbelow : AllIn ts xs) : AllIn ts (⟨span, parts⟩ :: xs) :=
  List.forall_mem_cons.mpr ⟨⟨ts, List.infix_rfl, hspan, hparts⟩, hbelow⟩

theorem flatMap {α : Type} {P : α → List Token → Prop} {f : α → List Extent} {as : List α}
    (has : Laid P as ts) (hf : ∀ a us, P a us → AllIn us (f a)) : AllIn ts (as.flatMap f) := by
  induction has with
  | nil => exact nil
  | cons ha _ ih =>
      rw [List.flatMap_cons]
      exact (((hf _ _ ha).skip _).extend _).append (ih.skip _)

/-- A node without parts. -/
theorem leaf {span : Span} (hspan : span.Over ts) : AllIn ts [⟨span, []⟩] := node hspan .nil nil

end AllIn

end Extent

namespace Parser

variable {p : Parser α} {f : α → Parser β}

/-! ### States -/

/-- What a rule starts with: the tokens to come, and the end of the token before. -/
structure Lead where
  tokens : List Token
  before : Option Position

/-- The state behind the first ones of the tokens that a rule starts with. -/
structure State.Behind (c : Lead) (ts : List Token) (s : State) : Prop where
  rest : c.tokens = ts ++ s.rest
  last : s.last = (ts.getLast?.map fun t => t.span.stop).or c.before
  stop : s.stop.isEof = true

/-- An outcome behind some of the tokens and perhaps more. Of a value something is known, and of the
tokens that were taken for it. -/
inductive Outcome.Behind (c : Lead) (ts : List Token) (Q : List Token → α → Prop) :
    Outcome α → Prop
  | done {us : List Token} {a : α} {s : State} (hs : s.Behind c (ts ++ us)) (ha : Q (ts ++ us) a) :
    Outcome.Behind c ts Q (.done a s)
  | failed {us : List Token} {d : Diagnostic} {s : State} (hs : s.Behind c (ts ++ us)) :
    Outcome.Behind c ts Q (.failed d s)
  | stopped {us : List Token} {e : Exceeded} {s : State} (hs : s.Behind c (ts ++ us)) :
    Outcome.Behind c ts Q (.stopped e s)

/-- A parser goes on behind some tokens. -/
def Consumes (c : Lead) (ts : List Token) (p : Parser α) (Q : List Token → α → Prop) : Prop :=
  ∀ s : State, s.Behind c ts → (p s).Behind c ts Q

/-- A parser starts a rule of its own, wherever that is. -/
abbrev Begins (p : Parser α) (Q : List Token → α → Prop) : Prop := ∀ c, Consumes c [] p Q

/-- A token comes next, or the end does. -/
def Lead.Faces (c : Lead) (ts : List Token) (t : Token) : Prop :=
  (∃ later, c.tokens = ts ++ t :: later) ∨ c.tokens = ts ∧ t.isEof = true

variable {c : Lead} {ts us : List Token} {t u : Token} {Q Q' : List Token → α → Prop}
  {R : List Token → β → Prop}

theorem Lead.Faces.here (h : c.Faces ts t) {k : Token.Kind} (ht : t.kind = k) (hk : k ≠ .eof) :
    ∃ later, c.tokens = ts ++ t :: later := by
  rcases h with h | ⟨-, heof⟩
  · exact h
  · exact absurd (ht.symm.trans (of_decide_eq_true heof)) hk

/-- If tokens are taken, the first one is the one that comes next. -/
theorem Lead.Faces.head {later : List Token} (h : c.Faces ts t)
    (hall : c.tokens = ts ++ us ++ later) (hus : us ≠ []) : t ∈ us.head? := by
  obtain ⟨u, run, rfl⟩ := List.exists_cons_of_ne_nil hus
  rw [List.append_assoc] at hall
  rcases h with ⟨later, hnext⟩ | ⟨hend, -⟩
  · have heq := List.append_cancel_left (hall.symm.trans hnext)
    exact congrArg some (List.cons.inj heq).1
  · have heq := hall.symm.trans hend
    simp at heq

theorem State.Behind.faces {s : State} (h : s.Behind c ts) : c.Faces ts s.current := by
  unfold State.current
  cases hrest : s.rest with
  | nil => exact .inr ⟨by rw [h.rest, hrest, List.append_nil], h.stop⟩
  | cons t rest => exact .inl ⟨rest, by rw [h.rest, hrest]; rfl⟩

theorem State.Behind.faces_second {s : State} (h : s.Behind c ts) {later : List Token}
    (ht : c.tokens = ts ++ t :: later) : c.Faces (ts ++ [t]) s.second := by
  have hrest : s.rest = t :: later := (List.append_cancel_left (ht.symm.trans h.rest)).symm
  rw [State.second, hrest, List.tail_cons]
  cases later with
  | nil => exact .inr ⟨ht, h.stop⟩
  | cons u later => exact .inl ⟨later, by rw [ht, List.append_assoc]; rfl⟩

/-- Moving past a token. -/
theorem State.Behind.advance {s : State} (h : s.Behind c ts) {later : List Token}
    (ht : c.tokens = ts ++ t :: later) : s.advance.Behind c (ts ++ [t]) := by
  have hrest : s.rest = t :: later := (List.append_cancel_left (ht.symm.trans h.rest)).symm
  exact {
    rest := by rw [State.rest_advance, hrest, ht, List.append_assoc]; rfl
    last := by rw [State.last_advance, hrest, List.getLast?_concat]; rfl
    stop := s.reaches_advance.stop ▸ h.stop }

/-- Moving past a token, if there is one. -/
theorem State.Behind.exists_advance {s : State} (h : s.Behind c ts) :
    ∃ us, s.advance.Behind c (ts ++ us) := by
  rcases h.faces with ⟨later, ht⟩ | ⟨hend, -⟩
  · exact ⟨[s.current], h.advance ht⟩
  · have hnil : s.rest = [] := by simpa using hend.symm.trans h.rest
    have hstay : s.advance = s := by
      unfold State.advance
      split
      · rfl
      · next hcons =>
          rw [hnil] at hcons
          cases hcons
    exact ⟨[], by rwa [hstay, List.append_nil]⟩

theorem State.Behind.stay {s : State} (h : s.Behind c ts) : s.Behind c (ts ++ []) :=
  (List.append_nil ts).symm ▸ h

/-! ### Combining parsers -/

theorem Outcome.Behind.here {a : α} {s : State} (hs : s.Behind c ts) (ha : Q ts a) :
    (Outcome.done a s).Behind c ts Q := .done hs.stay ((List.append_nil ts).symm ▸ ha)

theorem Outcome.Behind.shift {o : Outcome α} (h : o.Behind c (ts ++ us) Q) : o.Behind c ts Q := by
  cases h with
  | done hs ha => exact .done (List.append_assoc .. ▸ hs) (List.append_assoc .. ▸ ha)
  | failed hs => exact .failed (List.append_assoc .. ▸ hs)
  | stopped hs => exact .stopped (List.append_assoc .. ▸ hs)

theorem Consumes.mono (h : Consumes c ts p Q) (hQ : ∀ us a, Q us a → Q' us a) :
    Consumes c ts p Q' := by
  intro s hs
  have hp := h s hs
  generalize p s = o at hp ⊢
  cases hp with
  | done hs ha => exact .done hs (hQ _ _ ha)
  | failed hs => exact .failed hs
  | stopped hs => exact .stopped hs

theorem Consumes.pure {a : α} (h : Q ts a) : Consumes c ts (Pure.pure a) Q := fun _ hs => .here hs h

theorem Consumes.bind (hp : Consumes c ts p Q) (hf : ∀ us a, Q us a → Consumes c us (f a) R) :
    Consumes c ts (p >>= f) R := by
  intro s hs
  have hfirst := hp s hs
  simp only [Bind.bind]
  generalize p s = o at hfirst ⊢
  cases hfirst with
  | done hs ha => exact (hf _ _ ha _ hs).shift
  | failed hs => exact .failed hs
  | stopped hs => exact .stopped hs

theorem Consumes.map {g : α → β} (h : Consumes c ts p fun us a => R us (g a)) :
    Consumes c ts (g <$> p) R := h.bind fun _ _ ha => .pure ha

theorem Consumes.ite {b : Prop} [Decidable b] {p q : Parser α} (hp : b → Consumes c ts p Q)
    (hq : ¬b → Consumes c ts q Q) : Consumes c ts (if b then p else q) Q := by
  split
  · exact hp ‹b›
  · exact hq ‹¬b›

theorem Consumes.attempt (h : Consumes c ts p Q) :
    Consumes c ts (attempt p) fun us r => ∀ a, r = .ok a → Q us a := by
  intro s hs
  have hp := h s hs
  unfold Parser.attempt
  generalize p s = o at hp ⊢
  cases hp with
  | done hs ha => exact .done hs fun _ h => Except.ok.inj h ▸ ha
  | failed hs => exact .done hs nofun
  | stopped hs => exact .stopped hs

/-- A rule of its own, behind what was taken before. -/
theorem Begins.behind (h : Begins p Q) :
    Consumes c ts p fun us a => ∃ run, us = ts ++ run ∧ Q run a := by
  intro s hs
  have hp := h ⟨s.rest, s.last⟩ s ⟨rfl, rfl, hs.stop⟩
  have hbehind : ∀ {us : List Token} {s' : State}, s'.Behind ⟨s.rest, s.last⟩ ([] ++ us) →
      s'.Behind c (ts ++ us) := by
    intro us s' h
    have hrest : s.rest = us ++ s'.rest := h.rest
    have hlast : s'.last = (us.getLast?.map fun t => t.span.stop).or s.last := h.last
    refine ⟨by rw [hs.rest, hrest, List.append_assoc], ?_, h.stop⟩
    rw [hlast, hs.last, List.getLast?_append]
    cases us.getLast? <;> rfl
  generalize p s = o at hp ⊢
  cases hp with
  | done hs ha => exact .done (hbehind hs) ⟨_, rfl, ha⟩
  | failed hs => exact .failed (hbehind hs)
  | stopped hs => exact .stopped (hbehind hs)

/-- A first step that is a rule of its own. -/
theorem Begins.then (h : Begins p Q) (hf : ∀ run a, Q run a → Consumes c (ts ++ run) (f a) R) :
    Consumes c ts (p >>= f) R := by
  refine h.behind.bind ?_
  rintro _ a ⟨run, rfl, ha⟩
  exact hf run a ha

theorem Begins.attempt (h : Begins p Q) :
    Begins (attempt p) fun run r => ∀ a, r = .ok a → Q run a := fun c => (h c).attempt

/-- A last step that is a rule of its own. -/
theorem Begins.last {R : List Token → α → Prop} (h : Begins p Q)
    (hQ : ∀ run a, Q run a → R (ts ++ run) a) : Consumes c ts p R := by
  refine h.behind.mono ?_
  rintro _ a ⟨run, rfl, ha⟩
  exact hQ run a ha

/-- What was taken, and what is still to come, are the tokens that the rule starts with. -/
theorem Consumes.taken (h : ∀ later, c.tokens = ts ++ later → Consumes c ts p Q) :
    Consumes c ts p Q := fun s hs => h s.rest hs.rest s hs

/-! ### Tokens -/

theorem Consumes.current {f : Token → Parser β} (hf : ∀ t, c.Faces ts t → Consumes c ts (f t) R) :
    Consumes c ts (current >>= f) R := fun s hs => hf s.current hs.faces s hs

/-- Looking at the token behind the current one. -/
theorem Consumes.second {f : Token → Parser β}
    (hf : ∀ u, (∀ t later, c.tokens = ts ++ t :: later → c.Faces (ts ++ [t]) u) →
      Consumes c ts (f u) R) : Consumes c ts (second >>= f) R :=
  fun s hs => hf s.second (fun _ _ => hs.faces_second) s hs

/-- A first step that only looks at something else. -/
theorem Consumes.look {look : State → α} (hf : ∀ a, Consumes c ts (f a) R) :
    Consumes c ts ((fun s => .done (look s) s : Parser α) >>= f) R := fun s hs => hf (look s) s hs

/-- Taking the token that comes next. -/
theorem Consumes.advance {f : Token → Parser β} {later : List Token}
    (ht : c.tokens = ts ++ t :: later) (hf : Consumes c (ts ++ [t]) (f t) R) :
    Consumes c ts (advance >>= f) R := by
  intro s hs
  have hrest : s.rest = t :: later := (List.append_cancel_left (ht.symm.trans hs.rest)).symm
  have hcurrent : s.current = t := by rw [State.current, hrest]; rfl
  change Outcome.Behind c ts R (f s.current s.advance)
  rw [hcurrent]
  exact (hf s.advance (hs.advance ht)).shift

/-- Taking any token. -/
theorem begins_advance : Begins Parser.advance fun _ _ => True := by
  intro c s hs
  obtain ⟨us, hadvance⟩ := hs.exists_advance
  exact .done hadvance trivial

/-- A token of some kind is taken, or nothing is. -/
structure Optional (k : Token.Kind) (run : List Token) (taken : Bool) : Prop where
  yes : taken = true → ∃ t, run = [t] ∧ t.kind = k
  no : ¬taken = true → run = []

theorem Optional.kind {k : Token.Kind} {run : List Token} {taken : Bool} (h : Optional k run taken)
    (ht : t ∈ run) : t.kind = k := by
  cases taken with
  | true =>
      obtain ⟨u, rfl, hu⟩ := h.yes rfl
      exact List.mem_singleton.mp ht ▸ hu
  | false =>
      rw [h.no Bool.false_ne_true] at ht
      cases ht

/-- Taking the current token if it passes a test that only one kind of tokens passes. -/
theorem begins_accept {test : Token → Bool} {k : Token.Kind}
    (htest : ∀ t, test t = true → t.kind = k) (hk : k ≠ .eof) :
    Begins (fun s => if test s.current then .done true s.advance else .done false s : Parser Bool)
      (Optional k) := by
  intro c s hs
  dsimp only
  split
  · next h =>
      have hkind := htest _ h
      obtain ⟨later, hlater⟩ := hs.faces.here hkind hk
      exact .done (hs.advance hlater) ⟨fun _ => ⟨s.current, rfl, hkind⟩, fun h => absurd rfl h⟩
  · exact .here hs ⟨nofun, fun _ => rfl⟩

theorem begins_acceptKeyword (word : Keyword) :
    Begins (acceptKeyword word) (Optional (.keyword word)) :=
  begins_accept (fun _ => of_decide_eq_true) nofun

theorem begins_acceptSign (sign : Sign) : Begins (acceptSign sign) (Optional (.sign sign)) :=
  begins_accept (fun _ => of_decide_eq_true) nofun

theorem begins_acceptTerminator : Begins acceptTerminator (Optional .terminator) :=
  begins_accept (fun _ => of_decide_eq_true) nofun

/-! ### Findings, failures and resources -/

theorem consumes_fail (d : Diagnostic) : Consumes c ts (fail d : Parser α) Q :=
  fun _ hs => .failed hs.stay

theorem Consumes.report {f : PUnit → Parser β} (d : Diagnostic) (hf : Consumes c ts (f ⟨⟩) R) :
    Consumes c ts (report d >>= f) R :=
  fun s hs => hf { s with found := d :: s.found } { hs with }

theorem begins_spend (use : Budget → Option Exceeded × Budget) :
    Begins (spend use) fun run _ => run = [] := by
  intro c s hs
  unfold spend
  split
  · exact .here { hs with } rfl
  · next e b _ =>
      have hstopped : State.Behind c [] { s with budget := b } := { hs with }
      exact .stopped hstopped.stay

theorem Consumes.spend {use : Budget → Option Exceeded × Budget} {f : PUnit → Parser β}
    (hf : Consumes c ts (f ⟨⟩) R) : Consumes c ts (spend use >>= f) R := by
  refine (begins_spend use).then ?_
  rintro _ _ rfl
  rwa [List.append_nil]

theorem Consumes.checkTime {f : PUnit → Parser β} (t : Token) (hf : Consumes c ts (f ⟨⟩) R) :
    Consumes c ts (checkTime t >>= f) R := .spend hf

theorem Consumes.nested (h : Consumes c ts p Q) (t : Token) : Consumes c ts (nested t p) Q := by
  refine Consumes.spend (f := fun _ => exiting p) fun s hs => ?_
  have hp := h s hs
  have hexit : ∀ {us : List Token} {s : State}, s.Behind c us → s.exit.Behind c us :=
    fun h => ⟨h.rest, h.last, h.stop⟩
  unfold exiting
  generalize p s = o at hp ⊢
  cases hp with
  | done hs ha => exact .done (hexit hs) ha
  | failed hs => exact .failed (hexit hs)
  | stopped hs => exact .stopped (hexit hs)

theorem Begins.nested (h : Begins p Q) (t : Token) : Begins (nested t p) Q :=
  fun c => (h c).nested t

/-! ### What has to come next -/

/-- Taking a token that passes a test that only one kind of tokens passes, or failing. -/
theorem begins_expect {test : Token → Bool} {k : Token.Kind}
    (htest : ∀ t, test t = true → t.kind = k) (hk : k ≠ .eof) (failure : Token → Diagnostic) :
    Begins (current >>= fun t => if test t then Parser.advance else fail (failure t))
      fun run t => run = [t] ∧ t.kind = k := by
  refine fun c => .current fun t ht => .ite (fun h => ?_) fun _ => consumes_fail _
  obtain ⟨later, hlater⟩ := ht.here (htest t h) hk
  exact Consumes.advance (f := Pure.pure) hlater (.pure ⟨rfl, htest t h⟩)

theorem begins_expectKeyword (word : Keyword) (context : String) (hint : Option String) :
    Begins (expectKeyword word context hint) fun run t => run = [t] ∧ t.kind = .keyword word :=
  begins_expect (k := .keyword word) (fun _ => of_decide_eq_true) nofun _

theorem begins_expectSign (sign : Sign) (context : String) (hint : Option String) :
    Begins (expectSign sign context hint) fun run t => run = [t] ∧ t.kind = .sign sign :=
  begins_expect (k := .sign sign) (fun _ => of_decide_eq_true) nofun _

theorem begins_expectTerminator (context : String) :
    Begins (expectTerminator context) fun run t => run = [t] ∧ t.kind = .terminator :=
  begins_expect (k := .terminator) (fun _ => of_decide_eq_true) nofun _

theorem begins_expectIdentifier (context what : String) :
    Begins (expectIdentifier context what) fun run t => run = [t] ∧ t.kind.isName = true := by
  refine fun c => .current fun t ht => ?_
  split
  · next name hkind =>
      obtain ⟨later, hlater⟩ := ht.here hkind nofun
      exact Consumes.advance (f := Pure.pure) hlater (.pure ⟨rfl, by rw [hkind]; rfl⟩)
  · exact consumes_fail _
  · exact consumes_fail _

/-! ### Spans -/

/-- From the first token of a rule to the last one that was taken. -/
theorem Consumes.spanFrom {f : Span → Parser β} (ht : t ∈ ts.head?)
    (hf : ∀ span : Span, span.Over ts → Consumes c ts (f span) R) :
    Consumes c ts (spanFrom t >>= f) R := by
  intro s hs
  have hlast := hs.last
  obtain ⟨later, rfl⟩ := List.head?_eq_some_iff.mp ht
  obtain ⟨last, hl⟩ : ∃ last, (t :: later).getLast? = some last :=
    Option.isSome_iff_exists.mp (by simp)
  refine hf _ ⟨t, ht, last, hl, ?_⟩ s hs
  rw [hlast, hl]
  rfl

/-- The end of most rules: the text that was read, which counts as a node. -/
theorem consumes_finish {g : Span → α} (ht : t ∈ ts.head?)
    (hg : ∀ span : Span, span.Over ts → Q ts (g span)) :
    Consumes c ts (do let span ← Parser.spanFrom t; countNode t; return g span) Q :=
  .spanFrom ht fun span hspan => .spend (.pure (hg span hspan))

end Parser

end Prosaic
