import Prosaic.Proofs.Purity.Search

/-!
Distances in a breadth-first search. A source is at no distance, and a name that was found from
another one is one step further away. The search finds names in the order of their distances, as the
distances in its queue differ by one step at most. So no name is nearer to the sources than the
search has it, and the way back from a name is as short as any.

Shortest paths to effects. The search for all names runs from the effectful ones against the calls,
so that the way back from a name is a path to an effect. The search around a name runs along the
calls; the first effectful name that it comes to is one of the nearest.
-/

namespace Prosaic.CallGraph

/-! ### Ways -/

/-- A way by steps from a name to a goal, both ends included. -/
inductive IsWay (step : String → String → Prop) (goal : String → Prop) :
    String → List String → Prop
  | here {n : String} (h : goal n) : IsWay step goal n [n]
  | step {n m : String} {path : List String} (hstep : step n m) (h : IsWay step goal m path) :
      IsWay step goal n (n :: path)

/-- A list with a property, and none with it is shorter. -/
def Shortest (P : List String → Prop) (path : List String) : Prop :=
  P path ∧ ∀ other, P other → path.length ≤ other.length

namespace IsWay

variable {step step' : String → String → Prop} {goal goal' : String → Prop} {n m : String}
  {path : List String}

theorem imp (hstep : ∀ a b, step a b → step' a b) (hgoal : ∀ a, goal a → goal' a)
    (h : IsWay step goal n path) : IsWay step' goal' n path := by
  induction h with
  | here h => exact .here (hgoal _ h)
  | step hnm _ ih => exact .step (hstep _ _ hnm) ih

/-- A way to a goal ends at one of the names that are goals. -/
theorem exists_end (h : IsWay step goal n path) : ∃ e, goal e ∧ IsWay step (· = e) n path := by
  induction h with
  | @here n h => exact ⟨n, h, .here rfl⟩
  | step hnm _ ih =>
      obtain ⟨e, he, hway⟩ := ih
      exact ⟨e, he, .step hnm hway⟩

theorem ne_nil (h : IsWay step goal n path) : path ≠ [] := by cases h <;> simp

theorem snoc {e : String} (h : IsWay step (· = m) n path) (hstep : step m e) :
    IsWay step (· = e) n (path ++ [e]) := by
  induction h with
  | here h => exact .step (h ▸ hstep) (.here rfl)
  | step hnm _ ih => exact .step hnm ih

/-- A way back. -/
theorem reverse (h : IsWay step (· = m) n path) :
    IsWay (fun a b => step b a) (· = n) m path.reverse := by
  induction h with
  | @here n h =>
      obtain rfl : n = m := h
      exact .here rfl
  | step hnm _ ih =>
      rw [List.reverse_cons]
      exact ih.snoc hnm

/-- A way past a name takes steps that avoid it. -/
theorem avoiding_iff {excluded : String} :
    IsWay step goal n path ∧ excluded ∉ path ↔
      n ≠ excluded ∧ IsWay (fun a b => step a b ∧ b ≠ excluded) goal n path := by
  constructor
  · rintro ⟨h, hpath⟩
    induction h with
    | here h => exact ⟨fun heq => hpath (heq ▸ List.mem_cons_self), .here h⟩
    | step hnm _ ih =>
        obtain ⟨hm, hway⟩ := ih fun hmem => hpath (List.mem_cons_of_mem _ hmem)
        exact ⟨fun heq => hpath (heq ▸ List.mem_cons_self), .step ⟨hnm, hm⟩ hway⟩
  · rintro ⟨hn, h⟩
    induction h with
    | here h => exact ⟨.here h, by simpa using Ne.symm hn⟩
    | step hnm _ ih =>
        obtain ⟨hway, hpath⟩ := ih hnm.2
        exact ⟨.step hnm.1 hway, by simpa using ⟨Ne.symm hn, hpath⟩⟩

end IsWay

/-! ### Distances -/

/-- Distances that go with the state of a search. -/
structure Layered (next : String → List String) (sources : List String) (d : String → Nat)
    (turns : Nat) (queue : List String) (seen : List Visit) : Prop
    extends Searching next sources turns queue seen where
  sourced : ∀ v ∈ seen, v.from? = none → v.name ∈ sources
  zero : ∀ s ∈ sources, d s = 0
  found : ∀ v ∈ seen, ∀ p, v.from? = some p → v.name ∈ next p ∧ d v.name = d p + 1
  last : queue <:+ seen.map Visit.name
  ordered : (seen.map Visit.name).Pairwise fun a b => d a ≤ d b
  span : ∀ n ∈ seen.map Visit.name, ∀ m ∈ queue, d n ≤ d m + 1
  near : ∀ n ∈ seen.map Visit.name, n ∈ queue ∨ ∀ m ∈ next n, d m ≤ d n + 1
  small : ∀ n ∈ seen.map Visit.name, d n < seen.length

namespace Layered

variable {next : String → List String} {sources : List String} {d : String → Nat} {turns : Nat}
  {queue : List String} {seen : List Visit}

theorem start (hsources : sources.Nodup) :
    Layered next sources (fun _ => 0) 0 sources (sources.map fun n => ⟨n, none⟩) := by
  have hnames : (sources.map fun n => (⟨n, none⟩ : Visit)).map Visit.name = sources := by
    simp [Function.comp_def]
  constructor
  case toSearching => exact Searching.start hsources
  case sourced => simp
  case zero => exact fun _ _ => rfl
  case found => simp
  case last => exact ⟨[], by rw [List.nil_append, hnames]⟩
  case ordered => exact List.pairwise_of_forall fun _ _ => Nat.le_refl 0
  case span => exact fun _ _ _ _ => Nat.zero_le _
  case near => exact fun _ _ => .inr fun _ _ => Nat.zero_le _
  case small =>
    rw [hnames, List.length_map]
    exact fun n hn => List.length_pos_of_mem hn

/-- A turn puts the names that it finds one step behind the one that it takes off the queue. -/
theorem turn {current : String} (h : Layered next sources d turns (current :: queue) seen) :
    let fresh := unseen seen (next current)
    ∃ d', Layered next sources d' (turns + 1) (queue ++ fresh)
      (seen ++ fresh.map fun n => ⟨n, some current⟩) := by
  intro fresh
  let d' (n : String) : Nat := if n ∈ fresh then d current + 1 else d n
  have hnames : (seen ++ fresh.map fun n => (⟨n, some current⟩ : Visit)).map Visit.name =
      seen.map Visit.name ++ fresh := by
    simp [Function.comp_def]
  have hcurrent : current ∈ seen.map Visit.name := h.queued List.mem_cons_self
  have hold : ∀ n ∈ seen.map Visit.name, d' n = d n := fun n hn =>
    if_neg fun hfresh => (mem_unseen.mp hfresh).2 hn
  have hnew : ∀ n ∈ fresh, d' n = d current + 1 := fun n hn => if_pos hn
  -- what is in the queue is not nearer than the name in front
  have hqueue : ∀ m ∈ queue, d current ≤ d m :=
    (List.pairwise_cons.mp (h.ordered.sublist h.last.sublist)).1
  have hmem : ∀ m ∈ queue, m ∈ seen.map Visit.name := fun m hm =>
    h.queued (List.mem_cons_of_mem _ hm)
  refine ⟨d', ?_⟩
  constructor
  case toSearching => exact h.toSearching.turn
  case sourced =>
    intro v hv hnone
    rcases List.mem_append.mp hv with hv | hv
    · exact h.sourced v hv hnone
    · obtain ⟨n, -, rfl⟩ := List.mem_map.mp hv
      cases hnone
  case zero => exact fun s hs => (hold s (h.started hs)).trans (h.zero s hs)
  case found =>
    intro v hv p hp
    rcases List.mem_append.mp hv with hv | hv
    · rw [hold _ (List.mem_map_of_mem hv), hold _ (h.origin v hv p hp)]
      exact h.found v hv p hp
    · obtain ⟨n, hn, rfl⟩ := List.mem_map.mp hv
      obtain rfl := Option.some.inj hp
      exact ⟨(mem_unseen.mp hn).1, by rw [hnew n hn, hold current hcurrent]⟩
  case last =>
    obtain ⟨done, hdone⟩ := h.last
    exact ⟨done ++ [current], by rw [hnames, ← hdone]; simp⟩
  case ordered =>
    rw [hnames, List.pairwise_append]
    refine ⟨?_, ?_, ?_⟩
    · exact h.ordered.imp_of_mem fun ha hb hab => by rwa [hold _ ha, hold _ hb]
    · exact List.pairwise_of_forall_mem_list fun a ha b hb =>
        Nat.le_of_eq (by rw [hnew a ha, hnew b hb])
    · intro a ha b hb
      rw [hold a ha, hnew b hb]
      exact h.span a ha current List.mem_cons_self
  case span =>
    rw [hnames]
    -- the names that were seen are at most one step behind the current one, as the found ones are
    have hle : ∀ n ∈ seen.map Visit.name ++ fresh, d' n ≤ d current + 1 := by
      intro n hn
      rcases List.mem_append.mp hn with hn | hn
      · rw [hold n hn]
        exact h.span n hn current List.mem_cons_self
      · exact Nat.le_of_eq (hnew n hn)
    have hge : ∀ m ∈ queue ++ fresh, d current ≤ d' m := by
      intro m hm
      rcases List.mem_append.mp hm with hm | hm
      · rw [hold m (hmem m hm)]
        exact hqueue m hm
      · rw [hnew m hm]
        exact Nat.le_succ _
    exact fun n hn m hm => Nat.le_trans (hle n hn) (Nat.succ_le_succ (hge m hm))
  case near =>
    rw [hnames]
    intro n hn
    rcases List.mem_append.mp hn with hn | hn
    · by_cases hfront : n = current
      · subst hfront
        refine .inr fun m hm => ?_
        rw [hold n hcurrent]
        by_cases hseen : m ∈ seen.map Visit.name
        · rw [hold m hseen]
          exact h.span m hseen n List.mem_cons_self
        · exact Nat.le_of_eq (hnew m (mem_unseen.mpr ⟨hm, hseen⟩))
      · rcases h.near n hn with hqueued | hdone
        · exact .inl (List.mem_append_left _ (List.mem_of_ne_of_mem hfront hqueued))
        · rcases h.closed n hn with hqueued | hsubset
          · exact .inl (List.mem_append_left _ (List.mem_of_ne_of_mem hfront hqueued))
          · refine .inr fun m hm => ?_
            rw [hold m (hsubset hm), hold n hn]
            exact hdone m hm
    · exact .inl (List.mem_append_right _ hn)
  case small =>
    rw [hnames, List.length_append, List.length_map]
    intro n hn
    rcases List.mem_append.mp hn with hn | hn
    · rw [hold n hn]
      exact Nat.lt_add_right _ (h.small n hn)
    · have hcount := List.length_pos_of_mem hn
      have hbefore := h.small current hcurrent
      rw [hnew n hn]
      omega

/-- The visit of a name is the one that a look-up finds. -/
theorem find?_visit (h : Layered next sources d turns queue seen) {v : Visit} (hv : v ∈ seen) :
    seen.find? (fun w => w.name == v.name) = some v := by
  cases hfirst : seen.find? fun w => w.name == v.name with
  | none => simpa using List.find?_eq_none.mp hfirst v hv
  | some w =>
      have hw : w.name = v.name := by simpa using List.find?_some hfirst
      rw [List.inj_on_of_nodup_map h.distinct (List.mem_of_find?_eq_some hfirst) hv hw]

/-- The way back from a name is a way to a source, as long as the distance. -/
theorem wayBack_spec (h : Layered next sources d turns queue seen) {fuel : Nat} {name : String}
    (hname : name ∈ seen.map Visit.name) (hfuel : d name ≤ fuel) :
    IsWay (fun a b => a ∈ next b) (· ∈ sources) name (wayBack seen fuel name) ∧
      (wayBack seen fuel name).length = d name + 1 := by
  induction fuel generalizing name with
  | zero =>
      obtain ⟨v, hv, rfl⟩ := List.mem_map.mp hname
      cases hfrom : v.from? with
      | none => exact ⟨.here (h.sourced v hv hfrom), by simp [wayBack, Nat.le_zero.mp hfuel]⟩
      | some p =>
          have hdistance := (h.found v hv p hfrom).2
          omega
  | succ fuel ih =>
      obtain ⟨v, hv, rfl⟩ := List.mem_map.mp hname
      rw [wayBack, h.find?_visit hv, Option.bind_some]
      cases hfrom : v.from? with
      | none =>
          have hsource := h.sourced v hv hfrom
          exact ⟨.here hsource, by rw [h.zero _ hsource]; rfl⟩
      | some p =>
          obtain ⟨hnext, hdistance⟩ := h.found v hv p hfrom
          obtain ⟨hway, hlength⟩ := ih (h.origin v hv p hfrom) (by omega)
          exact ⟨.step hnext hway, by rw [List.length_cons, hlength, hdistance]⟩

/-- No way to a source is shorter than the distance that a finished search has found. -/
theorem distance_le (h : Layered next sources d turns [] seen) {name : String} {path : List String}
    (hway : IsWay (fun a b => a ∈ next b) (· ∈ sources) name path) :
    name ∈ seen.map Visit.name ∧ d name + 1 ≤ path.length := by
  induction hway with
  | here hsource => exact ⟨h.started hsource, Nat.le_of_eq (by rw [h.zero _ hsource]; rfl)⟩
  | @step n m path hnext _ ih =>
      obtain ⟨hm, hlength⟩ := ih
      have hseen := (h.closed m hm).resolve_left List.not_mem_nil
      have hdistance := (h.near m hm).resolve_left List.not_mem_nil
      refine ⟨hseen hnext, ?_⟩
      have := hdistance n hnext
      rw [List.length_cons]
      omega

/-- A finished search finds a shortest way from every name that has one, and comes to no other. -/
theorem shortest_wayBack (h : Layered next sources d turns [] seen) (name : String) :
    (name ∈ seen.map Visit.name ↔ ∃ path, IsWay (fun a b => a ∈ next b) (· ∈ sources) name path) ∧
      (name ∈ seen.map Visit.name →
        Shortest (IsWay (fun a b => a ∈ next b) (· ∈ sources) name)
          (wayBack seen seen.length name)) := by
  have hback : ∀ hname : name ∈ seen.map Visit.name, _ := fun hname =>
    h.wayBack_spec hname (Nat.le_of_lt (h.small name hname))
  refine ⟨⟨fun hname => ⟨_, (hback hname).1⟩, fun ⟨path, hway⟩ => (h.distance_le hway).1⟩, ?_⟩
  intro hname
  obtain ⟨hway, hlength⟩ := hback hname
  exact ⟨hway, fun other hother => hlength ▸ (h.distance_le hother).2⟩

end Layered

/-- A path of calls from a name to an effectful one, both ends included. -/
abbrev EffectPath (g : CallGraph) : String → List String → Prop := IsWay g.Calls g.Effectful

variable {g : CallGraph}

/-! ### The search for all names -/

theorem tainted_layered (hdistinct : (g.nodes.map Node.name).Nodup) :
    ∃ turns d, Layered g.callersOf g.effectful d turns [] g.tainted :=
  tainted_of_turn hdistinct
    (P := fun turns queue seen => ∃ d, Layered g.callersOf g.effectful d turns queue seen)
    (fun ⟨_, h⟩ => h.toSearching) (fun ⟨_, h⟩ => h.turn)
    ⟨_, Layered.start (nodup_effectful hdistinct)⟩

theorem isWay_callersOf (hdistinct : (g.nodes.map Node.name).Nodup) (name : String) :
    IsWay (fun a b => a ∈ g.callersOf b) (· ∈ g.effectful) name = g.EffectPath name := by
  simp only [mem_callersOf, mem_effectful hdistinct]

/-- The search for all names comes to those that have a path to an effect, and a shortest one leads
back. -/
theorem tainted_shortest (hdistinct : (g.nodes.map Node.name).Nodup) (name : String) :
    (visited g.tainted name = true ↔ ∃ path, g.EffectPath name path) ∧
      (visited g.tainted name = true →
        Shortest (g.EffectPath name) (wayBack g.tainted g.tainted.length name)) := by
  obtain ⟨turns, d, h⟩ := tainted_layered hdistinct
  have hshortest := h.shortest_wayBack name
  rwa [isWay_callersOf hdistinct, ← visited_iff] at hshortest

/-! ### The search around a name -/

theorem around_layered (excluded : String) {name : String} (hname : name ∈ g.names) :
    ∃ turns d, Layered (g.calleesBut excluded) [name] d turns [] (g.around name excluded) :=
  around_of_turn hname
    (P := fun turns queue seen => ∃ d, Layered (g.calleesBut excluded) [name] d turns queue seen)
    (fun ⟨_, h⟩ => h.toSearching) (fun ⟨_, h⟩ => h.turn)
    ⟨_, Layered.start (List.nodup_singleton name)⟩

/-- Of visits in some order the search picks the least that is effectful. -/
theorem firstEffectful_least {R : String → String → Prop} (hrefl : ∀ n, R n n)
    {seen : List Visit} (hordered : (seen.map Visit.name).Pairwise R) {last : String}
    (hlast : g.firstEffectful seen = some (some last)) :
    g.Effectful last ∧ ∀ n ∈ seen.map Visit.name, g.Effectful n → R last n := by
  induction seen with
  | nil => cases hlast
  | cons v seen ih =>
      rw [List.map_cons] at hordered ⊢
      obtain ⟨hbefore, hordered⟩ := List.pairwise_cons.mp hordered
      rw [List.forall_mem_cons]
      rw [firstEffectful] at hlast
      split at hlast
      · cases hlast
      · next n hn =>
          split at hlast
          · next heffect =>
              obtain rfl : v.name = last := Option.some.inj (Option.some.inj hlast)
              exact ⟨⟨n, hn, heffect⟩, fun _ => hrefl _, fun m hm _ => hbefore m hm⟩
          · next hpure =>
              obtain ⟨heffect, hleast⟩ := ih hordered hlast
              refine ⟨heffect, ?_, hleast⟩
              rintro ⟨m, hm, hv⟩
              exact absurd (Option.some.inj (hm.symm.trans hn) ▸ hv) hpure

/-- A path of calls around a name is a way of the search around it, walked back. -/
theorem effectPath_around {name excluded : String} {path : List String} :
    g.EffectPath name path ∧ excluded ∉ path ↔
      name ≠ excluded ∧ ∃ last, g.Effectful last ∧
        IsWay (fun a b => a ∈ g.calleesBut excluded b) (· ∈ [name]) last path.reverse := by
  rw [IsWay.avoiding_iff]
  simp only [mem_calleesBut, List.mem_singleton]
  refine and_congr_right fun _ => ⟨fun h => ?_, fun ⟨last, heffect, h⟩ => ?_⟩
  · obtain ⟨last, heffect, hway⟩ := h.exists_end
    exact ⟨last, heffect, hway.reverse⟩
  · have hway := h.reverse
    rw [List.reverse_reverse] at hway
    refine hway.imp (fun _ _ hstep => hstep) ?_
    rintro _ rfl
    exact heffect

/-- The search around a name returns a shortest path to an effect that avoids the name, and the
empty path if there is none. -/
theorem pathAvoiding?_shortest (h : g.WellFormed) (name excluded : String) :
    ∃ path, g.pathAvoiding? name excluded = some path ∧
      (path = [] ↔ ∀ other, g.EffectPath name other → excluded ∈ other) ∧
      (path ≠ [] →
        Shortest (fun other => g.EffectPath name other ∧ excluded ∉ other) path) := by
  by_cases hne : name = excluded
  · -- every path begins with the name
    refine ⟨[], by simp [pathAvoiding?, hne], iff_of_true rfl fun other hway => ?_,
      fun h => absurd rfl h⟩
    cases hway <;> simp [hne]
  by_cases hnode : (g.node? name).isSome = true
  case neg =>
    -- nothing is called from a name without a node
    refine ⟨[], ?_, iff_of_true rfl fun other hway => absurd ?_ hnode, fun h => absurd rfl h⟩
    · simp [pathAvoiding?, Option.not_isSome_iff_eq_none.mp hnode]
    · cases hway with
      | here heffect =>
          obtain ⟨n, hn, -⟩ := heffect
          simp [hn]
      | step hcall _ =>
          obtain ⟨e, he, rfl, -⟩ := hcall
          exact h.callers e he
  have hname := mem_names_of_isSome hnode
  obtain ⟨turns, d, hsearch⟩ := around_layered excluded hname
  obtain ⟨goal, hgoal, hmem, hiff⟩ := firstEffectful_spec (h.isSome_of_around hnode excluded)
  rw [pathAvoiding?_eq hne hnode, hgoal]
  refine ⟨_, rfl, ?_⟩
  cases goal with
  | none =>
      refine ⟨iff_of_true rfl fun other hway => ?_, fun h => absurd rfl h⟩
      by_contra hother
      obtain ⟨-, last, heffect, hback⟩ := effectPath_around.mp ⟨hway, hother⟩
      have hnone := hiff.mpr ⟨last, (hsearch.distance_le hback).1, heffect⟩
      simp at hnone
  | some last =>
      have hlast := hmem last rfl
      obtain ⟨heffect, hleast⟩ :=
        firstEffectful_least (fun n => Nat.le_refl (d n)) hsearch.ordered hgoal
      obtain ⟨hway, hlength⟩ := hsearch.wayBack_spec hlast (Nat.le_of_lt (hsearch.small last hlast))
      have hpath := effectPath_around.mpr
        ⟨hne, last, heffect, by rwa [List.reverse_reverse]⟩
      refine ⟨iff_of_false hpath.1.ne_nil fun hall => hpath.2 (hall _ hpath.1),
        fun _ => ⟨hpath, fun other hother => ?_⟩⟩
      obtain ⟨-, goal, hgoal, hback⟩ := effectPath_around.mp hother
      -- another path leads to an effect that is no nearer
      obtain ⟨hseen, hdistance⟩ := hsearch.distance_le hback
      have hle : d last ≤ d goal := hleast goal hseen hgoal
      rw [List.length_reverse] at hdistance ⊢
      omega

end Prosaic.CallGraph
