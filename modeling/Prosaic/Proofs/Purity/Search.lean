import Mathlib.Data.List.Nodup
import Mathlib.Data.List.Perm.Subperm
import Mathlib.Logic.Relation
import Prosaic.Proofs.Table
import Prosaic.Purity.Graph

/-!
What a breadth-first search comes to: exactly the names that can be reached from its sources. The
invariant counts the turns of the search against the names found; since no name is found twice, a
bound on the number of names is fuel enough.

What a call graph says about effects. The nodes of a graph have distinct names and every call leads
to a node; under these conditions both searches are exact, and no search comes to a name without a
node.
-/

namespace Prosaic.CallGraph

theorem visited_iff {seen : List Visit} {name : String} :
    visited seen name = true ↔ name ∈ seen.map Visit.name := by
  simp [visited]

theorem mem_unseen {seen : List Visit} {names : List String} {n : String} :
    n ∈ unseen seen names ↔ n ∈ names ∧ n ∉ seen.map Visit.name := by
  rw [unseen, List.mem_eraseDups, List.mem_filter, Bool.not_eq_true', ← Bool.not_eq_true,
    visited_iff]

/-- One name leads to another in some steps. -/
def Leads (next : String → List String) : String → String → Prop :=
  Relation.ReflTransGen fun a b => b ∈ next a

/-- The state of a search after some turns. -/
structure Searching (next : String → List String) (sources : List String) (turns : Nat)
    (queue : List String) (seen : List Visit) : Prop where
  distinct : (seen.map Visit.name).Nodup
  counted : seen.length = turns + queue.length
  queued : queue ⊆ seen.map Visit.name
  started : sources ⊆ seen.map Visit.name
  origin : ∀ v ∈ seen, ∀ p, v.from? = some p → p ∈ seen.map Visit.name
  sound : ∀ n ∈ seen.map Visit.name, ∃ s ∈ sources, Leads next s n
  closed : ∀ n ∈ seen.map Visit.name, n ∈ queue ∨ next n ⊆ seen.map Visit.name

variable {next : String → List String} {sources : List String}

theorem Searching.start (hsources : sources.Nodup) :
    Searching next sources 0 sources (sources.map fun n => ⟨n, none⟩) := by
  have hnames : (sources.map fun n => (⟨n, none⟩ : Visit)).map Visit.name = sources := by
    simp [Function.comp_def]
  constructor
  case distinct => rwa [hnames]
  case counted => simp
  case queued => rw [hnames]; exact List.Subset.refl sources
  case started => rw [hnames]; exact List.Subset.refl sources
  case origin => simp
  case sound =>
    rw [hnames]
    exact fun n hn => ⟨n, hn, .refl⟩
  case closed =>
    rw [hnames]
    exact fun n hn => .inl hn

/-- A turn takes the first name off the queue and adds the unseen names next to it. -/
theorem Searching.turn {turns : Nat} {current : String} {queue : List String} {seen : List Visit}
    (h : Searching next sources turns (current :: queue) seen) :
    let fresh := unseen seen (next current)
    Searching next sources (turns + 1) (queue ++ fresh)
      (seen ++ fresh.map fun n => ⟨n, some current⟩) := by
  intro fresh
  have hnames : (seen ++ fresh.map fun n => (⟨n, some current⟩ : Visit)).map Visit.name =
      seen.map Visit.name ++ fresh := by
    simp [Function.comp_def]
  have hcurrent : current ∈ seen.map Visit.name := h.queued List.mem_cons_self
  constructor
  case distinct =>
    rw [hnames, List.nodup_append]
    refine ⟨h.distinct, nodup_eraseDups _, fun a ha b hb heq => ?_⟩
    exact (mem_unseen.mp hb).2 (heq ▸ ha)
  case counted =>
    have := h.counted
    simp only [List.length_append, List.length_map, List.length_cons] at this ⊢
    omega
  case queued =>
    rw [hnames]
    intro n hn
    rcases List.mem_append.mp hn with hn | hn
    · exact List.mem_append_left _ (h.queued (List.mem_cons_of_mem _ hn))
    · exact List.mem_append_right _ hn
  case started =>
    rw [hnames]
    exact fun n hn => List.mem_append_left _ (h.started hn)
  case origin =>
    rw [hnames]
    intro v hv p hp
    rcases List.mem_append.mp hv with hv | hv
    · exact List.mem_append_left _ (h.origin v hv p hp)
    · obtain ⟨n, -, rfl⟩ := List.mem_map.mp hv
      obtain rfl := Option.some.inj hp
      exact List.mem_append_left _ hcurrent
  case sound =>
    rw [hnames]
    intro n hn
    rcases List.mem_append.mp hn with hn | hn
    · exact h.sound n hn
    · obtain ⟨s, hs, hleads⟩ := h.sound current hcurrent
      exact ⟨s, hs, hleads.tail (mem_unseen.mp hn).1⟩
  case closed =>
    rw [hnames]
    intro n hn
    rcases List.mem_append.mp hn with hn | hn
    · rcases h.closed n hn with hqueued | hdone
      -- the name that is taken off the queue has all its neighbours seen now
      · rcases List.mem_cons.mp hqueued with rfl | hqueued
        · refine .inr fun m hm => ?_
          by_cases hseen : m ∈ seen.map Visit.name
          · exact List.mem_append_left _ hseen
          · exact List.mem_append_right _ (mem_unseen.mpr ⟨hm, hseen⟩)
        · exact .inl (List.mem_append_left _ hqueued)
      · exact .inr fun m hm => List.mem_append_left _ (hdone hm)
    · exact .inl (List.mem_append_right _ hn)

/-- After as many turns as there are names nothing is left to find. -/
theorem Searching.queue_eq_nil {names : List String} {turns : Nat} {queue : List String}
    {seen : List Visit} (h : Searching next sources turns queue seen)
    (hseen : seen.map Visit.name ⊆ names) (hturns : names.length ≤ turns) : queue = [] := by
  have hle := (h.distinct.subperm hseen).length_le
  have hcounted := h.counted
  rw [List.length_map] at hle
  exact List.length_eq_zero_iff.mp (by omega)

theorem turn_subset {names : List String} {current : String} (hnext : next current ⊆ names)
    {seen : List Visit} (hseen : seen.map Visit.name ⊆ names) :
    (seen ++ (unseen seen (next current)).map fun n => (⟨n, some current⟩ : Visit)).map Visit.name ⊆
      names := by
  rw [List.map_append, List.map_map]
  refine List.append_subset.mpr ⟨hseen, fun n hn => ?_⟩
  obtain ⟨m, hm, rfl⟩ := List.mem_map.mp hn
  exact hnext (mem_unseen.mp hm).1

theorem explore_nil (next : String → List String) (fuel : Nat) (seen : List Visit) :
    explore next fuel [] seen = seen := by
  cases fuel <;> rfl

section

variable (names : List String) (hnames : ∀ n ∈ names, next n ⊆ names) {fuel turns : Nat}
  {queue : List String} {seen : List Visit}

include hnames

/-- A search whose fuel covers the names that it can come to ends with an empty queue, and what
every turn keeps holds at the end. -/
theorem explore_of_turn {P : Nat → List String → List Visit → Prop}
    (hsearching : ∀ {turns queue seen}, P turns queue seen →
      Searching next sources turns queue seen)
    (hturn : ∀ {turns current queue seen}, P turns (current :: queue) seen →
      P (turns + 1) (queue ++ unseen seen (next current))
        (seen ++ (unseen seen (next current)).map fun n => ⟨n, some current⟩))
    (h : P turns queue seen) (hseen : seen.map Visit.name ⊆ names)
    (hfuel : names.length ≤ turns + fuel) :
    ∃ turns', P turns' [] (explore next fuel queue seen) := by
  induction fuel generalizing turns queue seen with
  | zero =>
      obtain rfl := (hsearching h).queue_eq_nil hseen hfuel
      exact ⟨turns, h⟩
  | succ fuel ih =>
      cases queue with
      | nil => exact ⟨turns, h⟩
      | cons current queue =>
          have hcurrent := hnames current (hseen ((hsearching h).queued List.mem_cons_self))
          exact ih (hturn h) (turn_subset hcurrent hseen) (by omega)

/-- More fuel than that changes nothing. -/
theorem Searching.explore_add (h : Searching next sources turns queue seen)
    (hseen : seen.map Visit.name ⊆ names) (hfuel : names.length ≤ turns + fuel) (more : Nat) :
    explore next (fuel + more) queue seen = explore next fuel queue seen := by
  induction fuel generalizing turns queue seen with
  | zero =>
      obtain rfl := h.queue_eq_nil hseen hfuel
      rw [explore_nil, explore_nil]
  | succ fuel ih =>
      cases queue with
      | nil => rw [explore_nil, explore_nil]
      | cons current queue =>
          have hcurrent := hnames current (hseen (h.queued List.mem_cons_self))
          rw [Nat.add_right_comm]
          exact ih h.turn (turn_subset hcurrent hseen) (by omega)

end

/-- A finished search has come to the names that its sources lead to, and to no others. -/
theorem Searching.visited_iff_leads {turns : Nat} {seen : List Visit}
    (h : Searching next sources turns [] seen) (n : String) :
    visited seen n = true ↔ ∃ s ∈ sources, Leads next s n := by
  rw [visited_iff]
  refine ⟨h.sound n, ?_⟩
  rintro ⟨s, hs, hleads⟩
  induction hleads with
  | refl => exact h.started hs
  | tail _ hstep ih =>
      rcases h.closed _ ih with hqueued | hdone
      · cases hqueued
      · exact hdone hstep

/-- The way back from a name that a search has come to passes through such names only. -/
theorem Searching.wayBack_subset {turns : Nat} {queue : List String} {seen : List Visit}
    (h : Searching next sources turns queue seen) {fuel : Nat} {name : String}
    (hname : name ∈ seen.map Visit.name) : wayBack seen fuel name ⊆ seen.map Visit.name := by
  induction fuel generalizing name with
  | zero => simpa [wayBack] using hname
  | succ fuel ih =>
      rw [wayBack]
      cases hfrom : (seen.find? fun v => v.name == name).bind Visit.from? with
      | none => simpa using hname
      | some previous =>
          obtain ⟨v, hv, hprevious⟩ := Option.bind_eq_some_iff.mp hfrom
          refine List.cons_subset.mpr ⟨hname, ih ?_⟩
          exact h.origin v (List.mem_of_find?_eq_some hv) previous hprevious

theorem wayBack_ne_nil (seen : List Visit) (fuel : Nat) (name : String) :
    wayBack seen fuel name ≠ [] := by
  cases fuel with
  | zero => simp [wayBack]
  | succ fuel =>
      rw [wayBack]
      split <;> simp

/-- A call leads from one name to another. -/
def Calls (g : CallGraph) (a b : String) : Prop :=
  ∃ e ∈ g.edges, e.caller = a ∧ e.callee = b

/-- A name stands for something effectful. -/
def Effectful (g : CallGraph) (name : String) : Prop :=
  ∃ n, g.node? name = some n ∧ n.isEffectful = true

/-- The nodes have distinct names, and calls lead from nodes to nodes. -/
structure WellFormed (g : CallGraph) : Prop where
  distinct : (g.nodes.map Node.name).Nodup
  callers : ∀ e ∈ g.edges, (g.node? e.caller).isSome = true
  callees : ∀ e ∈ g.edges, (g.node? e.callee).isSome = true

variable {g : CallGraph}

theorem node?_eq_some (hdistinct : (g.nodes.map Node.name).Nodup) {n : Node} (hn : n ∈ g.nodes) :
    g.node? n.name = some n := by
  cases hfind : g.node? n.name with
  | none => simpa using List.find?_eq_none.mp hfind n hn
  | some m =>
      have hname : m.name = n.name := by simpa using List.find?_some hfind
      rw [List.inj_on_of_nodup_map hdistinct (List.mem_of_find?_eq_some hfind) hn hname]

theorem name_of_node? {name : String} {n : Node} (h : g.node? name = some n) :
    n ∈ g.nodes ∧ n.name = name :=
  ⟨List.mem_of_find?_eq_some h, by simpa using List.find?_some h⟩

/-! ### The names of a graph -/

/-- The names of the nodes and of both ends of the calls. -/
def names (g : CallGraph) : List String :=
  g.nodes.map Node.name ++ g.edges.map Edge.caller ++ g.edges.map Edge.callee

theorem length_names_le (g : CallGraph) : g.names.length ≤ g.size := by
  simp only [names, size, List.length_append, List.length_map]
  omega

theorem mem_sorted {names : List String} {n : String} : n ∈ sorted names ↔ n ∈ names :=
  List.mem_mergeSort

theorem mem_callersOf {a b : String} : a ∈ g.callersOf b ↔ g.Calls a b := by
  rw [callersOf, mem_sorted, List.mem_eraseDups, List.mem_map]
  simp only [List.mem_filter, beq_iff_eq, Calls]
  constructor
  · rintro ⟨e, ⟨he, hcallee⟩, hcaller⟩
    exact ⟨e, he, hcaller, hcallee⟩
  · rintro ⟨e, he, hcaller, hcallee⟩
    exact ⟨e, ⟨he, hcallee⟩, hcaller⟩

theorem mem_effectful (hdistinct : (g.nodes.map Node.name).Nodup) {n : String} :
    n ∈ g.effectful ↔ g.Effectful n := by
  simp only [effectful, mem_sorted, List.mem_map, List.mem_filter, Effectful]
  constructor
  · rintro ⟨node, ⟨hnode, heffect⟩, rfl⟩
    exact ⟨node, node?_eq_some hdistinct hnode, heffect⟩
  · rintro ⟨node, hnode, heffect⟩
    exact ⟨node, ⟨(name_of_node? hnode).1, heffect⟩, (name_of_node? hnode).2⟩

/-! ### The search for all names -/

/-- What holds when the search from all effects starts, and is kept by each of its turns, holds when
it is over. -/
theorem tainted_of_turn (hdistinct : (g.nodes.map Node.name).Nodup)
    {P : Nat → List String → List Visit → Prop}
    (hsearching : ∀ {turns queue seen}, P turns queue seen →
      Searching g.callersOf g.effectful turns queue seen)
    (hturn : ∀ {turns current queue seen}, P turns (current :: queue) seen →
      P (turns + 1) (queue ++ unseen seen (g.callersOf current))
        (seen ++ (unseen seen (g.callersOf current)).map fun n => ⟨n, some current⟩))
    (h : P 0 g.effectful (g.effectful.map fun n => ⟨n, none⟩)) :
    ∃ turns, P turns [] g.tainted := by
  refine explore_of_turn g.names ?_ hsearching hturn h ?_ ?_
  · intro n _ m hm
    obtain ⟨e, he, rfl, -⟩ := mem_callersOf.mp hm
    exact List.mem_append_left _ (List.mem_append_right _ (List.mem_map_of_mem he))
  · intro n hn
    have hn : n ∈ g.effectful := by simpa [Function.comp_def] using hn
    obtain ⟨node, hnode, -⟩ := (mem_effectful hdistinct).mp hn
    obtain ⟨hmem, rfl⟩ := name_of_node? hnode
    exact List.mem_append_left _ (List.mem_append_left _ (List.mem_map_of_mem hmem))
  · rw [Nat.zero_add]
    exact length_names_le g

theorem nodup_effectful (hdistinct : (g.nodes.map Node.name).Nodup) : g.effectful.Nodup := by
  apply (List.mergeSort_perm _ _).nodup_iff.mpr
  exact List.Nodup.sublist (List.filter_sublist.map Node.name) hdistinct

theorem tainted_searching (hdistinct : (g.nodes.map Node.name).Nodup) :
    ∃ turns, Searching g.callersOf g.effectful turns [] g.tainted :=
  tainted_of_turn hdistinct id Searching.turn (Searching.start (nodup_effectful hdistinct))

/-- The search from all effects comes to the names from which calls lead to an effect. -/
theorem visited_tainted (hdistinct : (g.nodes.map Node.name).Nodup) (name : String) :
    visited g.tainted name = true ↔
      ∃ effect, g.Effectful effect ∧ Relation.ReflTransGen g.Calls name effect := by
  obtain ⟨turns, hsearch⟩ := tainted_searching hdistinct
  have hflip : ∀ s, Leads g.callersOf s name ↔ Relation.ReflTransGen g.Calls name s := by
    intro s
    rw [← Relation.reflTransGen_swap]
    unfold Leads
    simp only [mem_callersOf]
  rw [hsearch.visited_iff_leads]
  simp only [mem_effectful hdistinct, hflip]

/-! ### The search around a name -/

/-- The first effectful name of visits that all have nodes. -/
theorem firstEffectful_spec {seen : List Visit}
    (hnodes : ∀ n ∈ seen.map Visit.name, (g.node? n).isSome = true) :
    ∃ goal, g.firstEffectful seen = some goal ∧
      (∀ last ∈ goal, last ∈ seen.map Visit.name) ∧
      (goal.isSome = true ↔ ∃ n ∈ seen.map Visit.name, g.Effectful n) := by
  induction seen with
  | nil => exact ⟨none, rfl, by simp, by simp⟩
  | cons v seen ih =>
      rw [List.map_cons] at hnodes ⊢
      obtain ⟨hv, hseen⟩ := List.forall_mem_cons.mp hnodes
      obtain ⟨n, hn⟩ := Option.isSome_iff_exists.mp hv
      by_cases heffect : n.isEffectful = true
      · refine ⟨some v.name, by simp [firstEffectful, hn, heffect], ?_, ?_⟩
        · intro last hlast
          obtain rfl := Option.some.inj hlast
          exact List.mem_cons_self
        · exact iff_of_true rfl ⟨v.name, List.mem_cons_self, n, hn, heffect⟩
      · obtain ⟨goal, hgoal, hlast, hiff⟩ := ih hseen
        have hnot : ¬ g.Effectful v.name := by
          rintro ⟨m, hm, heffect'⟩
          exact heffect (by rwa [Option.some.inj (hn.symm.trans hm)])
        refine ⟨goal, by simp [firstEffectful, hn, heffect, hgoal], ?_, ?_⟩
        · exact fun last h => List.mem_cons_of_mem _ (hlast last h)
        · rw [hiff]
          simp [hnot]

/-- The names that a name calls, without one. -/
def calleesBut (g : CallGraph) (excluded n : String) : List String :=
  ((g.sites n).map Edge.callee).filter (· != excluded)

/-- The search from a name that avoids another one. -/
def around (g : CallGraph) (name excluded : String) : List Visit :=
  explore (g.calleesBut excluded) g.size [name] [⟨name, none⟩]

/-- Calls that lead from one name to another around a third one. -/
def LeadsAround (g : CallGraph) (excluded : String) : String → String → Prop :=
  Relation.ReflTransGen fun a b => g.Calls a b ∧ b ≠ excluded

theorem mem_calleesBut {excluded a b : String} :
    b ∈ g.calleesBut excluded a ↔ g.Calls a b ∧ b ≠ excluded := by
  simp only [calleesBut, sites, List.mem_filter, List.mem_map, beq_iff_eq, bne_iff_ne, Calls]
  constructor
  · rintro ⟨⟨e, ⟨he, hcaller⟩, hcallee⟩, hb⟩
    exact ⟨⟨e, he, hcaller, hcallee⟩, hb⟩
  · rintro ⟨⟨e, he, hcaller, hcallee⟩, hb⟩
    exact ⟨⟨e, ⟨he, hcaller⟩, hcallee⟩, hb⟩

/-- What holds when a search around a name starts, and is kept by each of its turns, holds when it
is over. -/
theorem around_of_turn {excluded name : String} (hname : name ∈ g.names)
    {P : Nat → List String → List Visit → Prop}
    (hsearching : ∀ {turns queue seen}, P turns queue seen →
      Searching (g.calleesBut excluded) [name] turns queue seen)
    (hturn : ∀ {turns current queue seen}, P turns (current :: queue) seen →
      P (turns + 1) (queue ++ unseen seen (g.calleesBut excluded current))
        (seen ++ (unseen seen (g.calleesBut excluded current)).map fun n => ⟨n, some current⟩))
    (h : P 0 [name] [⟨name, none⟩]) : ∃ turns, P turns [] (g.around name excluded) := by
  refine explore_of_turn g.names ?_ hsearching hturn h ?_ ?_
  · intro n _ m hm
    obtain ⟨⟨e, he, -, rfl⟩, -⟩ := mem_calleesBut.mp hm
    exact List.mem_append_right _ (List.mem_map_of_mem he)
  · simpa using hname
  · rw [Nat.zero_add]
    exact length_names_le g

theorem around_searching (excluded : String) {name : String} (hname : name ∈ g.names) :
    ∃ turns, Searching (g.calleesBut excluded) [name] turns [] (g.around name excluded) :=
  around_of_turn hname id Searching.turn (Searching.start (List.nodup_singleton name))

theorem mem_around {name excluded : String} (hname : name ∈ g.names) (n : String) :
    n ∈ (g.around name excluded).map Visit.name ↔ g.LeadsAround excluded name n := by
  obtain ⟨turns, hsearch⟩ := around_searching excluded hname
  rw [← visited_iff, hsearch.visited_iff_leads]
  simp only [List.mem_singleton, exists_eq_left, Leads, LeadsAround, mem_calleesBut]

theorem pathAvoiding?_eq {name excluded : String} (hne : name ≠ excluded)
    (hnode : (g.node? name).isSome = true) :
    g.pathAvoiding? name excluded =
      (g.firstEffectful (g.around name excluded)).map fun goal =>
        match goal with
        | some last =>
          (wayBack (g.around name excluded) (g.around name excluded).length last).reverse
        | none => [] := by
  apply if_neg
  simp [hne, Option.isNone_iff_eq_none, Option.isSome_iff_ne_none.mp hnode]

theorem mem_names_of_isSome {name : String} (h : (g.node? name).isSome = true) :
    name ∈ g.names := by
  obtain ⟨n, hn⟩ := Option.isSome_iff_exists.mp h
  obtain ⟨hmem, rfl⟩ := name_of_node? hn
  exact List.mem_append_left _ (List.mem_append_left _ (List.mem_map_of_mem hmem))

/-- Every name that the search around a node comes to has a node. -/
theorem WellFormed.isSome_of_around (h : g.WellFormed) {name : String}
    (hnode : (g.node? name).isSome = true) (excluded : String) :
    ∀ n ∈ (g.around name excluded).map Visit.name, (g.node? n).isSome = true := by
  intro n hn
  -- every name but the first is come to by a call
  rcases ((mem_around (mem_names_of_isSome hnode) n).mp hn).cases_tail with
    rfl | ⟨m, -, ⟨e, he, -, rfl⟩, -⟩
  · exact hnode
  · exact h.callees e he

/-- The search around a name never comes to a name without a node, and it finds a path if there is
one. -/
theorem pathAvoiding?_spec (h : g.WellFormed) {name excluded : String} (hne : name ≠ excluded)
    (hnode : (g.node? name).isSome = true) :
    ∃ path, g.pathAvoiding? name excluded = some path ∧
      (∀ n ∈ path, (g.node? n).isSome = true) ∧
      (path ≠ [] ↔ ∃ effect, g.Effectful effect ∧ g.LeadsAround excluded name effect) := by
  have hname := mem_names_of_isSome hnode
  have hnodes := h.isSome_of_around hnode excluded
  obtain ⟨turns, hsearch⟩ := around_searching excluded hname
  obtain ⟨goal, hgoal, hlast, hiff⟩ := firstEffectful_spec hnodes
  simp only [mem_around hname] at hiff
  have hpath : (∃ effect, g.Effectful effect ∧ g.LeadsAround excluded name effect) ↔
      goal.isSome = true := by
    rw [hiff]
    exact exists_congr fun n => and_comm
  rw [pathAvoiding?_eq hne hnode, hgoal]
  refine ⟨_, rfl, ?_, ?_⟩
  · cases goal with
    | none => simp
    | some last =>
        intro n hn
        exact hnodes n (hsearch.wayBack_subset (hlast last rfl) (List.mem_reverse.mp hn))
  · rw [hpath]
    cases goal with
    | none => simp
    | some last => simp [wayBack_ne_nil]

end Prosaic.CallGraph
