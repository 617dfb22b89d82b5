import Prosaic.Proofs.Purity.Meaning
import Prosaic.Proofs.Registry.Extension
import Prosaic.Proofs.Registry.Names
import Prosaic.Proofs.Typing.Alike

/-!
The purity check against a registry that extends another one. What is added gets nodes of its own in
the call graph and more room for the searches; but no call leads to these nodes, and a search that
had room enough before finds the same with more of it.
-/

namespace Prosaic

open CallGraph

/-! ### Graphs with the same calls -/

namespace CallGraph

/-- Graphs with the same calls, whose ends have the same nodes. -/
structure SameCalls (g g' : CallGraph) : Prop where
  wellFormed : g.WellFormed
  wellFormed' : g'.WellFormed
  edges : g.edges = g'.edges
  callers : ∀ e ∈ g.edges, g.node? e.caller = g'.node? e.caller
  callees : ∀ e ∈ g.edges, g.node? e.callee = g'.node? e.callee

variable {g g' : CallGraph} (h : g.SameCalls g')

include h

theorem SameCalls.symm : g'.SameCalls g where
  wellFormed := h.wellFormed'
  wellFormed' := h.wellFormed
  edges := h.edges.symm
  callers e he := (h.callers e (h.edges ▸ he)).symm
  callees e he := (h.callees e (h.edges ▸ he)).symm

theorem SameCalls.sites (name : String) : g.sites name = g'.sites name := by
  rw [CallGraph.sites, CallGraph.sites, h.edges]

theorem SameCalls.calls : g.Calls = g'.Calls := by
  unfold CallGraph.Calls
  rw [h.edges]

/-- Where calls lead from the end of a call, there is the same node. -/
theorem SameCalls.node?_of_leads {e : Edge} (he : e ∈ g.edges) {name : String}
    (hleads : Relation.ReflTransGen g.Calls e.callee name) : g.node? name = g'.node? name := by
  rcases hleads.cases_tail with rfl | ⟨m, -, e', he', -, rfl⟩
  · exact h.callees e he
  · exact h.callees e' he'

theorem SameCalls.visited_of {e : Edge} (he : e ∈ g.edges)
    (hvisited : visited g.tainted e.callee = true) : visited g'.tainted e.callee = true := by
  obtain ⟨effect, ⟨n, hn, heffect⟩, hleads⟩ := (visited_tainted h.wellFormed.distinct _).mp hvisited
  rw [h.node?_of_leads he hleads] at hn
  exact (visited_tainted h.wellFormed'.distinct _).mpr ⟨effect, ⟨n, hn, heffect⟩, h.calls ▸ hleads⟩

/-- The search from all effects comes to the same ends of calls. -/
theorem SameCalls.visited {e : Edge} (he : e ∈ g.edges) :
    visited g.tainted e.callee = visited g'.tainted e.callee := by
  rw [Bool.eq_iff_iff]
  exact ⟨h.visited_of he, h.symm.visited_of (h.edges ▸ he)⟩

omit h in
/-- The room that a search around a name needs depends on the number of calls only. -/
theorem around_eq (g : CallGraph) (name excluded : String) :
    g.around name excluded =
      explore (g.calleesBut excluded) (g.edges.length + 1) [name] [⟨name, none⟩] := by
  have hroom : g.size = g.edges.length + 1 + (g.nodes.length + g.edges.length) := by
    rw [size]
    omega
  rw [around, hroom]
  refine Searching.explore_add (name :: g.edges.map Edge.callee) (fun n _ m hm => ?_)
    (Searching.start (List.nodup_singleton name)) ?_ ?_ _
  · obtain ⟨⟨e, he, -, rfl⟩, -⟩ := mem_calleesBut.mp hm
    exact List.mem_cons_of_mem _ (List.mem_map_of_mem he)
  · simp
  · simp

theorem SameCalls.around (name excluded : String) :
    g.around name excluded = g'.around name excluded := by
  have hcallees : g.calleesBut excluded = g'.calleesBut excluded := by
    funext n
    rw [calleesBut, calleesBut, h.sites]
  rw [around_eq, around_eq, hcallees, h.edges]

omit h in
theorem firstEffectful_congr {seen : List Visit}
    (hnodes : ∀ n ∈ seen.map Visit.name, g.node? n = g'.node? n) :
    g.firstEffectful seen = g'.firstEffectful seen := by
  induction seen with
  | nil => rfl
  | cons v seen ih =>
      obtain ⟨hv, hseen⟩ := List.forall_mem_cons.mp hnodes
      rw [firstEffectful, firstEffectful, hv, ih hseen]

/-- The search around the caller of a call comes to names with the same nodes. -/
theorem SameCalls.node?_of_around {e : Edge} (he : e ∈ g.edges) :
    ∀ n ∈ (g.around e.callee e.caller).map Visit.name, g.node? n = g'.node? n := by
  intro n hn
  have hname : e.callee ∈ g.names := List.mem_append_right _ (List.mem_map_of_mem he)
  exact h.node?_of_leads he (Relation.ReflTransGen.mono (fun _ _ hstep => hstep.1) _ _
    ((mem_around hname n).mp hn))

/-- A path to an effect is the same. -/
theorem SameCalls.pathAvoiding? {e : Edge} (he : e ∈ g.edges) :
    g.pathAvoiding? e.callee e.caller = g'.pathAvoiding? e.callee e.caller := by
  by_cases hself : e.callee = e.caller
  · simp [CallGraph.pathAvoiding?, hself]
  · rw [pathAvoiding?_eq hself (h.wellFormed.callees e he),
      pathAvoiding?_eq hself (h.wellFormed'.callees e (h.edges ▸ he)), ← h.around,
      firstEffectful_congr (h.node?_of_around he)]

/-- The names on a path to an effect have the same nodes. -/
theorem SameCalls.node?_of_path {e : Edge} (he : e ∈ g.edges) (hself : e.callee ≠ e.caller)
    {path : List String} (hpath : g.pathAvoiding? e.callee e.caller = some path) :
    ∀ n ∈ path, g.node? n = g'.node? n := by
  have hname : e.callee ∈ g.names := List.mem_append_right _ (List.mem_map_of_mem he)
  obtain ⟨turns, hsearch⟩ := around_searching e.caller hname
  rw [pathAvoiding?_eq hself (h.wellFormed.callees e he)] at hpath
  obtain ⟨goal, hgoal, rfl⟩ := Option.map_eq_some_iff.mp hpath
  obtain ⟨goal', hgoal', hlast, -⟩ := firstEffectful_spec
    (h.wellFormed.isSome_of_around (h.wellFormed.callees e he) e.caller)
  obtain rfl : goal = goal' := Option.some.inj (hgoal.symm.trans hgoal')
  cases goal with
  | none => exact List.forall_mem_nil _
  | some last =>
      intro n hn
      exact h.node?_of_around he n
        (hsearch.wayBack_subset (hlast last rfl) (List.mem_reverse.mp hn))

end CallGraph

/-- The same call is a violation, with the same message. -/
theorem violation?_congr {g g' : CallGraph} (h : g.SameCalls g') {e : Edge} (he : e ∈ g.edges) :
    violation? g g.tainted e = violation? g' g'.tainted e := by
  unfold violation?
  rw [h.visited he, ← h.pathAvoiding? he, ← h.callees e he]
  split
  · rfl
  · next hcond =>
      have hself : e.callee ≠ e.caller := by
        intro heq
        exact hcond (by simp [heq])
      split
      · rfl
      · rfl
      · next first rest hpath =>
          have hlast := h.node?_of_path he hself hpath _ List.getLastD_mem_cons
          rw [hlast]

theorem violations_congr {g g' : CallGraph} (h : g.SameCalls g') (p : Program) :
    violations g p = violations g' p := by
  unfold violations
  refine List.flatMap_congr fun f _ => ?_
  rw [← h.sites]
  exact List.filterMap_congr fun e he => violation?_congr h (List.mem_filter.mp he).1

/-! ### Names -/

/-- A name of a registry stands for a domain type that is made from another type. -/
def Registry.Converts (r : Registry) (name : String) : Prop :=
  ∃ d, r.types.lookup name = some (.domain d) ∧
    ((r.domains.lookup d).bind Ty.Domain.underlying).isSome = true

theorem Callables.mem_conversions {r : Registry} (hdistinct : (r.types.map Prod.fst).Nodup)
    {p : Program} {name : String} : name ∈ (Callables.of r p).conversions ↔
      name ∈ Base.all.map Base.text ∨ r.Converts name ∨ name ∈ p.types.map TypeDecl.name := by
  rw [Callables.of, List.mem_append, List.mem_append, List.mem_filterMap, or_assoc]
  refine or_congr_right (or_congr_left ⟨?_, ?_⟩)
  · rintro ⟨⟨n, t⟩, he, h⟩
    cases t with
    | domain d =>
        dsimp only at h
        split at h
        · next hunderlying =>
            cases h
            exact ⟨d, lookup_of_mem hdistinct he, hunderlying⟩
        · cases h
    | _ => cases h
  · rintro ⟨d, hd, hunderlying⟩
    exact ⟨_, mem_of_lookup hd, by simp [hunderlying]⟩

section

variable {occurs : String → Prop} {r r' : Registry} (h : r.ExtendedBy occurs r')
  (hclosed : r.Closed)

include h hclosed

theorem Registry.ExtendedBy.converts {name : String} (hname : occurs name) :
    r.Converts name ↔ r'.Converts name := by
  unfold Registry.Converts
  rw [h.types name (.inl hname)]
  refine exists_congr fun d => and_congr_right fun hd => ?_
  rw [h.domains d (.inr (hclosed.types name _ hd))]

variable (hdistinct : (r.types.map Prod.fst).Nodup) (hdistinct' : (r'.types.map Prod.fst).Nodup)
  {p : Program}

include hdistinct hdistinct'

/-- A name that occurs means the same. -/
theorem meaning?_extended {name : String} (hname : occurs name) :
    p.meaning? r name = p.meaning? r' name := by
  have hconversions : (Callables.of r p).conversions.contains name =
      (Callables.of r' p).conversions.contains name := by
    rw [Bool.eq_iff_iff, List.contains_iff_mem, List.contains_iff_mem,
      Callables.mem_conversions hdistinct, Callables.mem_conversions hdistinct',
      h.converts hclosed hname]
  unfold Program.meaning?
  rw [h.isOperation hname, h.isHelper hname, hconversions]

theorem resolvable_extended {name : String} (hname : occurs name) :
    (Callables.of r p).resolvable name = (Callables.of r' p).resolvable name := by
  rw [← Program.isSome_meaning?, ← Program.isSome_meaning?,
    meaning?_extended h hclosed hdistinct hdistinct' hname]

/-! ### The graph -/

/-- The calls of a function that cannot be resolved are the same. -/
theorem addCalls_extended (caller : String) {sites : List CallSite}
    (hsites : ∀ site ∈ sites, occurs site.callee.text) {g g' : CallGraph}
    (hs : (Callables.of r p).Seeded g) (hs' : (Callables.of r' p).Seeded g') :
    SameFound ((Callables.of r p).addCalls caller sites g).2
      ((Callables.of r' p).addCalls caller sites g').2 := by
  induction sites generalizing g g' with
  | nil => rfl
  | cons site sites ih =>
      obtain ⟨hsite, hsites⟩ := List.forall_mem_cons.mp hsites
      have hsome := Callables.isSome_resolve hs site.callee.text
      have hsome' := Callables.isSome_resolve hs' site.callee.text
      rw [← resolvable_extended h hclosed hdistinct hdistinct' hsite, ← hsome] at hsome'
      have hgrown := Callables.grown_resolve (c := Callables.of r p) g site.callee.text
      have hgrown' := Callables.grown_resolve (c := Callables.of r' p) g' site.callee.text
      unfold Callables.addCalls
      generalize (Callables.of r p).resolve g site.callee.text = x,
        (Callables.of r' p).resolve g' site.callee.text = y at hsome' hgrown hgrown' ⊢
      obtain ⟨n, g₁⟩ := x
      obtain ⟨n', g₁'⟩ := y
      cases n with
      | none =>
          cases n' with
          | none => exact .cons rfl (ih hsites (hs.grown hgrown) (hs'.grown hgrown'))
          | some n' => cases hsome'
      | some n =>
          cases n' with
          | none => cases hsome'
          | some n' =>
              exact ih hsites ((hs.grown hgrown).grown (.addEdge g₁ _))
                ((hs'.grown hgrown').grown (.addEdge g₁' _))

omit h hclosed hdistinct hdistinct' in
/-- The time that a graph takes to build does not depend on what can be called. -/
theorem timer_buildGraph (c c' : Callables) (seen : List String) (ds : List Decl)
    (g g' : CallGraph) (timer : Timer) :
    (buildGraph c seen ds g timer).timer = (buildGraph c' seen ds g' timer).timer := by
  induction ds generalizing seen g g' timer with
  | nil => rfl
  | cons d ds ih =>
      cases d with
      | function f =>
          simp only [buildGraph]
          split
          · exact ih seen g g' timer
          · split
            · rfl
            · exact ih _ _ _ _
      | type t | record record => exact ih seen g g' timer

/-- The calls of all functions that cannot be resolved are the same. -/
theorem buildGraph_extended {ds : List Decl} (hds : ∀ f ∈ ds.filterMap Decl.function?,
      ∀ site ∈ Stmt.callsAll f.body, occurs site.callee.text) {seen : List String}
    {g g' : CallGraph} {timer : Timer} (hs : (Callables.of r p).Seeded g)
    (hs' : (Callables.of r' p).Seeded g') :
    SameFound (buildGraph (Callables.of r p) seen ds g timer).found
      (buildGraph (Callables.of r' p) seen ds g' timer).found := by
  induction ds generalizing seen g g' timer with
  | nil => rfl
  | cons d ds ih =>
      cases d with
      | function f =>
          obtain ⟨hf, hds⟩ := List.forall_mem_cons.mp hds
          simp only [buildGraph]
          split
          · exact ih hds hs hs'
          · split
            · rfl
            · obtain ⟨hgrown, -⟩ := Callables.addCalls_spec f.name.text (Stmt.callsAll f.body) hs
              obtain ⟨hgrown', -⟩ := Callables.addCalls_spec f.name.text (Stmt.callsAll f.body) hs'
              exact (addCalls_extended h hclosed hdistinct hdistinct' f.name.text hf hs hs').append
                (ih hds (hs.grown hgrown) (hs'.grown hgrown'))
      | type t | record record => exact ih hds hs hs'

/-- Graphs in which names mean what they do in the program have the same nodes where calls end. -/
theorem sameCalls_extended (hfunctions : ∀ f ∈ p.functions, occurs f.name.text)
    (hcalls : ∀ f ∈ p.functions, ∀ site ∈ Stmt.callsAll f.body, occurs site.callee.text)
    {g g' : CallGraph} (hg : GraphOf g p r) (hg' : GraphOf g' p r') (hmeans : g.Means p r)
    (hmeans' : g'.Means p r') : g.SameCalls g' := by
  have hfirsts : ∀ f ∈ firstFunctions [] p.functions, f ∈ p.functions := fun f hf =>
    List.mem_of_find?_eq_some (mem_firstFunctions.mp hf).2
  have hedges : g.edges = g'.edges := by
    rw [hg.edges, hg'.edges]
    refine List.flatMap_congr fun f hf => congrArg _ (List.filter_congr fun site hsite => ?_)
    exact resolvable_extended h hclosed hdistinct hdistinct' (hcalls f (hfirsts f hf) site hsite)
  have hnode : ∀ name, occurs name → (g.node? name).isSome = true →
      (g'.node? name).isSome = true → g.node? name = g'.node? name := by
    intro name hname hsome hsome'
    obtain ⟨n, hn⟩ := Option.isSome_iff_exists.mp hsome
    obtain ⟨n', hn'⟩ := Option.isSome_iff_exists.mp hsome'
    obtain ⟨kind, hkind, hmeaning⟩ := hmeans name n hn
    obtain ⟨kind', hkind', hmeaning'⟩ := hmeans' name n' hn'
    rw [meaning?_extended h hclosed hdistinct hdistinct' hname, hmeaning'] at hmeaning
    obtain ⟨rfl, hpurity⟩ := Prod.mk.inj (Option.some.inj hmeaning)
    have hnames := (name_of_node? hn).2.trans (name_of_node? hn').2.symm
    rw [hn, hn']
    obtain ⟨_, _, _⟩ := n
    obtain ⟨_, _, _⟩ := n'
    simp only at hkind hkind' hpurity hnames
    rw [hnames, hkind, hkind', hpurity]
  have hends : ∀ e ∈ g.edges, occurs e.caller ∧ occurs e.callee := by
    intro e he
    rw [hg.edges] at he
    obtain ⟨f, hf, he⟩ := List.mem_flatMap.mp he
    obtain ⟨site, hsite, rfl⟩ := List.mem_map.mp he
    exact ⟨hfunctions f (hfirsts f hf), hcalls f (hfirsts f hf) site (List.mem_filter.mp hsite).1⟩
  exact {
    wellFormed := hg.wellFormed
    wellFormed' := hg'.wellFormed
    edges := hedges
    callers := fun e he => hnode _ (hends e he).1 (hg.wellFormed.callers e he)
      (hg'.wellFormed.callers e (hedges ▸ he))
    callees := fun e he => hnode _ (hends e he).2 (hg.wellFormed.callees e he)
      (hg'.wellFormed.callees e (hedges ▸ he)) }

/-! ### The whole check -/

omit h hclosed hdistinct hdistinct' in
variable (p) in
/-- The graph of a program as the check builds it, with all that it learns on the way. -/
def Program.building (registry : Registry) (budget : Budget) : GraphBuilding :=
  buildGraph (Callables.of registry p) [] p.withLabels.declarations
    ((Callables.of registry p).nodes p.withLabels) ⟨budget, none⟩

omit h hclosed hdistinct hdistinct' in
theorem Program.result_checkPurity (registry : Registry) (budget : Budget) :
    (p.checkPurity registry budget).result =
      match (p.building registry budget).timer.exceeded with
      | some e => .error e
      | none => .ok ⟨(p.building registry budget).found
          ++ violations (p.building registry budget).graph p.withLabels,
          (p.building registry budget).graph⟩ := by
  unfold building
  rw [← callables_withLabels p registry]
  rfl

/-- Against a registry and one that extends it by names that do not occur in a program, the purity
check runs out of time in the same place, or finds the same up to hints. -/
theorem Program.checkPurity_extended (hfunctions : ∀ f ∈ p.functions, occurs f.name.text)
    (hcalls : ∀ f ∈ p.functions, ∀ site ∈ Stmt.callsAll f.body, occurs site.callee.text)
    (budget : Budget) :
    (∃ e, (p.checkPurity r budget).result = .error e ∧
        (p.checkPurity r' budget).result = .error e) ∨
      ∃ report report', (p.checkPurity r budget).result = .ok report ∧
        (p.checkPurity r' budget).result = .ok report' ∧ SameFound report.found report'.found := by
  have htimer : (p.building r budget).timer = (p.building r' budget).timer :=
    timer_buildGraph _ _ _ _ _ _ _
  have hok := p.result_checkPurity r budget
  have hok' := p.result_checkPurity r' budget
  rw [← htimer] at hok'
  cases he : (p.building r budget).timer.exceeded with
  | some e =>
      rw [he] at hok hok'
      exact .inl ⟨e, hok, hok'⟩
  | none =>
      have he' := he
      rw [htimer] at he'
      rw [he] at hok hok'
      refine .inr ⟨_, _, hok, hok', ?_⟩
      have hs := seeded_withLabels p r
      have hs' := seeded_withLabels p r'
      have hsame := sameCalls_extended h hclosed hdistinct hdistinct' hfunctions hcalls
        (checkPurity_report hok).1 (checkPurity_report hok').1
        (buildGraph_functions hs means_nodes he).1 (buildGraph_functions hs' means_nodes he').1
      have hlabelled : ∀ f ∈ p.withLabels.declarations.filterMap Decl.function?,
          ∀ site ∈ Stmt.callsAll f.body, occurs site.callee.text := by
        intro f hf
        rw [← Program.functions_eq, Program.functions_withLabels, List.mem_map] at hf
        obtain ⟨f₀, hf₀, rfl⟩ := hf
        exact hcalls f₀ hf₀
      have hfound : SameFound (p.building r budget).found (p.building r' budget).found :=
        buildGraph_extended h hclosed hdistinct hdistinct' hlabelled hs hs'
      rw [violations_congr hsame]
      exact hfound.append (.refl _)

end

end Prosaic
