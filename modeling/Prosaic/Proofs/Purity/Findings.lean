import Prosaic.Proofs.Purity.Labels
import Prosaic.Proofs.Typing.Findings

/-!
What the purity check finds. As with the type check, every finding is one of the check itself: calls
that have nothing to call, and violations. It points at the name in a call, and the time is found to
be over where a function starts.
-/

namespace Prosaic

open Diagnostic

variable {mark : Location → Prop}

theorem plain_purityFinding {code : String} (h : code ≠ resourceLimit) (message : String)
    {start : Position} (hstart : mark start.location) (hint : String) :
    (purityFinding code message start hint).PlainAt .effects mark :=
  ⟨⟨rfl, h⟩, hstart⟩

/-- Every name in a call starts at one of some places if all parts of the statements do. -/
theorem Stmt.AllPlaced.callee {ss : List Stmt} (h : Stmt.AllPlaced mark (Expr.Placed mark) ss) :
    ∀ site ∈ Stmt.callsAll ss, mark site.callee.span.start.location := by
  have heverywhere : Stmt.EverywhereIn (Expr.Starts mark) ss :=
    Stmt.everywhereIn_iff.mpr fun s hs =>
      (Stmt.allPlaced_iff.mp h s hs).everywhere fun _ he => he
  intro site hsite
  obtain ⟨args, hcall⟩ := heverywhere.at_call site hsite
  exact hcall.name _ rfl

/-- Every edge of a graph is named at one of some places. -/
def CallGraph.Marked (mark : Location → Prop) (g : CallGraph) : Prop :=
  ∀ e ∈ g.edges, mark e.name.location

namespace Callables

variable (c : Callables)

theorem plain_unresolved (g : CallGraph) (caller : String) {callee : Name}
    (hcallee : mark callee.span.start.location) :
    (unresolved g caller callee).PlainAt .effects mark :=
  plain_purityFinding (by decide) _ hcallee _

theorem plain_addCalls (caller : String) {sites : List CallSite}
    (hsites : ∀ site ∈ sites, mark site.callee.span.start.location) {g : CallGraph}
    (hg : g.Marked mark) :
    AllPlainAt .effects mark (c.addCalls caller sites g).2 ∧
      (c.addCalls caller sites g).1.Marked mark := by
  induction sites generalizing g with
  | nil => exact ⟨allPlainAt_nil, hg⟩
  | cons site sites ih =>
      obtain ⟨hsite, hrest⟩ := List.forall_mem_cons.mp hsites
      have hedges := edges_resolve (c := c) g site.callee.text
      unfold addCalls
      generalize c.resolve g site.callee.text = r at hedges
      have hresolved : r.2.Marked mark := fun e he => hg e (hedges ▸ he)
      obtain ⟨n?, g₁⟩ := r
      cases n? with
      | none =>
          obtain ⟨hfound, hgraph⟩ := ih hrest hresolved
          exact ⟨allPlainAt_cons.mpr ⟨plain_unresolved _ _ hsite, hfound⟩, hgraph⟩
      | some n =>
          refine ih hrest fun e he => ?_
          rw [CallGraph.edges_addEdge] at he
          rcases List.mem_append.mp he with hold | hnew
          · exact hresolved e hold
          · exact List.mem_singleton.mp hnew ▸ hsite

end Callables

/-- A graph under construction of which all findings and edges are at some places. -/
structure GraphBuilding.Marked (mark : Location → Prop) (b : GraphBuilding) : Prop where
  found : AllPlainAt .effects mark b.found
  graph : b.graph.Marked mark
  timer : b.timer.Marked mark

theorem marked_buildGraph (c : Callables) (seen : List String) {ds : List Decl}
    (hds : ∀ d ∈ ds, d.Placed mark (Expr.Placed mark)) {g : CallGraph} (hg : g.Marked mark)
    {timer : Timer} (htimer : timer.Marked mark) : (buildGraph c seen ds g timer).Marked mark := by
  induction ds generalizing seen g timer with
  | nil =>
      unfold buildGraph
      exact ⟨allPlainAt_nil, hg, htimer⟩
  | cons d ds ih =>
      obtain ⟨hd, hrest⟩ := List.forall_mem_cons.mp hds
      have hlater : ∀ {seen g timer} d, g.Marked mark → timer.Marked mark →
          GraphBuilding.Marked mark
            { buildGraph c seen ds g timer with
              decls := d :: (buildGraph c seen ds g timer).decls } := by
        intro seen g timer d hg htimer
        have h := ih seen hrest hg htimer
        exact ⟨h.found, h.graph, h.timer⟩
      cases d with
      | type t => exact hlater _ hg htimer
      | record r => exact hlater _ hg htimer
      | function f =>
          unfold buildGraph
          split
          · exact hlater _ hg htimer
          · have hcheck := htimer.check hd.span
            have hcalls := c.plain_addCalls f.name.text hd.body.callee hg
            dsimp only
            split
            · exact ⟨allPlainAt_nil, hg, hcheck⟩
            · have h := ih (f.name.text :: seen) hrest hcalls.2 hcheck
              exact ⟨allPlainAt_append.mpr ⟨hcalls.1, h.found⟩, h.graph, h.timer⟩

theorem plain_violation {g : CallGraph} {tainted : List CallGraph.Visit} {e : CallGraph.Edge}
    {d : Diagnostic} (he : mark e.name.location) (h : violation? g tainted e = some d) :
    d.PlainAt .effects mark := by
  unfold violation? at h
  split at h
  · cases h
  split at h
  · cases h
  · cases h
  · obtain ⟨callee, -, h⟩ := Option.bind_eq_some_iff.mp h
    obtain ⟨last, -, h⟩ := Option.bind_eq_some_iff.mp h
    cases h
    exact plain_purityFinding (by decide) _ he _

theorem plain_violations {g : CallGraph} (hg : g.Marked mark) (p : Program) :
    AllPlainAt .effects mark (violations g p) := by
  intro d hd
  obtain ⟨f, -, hd⟩ := List.mem_flatMap.mp hd
  obtain ⟨e, he, hd⟩ := List.mem_filterMap.mp hd
  exact plain_violation (hg e (List.mem_filter.mp he).1) hd

section

variable {p : Program} {registry : Registry} {budget : Budget}

variable (registry budget) in
/-- The graph of a program of which all parts are at some places. -/
theorem Program.marked_withLabels (hp : p.Placed mark (Expr.Placed mark)) :
    (buildGraph (.of registry p.withLabels) [] p.withLabels.declarations
      ((Callables.of registry p.withLabels).nodes p.withLabels) ⟨budget, none⟩).Marked mark := by
  refine marked_buildGraph _ _ ?_ ?_ fun _ he => by cases he
  · intro d hd
    obtain ⟨d, hmem, rfl⟩ := List.mem_map.mp hd
    have hplaced := hp d hmem
    cases d with
    | function f =>
        exact ⟨hplaced.span, hplaced.name, hplaced.parameters, hplaced.returns, hplaced.body⟩
    | type t => exact hplaced
    | record r => exact hplaced
  · intro e he
    rw [Callables.edges_nodes] at he
    cases he

/-- The purity check finds nothing but its own findings, where parts of the program start. -/
theorem Program.checkPurity_plainAt {report : PurityReport}
    (hp : p.Placed mark (Expr.Placed mark))
    (h : (p.checkPurity registry budget).result = .ok report) :
    AllPlainAt .effects mark report.found := by
  have hbuilt := Program.marked_withLabels registry budget hp
  simp only [checkPurity] at h
  split at h
  · cases h
  · cases h
    exact allPlainAt_append.mpr ⟨hbuilt.found, plain_violations hbuilt.graph _⟩

/-- The only limit that the purity check finds to be exceeded is the time, where a part of the
program starts. -/
theorem Program.checkPurity_marked {e : Exceeded} (hp : p.Placed mark (Expr.Placed mark))
    (h : (p.checkPurity registry budget).result = .error e) :
    (∃ most, e.limit = .time most) ∧ mark e.location := by
  have hbuilt := Program.marked_withLabels registry budget hp
  simp only [checkPurity] at h
  split at h
  · next hover =>
      cases h
      exact hbuilt.timer e hover
  · cases h

/-- The only limit that the purity check finds to be exceeded is the time. -/
theorem Program.checkPurity_time {e : Exceeded}
    (h : (p.checkPurity registry budget).result = .error e) : ∃ most, e.limit = .time most := by
  have hanywhere : ∀ l, (fun _ : Location => True) l := fun _ => trivial
  have hplaced := p.placed_anywhere hanywhere (Expr.placed_anywhere hanywhere)
  exact (Program.checkPurity_marked hplaced h).1

/-- The purity check finds nothing but its own findings. -/
theorem Program.checkPurity_plain {report : PurityReport}
    (h : (p.checkPurity registry budget).result = .ok report) : AllPlain .effects report.found := by
  have hanywhere : ∀ l, (fun _ : Location => True) l := fun _ => trivial
  have hplaced := p.placed_anywhere hanywhere (Expr.placed_anywhere hanywhere)
  exact (Program.checkPurity_plainAt hplaced h).plain

end

end Prosaic
