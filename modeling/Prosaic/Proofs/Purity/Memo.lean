import Mathlib.Data.List.Induction
import Prosaic.Proofs.Purity.Check
import Prosaic.Proofs.Purity.Shortest
import Prosaic.Purity.Memo

/-!
Call graphs that are asked while they grow. What is added to a graph so far, the first node of each
name and all calls, says what it answers next: a search that is remembered is the one that would run
now, since everything that could change it makes the graph forget.
-/

namespace Prosaic

open CallGraph

/-! ### Graphs that grow by nodes and calls -/

section

variable {P : CallGraph → Prop} (hnode : ∀ n {g}, P g → P (g.addNode n).2)
  (hedge : ∀ e {g}, P g → P (g.addEdge e))

include hnode

theorem foldl_addNode_kept (ns : List Node) {g : CallGraph} (h : P g) :
    P (ns.foldl (fun g n => (g.addNode n).2) g) := by
  induction ns generalizing g with
  | nil => exact h
  | cons n ns ih => exact ih (hnode n h)

theorem resolve_kept (c : Callables) (name : String) {g : CallGraph} (h : P g) :
    P (c.resolve g name).2 := by
  rw [Callables.resolve_eq]
  split
  · exact h
  · split
    · exact hnode _ h
    · exact h

include hedge

theorem addCalls_kept (c : Callables) (caller : String) (sites : List CallSite) {g : CallGraph}
    (h : P g) : P (c.addCalls caller sites g).1 := by
  induction sites generalizing g with
  | nil => exact h
  | cons site sites ih =>
      have hresolved := resolve_kept hnode c site.callee.text h
      unfold Callables.addCalls
      split
      · next heq =>
          rw [heq] at hresolved
          exact ih hresolved
      · next heq =>
          rw [heq] at hresolved
          exact ih (hedge _ hresolved)

theorem buildGraph_kept (c : Callables) {seen : List String} {ds : List Decl} {g : CallGraph}
    {timer : Timer} (h : P g) : P (buildGraph c seen ds g timer).graph := by
  induction ds generalizing seen g timer with
  | nil => exact h
  | cons d ds ih =>
      cases d with
      | type t => exact ih h
      | record r => exact ih h
      | function f =>
          simp only [buildGraph]
          split
          · exact ih h
          · split
            · exact h
            · exact ih (addCalls_kept hnode hedge c _ _ h)

/-- The purity check starts from the empty graph, and adds nodes and calls to it. -/
theorem checkPurity_kept (hempty : P .empty) {p : Program} {registry : Registry} {budget : Budget}
    {report : PurityReport} (h : (p.checkPurity registry budget).result = .ok report) :
    P report.graph := by
  simp only [Program.checkPurity] at h
  split at h
  · cases h
  · obtain rfl := Except.ok.inj h
    exact buildGraph_kept hnode hedge _ (foldl_addNode_kept hnode _ hempty)

end

namespace CallGraph.Memo

/-! ### What was added -/

namespace Request

def node? : Request → Option Node
  | .node n => some n
  | _ => none

def edge? : Request → Option Edge
  | .edge e => some e
  | _ => none

end Request

variable {requests : List Request} {m : Memo}

/-- The node that some requests leave for a name: the first one that was added. -/
def added? (requests : List Request) (name : String) : Option Node :=
  (requests.filterMap Request.node?).find? fun n => n.name == name

/-- The calls that some requests add. -/
def addedEdges (requests : List Request) : List Edge := requests.filterMap Request.edge?

/-- Some requests add a call from one name to another. -/
def AddsCall (requests : List Request) (a b : String) : Prop :=
  ∃ e ∈ addedEdges requests, e.caller = a ∧ e.callee = b

/-- Some requests leave an effectful node for a name. -/
def AddsEffect (requests : List Request) (name : String) : Prop :=
  ∃ n, added? requests name = some n ∧ n.isEffectful = true

/-! ### What is remembered -/

/-- A graph that some requests lead to. -/
structure Follows (requests : List Request) (m : Memo) : Prop where
  distinct : (m.graph.nodes.map Node.name).Nodup
  nodes : ∀ name, m.graph.node? name = added? requests name
  edges : m.graph.edges = addedEdges requests
  memory : ∀ seen, m.found? = some seen → seen = m.graph.tainted

theorem Follows.empty : Follows [] .empty where
  distinct := List.nodup_nil
  nodes _ := rfl
  edges := rfl
  memory _ h := nomatch h

/-- The search for all names finds what it would find without a memory. -/
theorem Follows.search (h : Follows requests m) :
    m.search.1 = m.graph.tainted ∧ Follows requests m.search.2 := by
  unfold Memo.search
  cases hfound : m.found? with
  | none =>
      exact ⟨rfl, { h with memory := fun seen hseen => (Option.some.inj hseen).symm }⟩
  | some seen => exact ⟨h.memory seen hfound, h⟩

theorem graph_addNode (m : Memo) (n : Node) :
    (m.addNode n).2.graph = (m.graph.addNode n).2 := by
  unfold Memo.addNode
  cases hexisting : m.graph.node? n.name with
  | none => rfl
  | some existing => rw [CallGraph.addNode, hexisting]

theorem Follows.addNode (h : Follows requests m) (n : Node) :
    Follows (requests ++ [.node n]) (m.addNode n).2 := by
  have hadded : ∀ name, added? (requests ++ [.node n]) name =
      (m.graph.addNode n).2.node? name := by
    intro name
    rw [node?_addNode, h.nodes]
    by_cases hname : n.name = name <;> simp [added?, Request.node?, hname]
  have hedges : addedEdges (requests ++ [.node n]) = addedEdges requests := by
    simp [addedEdges, Request.edge?]
  constructor
  case distinct => rw [graph_addNode]; exact distinct_addNode n h.distinct
  case nodes => exact fun name => by rw [graph_addNode, hadded]
  case edges => rw [graph_addNode, edges_addNode, h.edges, hedges]
  case memory =>
    unfold Memo.addNode
    -- a name that has a node leaves the graph as it is, and so what is remembered of it
    split
    · exact h.memory
    · exact fun _ hseen => nomatch hseen

theorem Follows.addEdge (h : Follows requests m) (e : Edge) :
    Follows (requests ++ [.edge e]) (m.addEdge e) where
  distinct := by rw [Memo.addEdge, nodes_addEdge]; exact h.distinct
  nodes name := by
    rw [Memo.addEdge, node?_addEdge, h.nodes]
    simp [added?, Request.node?]
  edges := by
    rw [Memo.addEdge, edges_addEdge, h.edges]
    simp [addedEdges, Request.edge?]
  memory _ hseen := nomatch hseen

/-- A question adds nothing. -/
theorem Follows.ask (h : Follows requests m) {r : Request} (hnode : r.node? = none)
    (hedge : r.edge? = none) : Follows (requests ++ [r]) m where
  distinct := h.distinct
  nodes name := by simp [h.nodes, added?, hnode]
  edges := by simp [h.edges, addedEdges, hedge]
  memory := h.memory

theorem Follows.answer (h : Follows requests m) (r : Request) :
    Follows (requests ++ [r]) (m.answer r).2 := by
  cases r with
  | node n => exact h.addNode n
  | edge e => exact h.addEdge e
  | reaches name => exact h.search.2.ask rfl rfl
  | path name => exact h.search.2.ask rfl rfl
  | pathAvoiding name excluded => exact h.ask rfl rfl

theorem after_append (requests : List Request) (r : Request) :
    after (requests ++ [r]) = ((after requests).answer r).2 := by
  simp [after]

theorem follows_after (requests : List Request) : Follows requests (after requests) := by
  induction requests using List.reverseRecOn with
  | nil => exact .empty
  | append_singleton requests r ih =>
      rw [after_append]
      exact ih.answer r

/-! ### Answers -/

theorem Follows.calls (h : Follows requests m) : m.graph.Calls = AddsCall requests := by
  funext a b
  simp only [Calls, AddsCall, h.edges]

theorem Follows.effectful (h : Follows requests m) : m.graph.Effectful = AddsEffect requests := by
  funext name
  simp only [Effectful, AddsEffect, h.nodes]

theorem Follows.effectPath (h : Follows requests m) :
    m.graph.EffectPath = IsWay (AddsCall requests) (AddsEffect requests) := by
  unfold EffectPath
  rw [h.calls, h.effectful]

/-- At every point of a history of additions and questions a graph tells from which names calls lead
to an effect, and a shortest path. -/
theorem answers_exact (requests : List Request) (name : String) :
    (((after requests).reachesEffect name).1 = true ↔
        ∃ path, IsWay (AddsCall requests) (AddsEffect requests) name path) ∧
      (((after requests).reachesEffect name).1 = true →
        Shortest (IsWay (AddsCall requests) (AddsEffect requests) name)
          ((after requests).pathToEffect name).1) ∧
      (((after requests).reachesEffect name).1 = false →
        ((after requests).pathToEffect name).1 = []) := by
  have h := follows_after requests
  have hsearch := h.search.1
  obtain ⟨hreaches, hshortest⟩ := tainted_shortest h.distinct name
  rw [h.effectPath] at hreaches hshortest
  simp only [reachesEffect, pathToEffect, hsearch]
  refine ⟨hreaches, fun hvisited => ?_, fun hvisited => ?_⟩
  · rw [if_pos hvisited]
    exact hshortest hvisited
  · rw [hvisited]
    rfl

/-! ### Searching around a name -/

/-- Every added call leads from a name with a node to another. -/
def Ended (requests : List Request) : Prop :=
  ∀ e ∈ addedEdges requests,
    (added? requests e.caller).isSome = true ∧ (added? requests e.callee).isSome = true

instance (requests : List Request) : Decidable (Ended requests) :=
  inferInstanceAs (Decidable (∀ e ∈ addedEdges requests, _ ∧ _))

theorem Follows.wellFormed_iff (h : Follows requests m) :
    m.graph.WellFormed ↔ Ended requests := by
  unfold Ended
  simp only [← h.nodes, ← h.edges]
  exact ⟨fun hg e he => ⟨hg.callers e he, hg.callees e he⟩,
    fun hends => ⟨h.distinct, fun e he => (hends e he).1, fun e he => (hends e he).2⟩⟩

/-- Some requests lead to a graph. -/
def Built (g : CallGraph) : Prop := ∃ requests, (after requests).graph = g

theorem built_addNode (n : Node) {g : CallGraph} (h : Built g) :
    Built (g.addNode n).2 := by
  obtain ⟨requests, rfl⟩ := h
  exact ⟨requests ++ [.node n], by rw [after_append, ← graph_addNode]; rfl⟩

theorem built_addEdge (e : Edge) {g : CallGraph} (h : Built g) :
    Built (g.addEdge e) := by
  obtain ⟨requests, rfl⟩ := h
  exact ⟨requests ++ [.edge e], by rw [after_append]; rfl⟩

/-- A search around a name in a graph whose calls lead from nodes to nodes returns a shortest path
to an effect that does not pass through the name, and the empty path if all of them do. The purity
check builds such a graph. -/
theorem avoiding_exact :
    (∀ (requests : List Request) (name excluded : String), Ended requests →
      ∃ path, (after requests).graph.pathAvoiding? name excluded = some path ∧
        (path = [] ↔
          ∀ way, IsWay (AddsCall requests) (AddsEffect requests) name way → excluded ∈ way) ∧
        (path ≠ [] →
          Shortest (fun way => IsWay (AddsCall requests) (AddsEffect requests) name way ∧
            excluded ∉ way) path)) ∧
      ∀ (p : Program) (registry : Registry) (budget : Budget) (report : PurityReport),
        (p.checkPurity registry budget).result = .ok report →
          ∃ requests, (after requests).graph = report.graph ∧ Ended requests := by
  refine ⟨fun requests name excluded hends => ?_, fun p registry budget report h => ?_⟩
  · have h := follows_after requests
    have hspec := pathAvoiding?_shortest (h.wellFormed_iff.mpr hends) name excluded
    rwa [h.effectPath] at hspec
  · obtain ⟨requests, hgraph⟩ :=
      checkPurity_kept (P := Built) built_addNode built_addEdge ⟨[], rfl⟩ h
    refine ⟨requests, hgraph, (follows_after requests).wellFormed_iff.mp ?_⟩
    rw [hgraph]
    exact (checkPurity_report h).1.wellFormed

/-- Two names that call each other, with an effect behind one of them and a way around. -/
def detour : List Request :=
  [.node ⟨"io", "operation", .effectful⟩] ++
    ["a", "b", "c", "d"].map (fun name => .node ⟨name, "function", .pure⟩) ++
    [("a", "b"), ("b", "a"), ("b", "io"), ("c", "a"), ("c", "d"), ("d", "io")].map fun (a, b) =>
      .edge ⟨a, b, .first, .first⟩

theorem avoiding_detour :
    Ended detour ∧
      (after detour).graph.pathAvoiding? "c" "b" = some ["c", "d", "io"] ∧
      Shortest (fun way => IsWay (AddsCall detour) (AddsEffect detour) "c" way ∧ "b" ∉ way)
        ["c", "d", "io"] ∧
      (after detour).graph.pathAvoiding? "a" "b" = some [] ∧
      ∀ way, IsWay (AddsCall detour) (AddsEffect detour) "a" way → "b" ∈ way := by
  have hends : Ended detour := by decide
  have hc : (after detour).graph.pathAvoiding? "c" "b" = some ["c", "d", "io"] := by decide +kernel
  have ha : (after detour).graph.pathAvoiding? "a" "b" = some [] := by decide +kernel
  obtain ⟨path, hpath, -, hshortest⟩ := avoiding_exact.1 detour "c" "b" hends
  obtain ⟨nowhere, hnowhere, hevery, -⟩ := avoiding_exact.1 detour "a" "b" hends
  obtain rfl := Option.some.inj (hpath.symm.trans hc)
  obtain rfl := Option.some.inj (hnowhere.symm.trans ha)
  exact ⟨hends, hc, hshortest (by simp), ha, hevery.mp rfl⟩

end CallGraph.Memo

end Prosaic
