import Prosaic.Proofs.Purity.Search
import Prosaic.Proofs.Typing.Statement
import Prosaic.Purity.Check

/-!
How the call graph of a program is built. The graph starts with a node for everything that is
declared; each function then adds one edge for every call in its body that can be resolved, and
nodes for the conversions among them. Only the first function of a name counts.
-/

namespace Prosaic

namespace CallGraph

/-! ### Nodes and edges -/

theorem node?_addNode (g : CallGraph) (n : Node) (name : String) :
    (g.addNode n).2.node? name = (g.node? name).or (if n.name = name then some n else none) := by
  unfold addNode
  cases hexisting : g.node? n.name with
  | some existing =>
      by_cases hname : n.name = name
      · simp [← hname, hexisting]
      · simp [hname]
  | none =>
      have hnodes : ({ g with nodes := g.nodes ++ [n] }.addCaller n.name).nodes =
          g.nodes ++ [n] := by
        unfold addCaller
        split <;> rfl
      simp only [node?, hnodes, List.find?_append]
      by_cases hname : n.name = name <;> simp [hname]

theorem edges_addNode (g : CallGraph) (n : Node) : (g.addNode n).2.edges = g.edges := by
  unfold addNode addCaller
  repeat' split
  all_goals rfl

theorem distinct_addNode {g : CallGraph} (n : Node) (h : (g.nodes.map Node.name).Nodup) :
    ((g.addNode n).2.nodes.map Node.name).Nodup := by
  unfold addNode
  cases hexisting : g.node? n.name with
  | some existing => exact h
  | none =>
      have hnodes : ({ g with nodes := g.nodes ++ [n] }.addCaller n.name).nodes =
          g.nodes ++ [n] := by
        unfold addCaller
        split <;> rfl
      rw [hnodes, List.map_append, List.nodup_append]
      refine ⟨h, by simp, ?_⟩
      intro a ha b hb heq
      obtain ⟨m, hm, rfl⟩ := List.mem_map.mp ha
      obtain rfl : b = n.name := by simpa using hb
      simpa [heq] using List.find?_eq_none.mp hexisting m hm

theorem fst_addNode (g : CallGraph) (n : Node) :
    (g.addNode n).2.node? n.name = some (g.addNode n).1 := by
  rw [node?_addNode, if_pos rfl]
  unfold addNode
  cases g.node? n.name <;> rfl

theorem node?_addEdge (g : CallGraph) (e : Edge) (name : String) :
    (g.addEdge e).node? name = g.node? name := by
  unfold addEdge addCaller
  split <;> rfl

theorem nodes_addEdge (g : CallGraph) (e : Edge) : (g.addEdge e).nodes = g.nodes := by
  unfold addEdge addCaller
  split <;> rfl

theorem edges_addEdge (g : CallGraph) (e : Edge) : (g.addEdge e).edges = g.edges ++ [e] := by
  unfold addEdge addCaller
  split <;> rfl

/-- The nodes of a graph that grows out of another: the old ones, and new ones that are pure. -/
structure Grown (g g' : CallGraph) : Prop where
  kept : ∀ name n, g.node? name = some n → g'.node? name = some n
  added : ∀ name n, g'.node? name = some n → g.node? name = some n ∨ n.isEffectful = false
  distinct : (g.nodes.map Node.name).Nodup → (g'.nodes.map Node.name).Nodup

theorem Grown.refl (g : CallGraph) : g.Grown g := ⟨fun _ _ h => h, fun _ _ h => .inl h, id⟩

theorem Grown.trans {g₁ g₂ g₃ : CallGraph} (h₁ : g₁.Grown g₂) (h₂ : g₂.Grown g₃) :
    g₁.Grown g₃ where
  kept name n h := h₂.kept name n (h₁.kept name n h)
  added name n h := (h₂.added name n h).elim (h₁.added name n) .inr
  distinct h := h₂.distinct (h₁.distinct h)

theorem Grown.addNode (g : CallGraph) {n : Node} (hn : n.isEffectful = false) :
    g.Grown (g.addNode n).2 where
  kept name m h := by rw [node?_addNode, h, Option.some_or]
  added name m h := by
    rw [node?_addNode, Option.or_eq_some_iff] at h
    rcases h with h | ⟨-, h⟩
    · exact .inl h
    · split at h
      · exact .inr (by rwa [← Option.some.inj h])
      · cases h
  distinct := distinct_addNode n

theorem Grown.addEdge (g : CallGraph) (e : Edge) : g.Grown (g.addEdge e) where
  kept name n h := by rwa [node?_addEdge]
  added name n h := .inl (by rwa [node?_addEdge] at h)
  distinct h := by rwa [nodes_addEdge]

theorem Grown.isSome {g g' : CallGraph} (h : g.Grown g') {name : String}
    (hname : (g.node? name).isSome = true) : (g'.node? name).isSome = true := by
  obtain ⟨n, hn⟩ := Option.isSome_iff_exists.mp hname
  rw [h.kept name n hn]
  rfl

theorem Grown.effectful {g g' : CallGraph} (h : g.Grown g') (name : String) :
    g'.Effectful name ↔ g.Effectful name := by
  constructor
  · rintro ⟨n, hn, heffect⟩
    rcases h.added name n hn with hold | hpure
    · exact ⟨n, hold, heffect⟩
    · simp [hpure] at heffect
  · rintro ⟨n, hn, heffect⟩
    exact ⟨n, h.kept name n hn, heffect⟩

end CallGraph

open CallGraph

namespace Callables

variable (c : Callables)

/-! ### Resolving names -/

/-- Whether a name is that of a function, a helper or an operation. -/
def declares (name : String) : Bool :=
  c.functions.contains name || c.registry.isHelper name || c.registry.isOperation name

/-- Whether a name stands for something that can be called. -/
def resolvable (name : String) : Bool := c.declares name || c.conversions.contains name

/-- Everything that is declared has its node. -/
def Seeded (g : CallGraph) : Prop := ∀ name, c.declares name = true → (g.node? name).isSome = true

variable {c}

theorem Seeded.grown {g g' : CallGraph} (hs : c.Seeded g) (h : g.Grown g') : c.Seeded g' :=
  fun name hname => h.isSome (hs name hname)

theorem resolve_eq (g : CallGraph) (name : String) :
    c.resolve g name =
      if c.declares name then (g.node? name, g)
      else if c.conversions.contains name then
        (some (g.addNode ⟨name, CallTarget.conversion.text, .pure⟩).1,
          (g.addNode ⟨name, CallTarget.conversion.text, .pure⟩).2)
      else (none, g) := rfl

theorem grown_resolve (g : CallGraph) (name : String) : g.Grown (c.resolve g name).2 := by
  rw [resolve_eq]
  split
  · exact .refl g
  · split
    · exact .addNode g rfl
    · exact .refl g

theorem edges_resolve (g : CallGraph) (name : String) : (c.resolve g name).2.edges = g.edges := by
  rw [resolve_eq]
  split
  · rfl
  · split
    · exact edges_addNode g _
    · rfl

theorem isSome_resolve {g : CallGraph} (hs : c.Seeded g) (name : String) :
    (c.resolve g name).1.isSome = c.resolvable name := by
  rw [resolve_eq, resolvable]
  by_cases hdeclared : c.declares name = true
  · simp [hdeclared, hs name hdeclared]
  · cases hconversion : c.conversions.contains name <;> simp [hdeclared]

theorem node?_resolve {g : CallGraph} {name : String} {n : Node}
    (h : (c.resolve g name).1 = some n) : (c.resolve g name).2.node? name = some n := by
  rw [resolve_eq] at h ⊢
  split at h
  · next hdeclared => rwa [if_pos hdeclared]
  · next hdeclared =>
      rw [if_neg hdeclared]
      split at h
      · next hconversion =>
          rw [if_pos hconversion, ← h]
          exact fst_addNode g ⟨name, _, _⟩
      · cases h

/-- Once everything that is declared has its node, exactly the names that stand for something have a
label. -/
theorem isSome_label {g : CallGraph} (hs : c.Seeded g) (name : String) :
    (c.label g name).isSome = c.resolvable name := by
  rw [label, Option.isSome_map, isSome_resolve hs]

/-! ### The calls of a function -/

/-- The edge of a call in the body of a function. -/
def callEdge (caller : String) (site : CallSite) : Edge :=
  ⟨caller, site.callee.text, site.note.span.start, site.callee.span.start⟩

variable (c) in
/-- The edges of the calls that can be resolved. -/
def callEdges (caller : String) (sites : List CallSite) : List Edge :=
  (sites.filter fun site => c.resolvable site.callee.text).map (callEdge caller)

/-- The calls of a function add their edges, and leave a node for everything that they call. -/
theorem addCalls_spec (caller : String) (sites : List CallSite) {g : CallGraph}
    (hs : c.Seeded g) :
    g.Grown (c.addCalls caller sites g).1 ∧
      (c.addCalls caller sites g).1.edges = g.edges ++ c.callEdges caller sites ∧
      (∀ e ∈ c.callEdges caller sites,
        ((c.addCalls caller sites g).1.node? e.callee).isSome = true) ∧
      (∀ d ∈ (c.addCalls caller sites g).2, d.code = Diagnostic.unresolvedCall) ∧
      ((c.addCalls caller sites g).2 = [] ↔
        ∀ site ∈ sites, c.resolvable site.callee.text = true) := by
  induction sites generalizing g with
  | nil => simp [addCalls, callEdges, Grown.refl]
  | cons site sites ih =>
      have hgrown := grown_resolve (c := c) g site.callee.text
      have hedges := edges_resolve (c := c) g site.callee.text
      have hsome := isSome_resolve hs site.callee.text
      have hnode : ∀ n, (c.resolve g site.callee.text).1 = some n →
          (c.resolve g site.callee.text).2.node? site.callee.text = some n :=
        fun n => node?_resolve
      unfold addCalls
      cases hresolve : c.resolve g site.callee.text with
      | mk r g₁ =>
          rw [hresolve] at hgrown hedges hsome hnode
          cases r with
          | none =>
              have hunresolvable : c.resolvable site.callee.text = false := hsome.symm
              -- the call is reported and adds nothing
              obtain ⟨hmore, hmoreEdges, hcallees, hcodes, -⟩ := ih (hs.grown hgrown)
              have hsame : c.callEdges caller (site :: sites) = c.callEdges caller sites := by
                simp [callEdges, hunresolvable]
              refine ⟨hgrown.trans hmore, ?_, hsame ▸ hcallees, ?_, by simp [hunresolvable]⟩
              · exact hmoreEdges.trans (by rw [hsame, hedges])
              · exact List.forall_mem_cons.mpr ⟨rfl, hcodes⟩
          | some n =>
              have hresolvable : c.resolvable site.callee.text = true := hsome.symm
              have hn : n.name = site.callee.text := (name_of_node? (hnode n rfl)).2
              -- the call adds its edge, and the node of its callee is there
              obtain ⟨hmore, hmoreEdges, hcallees, hcodes, hall⟩ := ih
                ((hs.grown hgrown).grown (.addEdge g₁ ⟨caller, n.name, site.note.span.start,
                  site.callee.span.start⟩))
              have hsplit : c.callEdges caller (site :: sites) =
                  callEdge caller site :: c.callEdges caller sites := by
                simp [callEdges, hresolvable]
              refine ⟨hgrown.trans ((Grown.addEdge g₁ _).trans hmore), ?_, ?_, hcodes, ?_⟩
              · exact hmoreEdges.trans (by
                  rw [edges_addEdge, hedges, hsplit, callEdge, hn, List.append_assoc,
                    List.singleton_append])
              · rw [hsplit]
                refine List.forall_mem_cons.mpr ⟨?_, hcallees⟩
                apply hmore.isSome
                rw [node?_addEdge]
                exact Option.isSome_iff_exists.mpr ⟨n, hnode n rfl⟩
              · exact hall.trans (by rw [List.forall_mem_cons, and_iff_right hresolvable])

/-! ### The first nodes -/

theorem foldl_addNode (ns : List Node) (g : CallGraph) :
    (∀ name, (ns.foldl (fun g n => (g.addNode n).2) g).node? name =
        (g.node? name).or (ns.find? fun n => n.name == name)) ∧
      (ns.foldl (fun g n => (g.addNode n).2) g).edges = g.edges ∧
      ((g.nodes.map Node.name).Nodup →
        ((ns.foldl (fun g n => (g.addNode n).2) g).nodes.map Node.name).Nodup) := by
  induction ns generalizing g with
  | nil => simp
  | cons n ns ih =>
      obtain ⟨hnode, hedges, hdistinct⟩ := ih (g.addNode n).2
      refine ⟨fun name => ?_, hedges.trans (edges_addNode g n),
        fun h => hdistinct (distinct_addNode n h)⟩
      rw [List.foldl_cons, hnode, node?_addNode, Option.or_assoc, List.find?_cons]
      cases hname : n.name == name with
      | true => simp [beq_iff_eq.mp hname]
      | false => simp [beq_eq_false_iff_ne.mp hname]

theorem find?_sorted (kind : String) (purity : Purity) (entries : List (String × Signature))
    (name : String) :
    ((sorted (entries.map Prod.fst)).map fun n => (⟨n, kind, purity⟩ : Node)).find?
        (fun n => n.name == name) =
      if (entries.lookup name).isSome = true then some ⟨name, kind, purity⟩ else none := by
  have hmem : (entries.lookup name).isSome = true ↔ name ∈ sorted (entries.map Prod.fst) := by
    rw [mem_sorted]
    simp [List.mem_map]
  cases hfind : ((sorted (entries.map Prod.fst)).map fun n => (⟨n, kind, purity⟩ : Node)).find?
      (fun n => n.name == name) with
  | none =>
      refine (if_neg fun hname => ?_).symm
      simpa using List.find?_eq_none.mp hfind _ (List.mem_map_of_mem (hmem.mp hname))
  | some m =>
      obtain ⟨n, hn, rfl⟩ := List.mem_map.mp (List.mem_of_find?_eq_some hfind)
      obtain rfl : n = name := by simpa using List.find?_some hfind
      exact (if_pos (hmem.mpr hn)).symm

variable (c)

/-- What a name stands for before any call is added: the first function of the name, else an
operation, else a helper. -/
theorem node?_nodes (program : Program) (name : String) :
    (c.nodes program).node? name =
      (((program.functions.find? fun f => f.name.text == name).map fun f =>
          (⟨f.name.text, CallTarget.function.text, f.purity⟩ : Node)).or
        (if c.registry.isOperation name then
          some ⟨name, CallTarget.operation.text, .effectful⟩ else none)).or
        (if c.registry.isHelper name then
          some ⟨name, CallTarget.helper.text, .pure⟩ else none) := by
  rw [nodes, (foldl_addNode _ _).1, List.find?_append, List.find?_append, find?_sorted,
    find?_sorted, List.find?_map]
  rfl

theorem distinct_nodes (program : Program) :
    ((c.nodes program).nodes.map Node.name).Nodup :=
  (foldl_addNode _ _).2.2 List.nodup_nil

theorem edges_nodes (program : Program) : (c.nodes program).edges = [] :=
  (foldl_addNode _ _).2.1

/-- Everything that is declared has its node from the start. -/
theorem seeded_nodes (registry : Registry) (program : Program) :
    (of registry program).Seeded ((of registry program).nodes program) := by
  intro name hname
  rw [node?_nodes]
  simp only [declares, of, Bool.or_eq_true, List.contains_iff_mem, List.mem_map] at hname
  rcases hname with (⟨f, hf, rfl⟩ | hhelper) | hoperation
  · have hfind : (program.functions.find? fun g => g.name.text == f.name.text).isSome = true :=
      List.find?_isSome.mpr ⟨f, hf, beq_self_eq_true _⟩
    simp [hfind]
  · simp [of, hhelper]
  · simp [of, hoperation]

end Callables

/-! ### All functions -/

/-- The first functions of their names, apart from some names. -/
def firstFunctions : List String → List FunctionDecl → List FunctionDecl
  | _, [] => []
  | seen, f :: fs =>
    if seen.contains f.name.text then firstFunctions seen fs
    else f :: firstFunctions (f.name.text :: seen) fs

theorem firstFunctions_congr {seen seen' : List String} (h : ∀ n, n ∈ seen ↔ n ∈ seen')
    (fs : List FunctionDecl) : firstFunctions seen fs = firstFunctions seen' fs := by
  induction fs generalizing seen seen' with
  | nil => rfl
  | cons f fs ih =>
      simp only [firstFunctions, List.contains_eq_mem, h]
      split
      · exact ih h
      · exact congrArg _ (ih fun n => by simp [h])

/-- The functions that the violations are looked for in are the first ones of their names. -/
theorem foldl_firsts (fs acc : List FunctionDecl) :
    fs.foldl (fun (fs : List FunctionDecl) f =>
        if fs.any fun other => other.name.text == f.name.text then fs else fs ++ [f]) acc =
      acc ++ firstFunctions (acc.map fun f => f.name.text) fs := by
  induction fs generalizing acc with
  | nil => simp [firstFunctions]
  | cons f fs ih =>
      have hseen : (acc.any fun other => other.name.text == f.name.text) =
          (acc.map fun f => f.name.text).contains f.name.text := by
        rw [Bool.eq_iff_iff, List.any_eq_true, List.contains_iff_mem, List.mem_map]
        simp only [beq_iff_eq]
      simp only [List.foldl_cons, firstFunctions, hseen]
      split
      · exact ih acc
      · rw [ih, List.append_assoc, List.singleton_append]
        refine congrArg (acc ++ f :: ·) (firstFunctions_congr (fun n => ?_) fs)
        simp [or_comm]

theorem mem_firstFunctions {seen : List String} {fs : List FunctionDecl} {f : FunctionDecl} :
    f ∈ firstFunctions seen fs ↔
      f.name.text ∉ seen ∧ fs.find? (fun g => g.name.text == f.name.text) = some f := by
  induction fs generalizing seen with
  | nil => simp [firstFunctions]
  | cons g fs ih =>
      rw [firstFunctions, List.find?_cons]
      by_cases hname : g.name.text = f.name.text
      · by_cases hseen : f.name.text ∈ seen
        · simp [hname, hseen, ih]
        · simp [hname, hseen, ih, eq_comm]
      · have hne : f ≠ g := fun h => hname (h ▸ rfl)
        by_cases hseen : g.name.text ∈ seen
        · simp [beq_false_of_ne hname, hseen, ih]
        · simp [beq_false_of_ne hname, hseen, ih, hne, Ne.symm hname]

/-- The edges of the calls in the first functions of their names. -/
def Callables.programEdges (c : Callables) (fs : List FunctionDecl) : List Edge :=
  fs.flatMap fun f => c.callEdges f.name.text (Stmt.callsAll f.body)

/-- A graph that is built in time has the edges of the first functions of their names. -/
theorem buildGraph_spec {c : Callables} {ds : List Decl} {seen : List String} {g : CallGraph}
    {timer : Timer} (hs : c.Seeded g)
    (htime : (buildGraph c seen ds g timer).timer.exceeded = none) :
    let firsts := firstFunctions seen (ds.filterMap Decl.function?)
    g.Grown (buildGraph c seen ds g timer).graph ∧
      (buildGraph c seen ds g timer).graph.edges = g.edges ++ c.programEdges firsts ∧
      (∀ e ∈ c.programEdges firsts,
        ((buildGraph c seen ds g timer).graph.node? e.callee).isSome = true) ∧
      (∀ d ∈ (buildGraph c seen ds g timer).found, d.code = Diagnostic.unresolvedCall) ∧
      ((buildGraph c seen ds g timer).found = [] ↔ ∀ f ∈ firsts,
        ∀ site ∈ Stmt.callsAll f.body, c.resolvable site.callee.text = true) := by
  induction ds generalizing seen g timer with
  | nil => simp [buildGraph, firstFunctions, Callables.programEdges, Grown.refl]
  | cons d ds ih =>
      cases d with
      | type t => exact ih hs htime
      | record r => exact ih hs htime
      | function f =>
          -- only a function whose name is new adds its calls
          have hpick : (Decl.function f :: ds).filterMap Decl.function? =
              f :: ds.filterMap Decl.function? := rfl
          simp only [hpick, firstFunctions, buildGraph] at htime ⊢
          by_cases hseen : seen.contains f.name.text = true
          · simp only [if_pos hseen] at htime ⊢
            exact ih hs htime
          · simp only [if_neg hseen] at htime ⊢
            split at htime
            · next e he => rw [he] at htime; cases htime
            · next hcheck =>
                dsimp only
                obtain ⟨hgrown, hedges, hcallees, hcodes, hall⟩ :=
                  Callables.addCalls_spec f.name.text (Stmt.callsAll f.body) hs
                obtain ⟨hmore, hmoreEdges, hmoreCallees, hmoreCodes, hmoreAll⟩ :=
                  ih (hs.grown hgrown) htime
                have hsplit : ∀ fs, c.programEdges (f :: fs) =
                    c.callEdges f.name.text (Stmt.callsAll f.body) ++ c.programEdges fs :=
                  fun fs => List.flatMap_cons
                refine ⟨hgrown.trans hmore, ?_, ?_, ?_, ?_⟩
                · rw [hmoreEdges, hedges, hsplit, List.append_assoc]
                · rw [hsplit]
                  exact List.forall_mem_append.mpr
                    ⟨fun e he => hmore.isSome (hcallees e he), hmoreCallees⟩
                · exact List.forall_mem_append.mpr ⟨hcodes, hmoreCodes⟩
                · rw [List.append_eq_nil_iff, List.forall_mem_cons, hall, hmoreAll]

end Prosaic
