import Prosaic.Purity.Graph

/-!
A call graph that is asked while it grows. The search for all names runs with the first question
that needs it, and its result is remembered for the next ones; a new node or a call makes it forget.
-/

namespace Prosaic

/-- A call graph with what its search found, unless something was added since. -/
structure CallGraph.Memo where
  graph : CallGraph
  found? : Option (List CallGraph.Visit)
  deriving Repr, Inhabited

namespace CallGraph.Memo

def empty : Memo := ⟨.empty, none⟩

/-- Adds a node; the first one of a name is kept, and told. A later one changes nothing. -/
def addNode (m : Memo) (n : Node) : Node × Memo :=
  match m.graph.node? n.name with
  | some existing => (existing, m)
  | none => (n, ⟨(m.graph.addNode n).2, none⟩)

def addEdge (m : Memo) (e : Edge) : Memo := ⟨m.graph.addEdge e, none⟩

/-- What the search for all names finds, from memory if it is there. -/
def search (m : Memo) : List Visit × Memo :=
  match m.found? with
  | some seen => (seen, m)
  | none => (m.graph.tainted, { m with found? := some m.graph.tainted })

def reachesEffect (m : Memo) (name : String) : Bool × Memo :=
  let (seen, m) := m.search
  (visited seen name, m)

def pathToEffect (m : Memo) (name : String) : List String × Memo :=
  let (seen, m) := m.search
  (if visited seen name then wayBack seen seen.length name else [], m)

inductive Request where
  | node (n : Node)
  | edge (e : Edge)
  | reaches (name : String)
  | path (name : String)
  | pathAvoiding (name excluded : String)
  deriving DecidableEq, Repr

/-- The answers. A search around a name fails when it comes to a name without a node. -/
inductive Reply where
  | node (n : Node)
  | edge (e : Edge)
  | reaches (answer : Bool)
  | path (answer : Option (List String))
  deriving DecidableEq, Repr

def answer (m : Memo) : Request → Reply × Memo
  | .node n => let (kept, m) := m.addNode n; (.node kept, m)
  | .edge e => (.edge e, m.addEdge e)
  | .reaches name => let (b, m) := m.reachesEffect name; (.reaches b, m)
  | .path name => let (path, m) := m.pathToEffect name; (.path (some path), m)
  -- this search is not remembered
  | .pathAvoiding name excluded => (.path (m.graph.pathAvoiding? name excluded), m)

def after (requests : List Request) : Memo :=
  requests.foldl (fun m r => (m.answer r).2) .empty

end CallGraph.Memo

end Prosaic
