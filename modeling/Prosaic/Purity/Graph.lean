import Prosaic.Program.Tree

/-!
Call graphs: a node for everything that can be called and an edge for every call. The question about
them is which nodes reach an effect, and along which shortest path; one search answers it for all
nodes by walking the edges backwards from the effectful ones, another for one node while it avoids a
second one.
-/

namespace Prosaic

structure CallGraph.Node where
  name : String
  kind : String
  purity : Purity
  deriving DecidableEq, Repr, Inhabited

namespace CallGraph.Node

def label (n : Node) : String := n.kind ++ " '" ++ n.name ++ "'"

def isEffectful (n : Node) : Bool := n.purity = .effectful

end CallGraph.Node

structure CallGraph.Edge where
  caller : String
  callee : String
  call : Position
  name : Position
  deriving DecidableEq, Repr, Inhabited

structure CallGraph where
  nodes : List CallGraph.Node
  edges : List CallGraph.Edge
  /-- The names that a node or a caller introduced, each once. -/
  callers : List String
  deriving Repr, Inhabited

namespace CallGraph

def empty : CallGraph := ⟨[], [], []⟩

def node? (g : CallGraph) (name : String) : Option Node :=
  g.nodes.find? fun n => n.name == name

def addCaller (g : CallGraph) (name : String) : CallGraph :=
  if g.callers.contains name then g else { g with callers := g.callers ++ [name] }

/-- Adds a node; the first one of a name is kept, and told. -/
def addNode (g : CallGraph) (n : Node) : Node × CallGraph :=
  match g.node? n.name with
  | some existing => (existing, g)
  | none => (n, { g with nodes := g.nodes ++ [n] }.addCaller n.name)

/-- Adds a call. Neither end needs to have a node. -/
def addEdge (g : CallGraph) (e : Edge) : CallGraph :=
  { g with edges := g.edges ++ [e] }.addCaller e.caller

def sites (g : CallGraph) (caller : String) : List Edge :=
  g.edges.filter fun e => e.caller == caller

def grouped (g : CallGraph) : List Edge :=
  g.callers.flatMap g.sites

/-! ### Breadth-first search -/

structure Visit where
  name : String
  from? : Option String
  deriving DecidableEq, Repr

def visited (seen : List Visit) (name : String) : Bool :=
  seen.any fun v => v.name == name

def unseen (seen : List Visit) (names : List String) : List String :=
  (names.filter fun n => !visited seen n).eraseDups

/-- Visits the names of a queue and those next to them, nearest first. `seen` lists what is queued
or done, in the order in which it was found; every turn takes a name off the queue, and none enters
it twice. -/
def explore (next : String → List String) : Nat → List String → List Visit → List Visit
  | 0, _, seen => seen
  | _, [], seen => seen
  | fuel + 1, current :: queue, seen =>
    let fresh := unseen seen (next current)
    explore next fuel (queue ++ fresh) (seen ++ fresh.map fun n => ⟨n, some current⟩)

/-- The way from a name back to where its search began, both ends included. -/
def wayBack (seen : List Visit) : Nat → String → List String
  | 0, name => [name]
  | fuel + 1, name =>
    match (seen.find? fun v => v.name == name).bind Visit.from? with
    | some previous => name :: wayBack seen fuel previous
    | none => [name]

def size (g : CallGraph) : Nat := g.nodes.length + 2 * g.edges.length + 1

def sorted (names : List String) : List String := names.mergeSort fun a b => a ≤ b

def callersOf (g : CallGraph) (name : String) : List String :=
  sorted (((g.edges.filter fun e => e.callee == name).map Edge.caller).eraseDups)

def effectful (g : CallGraph) : List String :=
  sorted ((g.nodes.filter Node.isEffectful).map Node.name)

/-- The names that reach an effect, each with the next one on a shortest path to it. -/
def tainted (g : CallGraph) : List Visit :=
  let sources := g.effectful
  explore g.callersOf g.size sources (sources.map fun n => ⟨n, none⟩)

def reachesEffect (g : CallGraph) (name : String) : Bool :=
  visited g.tainted name

def pathToEffect (g : CallGraph) (name : String) : List String :=
  let seen := g.tainted
  if visited seen name then wayBack seen seen.length name else []

/-- The first effectful name of some visits. A name without a node fails the search. -/
def firstEffectful (g : CallGraph) : List Visit → Option (Option String)
  | [] => some none
  | v :: rest =>
    match g.node? v.name with
    | none => none
    | some n => if n.isEffectful then some (some v.name) else g.firstEffectful rest

/-- A shortest path from a name to an effectful node that does not pass through `excluded`. Fails
when it comes to a name without a node before. -/
def pathAvoiding? (g : CallGraph) (name excluded : String) : Option (List String) :=
  if name = excluded || (g.node? name).isNone then some []
  else
    let next (n : String) := ((g.sites n).map Edge.callee).filter (· != excluded)
    let seen := explore next g.size [name] [⟨name, none⟩]
    (g.firstEffectful seen).map fun goal =>
      match goal with
      | some last => (wayBack seen seen.length last).reverse
      | none => []

end CallGraph

end Prosaic
