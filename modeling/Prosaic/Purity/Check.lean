import Prosaic.Purity.Calls
import Prosaic.Purity.Graph
import Prosaic.Typing.Statement

/-!
The purity discipline: a pure function calls nothing that is effectful or reaches something
effectful. Names are resolved here from the declarations alone, so that the check stands on its own.

A call whose only way to an effect leads back through the calling function is not reported: the
function has another call that is.
-/

namespace Prosaic

def purityFinding (code message : String) (start : Position) (hint : String) : Diagnostic :=
  ⟨code, message, start.location, some hint, .effects⟩

structure Callables where
  registry : Registry
  functions : List String
  conversions : List String

namespace Callables

def of (registry : Registry) (program : Program) : Callables :=
  let converting := registry.types.filterMap fun (name, t) =>
    match t with
    | .domain d =>
      if ((registry.domains.lookup d).bind Ty.Domain.underlying).isSome then some name else none
    | _ => none
  ⟨registry, program.functions.map fun f => f.name.text,
    Base.all.map Base.text ++ converting ++ program.types.map TypeDecl.name⟩

/-- The graph without edges: the first function of each name, then the operations, then the
helpers. -/
def nodes (c : Callables) (program : Program) : CallGraph :=
  let functions := program.functions.map fun f =>
    (⟨f.name.text, CallTarget.function.text, f.purity⟩ : CallGraph.Node)
  let operations := (CallGraph.sorted (c.registry.operations.map Prod.fst)).map fun name =>
    (⟨name, CallTarget.operation.text, .effectful⟩ : CallGraph.Node)
  let helpers := (CallGraph.sorted (c.registry.helpers.map Prod.fst)).map fun name =>
    (⟨name, CallTarget.helper.text, .pure⟩ : CallGraph.Node)
  (functions ++ operations ++ helpers).foldl (fun g n => (g.addNode n).2) .empty

/-- The node that a name in a call stands for. A conversion gets its node with its first call. -/
def resolve (c : Callables) (g : CallGraph) (name : String) : Option CallGraph.Node × CallGraph :=
  if c.functions.contains name || c.registry.isHelper name || c.registry.isOperation name then
    (g.node? name, g)
  else if c.conversions.contains name then
    let (n, g) := g.addNode ⟨name, CallTarget.conversion.text, .pure⟩
    (some n, g)
  else (none, g)

def unresolved (g : CallGraph) (caller : String) (callee : Name) : Diagnostic :=
  let candidates := (g.nodes.filter fun n => n.kind != CallTarget.conversion.text).map
    CallGraph.Node.name
  let hint := match Text.suggestName callee.text candidates with
    | some s => "Did you mean '" ++ s ++ "'?"
    | none => "Declare the function or add the operation to the domain registry."
  purityFinding Diagnostic.unresolvedCall
    ("Call target '" ++ callee.text ++ "' in function '" ++ caller ++ "' cannot be resolved")
    callee.span.start hint

def addCalls (c : Callables) (caller : String) :
    List CallSite → CallGraph → CallGraph × List Diagnostic
  | [], g => (g, [])
  | site :: rest, g =>
    match c.resolve g site.callee.text with
    | (none, g) =>
      let found := unresolved g caller site.callee
      let (g, more) := c.addCalls caller rest g
      (g, found :: more)
    | (some n, g) =>
      c.addCalls caller rest
        (g.addEdge ⟨caller, n.name, site.note.span.start, site.callee.span.start⟩)

def label (c : Callables) (g : CallGraph) (name : String) : Option Purity :=
  (c.resolve g name).1.map CallGraph.Node.purity

end Callables

structure GraphBuilding where
  decls : List Decl
  graph : CallGraph
  found : List Diagnostic
  timer : Timer

/-- Adds the calls of all functions and labels them. Of several functions with one name only the
first counts; `seen` are the names that came before. The time is checked once for each. -/
def buildGraph (c : Callables) :
    List String → List Decl → CallGraph → Timer → GraphBuilding
  | _, [], g, timer => ⟨[], g, [], timer⟩
  | seen, .function f :: rest, g, timer =>
    if seen.contains f.name.text then
      let b := buildGraph c seen rest g timer
      { b with decls := .function f :: b.decls }
    else
      let timer := timer.check f.span.start
      match timer.exceeded with
      | some _ => ⟨.function f :: rest, g, [], timer⟩
      | none =>
        let (g, found) := c.addCalls f.name.text (Stmt.callsAll f.body) g
        let body := Stmt.labelledAll (c.label g) f.body
        let b := buildGraph c (f.name.text :: seen) rest g timer
        { b with decls := .function { f with body := body } :: b.decls, found := found ++ b.found }
  | seen, d :: rest, g, timer =>
    let b := buildGraph c seen rest g timer
    { b with decls := d :: b.decls }

def violation? (g : CallGraph) (tainted : List CallGraph.Visit) (e : CallGraph.Edge) :
    Option Diagnostic :=
  if e.callee = e.caller || !CallGraph.visited tainted e.callee then none
  else
    match g.pathAvoiding? e.callee e.caller with
    | none | some [] => none
    | some (first :: rest) => do
      let path := e.caller :: first :: rest
      let callee ← g.node? e.callee
      let last ← g.node? (rest.getLastD first)
      let message :=
        if callee.isEffectful then
          "Pure function '" ++ e.caller ++ "' calls effectful " ++ callee.label
        else
          "Pure function '" ++ e.caller ++ "' calls " ++ callee.label
            ++ ", which reaches effectful " ++ last.label ++ " (" ++ " -> ".intercalate path ++ ")"
      some (purityFinding Diagnostic.purityViolation message e.name
        ("Declare it as 'Define effectful function " ++ e.caller ++ "', or move the call to '"
          ++ last.name ++ "' into an effectful function."))

/-- The violations of all pure functions, in the order of the functions and of their calls. -/
def violations (g : CallGraph) (program : Program) : List Diagnostic :=
  let tainted := g.tainted
  let firsts := program.functions.foldl
    (fun (fs : List FunctionDecl) f =>
      if fs.any fun other => other.name.text == f.name.text then fs else fs ++ [f]) []
  (firsts.filter fun f => f.purity = .pure).flatMap fun f =>
    (g.sites f.name.text).filterMap (violation? g tainted)

structure PurityReport where
  found : List Diagnostic
  graph : CallGraph

def Program.withLabels (program : Program) : Program :=
  { program with declarations := program.declarations.map fun
    | .function f => .function { f with resolved := some f.purity }
    | d => d }

def Program.checkPurity (program : Program) (registry : Registry) (budget : Budget) :
    Checked PurityReport :=
  let program := program.withLabels
  let c := Callables.of registry program
  let b := buildGraph c [] program.declarations (c.nodes program) ⟨budget, none⟩
  ⟨{ program with declarations := b.decls }, b.timer.budget,
    match b.timer.exceeded with
    | some e => .error e
    | none => .ok ⟨b.found ++ violations b.graph program, b.graph⟩⟩

end Prosaic
