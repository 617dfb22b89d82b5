import Prosaic.Proofs.Purity.Check
import Prosaic.Proofs.Purity.Shortest

/-!
The purity check read strictly: a name that is known to be callable has to have a node, so has every
name that a search comes to or that a message mentions, and whoever is on the way back of a search
has to have been seen. The strict reading has no outcome where one of them is missing. It agrees
with the check on every program.
-/

namespace Prosaic

open CallGraph

/-! ### Searches -/

namespace CallGraph

/-- The way back, on which every name has been seen. -/
def wayBackStrict (seen : List Visit) : Nat → String → Option (List String)
  | 0, _ => none
  | fuel + 1, name => do
    let v ← seen.find? fun v => v.name == name
    match v.from? with
    | some previous => return name :: (← wayBackStrict seen fuel previous)
    | none => return [name]

/-- The search around a name, which comes to names with a node only. -/
def pathAvoidingStrict (g : CallGraph) (name excluded : String) : Option (List String) :=
  if name = excluded || (g.node? name).isNone then some []
  else do
    let seen := g.around name excluded
    match ← g.firstEffectful seen with
    | some last => return (← wayBackStrict seen seen.length last).reverse
    | none => return []

theorem Layered.wayBackStrict_eq {next : String → List String} {sources : List String}
    {d : String → Nat} {turns : Nat} {queue : List String} {seen : List Visit}
    (h : Layered next sources d turns queue seen) {fuel : Nat} {name : String}
    (hname : name ∈ seen.map Visit.name) (hfuel : d name < fuel) :
    wayBackStrict seen fuel name = some (wayBack seen fuel name) := by
  induction fuel generalizing name with
  | zero => exact (Nat.not_lt_zero _ hfuel).elim
  | succ fuel ih =>
      obtain ⟨v, hv, rfl⟩ := List.mem_map.mp hname
      rw [wayBackStrict, wayBack, h.find?_visit hv]
      simp only [Option.bind_eq_bind, Option.bind_some]
      cases hfrom : v.from? with
      | none => rfl
      | some p =>
          obtain ⟨-, hdistance⟩ := h.found v hv p hfrom
          simp only [ih (h.origin v hv p hfrom) (by omega)]
          rfl

theorem pathAvoidingStrict_eq {g : CallGraph} (h : g.WellFormed) (name excluded : String) :
    ∃ path, g.pathAvoidingStrict name excluded = some path ∧
      g.pathAvoiding? name excluded = some path ∧ ∀ n ∈ path, (g.node? n).isSome = true := by
  by_cases hstart : (name = excluded || (g.node? name).isNone) = true
  · exact ⟨[], if_pos hstart, if_pos hstart, List.forall_mem_nil _⟩
  · have hne : name ≠ excluded := fun heq => hstart (by simp [heq])
    have hnode : (g.node? name).isSome = true := by
      cases hnode : g.node? name with
      | none => simp [hnode] at hstart
      | some n => rfl
    obtain ⟨path, hpath, hnodes, -⟩ := pathAvoiding?_spec h hne hnode
    refine ⟨path, ?_, hpath, hnodes⟩
    have hgoal := (pathAvoiding?_eq hne hnode).symm.trans hpath
    obtain ⟨turns, d, hsearch⟩ := around_layered excluded (mem_names_of_isSome hnode)
    obtain ⟨goal, hfirst, hmem, -⟩ := firstEffectful_spec (h.isSome_of_around hnode excluded)
    rw [hfirst] at hgoal
    rw [pathAvoidingStrict, if_neg hstart]
    simp only [hfirst, Option.bind_eq_bind, Option.bind_some]
    cases goal with
    | none => exact hgoal
    | some last =>
        have hlast := hmem last rfl
        simp only [hsearch.wayBackStrict_eq hlast (hsearch.small last hlast)]
        exact hgoal

end CallGraph

/-! ### The graph -/

namespace Callables

variable (c : Callables)

/-- The node that a name stands for, which is there where the name is declared. -/
def resolveStrict (g : CallGraph) (name : String) : Option (Option Node × CallGraph) :=
  if c.functions.contains name || c.registry.isHelper name || c.registry.isOperation name then do
    let n ← g.node? name
    return (some n, g)
  else if c.conversions.contains name then
    let (n, g) := g.addNode ⟨name, CallTarget.conversion.text, .pure⟩
    some (some n, g)
  else some (none, g)

/-- Adds the calls of a function to the graph. -/
def addCallsStrict (caller : String) :
    List CallSite → CallGraph → Option (CallGraph × List Diagnostic)
  | [], g => some (g, [])
  | site :: rest, g => do
    match ← c.resolveStrict g site.callee.text with
    | (none, g) =>
      let found := unresolved g caller site.callee
      let (g, more) ← addCallsStrict caller rest g
      return (g, found :: more)
    | (some n, g) =>
      addCallsStrict caller rest
        (g.addEdge ⟨caller, n.name, site.note.span.start, site.callee.span.start⟩)

variable {c}

theorem resolveStrict_eq {g : CallGraph} (hs : c.Seeded g) (name : String) :
    c.resolveStrict g name = some (c.resolve g name) := by
  rw [resolveStrict, resolve]
  split
  · next hdeclared =>
      obtain ⟨n, hn⟩ := Option.isSome_iff_exists.mp (hs name hdeclared)
      rw [hn]
      rfl
  · split <;> rfl

theorem addCallsStrict_eq (caller : String) (sites : List CallSite) {g : CallGraph}
    (hs : c.Seeded g) : c.addCallsStrict caller sites g = some (c.addCalls caller sites g) := by
  induction sites generalizing g with
  | nil => rfl
  | cons site sites ih =>
      have hgrown := grown_resolve (c := c) g site.callee.text
      rw [addCallsStrict, addCalls, resolveStrict_eq hs]
      simp only [Option.bind_eq_bind, Option.bind_some]
      generalize c.resolve g site.callee.text = r at hgrown ⊢
      obtain ⟨_ | n, g₁⟩ := r
      · have hseeded : c.Seeded g₁ := hs.grown hgrown
        dsimp only
        rw [ih hseeded]
        rfl
      · have hseeded : c.Seeded g₁ := hs.grown hgrown
        dsimp only
        rw [ih (hseeded.grown (.addEdge g₁ _))]

end Callables

/-- Adds the calls of all functions and labels them. -/
def buildGraphStrict (c : Callables) :
    List String → List Decl → CallGraph → Timer → Option GraphBuilding
  | _, [], g, timer => some ⟨[], g, [], timer⟩
  | seen, .function f :: rest, g, timer =>
    if seen.contains f.name.text then do
      let b ← buildGraphStrict c seen rest g timer
      return { b with decls := .function f :: b.decls }
    else
      let timer := timer.check f.span.start
      match timer.exceeded with
      | some _ => some ⟨.function f :: rest, g, [], timer⟩
      | none => do
        let (g, found) ← c.addCallsStrict f.name.text (Stmt.callsAll f.body) g
        let body := Stmt.labelledAll (c.label g) f.body
        let b ← buildGraphStrict c (f.name.text :: seen) rest g timer
        return { b with decls := .function { f with body := body } :: b.decls
                        found := found ++ b.found }
  | seen, d :: rest, g, timer => do
    let b ← buildGraphStrict c seen rest g timer
    return { b with decls := d :: b.decls }

theorem buildGraphStrict_eq {c : Callables} {ds : List Decl} {seen : List String} {g : CallGraph}
    {timer : Timer} (hs : c.Seeded g) :
    buildGraphStrict c seen ds g timer = some (buildGraph c seen ds g timer) := by
  induction ds generalizing seen g timer with
  | nil => rfl
  | cons d ds ih =>
      cases d with
      | type t =>
          rw [buildGraphStrict, ih hs]
          · rfl
          · exact nofun
      | record r =>
          rw [buildGraphStrict, ih hs]
          · rfl
          · exact nofun
      | function f =>
          rw [buildGraphStrict, buildGraph]
          split
          · rw [ih hs]
            rfl
          · dsimp only
            generalize timer.check f.span.start = timer
            cases htime : timer.exceeded with
            | some e => rfl
            | none =>
                have hgrown := (Callables.addCalls_spec f.name.text (Stmt.callsAll f.body) hs).1
                simp only [Callables.addCallsStrict_eq _ _ hs, Option.bind_eq_bind,
                  Option.bind_some]
                rw [ih (hs.grown hgrown)]
                rfl

/-! ### Violations -/

/-- The violation at a call, if it is one. The callee has a node, and so has the end of its path. -/
def violationStrict (g : CallGraph) (tainted : List Visit) (e : Edge) :
    Option (Option Diagnostic) := do
  let _ ← g.node? e.callee
  if e.callee = e.caller || !visited tainted e.callee then return none
  match ← g.pathAvoidingStrict e.callee e.caller with
  | [] => return none
  | first :: rest =>
    let _ ← g.node? (rest.getLastD first)
    return violation? g tainted e

/-- The violations of all pure functions. -/
def violationsStrict (g : CallGraph) (program : Program) : Option (List Diagnostic) := do
  let firsts := firstFunctions [] program.functions
  let calls := (firsts.filter fun f => f.purity = .pure).flatMap fun f => g.sites f.name.text
  let found ← calls.mapM (violationStrict g g.tainted)
  return found.reduceOption

theorem violationStrict_eq {g : CallGraph} (h : g.WellFormed) {e : Edge} (he : e ∈ g.edges) :
    violationStrict g g.tainted e = some (violation? g g.tainted e) := by
  obtain ⟨callee, hcallee⟩ := Option.isSome_iff_exists.mp (h.callees e he)
  obtain ⟨path, hstrict, hpath, hnodes⟩ := pathAvoidingStrict_eq h e.callee e.caller
  rw [violationStrict, hcallee]
  simp only [Option.bind_eq_bind, Option.bind_some]
  split
  · next hskip => rw [violation?, if_pos hskip]; rfl
  · next hskip =>
      rw [hstrict]
      cases path with
      | nil => rw [violation?, if_neg hskip, hpath]; rfl
      | cons first rest =>
          obtain ⟨last, hlast⟩ := Option.isSome_iff_exists.mp (hnodes _ List.getLastD_mem_cons)
          simp only [Option.bind_some, hlast]
          rfl

theorem mapM_eq_some {α β : Type} {f : α → Option β} {g : α → β} {as : List α}
    (h : ∀ a ∈ as, f a = some (g a)) : as.mapM f = some (as.map g) := by
  induction as with
  | nil => rfl
  | cons a as ih =>
      obtain ⟨ha, has⟩ := List.forall_mem_cons.mp h
      rw [List.mapM_cons, ha, ih has]
      rfl

theorem violationsStrict_eq {g : CallGraph} (h : g.WellFormed) (p : Program) :
    violationsStrict g p = some (violations g p) := by
  have hcalls : ∀ e ∈ ((firstFunctions [] p.functions).filter fun f => f.purity = .pure).flatMap
      fun f => g.sites f.name.text, violationStrict g g.tainted e =
        some (violation? g g.tainted e) := by
    intro e he
    obtain ⟨f, -, he⟩ := List.mem_flatMap.mp he
    exact violationStrict_eq h (List.mem_filter.mp he).1
  have hreduce : ∀ found : List (Option Diagnostic), found.reduceOption = found.filterMap id :=
    fun _ => rfl
  rw [violationsStrict, mapM_eq_some hcalls, violations, foldl_firsts]
  simp [hreduce, List.filterMap_map, List.filterMap_flatMap]

/-! ### The whole check -/

/-- Checks the purity of a program, strictly. -/
def Program.checkPurityStrict (program : Program) (registry : Registry) (budget : Budget) :
    Option (Checked PurityReport) := do
  let program := program.withLabels
  let c := Callables.of registry program
  let b ← buildGraphStrict c [] program.declarations (c.nodes program) ⟨budget, none⟩
  match b.timer.exceeded with
  | some e => return ⟨{ program with declarations := b.decls }, b.timer.budget, .error e⟩
  | none =>
    let violations ← violationsStrict b.graph program
    return ⟨{ program with declarations := b.decls }, b.timer.budget,
      .ok ⟨b.found ++ violations, b.graph⟩⟩

/-- Whatever the purity check of a program looks up is there. -/
theorem Program.checkPurityStrict_eq (p : Program) (registry : Registry) (budget : Budget) :
    p.checkPurityStrict registry budget = some (p.checkPurity registry budget) := by
  have hseeded := Callables.seeded_nodes registry p.withLabels
  rw [checkPurityStrict, buildGraphStrict_eq hseeded]
  simp only [Option.bind_eq_bind, Option.bind_some]
  split
  · next e he => simp [checkPurity, he]
  · next htime =>
      have hwellFormed : (buildGraph (Callables.of registry p.withLabels) []
          p.withLabels.declarations ((Callables.of registry p.withLabels).nodes p.withLabels)
          ⟨budget, none⟩).graph.WellFormed := by
        cases hresult : (p.checkPurity registry budget).result with
        | error e => simp [checkPurity, htime] at hresult
        | ok report =>
            have hgraph := (checkPurity_report hresult).1.wellFormed
            simp only [checkPurity, htime, Except.ok.injEq] at hresult
            rwa [← hresult] at hgraph
      rw [violationsStrict_eq hwellFormed]
      simp [checkPurity, htime]

end Prosaic
