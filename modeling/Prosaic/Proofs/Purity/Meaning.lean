import Prosaic.Proofs.Purity.Check

/-!
What the names in calls mean to the purity check. The meaning of a name follows from the program and
the registry alone: every node that the graph ever has is the one that its name means, and every
call of a function whose name is new gets the label of that node.
-/

namespace Prosaic

open CallGraph

namespace Program

variable (p : Program) (registry : Registry)

/-- What a name in a call stands for, with its label: the first function of the name, else an
operation, else a helper, else a conversion. -/
def meaning? (name : String) : Option (CallTarget × Purity) :=
  match p.function? name with
  | some f => some (.function, f.purity)
  | none =>
    if registry.isOperation name then some (.operation, .effectful)
    else if registry.isHelper name then some (.helper, .pure)
    else if (Callables.of registry p).conversions.contains name then some (.conversion, .pure)
    else none

theorem function?_withLabels (name : String) :
    p.withLabels.function? name = (p.function? name).map FunctionDecl.withLabel := by
  rw [function?, functions_withLabels, List.find?_map]
  rfl

variable {p registry}

theorem isSome_function? {name : String} :
    (p.function? name).isSome = (Callables.of registry p).functions.contains name := by
  rw [Bool.eq_iff_iff, function?, List.find?_isSome, List.contains_iff_mem]
  simp only [Callables.of, List.mem_map, beq_iff_eq]

theorem declares_eq {name : String} :
    (Callables.of registry p).declares name =
      ((p.function? name).isSome || registry.isHelper name || registry.isOperation name) := by
  rw [Callables.declares, ← isSome_function?]
  rfl

theorem isSome_meaning? (name : String) :
    (p.meaning? registry name).isSome = (Callables.of registry p).resolvable name := by
  rw [Callables.resolvable, declares_eq, meaning?]
  cases p.function? name with
  | some f => rfl
  | none =>
      cases registry.isOperation name <;> cases registry.isHelper name <;>
        cases (Callables.of registry p).conversions.contains name <;> rfl

end Program

/-! ### Nodes -/

/-- Every node of a graph is what its name means. -/
def CallGraph.Means (g : CallGraph) (p : Program) (registry : Registry) : Prop :=
  ∀ name n, g.node? name = some n →
    ∃ kind, n.kind = kind.text ∧ p.meaning? registry name = some (kind, n.purity)

section

variable {p : Program} {registry : Registry}

theorem means_nodes : ((Callables.of registry p).nodes p.withLabels).Means p registry := by
  intro name n hn
  rw [Callables.node?_nodes] at hn
  have hfind : (p.withLabels.functions.find? fun f => f.name.text == name) =
      (p.function? name).map FunctionDecl.withLabel := p.function?_withLabels name
  rw [hfind, Option.map_map] at hn
  unfold Program.meaning?
  cases hf : p.function? name with
  | some f =>
      rw [hf] at hn
      obtain rfl := Option.some.inj hn
      exact ⟨.function, rfl, rfl⟩
  | none =>
      simp only [hf, Option.map_none, Option.none_or, Callables.of] at hn
      cases hoperation : registry.isOperation name with
      | true =>
          rw [hoperation, if_pos rfl, Option.some_or] at hn
          obtain rfl := Option.some.inj hn
          exact ⟨.operation, rfl, rfl⟩
      | false =>
          rw [hoperation, if_neg Bool.false_ne_true, Option.none_or] at hn
          split at hn
          · next hhelper =>
              obtain rfl := Option.some.inj hn
              exact ⟨.helper, rfl, by simp [hhelper]⟩
          · cases hn

theorem CallGraph.Means.resolve {g : CallGraph} (h : g.Means p registry) (name : String) :
    ((Callables.of registry p).resolve g name).2.Means p registry := by
  rw [Callables.resolve_eq]
  split
  · exact h
  · next hdeclared =>
      split
      · next hconversion =>
          intro other n hn
          rw [node?_addNode, Option.or_eq_some_iff] at hn
          rcases hn with hn | ⟨-, hn⟩
          · exact h other n hn
          · split at hn
            · next heq =>
                -- the new node is that of a conversion, as nothing that is declared has the name
                obtain rfl := Option.some.inj hn
                obtain rfl : name = other := heq
                simp only [Program.declares_eq, Bool.or_eq_true, not_or, Bool.not_eq_true,
                  Option.isSome_eq_false_iff, Option.isNone_iff_eq_none] at hdeclared
                obtain ⟨⟨hfunction, hhelper⟩, hoperation⟩ := hdeclared
                refine ⟨.conversion, rfl, ?_⟩
                simp only [Program.meaning?, hfunction, hhelper, hoperation, hconversion]
                rfl
            · cases hn
      · exact h

theorem CallGraph.Means.addEdge {g : CallGraph} (h : g.Means p registry) (e : Edge) :
    (g.addEdge e).Means p registry := by
  intro name n hn
  rw [node?_addEdge] at hn
  exact h name n hn

theorem CallGraph.Means.addCalls {g : CallGraph} (h : g.Means p registry) (caller : String)
    (sites : List CallSite) :
    ((Callables.of registry p).addCalls caller sites g).1.Means p registry := by
  induction sites generalizing g with
  | nil => exact h
  | cons site sites ih =>
      have hresolve := h.resolve site.callee.text
      unfold Callables.addCalls
      cases hr : (Callables.of registry p).resolve g site.callee.text with
      | mk r g₁ =>
          rw [hr] at hresolve
          cases r with
          | none => exact ih hresolve
          | some n => exact ih (hresolve.addEdge _)

/-! ### Labels -/

variable (p registry) in
/-- The label of every call of a name. -/
def Program.label (name : String) : Option Purity := (p.meaning? registry name).map Prod.snd

/-- In every graph that is built, a name has the label of what it means. -/
theorem label_eq {g : CallGraph} (hs : (Callables.of registry p).Seeded g)
    (h : g.Means p registry) : (Callables.of registry p).label g = p.label registry := by
  funext name
  have hsome := Callables.isSome_resolve hs name
  rw [Callables.label, Program.label]
  cases hr : ((Callables.of registry p).resolve g name).1 with
  | some n =>
      obtain ⟨kind, -, hmeaning⟩ := h.resolve name name n (Callables.node?_resolve hr)
      rw [hmeaning]
      rfl
  | none =>
      rw [hr, ← Program.isSome_meaning?] at hsome
      rw [Option.isSome_eq_false_iff.mp hsome.symm |> Option.isNone_iff_eq_none.mp]
      rfl

variable (p registry) in
/-- A function with the labels of its calls. -/
def FunctionDecl.callsLabelled (f : FunctionDecl) : FunctionDecl :=
  { f with body := Stmt.labelledAll (p.label registry) f.body }

theorem find?_function_cons (f : FunctionDecl) (fs : List FunctionDecl) (name : String) :
    (f :: fs).find? (fun g => g.name.text == name) =
      if f.name.text = name then some f else fs.find? fun g => g.name.text == name := by
  rw [List.find?_cons]
  by_cases h : f.name.text = name
  · rw [if_pos h, beq_iff_eq.mpr h]
  · rw [if_neg h, beq_false_of_ne h]

/-- In a graph that is built in time, the first function of a name has the labels of its calls, and
any other is as it was. -/
theorem buildGraph_functions {ds : List Decl} {seen : List String} {g : CallGraph} {timer : Timer}
    (hs : (Callables.of registry p).Seeded g) (h : g.Means p registry)
    (htime : (buildGraph (Callables.of registry p) seen ds g timer).timer.exceeded = none) :
    let b := buildGraph (Callables.of registry p) seen ds g timer
    b.graph.Means p registry ∧
      (∀ name, name ∉ seen →
        ((b.decls.filterMap Decl.function?).find? fun f => f.name.text == name) =
          ((ds.filterMap Decl.function?).find? fun f => f.name.text == name).map
            (FunctionDecl.callsLabelled p registry)) ∧
      ∀ f ∈ b.decls.filterMap Decl.function?, f ∈ ds.filterMap Decl.function? ∨
        f.name.text ∉ seen ∧
          ((b.decls.filterMap Decl.function?).find? fun g => g.name.text == f.name.text) =
            some f := by
  induction ds generalizing seen g timer with
  | nil => exact ⟨h, by simp [buildGraph], by simp [buildGraph]⟩
  | cons d ds ih =>
      cases d with
      | type t => exact ih hs h htime
      | record r => exact ih hs h htime
      | function f =>
          have hpick : ∀ f ds, (Decl.function f :: ds).filterMap Decl.function? =
              f :: ds.filterMap Decl.function? := fun _ _ => rfl
          simp only [buildGraph] at htime ⊢
          by_cases hseen : seen.contains f.name.text = true
          · simp only [if_pos hseen, hpick] at htime ⊢
            obtain ⟨hmeans, hfirst, hrest⟩ := ih hs h htime
            rw [List.contains_iff_mem] at hseen
            refine ⟨hmeans, fun name hname => ?_, List.forall_mem_cons.mpr
              ⟨.inl List.mem_cons_self, fun f' hf' => ?_⟩⟩
            · have hne : f.name.text ≠ name := fun heq => hname (heq ▸ hseen)
              rw [find?_function_cons, find?_function_cons, if_neg hne, if_neg hne]
              exact hfirst name hname
            · rcases hrest f' hf' with hsame | ⟨hnew, hfind⟩
              · exact .inl (List.mem_cons_of_mem _ hsame)
              · have hne : f.name.text ≠ f'.name.text := fun heq => hnew (heq ▸ hseen)
                exact .inr ⟨hnew, by rw [find?_function_cons, if_neg hne, hfind]⟩
          · simp only [if_neg hseen] at htime ⊢
            split at htime
            · next e he => rw [he] at htime; cases htime
            · next hcheck =>
                obtain ⟨hgrown, -, -, -, -⟩ :=
                  Callables.addCalls_spec f.name.text (Stmt.callsAll f.body) hs
                have hcalls := h.addCalls f.name.text (Stmt.callsAll f.body)
                obtain ⟨hmeans, hfirst, hrest⟩ := ih (hs.grown hgrown) hcalls htime
                rw [List.contains_iff_mem] at hseen
                simp only [hpick, label_eq (hs.grown hgrown) hcalls]
                refine ⟨hmeans, fun name hname => ?_, List.forall_mem_cons.mpr
                  ⟨.inr ⟨hseen, ?_⟩, fun f' hf' => ?_⟩⟩
                · rw [find?_function_cons, find?_function_cons]
                  by_cases heq : f.name.text = name
                  · rw [if_pos heq, if_pos heq]
                    rfl
                  · rw [if_neg heq, if_neg heq]
                    exact hfirst name (by simp [Ne.symm heq, hname])
                · rw [find?_function_cons, if_pos rfl]
                · rcases hrest f' hf' with hsame | ⟨hnew, hfind⟩
                  · exact .inl (List.mem_cons_of_mem _ hsame)
                  · obtain ⟨hne, hunseen⟩ := not_or.mp (List.mem_cons.not.mp hnew)
                    exact .inr ⟨hunseen, by rw [find?_function_cons, if_neg (Ne.symm hne), hfind]⟩

/-! ### The whole check -/

/-- What a check that ends in time makes of a program, given that all calls of the first functions
of their names mean something. -/
structure Program.Resolves (p q : Program) (registry : Registry) (report : PurityReport) :
    Prop where
  means : report.graph.Means p registry
  resolved : ∀ d ∈ report.found, d.code ≠ Diagnostic.unresolvedCall
  nodes : ∀ f ∈ p.functions, p.function? f.name.text = some f →
    ∀ site ∈ Stmt.callsAll f.body, (report.graph.node? site.callee.text).isSome = true
  firsts : ∀ name, q.function? name =
    (p.function? name).map fun f => f.withLabel.callsLabelled p registry
  others : ∀ f ∈ q.functions, q.function? f.name.text = some f ∨
    ∃ f₀ ∈ p.functions, f = f₀.withLabel

theorem checkPurity_resolves {budget : Budget} {report : PurityReport}
    (h : (p.checkPurity registry budget).result = .ok report)
    (hcalls : ∀ f ∈ p.functions, ∀ site ∈ Stmt.callsAll f.body,
      (p.meaning? registry site.callee.text).isSome = true) :
    p.Resolves (p.checkPurity registry budget).program registry report := by
  obtain ⟨hgraph, -⟩ := checkPurity_report h
  have hresolvable : ∀ f ∈ p.functions, ∀ site ∈ Stmt.callsAll f.body,
      (Callables.of registry p).resolvable site.callee.text = true := by
    intro f hf site hsite
    rw [← Program.isSome_meaning?]
    exact hcalls f hf site hsite
  have hnodes : ∀ f ∈ p.functions, p.function? f.name.text = some f →
      ∀ site ∈ Stmt.callsAll f.body, (report.graph.node? site.callee.text).isSome = true := by
    intro f hf hfirst site hsite
    have hedge := (mem_sites hgraph hfirst).mpr ⟨site, hsite, hresolvable f hf site hsite, rfl⟩
    exact hgraph.wellFormed.callees _ (List.mem_filter.mp hedge).1
  have hviolations : ∀ d ∈ (firstFunctions [] p.functions).flatMap report.violationsOf,
      d.code = Diagnostic.purityViolation := by
    intro d hd
    obtain ⟨f, hf, hd⟩ := List.mem_flatMap.mp hd
    exact (mem_violationsOf hgraph (mem_firstFunctions_nil.mp hf) hd).1
  simp only [Program.checkPurity, Program.callables_withLabels] at h ⊢
  split at h
  · cases h
  · next htime =>
      obtain rfl := Except.ok.inj h
      have hs := seeded_withLabels p registry
      obtain ⟨hmeans, hfirsts, hothers⟩ := buildGraph_functions hs means_nodes htime
      obtain ⟨-, -, -, -, hfound⟩ := buildGraph_spec hs htime
      refine ⟨hmeans, ?_, hnodes, fun name => ?_, fun f hf => ?_⟩
      · have hnone := hfound.mpr fun f hf site hsite => by
          rw [← Program.functions_eq, firstFunctions_withLabels, List.mem_map] at hf
          obtain ⟨f₀, hf₀, rfl⟩ := hf
          exact hresolvable f₀ (List.mem_of_find?_eq_some (mem_firstFunctions.mp hf₀).2) site hsite
        intro d hd
        rw [hnone, List.nil_append, violations_withLabels] at hd
        rw [hviolations d hd]
        decide
      · refine (hfirsts name List.not_mem_nil).trans ?_
        rw [← Program.functions_eq]
        show (p.withLabels.function? name).map _ = _
        rw [Program.function?_withLabels, Option.map_map]
        rfl
      · rcases hothers f hf with hsame | ⟨-, hfirst⟩
        · rw [← Program.functions_eq, Program.functions_withLabels, List.mem_map] at hsame
          obtain ⟨f₀, hf₀, rfl⟩ := hsame
          exact .inr ⟨f₀, hf₀, rfl⟩
        · exact .inl hfirst

/-! ### Effects -/

/-- A name is labelled as effectful exactly if it stands for an effect. -/
theorem label_eq_effectful_iff {name : String} :
    p.label registry name = some .effectful ↔ p.HasEffect registry name := by
  unfold Program.label Program.meaning? Program.HasEffect
  cases p.function? name with
  | some f => simp
  | none =>
      cases registry.isOperation name with
      | true => simp
      | false =>
          simp only [Bool.false_eq_true, if_false, iff_false]
          split <;> [skip; split] <;> simp

/-- Where nothing is found, a pure function calls nothing that has an effect. -/
theorem not_hasEffect_of_pure {budget : Budget} {report : PurityReport}
    (h : (p.checkPurity registry budget).result = .ok report) (hfound : report.found = [])
    {f : FunctionDecl} (hf : p.function? f.name.text = some f) (hpure : f.purity = .pure) :
    ∀ site ∈ Stmt.callsAll f.body, ¬p.HasEffect registry site.callee.text := by
  obtain ⟨hgraph, unresolved, -, hreport⟩ := checkPurity_report h
  intro site hsite heffect
  have hresolvable : (Callables.of registry p).resolvable site.callee.text = true := by
    rw [← Program.isSome_meaning?]
    have hlabel := label_eq_effectful_iff.mpr heffect
    obtain ⟨_, hmeaning, -⟩ := Option.map_eq_some_iff.mp hlabel
    rw [hmeaning]
    rfl
  refine (violationsOf_ne_nil hgraph hf hpure).mpr
    ⟨_, heffect, .single ⟨f, hf, site, hsite, rfl, hresolvable⟩⟩ ?_
  rw [hfound, eq_comm, List.append_eq_nil_iff, List.flatMap_eq_nil_iff] at hreport
  exact hreport.2 f (mem_firstFunctions_nil.mpr hf)

end

end Prosaic
