import Prosaic.Proofs.Purity.Labels

/-!
The purity check is exact. A pure function calls nothing that is effectful or reaches something
effectful if and only if none of its calls is reported. The check leaves out calls whose only way to
an effect runs back through the function; a way to an effect has a last place where it leaves the
function, and from there on it does not come back, so that another call is reported.
-/

namespace Prosaic

open CallGraph

/-! ### Calls and effects in a program -/

/-- A function with the label that it is declared with. -/
def FunctionDecl.withLabel (f : FunctionDecl) : FunctionDecl := { f with resolved := some f.purity }

namespace Program

/-- The first function of a name. -/
def function? (p : Program) (name : String) : Option FunctionDecl :=
  p.functions.find? fun f => f.name.text == name

/-- The first function of a name has a call that resolves to another name. -/
def CallsTo (p : Program) (registry : Registry) (a b : String) : Prop :=
  ∃ f, p.function? a = some f ∧ ∃ site ∈ Stmt.callsAll f.body, site.callee.text = b ∧
    (Callables.of registry p).resolvable b = true

/-- A name stands for a function that is declared effectful or, if no function has it, for an
operation of the registry. -/
def HasEffect (p : Program) (registry : Registry) (name : String) : Prop :=
  match p.function? name with
  | some f => f.purity = .effectful
  | none => registry.isOperation name = true

theorem functions_withLabels (p : Program) :
    p.withLabels.functions = p.functions.map FunctionDecl.withLabel := by
  rw [functions_eq, functions_eq, withLabels, List.filterMap_map, List.map_filterMap]
  refine List.filterMap_congr fun d _ => ?_
  cases d <;> rfl

theorem callables_withLabels (p : Program) (registry : Registry) :
    Callables.of registry p.withLabels = Callables.of registry p := by
  unfold Callables.of
  rw [functions_withLabels, p.sameBare_withLabels.types, List.map_map]
  rfl

end Program

theorem firstFunctions_withLabels (p : Program) :
    firstFunctions [] p.withLabels.functions =
      (firstFunctions [] p.functions).map FunctionDecl.withLabel := by
  have hmap : ∀ (fs : List FunctionDecl) (seen : List String),
      firstFunctions seen (fs.map FunctionDecl.withLabel) =
        (firstFunctions seen fs).map FunctionDecl.withLabel := by
    intro fs
    induction fs with
    | nil => exact fun _ => rfl
    | cons f fs ih =>
        intro seen
        rw [List.map_cons, firstFunctions, firstFunctions, ih, ih]
        show (if seen.contains f.name.text then _ else _) = _
        split <;> rfl
  rw [Program.functions_withLabels, hmap]

/-- The functions that a program's call graph is made from. -/
theorem mem_firstFunctions_nil {p : Program} {f : FunctionDecl} :
    f ∈ firstFunctions [] p.functions ↔ p.function? f.name.text = some f := by
  rw [mem_firstFunctions]
  simp [Program.function?]

theorem name_of_function? {p : Program} {name : String} {f : FunctionDecl}
    (h : p.function? name = some f) : f.name.text = name := by
  simpa using List.find?_some h

theorem mem_of_function? {p : Program} {name : String} {f : FunctionDecl}
    (h : p.function? name = some f) : f ∈ p.functions :=
  List.mem_of_find?_eq_some h

/-- Where names are distinct, every function is the first of its name. -/
theorem Program.function?_eq_some {p : Program}
    (h : (p.functions.map fun f => f.name.text).Nodup)
    {f : FunctionDecl} (hf : f ∈ p.functions) : p.function? f.name.text = some f := by
  cases hfirst : p.function? f.name.text with
  | none =>
      rw [Program.function?, List.find?_eq_none] at hfirst
      exact absurd (beq_self_eq_true _) (hfirst f hf)
  | some g =>
      rw [List.inj_on_of_nodup_map h (mem_of_function? hfirst) hf (name_of_function? hfirst)]

/-! ### The graph of a program -/

/-- What the graph of a finished check says about the program. -/
structure GraphOf (g : CallGraph) (p : Program) (registry : Registry) : Prop where
  wellFormed : g.WellFormed
  edges : g.edges = (Callables.of registry p).programEdges (firstFunctions [] p.functions)
  effectful : ∀ name, g.Effectful name ↔ p.HasEffect registry name

theorem effectful_nodes (p : Program) (registry : Registry) (name : String) :
    ((Callables.of registry p).nodes p.withLabels).Effectful name ↔ p.HasEffect registry name := by
  unfold CallGraph.Effectful Program.HasEffect Program.function?
  rw [Callables.node?_nodes, Program.functions_withLabels, List.find?_map, Option.map_map]
  show (∃ n, ((((p.functions.find? fun f => f.name.text == name).map _).or _).or _) = some n ∧
    _) ↔ _
  cases p.functions.find? fun f => f.name.text == name with
  | some f => simp [Node.isEffectful, FunctionDecl.withLabel]
  | none =>
      cases hoperation : registry.isOperation name
      · cases hhelper : registry.isHelper name <;>
          simp [Node.isEffectful, Callables.of, hoperation, hhelper]
      · simp [Node.isEffectful, Callables.of, hoperation]

/-- The violations in a pure function; a function that is declared effectful has none. -/
def PurityReport.violationsOf (report : PurityReport) (f : FunctionDecl) : List Diagnostic :=
  if f.purity = .pure then
    (report.graph.sites f.name.text).filterMap (violation? report.graph report.graph.tainted)
  else []

theorem violations_withLabels (g : CallGraph) (p : Program) (found : List Diagnostic) :
    violations g p.withLabels =
      (firstFunctions [] p.functions).flatMap (PurityReport.violationsOf ⟨found, g⟩) := by
  simp only [violations, foldl_firsts, List.nil_append, List.map_nil, firstFunctions_withLabels]
  induction firstFunctions [] p.functions with
  | nil => rfl
  | cons f fs ih =>
      rw [List.map_cons, List.filter_cons, List.flatMap_cons, PurityReport.violationsOf]
      by_cases hpure : f.purity = .pure
      · have hlabel : decide (f.withLabel.purity = .pure) = true := decide_eq_true hpure
        rw [if_pos hlabel, if_pos hpure, List.flatMap_cons, ih]
        rfl
      · have hlabel : ¬ decide (f.withLabel.purity = .pure) = true := by
          rw [decide_eq_true_eq]
          exact hpure
        rw [if_neg hlabel, if_neg hpure, ih, List.nil_append]

theorem seeded_withLabels (p : Program) (registry : Registry) :
    (Callables.of registry p).Seeded ((Callables.of registry p).nodes p.withLabels) := by
  have := Callables.seeded_nodes registry p.withLabels
  rwa [Program.callables_withLabels] at this

/-- What a check that ends in time reports: unresolved calls, and the violations of the pure
functions. -/
theorem checkPurity_report {p : Program} {registry : Registry} {budget : Budget}
    {report : PurityReport} (h : (p.checkPurity registry budget).result = .ok report) :
    GraphOf report.graph p registry ∧
      ∃ unresolved, (∀ d ∈ unresolved, d.code = Diagnostic.unresolvedCall) ∧
        report.found = unresolved ++
          (firstFunctions [] p.functions).flatMap report.violationsOf := by
  simp only [Program.checkPurity, Program.callables_withLabels] at h
  split at h
  · cases h
  · next htime =>
      obtain rfl := Except.ok.inj h
      have hs := seeded_withLabels p registry
      obtain ⟨hgrown, hedges, hcallees, hcodes, -⟩ := buildGraph_spec hs htime
      have hsame : (Callables.of registry p).programEdges (firstFunctions []
          (p.withLabels.declarations.filterMap Decl.function?)) =
            (Callables.of registry p).programEdges (firstFunctions [] p.functions) := by
        rw [← Program.functions_eq, firstFunctions_withLabels]
        exact List.flatMap_map ..
      rw [hsame] at hedges hcallees
      rw [Callables.edges_nodes, List.nil_append] at hedges
      refine ⟨⟨⟨?_, ?_, ?_⟩, hedges, fun name => ?_⟩, _, hcodes, ?_⟩
      · exact hgrown.distinct (Callables.distinct_nodes _ _)
      · rw [hedges]
        intro e he
        obtain ⟨f, hf, he⟩ := List.mem_flatMap.mp he
        obtain ⟨site, -, rfl⟩ := List.mem_map.mp he
        have hmem : f ∈ p.functions := List.mem_of_find?_eq_some (mem_firstFunctions.mp hf).2
        refine hgrown.isSome (hs f.name.text ?_)
        simp only [Callables.declares, Callables.of, Bool.or_eq_true, List.contains_iff_mem]
        exact .inl (.inl (List.mem_map_of_mem hmem))
      · rw [hedges]
        exact hcallees
      · rw [hgrown.effectful, effectful_nodes]
      · exact congrArg _ (violations_withLabels _ _ _)

/-! ### The calls of a function in the graph -/

theorem calls_iff {g : CallGraph} {p : Program} {registry : Registry} (h : GraphOf g p registry)
    (a b : String) : g.Calls a b ↔ p.CallsTo registry a b := by
  unfold CallGraph.Calls Program.CallsTo
  simp only [h.edges, Callables.programEdges, Callables.callEdges, List.mem_flatMap, List.mem_map,
    List.mem_filter]
  constructor
  · rintro ⟨e, ⟨f, hf, site, ⟨hsite, hresolvable⟩, rfl⟩, rfl, rfl⟩
    exact ⟨f, mem_firstFunctions_nil.mp hf, site, hsite, rfl, hresolvable⟩
  · rintro ⟨f, hf, site, hsite, rfl, hresolvable⟩
    obtain rfl := name_of_function? hf
    exact ⟨_, ⟨f, mem_firstFunctions_nil.mpr hf, site, ⟨hsite, hresolvable⟩, rfl⟩, rfl, rfl⟩

/-- The edges that start at the name of a first function are those of its own calls. -/
theorem mem_sites {g : CallGraph} {p : Program} {registry : Registry} (h : GraphOf g p registry)
    {f : FunctionDecl} (hf : p.function? f.name.text = some f) {e : Edge} :
    e ∈ g.sites f.name.text ↔ ∃ site ∈ Stmt.callsAll f.body,
      (Callables.of registry p).resolvable site.callee.text = true ∧
        e = Callables.callEdge f.name.text site := by
  rw [sites, h.edges]
  simp only [Callables.programEdges, Callables.callEdges, List.mem_flatMap, List.mem_map,
    List.mem_filter, beq_iff_eq]
  constructor
  · rintro ⟨⟨f', hf', site, ⟨hsite, hresolvable⟩, rfl⟩, hname⟩
    have hname : f'.name.text = f.name.text := hname
    obtain rfl : f' = f := by
      have := mem_firstFunctions_nil.mp hf'
      rw [hname, hf] at this
      exact (Option.some.inj this).symm
    exact ⟨site, hsite, hresolvable, rfl⟩
  · rintro ⟨site, hsite, hresolvable, rfl⟩
    exact ⟨⟨f, mem_firstFunctions_nil.mpr hf, site, ⟨hsite, hresolvable⟩, rfl⟩, rfl⟩

/-! ### Violations -/

theorem leads_of_leadsAround {g : CallGraph} {excluded a b : String}
    (h : g.LeadsAround excluded a b) : Relation.ReflTransGen g.Calls a b :=
  Relation.ReflTransGen.mono (fun _ _ hstep => hstep.1) _ _ h

/-- A call is a violation if it leads to an effect around the function that it stands in. -/
theorem isSome_violation? {g : CallGraph} (h : g.WellFormed) {e : Edge} (he : e ∈ g.edges) :
    (violation? g g.tainted e).isSome = true ↔
      e.callee ≠ e.caller ∧
        ∃ effect, g.Effectful effect ∧ g.LeadsAround e.caller e.callee effect := by
  have hcallee := h.callees e he
  by_cases hself : e.callee = e.caller
  · simp [violation?, hself]
  · obtain ⟨path, hpath, hnodes, hiff⟩ := pathAvoiding?_spec h hself hcallee
    have htainted : path ≠ [] → visited g.tainted e.callee = true := by
      intro hne
      obtain ⟨effect, heffect, hleads⟩ := hiff.mp hne
      exact (visited_tainted h.distinct _).mpr
        ⟨effect, heffect, leads_of_leadsAround hleads⟩
    rw [← hiff]
    unfold violation?
    cases path with
    | nil =>
        simp [hself, hpath]
    | cons first rest =>
        obtain ⟨callee, hcalleeNode⟩ := Option.isSome_iff_exists.mp hcallee
        obtain ⟨last, hlast⟩ := Option.isSome_iff_exists.mp (hnodes _ List.getLastD_mem_cons)
        simp [hself, hpath, htainted, hcalleeNode, hlast, -List.getLastD_eq_getLast?]

/-- Where a way leads from a name to another one, it leaves the first name for a last time. -/
theorem leaves_for_good {r : String → String → Prop} {a b : String}
    (h : Relation.ReflTransGen r a b) (hne : b ≠ a) :
    ∃ c, r a c ∧ c ≠ a ∧ Relation.ReflTransGen (fun x y => r x y ∧ y ≠ a) c b := by
  induction h with
  | refl => exact absurd rfl hne
  | @tail m n _ hstep ih =>
      by_cases hm : m = a
      -- the last step so far leaves the name
      · exact ⟨n, hm ▸ hstep, hne, .refl⟩
      · obtain ⟨c, hac, hc, hleads⟩ := ih hm
        exact ⟨c, hac, hc, hleads.tail ⟨hstep, hne⟩⟩

theorem violationsOf_ne_nil {report : PurityReport} {p : Program} {registry : Registry}
    (h : GraphOf report.graph p registry) {f : FunctionDecl}
    (hf : p.function? f.name.text = some f) (hpure : f.purity = .pure) :
    report.violationsOf f ≠ [] ↔
      ∃ effect, p.HasEffect registry effect ∧
        Relation.ReflTransGen (p.CallsTo registry) f.name.text effect := by
  have hedge : ∀ e ∈ report.graph.sites f.name.text,
      e ∈ report.graph.edges ∧ e.caller = f.name.text := by
    intro e he
    have := List.mem_filter.mp he
    exact ⟨this.1, by simpa using this.2⟩
  have hcalls : report.graph.Calls = p.CallsTo registry :=
    funext fun a => funext fun b => propext (calls_iff h a b)
  rw [PurityReport.violationsOf, if_pos hpure, ne_eq, List.filterMap_eq_nil_iff, not_forall]
  simp only [not_forall, ← Option.isSome_iff_ne_none, ← ne_eq, ← h.effectful, ← hcalls]
  constructor
  · rintro ⟨e, he, hviolation⟩
    obtain ⟨hmem, hcaller⟩ := hedge e he
    obtain ⟨-, effect, heffect, hleads⟩ := (isSome_violation? h.wellFormed hmem).mp hviolation
    exact ⟨effect, heffect, (leads_of_leadsAround hleads).head ⟨e, hmem, hcaller, rfl⟩⟩
  · rintro ⟨effect, heffect, hleads⟩
    -- a pure function is no effect itself
    have hne : effect ≠ f.name.text := by
      rintro rfl
      have := (h.effectful _).mp heffect
      simp [Program.HasEffect, hf, hpure] at this
    -- the call where the way leaves the function for good is the one that is reported
    obtain ⟨c, ⟨e, hmem, hcaller, rfl⟩, hc, haround⟩ := leaves_for_good hleads hne
    refine ⟨e, List.mem_filter.mpr ⟨hmem, by simpa using hcaller⟩, ?_⟩
    rw [isSome_violation? h.wellFormed hmem, hcaller]
    exact ⟨hc, effect, heffect, haround⟩

theorem mem_violationsOf {report : PurityReport} {p : Program} {registry : Registry}
    (h : GraphOf report.graph p registry) {f : FunctionDecl}
    (hf : p.function? f.name.text = some f) {d : Diagnostic} (hd : d ∈ report.violationsOf f) :
    d.code = Diagnostic.purityViolation ∧
      ∃ site ∈ Stmt.callsAll f.body, d.location = site.callee.span.start.location := by
  rw [PurityReport.violationsOf] at hd
  split at hd
  · obtain ⟨e, he, hviolation⟩ := List.mem_filterMap.mp hd
    obtain ⟨site, hsite, -, rfl⟩ := (mem_sites h hf).mp he
    unfold violation? at hviolation
    split at hviolation
    · cases hviolation
    · split at hviolation
      · cases hviolation
      · cases hviolation
      · obtain ⟨callee, -, hviolation⟩ := Option.bind_eq_some_iff.mp hviolation
        obtain ⟨last, -, hviolation⟩ := Option.bind_eq_some_iff.mp hviolation
        obtain rfl := Option.some.inj hviolation
        exact ⟨rfl, site, hsite, rfl⟩
  · cases hd

/-- The violations that a purity check reports are those of the first functions of their names. Each
stands at a call in the body of its function; an effectful function has none, and a pure one has
some if and only if its calls lead to an effect. So when nothing is reported, no chain of calls from
a pure function comes to anything effectful. -/
theorem checkPurity_exact {p : Program} {registry : Registry} {budget : Budget}
    {report : PurityReport} (h : (p.checkPurity registry budget).result = .ok report) :
    report.found.filter (fun d => d.code = Diagnostic.purityViolation) =
        (firstFunctions [] p.functions).flatMap report.violationsOf ∧
      (∀ f, p.function? f.name.text = some f →
        (∀ d ∈ report.violationsOf f,
          ∃ site ∈ Stmt.callsAll f.body, d.location = site.callee.span.start.location) ∧
        (f.purity = .effectful → report.violationsOf f = []) ∧
        (f.purity = .pure → (report.violationsOf f ≠ [] ↔
          ∃ effect, p.HasEffect registry effect ∧
            Relation.ReflTransGen (p.CallsTo registry) f.name.text effect))) ∧
      (report.found = [] → ∀ f, p.function? f.name.text = some f → f.purity = .pure →
        ∀ name, Relation.ReflTransGen (p.CallsTo registry) f.name.text name →
          ¬ p.HasEffect registry name) := by
  obtain ⟨hgraph, unresolved, hcodes, hfound⟩ := checkPurity_report h
  have hviolations : ∀ d ∈ (firstFunctions [] p.functions).flatMap report.violationsOf,
      d.code = Diagnostic.purityViolation := by
    intro d hd
    obtain ⟨f, hf, hd⟩ := List.mem_flatMap.mp hd
    exact (mem_violationsOf hgraph (mem_firstFunctions_nil.mp hf) hd).1
  refine ⟨?_, fun f hf => ⟨fun d hd => (mem_violationsOf hgraph hf hd).2, fun heffectful => ?_,
    violationsOf_ne_nil hgraph hf⟩, fun hnone f hf hpure name hleads heffect => ?_⟩
  -- the findings are the violations and others of another code
  · have hother : unresolved.filter (fun d => d.code = Diagnostic.purityViolation) = [] := by
      rw [List.filter_eq_nil_iff]
      intro d hd
      rw [hcodes d hd]
      decide
    rw [hfound, List.filter_append, hother, List.nil_append, List.filter_eq_self]
    exact fun d hd => decide_eq_true (hviolations d hd)
  · rw [PurityReport.violationsOf, heffectful]
    rfl
  · have hempty : report.violationsOf f = [] := by
      rw [hnone] at hfound
      obtain ⟨-, hall⟩ := List.append_eq_nil_iff.mp hfound.symm
      exact List.flatMap_eq_nil_iff.mp hall f (mem_firstFunctions_nil.mpr hf)
    exact (violationsOf_ne_nil hgraph hf hpure).mpr ⟨name, heffect, hleads⟩ hempty

/-- A function without parameters that calls some functions without arguments. -/
def functionCalling (name : String) (purity : Purity) (callees : List String) : FunctionDecl :=
  let nowhere : Span := ⟨.first, .first⟩
  let body := callees.map fun callee =>
    Stmt.call ⟨callee, nowhere⟩ [] ⟨nowhere, none, none, none⟩ nowhere
  ⟨⟨name, nowhere⟩, [], none, purity, body, none, nowhere, none⟩

/-- Two functions that call each other, of which the second has an effect. -/
def pingPong : Program :=
  ⟨[.function (functionCalling "ping" .pure ["pong"]),
    .function (functionCalling "pong" .pure ["ping", "beep"]),
    .function (functionCalling "beep" .effectful [])], ⟨.first, .first⟩⟩

theorem checkPurity_pingPong :
    ∃ report, (pingPong.checkPurity .empty (.start .standard .still)).result = .ok report ∧
      report.violationsOf (functionCalling "ping" .pure ["pong"]) ≠ [] := by
  have hcheck :
      (pingPong.checkPurity .empty (.start .standard .still)).result.toOption.isSome = true := by
    decide +kernel
  cases h : (pingPong.checkPurity .empty (.start .standard .still)).result with
  | error e => simp [h, Except.toOption] at hcheck
  | ok report =>
      refine ⟨report, rfl, (((checkPurity_exact h).2.1 _ rfl).2.2 rfl).mpr ⟨"beep", rfl, ?_⟩⟩
      have hping : pingPong.CallsTo .empty "ping" "pong" :=
        ⟨_, rfl, _, List.mem_cons_self, rfl, rfl⟩
      have hpong : pingPong.CallsTo .empty "pong" "beep" :=
        ⟨_, rfl, _, List.mem_cons_of_mem _ List.mem_cons_self, rfl, rfl⟩
      exact (Relation.ReflTransGen.single hping).tail hpong

end Prosaic
