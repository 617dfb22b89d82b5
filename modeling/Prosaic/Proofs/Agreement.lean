import Prosaic.Proofs.Purity.Meaning
import Prosaic.Proofs.Registry.Names
import Prosaic.Proofs.Typing.Check
import Prosaic.Proofs.Typing.Rules

/-!
The two checks resolve the names in calls on their own, and in different orders. The type check
takes the name of a base type for a conversion before it looks for anything else; the purity check
looks for functions, operations and helpers first. They agree about a call unless an operation or a
helper of the registry has the name of a base type, which the loader of registries does not rule
out.
-/

namespace Prosaic

/-- An operation or a helper of a registry has the name of a base type. -/
def Registry.Hides (registry : Registry) (name : String) : Prop :=
  (Base.ofText? name).isSome = true ∧
    (registry.isOperation name = true ∨ registry.isHelper name = true)

/-- The checks agree about a call: the target that the type check found is the kind of the node that
the purity check resolved it to. The call has the label of that node, so it is effectful exactly if
it goes to an operation or to an effectful function. -/
def Program.AgreesOn (p : Program) (g : CallGraph) (site : CallSite) : Prop :=
  ∃ kind n, site.note.target = some kind ∧ g.node? site.callee.text = some n ∧
    n.kind = kind.text ∧ site.note.purity = some n.purity ∧
    (n.purity = .effectful ↔ kind = .operation ∨
      kind = .function ∧ ∃ f, p.function? site.callee.text = some f ∧ f.purity = .effectful)

theorem CallTarget.text_injective : Function.Injective CallTarget.text := by
  intro a b h
  cases a <;> cases b <;> first | rfl | exact absurd h (by decide)

section

variable {p q : Program} {registry : Registry}

/-! ### Meanings -/

theorem effectful_of_meaning? {name : String} {kind : CallTarget} {purity : Purity}
    (h : p.meaning? registry name = some (kind, purity)) :
    purity = .effectful ↔ kind = .operation ∨
      kind = .function ∧ ∃ f, p.function? name = some f ∧ f.purity = .effectful := by
  unfold Program.meaning? at h
  cases hf : p.function? name with
  | some f =>
      rw [hf] at h
      cases h
      simp
  | none =>
      simp only [hf] at h
      repeat' split at h
      all_goals cases h
      all_goals simp

/-- A readable name that none of the readable functions has is that of no function. -/
theorem function?_eq_none {name : String}
    (hforeign : ∀ f ∈ p.readable.functions, f.name.text ≠ name) (hname : name ≠ unreadableName) :
    p.function? name = none := by
  rw [Program.function?, List.find?_eq_none]
  intro f hf heq
  obtain rfl : f.name.text = name := beq_iff_eq.mp heq
  refine hforeign f ?_ rfl
  rw [Program.mem_functions] at hf ⊢
  exact List.mem_filter.mpr ⟨hf, decide_eq_true hname⟩

theorem ofText?_unreadable : Base.ofText? unreadableName = none := by decide

section

variable (hnamed : registry.Named)

include hnamed

theorem ne_unreadable_of_declared {name : String}
    (h : registry.isOperation name = true ∨ registry.isHelper name = true) :
    name ≠ unreadableName := by
  rintro rfl
  have hname : Registry.isName unreadableName = true := by
    rcases h with h | h
    · exact hnamed.operations _ (Registry.isOperation_iff.mp h)
    · exact hnamed.helpers _ (Registry.isHelper_iff.mp h)
  rw [Registry.isName_unreadable] at hname
  cases hname

theorem ne_unreadable_of_type? {name : String} {t : Ty}
    (h : Setting.type? ⟨p, registry⟩ name = some t) : name ≠ unreadableName := by
  rintro rfl
  have hreadable : ∀ d ∈ p.readable.declarations, d.name ≠ unreadableName :=
    fun d hd => of_decide_eq_true (List.mem_filter.mp hd).2
  have hrecord : unreadableName ∉ p.readable.records.map RecordDecl.name := by
    rw [List.mem_map]
    rintro ⟨r, hr, heq⟩
    exact hreadable _ (Program.mem_records.mp hr) heq
  have htype : unreadableName ∉ p.readable.types.map TypeDecl.name := by
    rw [List.mem_map]
    rintro ⟨t, ht, heq⟩
    exact hreadable _ (Program.mem_types.mp ht) heq
  simp only [Setting.type?, declaredType?, ofText?_unreadable, if_neg hrecord, if_neg htype,
    Registry.type?] at h
  have hname := (hnamed.types _ (List.mem_map_of_mem (f := Prod.fst) (mem_of_lookup h))).1
  rw [Registry.isName_unreadable] at hname
  cases hname

/-- A type that a name denotes outside the program is converted to by that name. -/
theorem converts_of_foreign {name d : String} {u : Ty}
    (hfree : ∀ t ∈ p.readable.types, t.name ∉ registry.declaredNames)
    (hbase : Base.ofText? name = none)
    (hd : Setting.type? ⟨p, registry⟩ name = some (.domain d))
    (hu : Setting.Underlying ⟨p, registry⟩ d u) :
    (Callables.of registry p).conversions.contains name = true := by
  rw [List.contains_iff_mem, Callables.of, List.mem_append, List.mem_append]
  simp only [Setting.type?, declaredType?, hbase] at hd
  split at hd
  · cases hd
  · split at hd
    -- a type of the program
    · next hown =>
        obtain ⟨t, ht, rfl⟩ := List.mem_map.mp hown
        rw [Program.mem_types] at ht
        exact .inr (List.mem_map_of_mem (Program.mem_types.mpr (List.mem_filter.mp ht).1))
    -- a type of the registry, whose domain the program cannot declare again
    · simp only [Registry.type?, hbase] at hd
      have hdomain : d ∉ p.readable.types.map TypeDecl.name := by
        rintro hown
        obtain ⟨t, ht, rfl⟩ := List.mem_map.mp hown
        refine hfree t ht ?_
        simp only [Registry.declaredNames, List.mem_append]
        exact .inl (.inl (hnamed.domains name t.name hd))
      refine .inl (.inr (List.mem_filterMap.mpr ⟨_, mem_of_lookup hd, ?_⟩))
      cases hu with
      | literals ht | reference ht => exact absurd (List.mem_map_of_mem ht) hdomain
      | registry hforeign hlookup hunder =>
          have hlookup : registry.domains.lookup d = some _ := hlookup
          simp [hlookup, hunder]

/-- Whatever a name calls by the typing rules is what it means to the purity check. -/
theorem meaning?_of_callable
    (hfree : ∀ t ∈ p.readable.types, t.name ∉ registry.declaredNames)
    {name : String} {kind : CallTarget} {parameters : List Ty} {returns : Option Ty}
    (h : Setting.Callable ⟨p, registry⟩ name kind parameters returns) :
    ∃ purity, p.meaning? registry name = some (kind, purity) := by
  unfold Program.meaning?
  cases h with
  | @function f s hf hs =>
      have hsome : (p.function? f.name.text).isSome = true := by
        rw [Program.function?, List.find?_isSome]
        rw [Program.mem_functions] at hf
        exact ⟨f, Program.mem_functions.mpr (List.mem_filter.mp hf).1, beq_self_eq_true _⟩
      obtain ⟨g, hg⟩ := Option.isSome_iff_exists.mp hsome
      exact ⟨g.purity, by rw [hg]⟩
  | helper hforeign hs =>
      have hhelper : registry.isHelper name = true := Option.isSome_iff_exists.mpr ⟨_, hs⟩
      have hoperation : registry.isOperation name = false := by
        rw [Bool.eq_false_iff, ne_eq, Registry.isOperation_iff]
        exact fun hmem => hnamed.apart name hmem (Registry.isHelper_iff.mp hhelper)
      rw [function?_eq_none hforeign.function (ne_unreadable_of_declared hnamed (.inr hhelper))]
      exact ⟨.pure, by simp [hhelper, hoperation]⟩
  | operation hforeign hhelper hs =>
      have hoperation : registry.isOperation name = true := Option.isSome_iff_exists.mpr ⟨_, hs⟩
      rw [function?_eq_none hforeign.function (ne_unreadable_of_declared hnamed (.inl hoperation))]
      exact ⟨.effectful, by simp [hoperation]⟩
  | conversion hforeign hhelper hoperation hd hu =>
      have hconverts := converts_of_foreign hnamed hfree hforeign.base hd hu
      rw [function?_eq_none hforeign.function (ne_unreadable_of_type? hnamed hd)]
      have hnotHelper : registry.isHelper name = false := by
        rw [Registry.isHelper, show registry.helpers.lookup name = none from hhelper]
        rfl
      have hnotOperation : registry.isOperation name = false := by
        rw [Registry.isOperation, show registry.operations.lookup name = none from hoperation]
        rfl
      refine ⟨.pure, ?_⟩
      simp only [hnotHelper, hnotOperation, hconverts]
      rfl

end

/-- A base type converts, unless its name is hidden. -/
theorem meaning?_of_base {name : String} {b : Base} (hbase : Base.ofText? name = some b)
    (hfunction : p.function? name = none) :
    ∃ kind purity, p.meaning? registry name = some (kind, purity) ∧
      (kind = .conversion ↔ ¬registry.Hides name) := by
  have hconverts : (Callables.of registry p).conversions.contains name = true := by
    rw [List.contains_iff_mem, Callables.of, List.mem_append, List.mem_append, List.mem_map]
    exact .inl (.inl ⟨b, by cases b <;> decide, by simpa using List.find?_some hbase⟩)
  rw [Program.meaning?, hfunction]
  unfold Registry.Hides
  cases hoperation : registry.isOperation name with
  | true => exact ⟨.operation, .effectful, rfl, by simp [hbase]⟩
  | false =>
      cases hhelper : registry.isHelper name with
      | true => exact ⟨.helper, .pure, rfl, by simp [hbase]⟩
      | false => exact ⟨.conversion, .pure, by simp only [hconverts]; rfl, by simp⟩

/-! ### Calls -/

/-- A call fits what its name stands for. -/
def TypeEnv.Called (env : TypeEnv) : Expr → Prop
  | .call callee args note => ∃ returns, env.CallFits callee.text args note.target returns
  | _ => True

/-- The name of a call that fits has a meaning, and unless it is hidden the call has its target. -/
theorem meaning?_of_callFits (hnamed : registry.Named) {env : TypeEnv}
    (hreflects : env.Reflects registry p) {name : String} {args : List Expr}
    {target : Option CallTarget} {returns : Option Ty}
    (hfits : env.CallFits name args target returns) :
    ∃ kind purity, p.meaning? registry name = some (kind, purity) ∧
      (target = some kind ↔ ¬registry.Hides name) := by
  rcases TypeEnv.callFits_cases hfits with
    ⟨b, _, _, hbase, rfl, -⟩ | ⟨kind, _, hknown, rfl, -⟩
  -- the type check takes the name of a base type for a conversion
  · have hfunction : p.function? name = none := by
      refine function?_eq_none (fun f hf heq => ?_) fun hname => ?_
      · have hbuiltin := (hreflects.free _ (Program.mem_functions.mp hf)).1
        have hname : (Decl.function f).name = name := heq
        simp [isBuiltinTypeName, hname, hbase] at hbuiltin
      · rw [hname] at hbase
        cases ofText?_unreadable.symm.trans hbase
    obtain ⟨kind, purity, hmeaning, hiff⟩ :
        ∃ kind purity, p.meaning? registry name = some (kind, purity) ∧ _ :=
      meaning?_of_base hbase hfunction
    exact ⟨kind, purity, hmeaning, by rw [Option.some_inj, ← hiff, eq_comm]⟩
  -- any other name is looked for in the same order
  · have hcallable := hreflects.callable_of_known (w := ⟨p, registry⟩) hknown
    obtain ⟨purity, hmeaning⟩ := meaning?_of_callable hnamed
      (fun t ht => (hreflects.free _ (Program.mem_types.mp ht)).2) hcallable
    refine ⟨kind, purity, hmeaning, iff_of_true rfl fun hhides => ?_⟩
    have hbase : Base.ofText? name = none := by cases hknown <;> assumption
    simp [Registry.Hides, hbase] at hhides

/-- The checks agree about a call with the label of its name exactly if the target of the call is
what the name means. -/
theorem agreesOn_iff {g : CallGraph} (hmeans : g.Means p registry) {site : CallSite}
    {n : CallGraph.Node} (hn : g.node? site.callee.text = some n) {kind : CallTarget}
    {purity : Purity} (hmeaning : p.meaning? registry site.callee.text = some (kind, purity))
    (hlabel : site.note.purity = some purity) :
    p.AgreesOn g site ↔ site.note.target = some kind := by
  obtain ⟨kind', hkind, hmeaning'⟩ := hmeans _ n hn
  cases hmeaning.symm.trans hmeaning'
  constructor
  · rintro ⟨kind', n', htarget, hn', hkind', -, -⟩
    obtain rfl : n = n' := Option.some.inj (hn.symm.trans hn')
    rw [htarget, CallTarget.text_injective (hkind'.symm.trans hkind)]
  · exact fun htarget => ⟨kind, n, htarget, hn, hkind, hlabel, effectful_of_meaning? hmeaning⟩

/-! ### Programs -/

theorem Program.SameBare.function? (h : q.SameBare p) (name : String) :
    (q.function? name).map FunctionDecl.bare = (p.function? name).map FunctionDecl.bare := by
  have hfind : ∀ r : Program, (r.function? name).map FunctionDecl.bare =
      (r.functions.map FunctionDecl.bare).find? fun f => f.name.text == name := by
    intro r
    rw [List.find?_map]
    rfl
  rw [hfind, hfind, h.functions]

theorem Program.SameBare.meaning? (h : q.SameBare p) :
    q.meaning? registry = p.meaning? registry := by
  funext name
  have hfunction := h.function? name
  have hconversions : (Callables.of registry q).conversions =
      (Callables.of registry p).conversions := by rw [Callables.of, Callables.of, h.types]
  unfold Program.meaning?
  rw [hconversions]
  cases hq : q.function? name with
  | none =>
      rw [hq, Option.map_none, eq_comm, Option.map_eq_none_iff] at hfunction
      rw [hfunction]
  | some f =>
      rw [hq, Option.map_some, eq_comm, Option.map_eq_some_iff] at hfunction
      obtain ⟨g, hg, heq⟩ := hfunction
      have hpurity : g.bare.purity = f.bare.purity := congrArg FunctionDecl.purity heq
      rw [hg]
      exact congrArg (fun purity => some (CallTarget.function, purity)) hpurity.symm

/-- A readable function of a program in which no two readable functions share a name is the first of
its name. -/
theorem function?_of_mem (hnodup : (p.readable.functions.map fun f => f.name.text).Nodup)
    {f : FunctionDecl} (hf : f ∈ p.functions) (hname : f.name.text ≠ unreadableName) :
    p.function? f.name.text = some f := by
  have hreadable : ∀ g ∈ p.functions, g.name.text = f.name.text → g ∈ p.readable.functions := by
    intro g hg heq
    rw [Program.mem_functions] at hg ⊢
    exact List.mem_filter.mpr ⟨hg, decide_eq_true (show g.name.text ≠ _ from heq ▸ hname)⟩
  cases hfirst : p.function? f.name.text with
  | none =>
      rw [Program.function?, List.find?_eq_none] at hfirst
      exact absurd (beq_self_eq_true _) (hfirst f hf)
  | some g =>
      have hmem := hreadable g (mem_of_function? hfirst) (name_of_function? hfirst)
      rw [List.inj_on_of_nodup_map hnodup hmem (hreadable f hf rfl) (name_of_function? hfirst)]

/-- Where both checks of a program against a registry of a document end in time and the type check
finds nothing, no call is unresolved. Every call of the first function of a name has the label of
the node that its name stands for, and the checks agree about it exactly if its name is not that of
a base type which the registry declares as an operation or a helper as well. A function that is not
the first of its name has no readable one, and its calls are left as they are. -/
theorem checks_agree_iff {entries : Keyed Document} {budget budget' : Budget}
    {report : PurityReport} (hregistry : Registry.ofDocument entries = .ok registry)
    (htypes : (p.checkTypes registry budget).result = .ok [])
    (hpurity : ((p.checkTypes registry budget).program.checkPurity registry budget').result =
      .ok report) :
    let typed := (p.checkTypes registry budget).program
    let checked := (typed.checkPurity registry budget').program
    (∀ d ∈ report.found, d.code ≠ Diagnostic.unresolvedCall) ∧
      (∀ f, checked.function? f.name.text = some f → ∀ site ∈ Stmt.callsAll f.body,
        (∃ n, report.graph.node? site.callee.text = some n ∧ site.note.purity = some n.purity) ∧
          (checked.AgreesOn report.graph site ↔ ¬registry.Hides site.callee.text)) ∧
      ∀ f ∈ checked.functions, checked.function? f.name.text ≠ some f →
        f.name.text = unreadableName ∧ ∃ f₀ ∈ typed.functions, f = f₀.withLabel := by
  intro typed checked
  have hnamed := Registry.ofDocument_named hregistry
  obtain ⟨hreflects, -, -⟩ := Program.checkTypes_accepts htypes
  have htyped : typed.SameBare p := p.sameBare_checkTypes registry budget
  have hchecked : checked.SameBare typed := typed.sameBare_checkPurity registry budget'
  have hcalled : typed.Everywhere (Declared.of registry p).env.Called :=
    Program.checkTypes_everywhere (fun scope e he => by
        cases e with
        | call => exact ⟨_, he.choose_spec.2⟩
        | _ => trivial)
      (fun _ _ _ returns hfits => ⟨returns, hfits⟩) htypes
  have hmeaning : ∀ f ∈ typed.functions, ∀ site ∈ Stmt.callsAll f.body, ∃ kind purity,
      typed.meaning? registry site.callee.text = some (kind, purity) ∧
        (site.note.target = some kind ↔ ¬registry.Hides site.callee.text) := by
    intro f hf site hsite
    obtain ⟨args, returns, hfits⟩ := (hcalled f hf).at_call site hsite
    rw [htyped.meaning?]
    exact meaning?_of_callFits hnamed hreflects hfits
  have hresolves := checkPurity_resolves hpurity fun f hf site hsite => by
    obtain ⟨kind, purity, hsome, -⟩ := hmeaning f hf site hsite
    rw [hsome]
    rfl
  refine ⟨hresolves.resolved, fun f hfirst site hsite => ?_, fun f hf hlater => ?_⟩
  · obtain ⟨f₀, hf₀, rfl⟩ := Option.map_eq_some_iff.mp ((hresolves.firsts _).symm.trans hfirst)
    have hmem : f₀ ∈ typed.functions := mem_of_function? hf₀
    have hself : typed.function? f₀.name.text = some f₀ := by
      rwa [name_of_function? hf₀]
    obtain ⟨site₀, hsite₀, rfl⟩ : ∃ site₀ ∈ Stmt.callsAll f₀.body,
        site₀.labelled (typed.label registry) = site := by
      rwa [FunctionDecl.callsLabelled, Stmt.callsAll_labelledAll, List.mem_map] at hsite
    obtain ⟨kind, purity, hsome, hiff⟩ := hmeaning f₀ hmem site₀ hsite₀
    obtain ⟨n, hn⟩ := Option.isSome_iff_exists.mp (hresolves.nodes f₀ hmem hself site₀ hsite₀)
    have hlabel : (site₀.labelled (typed.label registry)).note.purity = some purity := by
      simp [CallSite.labelled, relabel, Program.label, hsome]
    rw [← hchecked.meaning?] at hsome
    have hmeans : report.graph.Means checked registry := by
      unfold CallGraph.Means
      rw [hchecked.meaning?]
      exact hresolves.means
    obtain ⟨_, -, hnode⟩ := hmeans _ n hn
    cases hsome.symm.trans hnode
    have hagrees := @agreesOn_iff _ _ _ hmeans (site₀.labelled (typed.label registry)) n hn _ _
      hsome hlabel
    exact ⟨⟨n, hn, hlabel⟩, hagrees.trans hiff⟩
  · refine ⟨?_, (hresolves.others f hf).resolve_left hlater⟩
    by_contra hname
    have hnodup := hreflects.nodup_functionNames
    have hsame : checked.SameBare p := hchecked.trans htyped
    rw [← hsame.readable.functionNames] at hnodup
    exact hlater (function?_of_mem hnodup hf hname)

end

/-- A registry document in which an operation has the name of a base type. -/
def numberOperation : Keyed Document :=
  [("types",
      .table [("Count", .table [("kind", .string "domain"), ("underlying", .string "Number")])]),
    ("operations", .table [("Number", .table [])])]

/-- A pure function that turns a domain value into its base type. -/
def countToNumber : Program :=
  let nowhere : Span := ⟨.first, .first⟩
  let value : Expr := .call ⟨"Number", nowhere⟩ [.variable "e" ⟨nowhere, none⟩]
    ⟨nowhere, none, none, none⟩
  ⟨[.function ⟨⟨"f", nowhere⟩, [⟨"e", .named "Count" nowhere, nowhere⟩],
    some (.named "Number" nowhere), .pure, [.return (some value) nowhere], none, nowhere, none⟩],
    nowhere⟩

/-- The type check takes the call of the function for a conversion, the purity check for a call of
an operation. -/
theorem targets_countToNumber : ∃ registry report,
    Registry.ofDocument numberOperation = .ok registry ∧
      (countToNumber.checkTypes registry (.start .standard .still)).result = .ok [] ∧
      ((countToNumber.checkTypes registry (.start .standard .still)).program.checkPurity registry
        (.start .standard .still)).result = .ok report ∧
      ∃ f,
        ((countToNumber.checkTypes registry (.start .standard .still)).program.checkPurity registry
          (.start .standard .still)).program.function? f.name.text = some f ∧
        ∃ site ∈ Stmt.callsAll f.body, site.note.target = some .conversion ∧
          ∃ n, report.graph.node? site.callee.text = some n ∧
            n.kind = CallTarget.operation.text := by
  have hrun : ((Registry.ofDocument numberOperation).toOption.any fun registry =>
      let typed := countToNumber.checkTypes registry (.start .standard .still)
      let checked := typed.program.checkPurity registry (.start .standard .still)
      typed.result.toOption.any List.isEmpty &&
        checked.result.toOption.any fun report =>
          (checked.program.function? "f").any fun f =>
            f.name.text = "f" && (Stmt.callsAll f.body).any fun site =>
              site.note.target = some .conversion &&
                (report.graph.node? site.callee.text).any fun n =>
                  n.kind = CallTarget.operation.text) = true := by
    decide +kernel
  obtain ⟨registry, hregistry, hrun⟩ := any_toOption.mp hrun
  simp only [Bool.and_eq_true] at hrun
  obtain ⟨htypes, hrun⟩ := hrun
  obtain ⟨found, htypes, hnone⟩ := any_toOption.mp htypes
  obtain ⟨report, hreport, hrun⟩ := any_toOption.mp hrun
  obtain ⟨f, hf, hrun⟩ := (Option.any_eq_true _ _).mp hrun
  simp only [Bool.and_eq_true, decide_eq_true_eq, List.any_eq_true] at hrun
  obtain ⟨hname, site, hsite, htarget, hrun⟩ := hrun
  obtain ⟨n, hn, hkind⟩ := (Option.any_eq_true _ _).mp hrun
  refine ⟨registry, report, hregistry, ?_, hreport, f, hname.symm ▸ hf, site, hsite, htarget, n, hn,
    of_decide_eq_true hkind⟩
  rw [htypes, List.isEmpty_iff.mp hnone]

/-- The call of the function is resolved, to a node of another kind than its target. -/
theorem checks_disagree_countToNumber : ∃ registry typed checked report,
    Registry.ofDocument numberOperation = .ok registry ∧
      countToNumber.checkTypes registry (.start .standard .still) = typed ∧ typed.result = .ok [] ∧
      typed.program.checkPurity registry (.start .standard .still) = checked ∧
      checked.result = .ok report ∧
      ∃ f ∈ checked.program.functions, ∃ site ∈ Stmt.callsAll f.body,
        ¬checked.program.AgreesOn report.graph site := by
  obtain ⟨registry, report, hregistry, htypes, hreport, f, hf, site, hsite, htarget,
    n, hn, hkind⟩ :=
    targets_countToNumber
  refine ⟨registry, _, _, report, hregistry, rfl, htypes, rfl, hreport, f,
    mem_of_function? hf, site, hsite, ?_⟩
  rintro ⟨kind, n', htarget', hn', hkind', -⟩
  cases htarget.symm.trans htarget'
  cases hn.symm.trans hn'
  exact absurd (hkind.symm.trans hkind') (by decide)

theorem checks_countToNumber : ∃ registry typed checked report,
    Registry.ofDocument numberOperation = .ok registry ∧
      countToNumber.checkTypes registry (.start .standard .still) = typed ∧ typed.result = .ok [] ∧
      typed.program.checkPurity registry (.start .standard .still) = checked ∧
      checked.result = .ok report ∧
      (∀ d ∈ report.found, d.code ≠ Diagnostic.unresolvedCall) ∧
      ∃ f, checked.program.function? f.name.text = some f ∧ ∃ site ∈ Stmt.callsAll f.body,
        (checked.program.AgreesOn report.graph site ↔ ¬registry.Hides site.callee.text) := by
  obtain ⟨registry, report, hregistry, htypes, hreport, f, hf, site, hsite, -⟩ :=
    targets_countToNumber
  obtain ⟨hresolved, hagree, -⟩ := checks_agree_iff hregistry htypes hreport
  exact ⟨registry, _, _, report, hregistry, rfl, htypes, rfl, hreport, hresolved, f,
    hf, site, hsite, (hagree f hf site hsite).2⟩

end Prosaic
