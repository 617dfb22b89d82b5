import Prosaic.Compilation
import Prosaic.Proofs.Grammar.Declaration
import Prosaic.Proofs.Purity.Check
import Prosaic.Proofs.TypeScript.Lowering
import Prosaic.Proofs.Typing.Check

/-!
Every compilation has an outcome: a module, or some findings. A program that is read and checked
without findings is complete, so that nothing is missing when it is lowered.
-/

namespace Prosaic

/-! ### Findings -/

theorem Findings.extend_ne_nil {ds : List Diagnostic} {f : Findings}
    (h : f.entries ≠ [] ∨ ds ≠ []) : (f.extend ds).entries ≠ [] := by
  induction ds generalizing f with
  | nil => exact h.resolve_right fun hnil => hnil rfl
  | cons d ds ih =>
      refine ih (.inl ?_)
      unfold add
      split
      · next hany =>
          rintro hnil
          simp [hnil] at hany
      · simp

theorem Findings.sorted_ofList_ne_nil {ds : List Diagnostic} (h : ds ≠ []) :
    (Findings.ofList ds).sorted ≠ [] := by
  intro hnil
  have hlength := congrArg List.length hnil
  rw [sorted, List.length_mergeSort, List.length_nil, List.length_eq_zero_iff] at hlength
  exact extend_ne_nil (.inr h) hlength

/-- A compilation ends with a module or with at least one finding. -/
def Settles (result : Except TypeScript.Defect Outcome) : Prop :=
  (∃ text, result = .ok (.emitted text)) ∨ ∃ found, found ≠ [] ∧ result = .ok (.rejected found)

/-- A phase that finds something reports something. -/
theorem settles_ofFound {found : List Diagnostic} (h : found ≠ []) :
    Settles (.ok (.ofFound found)) :=
  .inr ⟨_, Findings.sorted_ofList_ne_nil h, rfl⟩

theorem settles_unlessFound {found : List Diagnostic} {next : Except TypeScript.Defect Outcome}
    (h : found = [] → Settles next) : Settles (unlessFound found next) := by
  unfold unlessFound
  split
  · next hnone => exact h (List.isEmpty_iff.mp hnone)
  · next hsome => exact settles_ofFound fun hnil => hsome (List.isEmpty_iff.mpr hnil)

theorem Checked.found_eq_nil {α : Type} {c : Checked α} {phase : Phase}
    {findings : α → List Diagnostic} (h : c.found phase findings = []) :
    ∃ a, c.result = .ok a ∧ findings a = [] := by
  unfold found at h
  split at h
  · cases h
  · next a ha => exact ⟨a, ha, h⟩

/-! ### Phases -/

namespace Reading

/-- A program that was read, after the type check. -/
def typed (r : Reading) (registry : Registry) : Checked (List Diagnostic) :=
  r.program.checkTypes registry r.budget

/-- A program that was read, after both checks. -/
def labelled (r : Reading) (registry : Registry) : Checked PurityReport :=
  (r.typed registry).program.checkPurity registry (r.typed registry).budget

theorem sameBare_typed (r : Reading) (registry : Registry) :
    (r.typed registry).program.SameBare r.program := r.program.sameBare_checkTypes registry r.budget

theorem sameBare_labelled (r : Reading) (registry : Registry) :
    (r.labelled registry).program.SameBare r.program :=
  ((r.typed registry).program.sameBare_checkPurity registry _).trans (r.sameBare_typed registry)

end Reading

/-- All checks have completed a program: every function has a label, every call a target and a
label, and every other expression a type. -/
structure Program.Completed (p : Program) : Prop where
  labelled : ∀ f ∈ p.functions, f.resolved.isSome = true
  annotated : p.Everywhere Expr.Annotated

/-- Whatever the purity check of a program looks up in its graph is there: what is declared from the
start, what is called and what is on a path at the end. -/
structure PurityReport.Complete (report : PurityReport) (p : Program) (registry : Registry) :
    Prop where
  seeded : (Callables.of registry p.withLabels).Seeded
    ((Callables.of registry p.withLabels).nodes p.withLabels)
  callees : ∀ e ∈ report.graph.edges, (report.graph.node? e.callee).isSome = true
  paths : ∀ e ∈ report.graph.edges, e.callee ≠ e.caller →
    ∃ path, report.graph.pathAvoiding? e.callee e.caller = some path ∧
      ∀ name ∈ path, (report.graph.node? name).isSome = true

section

variable {p : Program} {registry : Registry} {budget : Budget}

/-! ### Completed programs -/

theorem annotated_of_resolved {label : String → Option Purity} {e : Expr} (h : e.Resolved)
    (hcalls : ∀ site ∈ e.calls, (label site.callee.text).isSome = true) :
    (e.labelled label).Annotated ∧ (e.labelled label).ConvertsOne := by
  cases e with
  | call callee args note =>
      obtain ⟨purity, hpurity⟩ := Option.isSome_iff_exists.mp (hcalls _ List.mem_cons_self)
      refine ⟨⟨h.1, ?_⟩, fun hconversion => ?_⟩
      · have hpurity : label callee.text = some purity := hpurity
        rw [relabel, hpurity]
        rfl
      · rw [Expr.labelledAll_eq, List.length_map]
        exact h.2 hconversion
  | _ => exact ⟨h, trivial⟩

theorem LabelledFrom.completed {f f' : FunctionDecl} (h : LabelledFrom f.withLabel f')
    (hf : Stmt.EverywhereIn Expr.Resolved f.body) :
    f'.resolved.isSome = true ∧
      Stmt.EverywhereIn (fun e => e.Annotated ∧ e.ConvertsOne) f'.body := by
  obtain ⟨label, rfl, hcalls⟩ := h
  refine ⟨rfl, ?_⟩
  rw [Stmt.everywhereIn_iff] at hf
  simp only [FunctionDecl.withLabel, Stmt.labelledAll_eq, Stmt.everywhereIn_iff,
    List.forall_mem_map]
  intro s hs
  refine Stmt.everywhere_labelled (fun e => annotated_of_resolved) (hf s hs) fun site hsite => ?_
  apply hcalls site
  rw [Stmt.callsAll_eq]
  exact List.mem_flatMap_of_mem hs hsite

/-- A purity check without findings completes a program in which all nodes are resolved. -/
theorem checkPurity_completes {report : PurityReport}
    (h : (p.checkPurity registry budget).result = .ok report) (hfound : report.found = [])
    (hdistinct : (p.functions.map fun f => f.name.text).Nodup) (hp : p.Everywhere Expr.Resolved) :
    ∀ f ∈ (p.checkPurity registry budget).program.functions, f.resolved.isSome = true ∧
      Stmt.EverywhereIn (fun e => e.Annotated ∧ e.ConvertsOne) f.body := by
  have hlabels := Program.checkPurity_labels h hfound hdistinct
  rw [Program.functions_withLabels, List.forall₂_map_left_iff] at hlabels
  have hpairs := ((List.forall₂_and_left _ _).mpr ⟨hp, hlabels⟩).imp fun f f' hff' =>
    And.intro (hff'.2.completed hff'.1) hff'
  exact ((List.forall₂_and_left _ _).mp hpairs.flip).1

/-- A property of nodes that does not depend on the notes holds everywhere in a function if it does
in one that differs only in its notes. -/
theorem everywhere_of_bare_eq {P : Expr → Prop} (hP : ∀ e, P e.bare ↔ P e) {d d' : Decl}
    (h : d'.bare = d.bare) (hd : ∀ f ∈ d.function?, Stmt.EverywhereIn P f.body) :
    ∀ f ∈ d'.function?, Stmt.EverywhereIn P f.body := by
  rintro f' hf'
  cases d' with
  | type t => cases hf'
  | record r => cases hf'
  | function g' =>
      obtain rfl : g' = f' := Option.some.inj hf'
      cases d with
      | type t => cases h
      | record r => cases h
      | function f =>
          have hbody : g'.body.map Stmt.bare = f.body.map Stmt.bare := by
            have := congrArg FunctionDecl.body (Decl.function.inj h)
            rwa [FunctionDecl.bare, FunctionDecl.bare, Stmt.bareAll_eq, Stmt.bareAll_eq] at this
          have hall := hd f rfl
          rw [Stmt.everywhereIn_iff] at hall ⊢
          have hbare : ∀ s ∈ g'.body.map Stmt.bare, s.Everywhere P := by
            rw [hbody, List.forall_mem_map]
            exact fun s hs => (Stmt.everywhere_bare hP s).mpr (hall s hs)
          rw [List.forall_mem_map] at hbare
          exact fun s hs => (Stmt.everywhere_bare hP s).mp (hbare s hs)

theorem finite_bare (e : Expr) : e.bare.Finite ↔ e.Finite := by
  cases e with
  | literal value note =>
      cases value with
      | number n => cases n <;> rfl
      | _ => rfl
  | _ => rfl

end

section

variable {r : Reading} {registry : Registry}

/-- Where all declarations are well read and both checks find nothing, the program is complete and
can be lowered. -/
theorem lowerable_of_clean (hread : ∀ d ∈ r.program.declarations, d.WellRead True)
    (htyped : (r.typed registry).result = .ok []) {report : PurityReport}
    (hlabelled : (r.labelled registry).result = .ok report) (hfound : report.found = []) :
    (r.labelled registry).program.Completed ∧
      ∀ d ∈ (r.labelled registry).program.declarations,
        TypeScript.LowerableDecl (Declared.of registry r.program).env.type? d := by
  have hsame := r.sameBare_typed registry
  have hbare := r.sameBare_labelled registry
  have hreadable := Program.readable_eq fun d hd => (hread d hd).readable trivial
  obtain ⟨hreflects, -, -⟩ := Program.checkTypes_accepts htyped
  have hdistinct : ((r.typed registry).program.functions.map fun f => f.name.text).Nodup := by
    have hnames := hreflects.nodup_functionNames
    rwa [hreadable, ← hsame.functionNames] at hnames
  have hcompletes := checkPurity_completes hlabelled hfound hdistinct
    (Program.checkTypes_resolved htyped)
  refine ⟨⟨fun f hf => (hcompletes f hf).1, fun f hf => ?_⟩, fun d hd => ?_⟩
  · have := (hcompletes f hf).2
    rw [Stmt.everywhereIn_iff] at this ⊢
    exact fun s hs => (this s hs).mono fun _ he => he.1
  · obtain ⟨d₀, hd₀, heq⟩ : ∃ d₀ ∈ r.program.declarations, d₀.bare = d.bare :=
      List.mem_map.mp (hbare ▸ List.mem_map_of_mem hd)
    -- the checks write notes only, so numbers are still those that were read
    have hfinite := everywhere_of_bare_eq finite_bare heq.symm fun f hf =>
      Stmt.everywhereIn_iff.mpr fun s hs => ((hread d₀ hd₀).fresh f hf s hs).mono
        fun _ he => he.finite
    have hfunction : ∀ f ∈ d.function?, f ∈ (r.labelled registry).program.functions :=
      fun f hf => List.mem_filterMap.mpr ⟨d, hd, hf⟩
    refine ⟨?_, fun f hf => (hcompletes f (hfunction f hf)).1, fun f hf => ?_⟩
    · rw [← Decl.denotes_bare, ← heq, Decl.denotes_bare]
      exact hreflects.denotes (hreadable.symm ▸ hd₀)
    · have hnodes := (hcompletes f (hfunction f hf)).2
      have hnumbers := hfinite f hf
      rw [Stmt.everywhereIn_iff] at hnodes hnumbers ⊢
      exact fun s hs => ((hnodes s hs).and (hnumbers s hs)).mono
        fun e he => ⟨he.1.1, he.1.2, he.2⟩

/-- Nothing that the purity check looks up is missing. -/
theorem checkPurity_complete {p : Program} {budget : Budget} {report : PurityReport}
    (h : (p.checkPurity registry budget).result = .ok report) :
    report.Complete p registry := by
  obtain ⟨hgraph, -⟩ := checkPurity_report h
  refine ⟨Callables.seeded_nodes registry p.withLabels, hgraph.wellFormed.callees,
    fun e he hne => ?_⟩
  obtain ⟨path, hpath, hnodes, -⟩ :=
    CallGraph.pathAvoiding?_spec hgraph.wellFormed hne (hgraph.wellFormed.callees e he)
  exact ⟨path, hpath, hnodes⟩

/-- What holds of the phases of a compilation that is read. -/
structure Reading.Sound (r : Reading) (registry : Registry) (target : Target) : Prop where
  /-- What the purity check looks up is there. -/
  complete : ∀ report, (r.labelled registry).result = .ok report →
    report.Complete (r.typed registry).program registry
  /-- Where nothing is found the program is complete and is emitted. -/
  emits : r.found = [] → (r.typed registry).found .types id = [] →
    (r.labelled registry).found .effects PurityReport.found = [] →
      (r.labelled registry).program.Completed ∧
        ∃ text, (r.labelled registry).program.emit registry target = .ok text

theorem read_sound {source : String} {tokens : List Token} (h : Token.scan source = .ok tokens)
    (registry : Registry) (target : Target) (budget : Budget) :
    ∃ r, Program.read tokens budget = some r ∧ r.Sound registry target := by
  obtain ⟨r, hr, hread⟩ := Program.read_scanned h budget
  refine ⟨r, hr, fun report => checkPurity_complete, fun hfound htyped hlabelled => ?_⟩
  obtain ⟨types, htypes, rfl⟩ := Checked.found_eq_nil htyped
  obtain ⟨report, hreport, hnone⟩ := Checked.found_eq_nil hlabelled
  have hread : ∀ d ∈ r.program.declarations, d.WellRead True :=
    fun d hd => ⟨fun _ => (hread d hd).formed hfound, (hread d hd).body⟩
  obtain ⟨hcompleted, hlowerable⟩ := lowerable_of_clean hread htypes hreport hnone
  obtain ⟨m, hm⟩ := TypeScript.lower_ok registry hlowerable
  exact ⟨hcompleted, m.text target, by rw [Program.emit, hm]; rfl⟩

/-- A text that is given by its characters is compiled from them, as `Token.scan_ofList` has it. -/
theorem compile_ofList (cs : List Char) (registry : Registry) (target : Target) (budget : Budget) :
    compile (.ofList cs) registry target budget =
      match Token.scanFrom cs.length none .first cs with
      | .error e => .ok (.ofFound [e.diagnostic])
      | .ok tokens =>
        match Program.read tokens budget with
        | none => .ok (.rejected [])
        | some r => unlessFound r.found (r.program.compile registry target r.budget) := by
  rw [← Token.scan_ofList]
  rfl

/-- Every text has an outcome, which is a module or at least one finding. No syntax failure gets out
of the reading, the tokens of a text can be read, and nothing that the purity check looks up is
missing. Where neither the reading nor a check finds anything, every function has a label, every
call a target and a label, and every other expression a type, and the program is emitted. -/
theorem compile_total (source : String) (registry : Registry) (target : Target) (budget : Budget) :
    Settles (compile source registry target budget) ∧ Parser.Recovers Parser.topLevel ∧
      ∀ tokens, Token.scan source = .ok tokens →
        ∃ r, Program.read tokens budget = some r ∧ r.Sound registry target := by
  refine ⟨?_, Parser.recovers_topLevel, fun tokens h => read_sound h registry target budget⟩
  unfold compile
  cases hscan : Token.scan source with
  | error e => exact settles_ofFound (List.cons_ne_nil _ _)
  | ok tokens =>
      obtain ⟨r, hr, hsound⟩ := read_sound hscan registry target budget
      simp only [hr]
      refine settles_unlessFound fun hfound => settles_unlessFound fun htyped =>
        settles_unlessFound fun hlabelled => ?_
      obtain ⟨-, text, htext⟩ := hsound.emits hfound htyped hlabelled
      exact .inl ⟨text, by rw [← Reading.typed, ← Reading.labelled, htext]; rfl⟩

end

end Prosaic
