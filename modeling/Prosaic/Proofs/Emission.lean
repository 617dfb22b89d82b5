import Prosaic.Proofs.Compilation
import Prosaic.Proofs.TypeScript.Resolution

/-!
Names across a compilation. An emitted module resolves like the program that it is emitted for
exactly if no rivals meet in the program.
-/

namespace Prosaic

open TypeScript (Reference)

/-! ### Names of checked programs -/

namespace TypeEnv

variable {env : TypeEnv}

theorem scoped_of_acceptsFunction {named : String → Option Ty} {f : FunctionDecl} {s : Signature}
    (hs : SignatureDenoted named f s) (h : env.AcceptsFunction f s) : f.Scoped env.Calls := by
  have hlength : f.parameters.length ≤ (s.parameters.map Prod.snd).length := by
    rw [List.length_map]
    exact Nat.le_of_eq hs.parameters.length_eq
  have hnames : (parameterFrame f s).map Binding.name = f.parameters.map Typed.name := by
    rw [parameterFrame, List.map_map]
    conv => rhs; rw [← List.map_fst_zip hlength, List.map_map]
    rfl
  have hcovers : Covers [parameterFrame f s] [[], f.parameters.map Typed.name] := by
    refine ⟨fun x b hb => ?_, by simp⟩
    obtain ⟨frame, hframe, hfind⟩ := List.exists_of_findSome?_eq_some hb
    obtain rfl := List.mem_singleton.mp hframe
    have hname : b.name = x := by simpa using List.find?_some hfind
    refine ⟨_, List.mem_cons_of_mem [] List.mem_cons_self, ?_⟩
    rw [← hnames, ← hname]
    exact List.mem_map_of_mem (List.mem_of_find?_eq_some hfind)
  refine ⟨hnames ▸ h.distinct, fun x hx r hr => ?_, ?_⟩
  · rw [← hnames] at hx
    obtain ⟨b, hb, rfl⟩ := List.mem_map.mp hx
    obtain ⟨hfunction, hcallable⟩ := h.free b hb
    exact ne_of_calls hfunction hcallable hr
  · exact ⟨scoped_of_acceptsBlock_of (fun _ _ => scoped_of_acceptsStmt) hcovers h.body, trivial⟩

/-- What the environment of a check takes for callable is what can be called in the program. -/
theorem Reflects.calls_eq {registry : Registry} {p : Program} (h : env.Reflects registry p) :
    env.Calls = p.readable.Calls registry := by
  funext r
  unfold Calls Program.Calls
  rw [h.outside]
  split
  · rfl
  · refine propext ⟨fun hsome => ?_, fun hmem => ?_⟩
    · obtain ⟨d, hd⟩ := Option.isSome_iff_exists.mp hsome
      obtain ⟨f, hf, hname, -⟩ := exists_of_lookup h.functions (fun _ _ he => he.1) hd
      exact List.mem_map.mpr ⟨f, hf, hname⟩
    · by_contra hnone
      rw [Option.not_isSome_iff_eq_none] at hnone
      exact not_mem_of_lookup h.functions (fun _ _ he => he.1) hnone hmem

end TypeEnv

theorem Registry.callable?_eq_none {r : Registry} {name : String} (h : name ∉ r.declaredNames) :
    r.callable? name = none := by
  by_contra hcallable
  rw [← ne_eq, ← Option.isSome_iff_ne_none, isSome_callable?] at hcallable
  rcases hcallable with hoperation | hhelper
  · exact h (List.mem_append_left _ (List.mem_append_right _ hoperation))
  · exact h (List.mem_append_right _ hhelper)

section

variable {r : Reading} {registry : Registry}

/-- Where all declarations are well read and both checks find nothing, the names of the program are
as they should be. -/
theorem scoped_of_clean (hread : ∀ d ∈ r.program.declarations, d.WellRead True)
    (htyped : (r.typed registry).result = .ok []) {report : PurityReport}
    (hlabelled : (r.labelled registry).result = .ok report) (hfound : report.found = []) :
    (r.labelled registry).program.Scoped registry := by
  have hsame := r.sameBare_typed registry
  have hbare := r.sameBare_labelled registry
  have hreadable := Program.readable_eq fun d hd => (hread d hd).readable trivial
  obtain ⟨hreflects, hsignatures, haccepts⟩ := Program.checkTypes_accepts htyped
  have hnames : (r.program.functions.map fun f => f.name.text).Nodup := by
    have hdistinct := hreflects.nodup_functionNames
    rwa [hreadable] at hdistinct
  have hcalls : (Declared.of registry r.program).env.Calls =
      (r.labelled registry).program.Calls registry := by
    funext reference
    rw [hreflects.calls_eq, hreadable, Program.Calls, Program.Calls, hbare.functionNames]
  have htypedScoped : ∀ f ∈ (r.typed registry).program.functions,
      f.Scoped ((r.labelled registry).program.Calls registry) := by
    have hboth := List.Forall₂.mp (fun f s hs ha => And.intro
      (TypeEnv.scoped_of_acceptsFunction hs ha) ha) (hsame.signatures hsignatures) haccepts
    rw [← hcalls]
    exact ((List.forall₂_and_left _ _).mp hboth).1
  -- the names are those of the typed program, as labels do not matter to them
  have hlabels := Program.checkPurity_labels hlabelled hfound (hsame.functionNames ▸ hnames)
  rw [Program.functions_withLabels, List.forall₂_map_left_iff] at hlabels
  refine ⟨hbare.functionNames ▸ hnames, fun f hf => ?_, fun f hf => ?_⟩
  · have hmem : f.name.text ∈ r.program.functions.map fun f => f.name.text :=
      hbare.functionNames ▸ List.mem_map.mpr ⟨f, hf, rfl⟩
    obtain ⟨g, hg, hname⟩ := List.mem_map.mp hmem
    have hdeclared := Program.mem_functions.mp hg
    rw [← hreadable] at hdeclared
    rw [← hname]
    exact Registry.callable?_eq_none (hreflects.free _ hdeclared).2
  · obtain ⟨g, hg, hlabel⟩ := exists_of_mem_left hlabels.flip f hf
    obtain ⟨hnames, hparameters, -⟩ := LabelledFrom.names_eq hlabel
    obtain ⟨hdistinct, hfree, hscoped⟩ := htypedScoped g hg
    exact ⟨hparameters ▸ hdistinct, hparameters ▸ hfree, hnames ▸ hparameters ▸ hscoped⟩

end

/-! ### Emitted modules -/

/-- A text is read and checked without findings, which completes a program, and the program is
lowered to a module. -/
def LowersTo (source : String) (registry : Registry) (budget : Budget) (p : Program)
    (m : TypeScript.Module) : Prop :=
  ∃ tokens r, Token.scan source = .ok tokens ∧ Program.read tokens budget = some r ∧
    r.found = [] ∧ (r.typed registry).found .types id = [] ∧
    (r.labelled registry).found .effects PurityReport.found = [] ∧
    p = (r.labelled registry).program ∧ TypeScript.lower p registry = .ok m

theorem unlessFound_eq_emitted {found : List Diagnostic} {next : Except TypeScript.Defect Outcome}
    {text : String} :
    unlessFound found next = .ok (.emitted text) ↔ found = [] ∧ next = .ok (.emitted text) := by
  unfold unlessFound
  split
  · next hnone => simp [List.isEmpty_iff.mp hnone]
  · next hsome =>
      have hfound : found ≠ [] := fun hnil => hsome (List.isEmpty_iff.mpr hnil)
      simp [hfound, Outcome.ofFound]

theorem emit_eq_ok {p : Program} {registry : Registry} {target : Target} {text : String} :
    p.emit registry target = .ok text ↔
      ∃ m, TypeScript.lower p registry = .ok m ∧ m.text target = text := by
  rw [Program.emit, bind_eq_ok]
  exact exists_congr fun m => and_congr_right fun _ => pure_eq_ok

section

variable {source : String} {registry : Registry} {target : Target} {budget : Budget}
  {text : String}

/-- What is emitted for a text is the module that it lowers to. -/
theorem compile_eq_emitted : compile source registry target budget = .ok (.emitted text) ↔
    ∃ p m, LowersTo source registry budget p m ∧ m.text target = text := by
  unfold compile
  cases hscan : Token.scan source with
  | error e => simp [LowersTo, hscan, Outcome.ofFound]
  | ok tokens =>
      obtain ⟨r, hr, -⟩ := Program.read_scanned hscan budget
      simp only [hr, Program.compile, unlessFound_eq_emitted, bind_eq_ok]
      constructor
      · rintro ⟨hfound, htyped, hlabelled, text', hemit, htext⟩
        obtain rfl := Outcome.emitted.inj (pure_eq_ok.mp htext)
        obtain ⟨m, hm, htext⟩ := emit_eq_ok.mp hemit
        exact ⟨_, m, ⟨tokens, r, hscan, hr, hfound, htyped, hlabelled, rfl, hm⟩, htext⟩
      · rintro ⟨p, m, ⟨tokens', r', hscan', hr', hfound, htyped, hlabelled, rfl, hm⟩, htext⟩
        obtain rfl := Except.ok.inj (hscan.symm.trans hscan')
        obtain rfl := Option.some.inj (hr.symm.trans hr')
        exact ⟨hfound, htyped, hlabelled, text, emit_eq_ok.mpr ⟨m, hm, htext⟩, rfl⟩

/-- The names of a program that is lowered are as they should be. -/
theorem LowersTo.scoped {p : Program} {m : TypeScript.Module}
    (h : LowersTo source registry budget p m) : p.Scoped registry := by
  obtain ⟨tokens, r, hscan, hr, hfound, htyped, hlabelled, rfl, -⟩ := h
  obtain ⟨r', hr', hread⟩ := Program.read_scanned hscan budget
  obtain rfl := Option.some.inj (hr.symm.trans hr')
  obtain ⟨types, htypes, rfl⟩ := Checked.found_eq_nil htyped
  obtain ⟨report, hreport, hnone⟩ := Checked.found_eq_nil hlabelled
  exact scoped_of_clean (fun d hd => ⟨fun _ => (hread d hd).formed hfound, (hread d hd).body⟩)
    htypes hreport hnone

theorem LowersTo.lower_eq {p : Program} {m : TypeScript.Module}
    (h : LowersTo source registry budget p m) : TypeScript.lower p registry = .ok m := by
  obtain ⟨tokens, r, -, -, -, -, -, -, hlower⟩ := h
  exact hlower

/-- A module resolves like its program if no two names of the program are rivals. -/
theorem LowersTo.resolves_of_no_rivals {p : Program} {m : TypeScript.Module}
    (h : LowersTo source registry budget p m)
    (hnames : ∀ x ∈ p.mentioned, ∀ y ∈ p.mentioned, ¬TypeScript.Rivals x y) : m.Resolves p :=
  (resolves_iff h.scoped h.lower_eq).mpr (Program.clear_of_no_rivals hnames)

/-- Whatever is emitted is a module that resolves like its program exactly if no rivals meet in the
program: every identifier of the module then refers to what the name in its place refers to, and no
identifier is declared twice. -/
theorem emitted_resolves_iff (h : compile source registry target budget = .ok (.emitted text)) :
    ∃ p m, LowersTo source registry budget p m ∧ m.text target = text ∧
      (m.Resolves p ↔ p.Clear) := by
  obtain ⟨p, m, hlowers, htext⟩ := compile_eq_emitted.mp h
  exact ⟨p, m, hlowers, htext, resolves_iff hlowers.scoped hlowers.lower_eq⟩

end

/-- A function with two parameters that are rivals. -/
def rivalParameters : String :=
  "Define function f taking class as Number, class_ as Number returning Number: " ++
    "Return class - class_. End function."

def rivalParametersEmitted : String :=
  "// Generated by sigil. Do not edit by hand.\n\n" ++
    "export function f(class_: number, class_: number): number \x7b\n" ++
    "  return class_ - class_;\n\x7d\n"

theorem lowersTo_rivalParameters :
    ∃ p m, LowersTo rivalParameters .empty (.start .standard .still) p m ∧
      m.text .standard = rivalParametersEmitted ∧ ∃ i ∈ m.items, ¬i.parameters.Nodup := by
  have hrun : ((Token.scan rivalParameters).toOption.any fun tokens =>
      (Program.read tokens (.start .standard .still)).any fun r =>
        r.found.isEmpty && ((r.typed .empty).found .types id).isEmpty &&
          ((r.labelled .empty).found .effects PurityReport.found).isEmpty &&
            (TypeScript.lower (r.labelled .empty).program .empty).toOption.any fun m =>
              m.text .standard = rivalParametersEmitted &&
                m.items.any fun i => ¬i.parameters.Nodup) = true := by
    decide +kernel
  obtain ⟨tokens, hscan, hrun⟩ := any_toOption.mp hrun
  obtain ⟨r, hread, hrun⟩ := (Option.any_eq_true _ _).mp hrun
  simp only [Bool.and_eq_true, List.isEmpty_iff] at hrun
  obtain ⟨⟨⟨hfound, htyped⟩, hlabelled⟩, hrun⟩ := hrun
  obtain ⟨m, hm, hrun⟩ := any_toOption.mp hrun
  simp only [Bool.and_eq_true, List.any_eq_true, decide_eq_true_eq] at hrun
  exact ⟨_, m, ⟨tokens, r, hscan, hread, hfound, htyped, hlabelled, rfl, hm⟩, hrun⟩

theorem emitted_rivalParameters :
    compile rivalParameters .empty .standard (.start .standard .still) =
        .ok (.emitted rivalParametersEmitted) ∧
      ∃ p m, LowersTo rivalParameters .empty (.start .standard .still) p m ∧
        m.text .standard = rivalParametersEmitted ∧ (m.Resolves p ↔ p.Clear) := by
  obtain ⟨p, m, hlowers, htext, -⟩ := lowersTo_rivalParameters
  have hemitted := compile_eq_emitted.mpr ⟨p, m, hlowers, htext⟩
  exact ⟨hemitted, emitted_resolves_iff hemitted⟩

/-- Both parameters get the same identifier. -/
theorem not_resolves_rivalParameters :
    ∃ p m, compile rivalParameters .empty .standard (.start .standard .still) =
        .ok (.emitted (m.text .standard)) ∧
      LowersTo rivalParameters .empty (.start .standard .still) p m ∧ ¬m.Resolves p := by
  obtain ⟨p, m, hlowers, -, i, hi, htwice⟩ := lowersTo_rivalParameters
  refine ⟨p, m, compile_eq_emitted.mpr ⟨p, m, hlowers, rfl⟩, hlowers, fun hresolves => ?_⟩
  obtain ⟨d, -, hdi⟩ := exists_of_mem_left hresolves.2.flip i hi
  exact htwice (TypeScript.Item.Resolves.nodup_parameters hdi)

end Prosaic
