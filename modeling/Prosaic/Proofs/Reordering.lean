import Prosaic.Proofs.Compilation
import Prosaic.Proofs.Emission
import Prosaic.Proofs.Purity.Meaning
import Prosaic.Proofs.TypeScript.Reordering
import Prosaic.Proofs.Typing.Reordering

/-!
The order of declarations. What is declared is known before any body is looked at, so two programs
with the same declarations in different orders are checked and emitted alike. The purity check looks
at the first function of a name only, which is one choice of several where the names of functions
could not be read. Where names are distinct there is no such choice, so names mean the same in every
order, and whether something is found follows from what they mean.
-/

namespace Prosaic

/-! ### Purity -/

section

variable {p : Program} {registry : Registry} {budget : Budget} {report : PurityReport}

/-- A check that ends in time finds nothing exactly if all calls of the first functions of their
names mean something, and those of pure ones do not lead to an effect. -/
theorem checkPurity_eq_nil_iff (h : (p.checkPurity registry budget).result = .ok report) :
    report.found = [] ↔ ∀ f, p.function? f.name.text = some f →
      (∀ site ∈ Stmt.callsAll f.body, (p.meaning? registry site.callee.text).isSome = true) ∧
        (f.purity = .pure → ¬∃ effect, p.HasEffect registry effect ∧
          Relation.ReflTransGen (p.CallsTo registry) f.name.text effect) := by
  obtain ⟨hgraph, -⟩ := checkPurity_report h
  simp only [Program.checkPurity, Program.callables_withLabels] at h
  split at h
  · cases h
  · next htime =>
      obtain rfl := Except.ok.inj h
      obtain ⟨-, -, -, -, hunresolved⟩ := buildGraph_spec (seeded_withLabels p registry) htime
      rw [← Program.functions_eq, firstFunctions_withLabels, List.forall_mem_map] at hunresolved
      rw [List.append_eq_nil_iff, hunresolved, violations_withLabels _ _ [],
        List.flatMap_eq_nil_iff, ← forall₂_and]
      refine forall_congr' fun f => ?_
      rw [mem_firstFunctions_nil]
      refine imp_congr_right fun hf => and_congr ?_ ?_
      · simp only [Program.isSome_meaning?]
        rfl
      · by_cases hpure : f.purity = .pure
        · rw [← violationsOf_ne_nil hgraph hf hpure, not_not, imp_iff_right hpure]
          rfl
        · rw [PurityReport.violationsOf, if_neg hpure]
          simp [hpure]

/-- A declaration after a check that finds nothing. -/
def Decl.callsLabelled (p : Program) (registry : Registry) : Decl → Decl
  | .function f => .function (f.withLabel.callsLabelled p registry)
  | d => d

/-- Where names are distinct, a check that finds nothing labels every declaration. -/
theorem checkPurity_declarations (h : (p.checkPurity registry budget).result = .ok report)
    (hfound : report.found = []) (hdistinct : (p.functions.map fun f => f.name.text).Nodup) :
    (p.checkPurity registry budget).program.declarations =
      p.declarations.map (Decl.callsLabelled p registry) := by
  have hresolves := checkPurity_resolves h fun f hf site hsite =>
    ((checkPurity_eq_nil_iff h).mp hfound f (Program.function?_eq_some hdistinct hf)).1 site hsite
  have hsame := p.sameBare_checkPurity registry budget
  generalize (p.checkPurity registry budget).program = q at hresolves hsame ⊢
  have hdistinct' : (q.functions.map fun f => f.name.text).Nodup := by
    rwa [hsame.functionNames]
  have hmembers := (List.forall₂_and_left _ _).mpr
    ⟨fun d hd => hd,
      ((List.forall₂_and_left _ _).mpr ⟨fun d hd => hd, forall₂_of_map_eq hsame⟩).flip⟩
  refine (List.map_id _).symm.trans (map_eq_of_forall₂ (hmembers.flip.imp ?_))
  rintro d' d ⟨hd, hd', hbare⟩
  cases d with
  | function f =>
      cases d' with
      | function g =>
          have hname : g.name.text = f.name.text :=
            congrArg (fun f => f.name.text) (Decl.function.inj hbare)
          have hg := Program.function?_eq_some hdistinct' (Program.mem_functions.mpr hd')
          rw [hname, hresolves.firsts,
            Program.function?_eq_some hdistinct (Program.mem_functions.mpr hd)] at hg
          exact congrArg Decl.function (Option.some.inj hg).symm
      | type t | record r => cases hbare
  | type t =>
      cases d' with
      | type t' => exact hbare
      | function f | record r => cases hbare
  | record r =>
      cases d' with
      | record r' => exact hbare
      | function f | type t => cases hbare

end

/-! ### Another order -/

section

variable {p q : Program} {registry : Registry} (hperm : p.declarations.Perm q.declarations)
  (hdistinct : (p.functions.map fun f => f.name.text).Nodup)

include hperm hdistinct

theorem function?_perm (name : String) : p.function? name = q.function? name := by
  have hfunctions := Program.functions_perm hperm
  have hdistinct' : (q.functions.map fun f => f.name.text).Nodup :=
    ((hfunctions.map _).nodup_iff).mp hdistinct
  refine Option.ext fun f => ⟨fun h => ?_, fun h => ?_⟩
  · obtain rfl := name_of_function? h
    exact Program.function?_eq_some hdistinct' (hfunctions.mem_iff.mp (mem_of_function? h))
  · obtain rfl := name_of_function? h
    exact Program.function?_eq_some hdistinct (hfunctions.mem_iff.mpr (mem_of_function? h))

theorem meaning?_perm : p.meaning? registry = q.meaning? registry := by
  funext name
  have hconversions : (Callables.of registry p).conversions.contains name =
      (Callables.of registry q).conversions.contains name := by
    have htypes := ((Program.types_perm hperm).map TypeDecl.name).mem_iff (a := name)
    rw [Bool.eq_iff_iff, List.contains_iff_mem, List.contains_iff_mem]
    simp only [Callables.of, List.mem_append, htypes]
  simp only [Program.meaning?, function?_perm hperm hdistinct, hconversions]

theorem callsTo_perm : p.CallsTo registry = q.CallsTo registry := by
  funext a b
  simp only [Program.CallsTo, function?_perm hperm hdistinct, ← Program.isSome_meaning?,
    meaning?_perm hperm hdistinct]

theorem callsLabelled_perm : Decl.callsLabelled p registry = Decl.callsLabelled q registry := by
  have hlabel : p.label registry = q.label registry := by
    funext name
    simp only [Program.label, meaning?_perm hperm hdistinct]
  funext d
  cases d with
  | function f => simp only [Decl.callsLabelled, FunctionDecl.callsLabelled, hlabel]
  | type t | record r => rfl

/-- A purity check that ends in time finds nothing where one of the same declarations in another
order finds nothing, and both write the same into each of them. -/
theorem Program.checkPurity_perm {budget budget' : Budget} {report report' : PurityReport}
    (hp : (p.checkPurity registry budget).result = .ok report)
    (hq : (q.checkPurity registry budget').result = .ok report') :
    (report.found = [] ↔ report'.found = []) ∧
      (report.found = [] → ∃ write : Decl → Decl,
        (p.checkPurity registry budget).program.declarations = p.declarations.map write ∧
          (q.checkPurity registry budget').program.declarations = q.declarations.map write) := by
  have hiff : report.found = [] ↔ report'.found = [] := by
    rw [checkPurity_eq_nil_iff hp, checkPurity_eq_nil_iff hq, callsTo_perm hperm hdistinct,
      meaning?_perm hperm hdistinct]
    simp only [Program.HasEffect, function?_perm hperm hdistinct]
  refine ⟨hiff, fun hfound => ⟨Decl.callsLabelled p registry, ?_, ?_⟩⟩
  · exact checkPurity_declarations hp hfound hdistinct
  · rw [callsLabelled_perm hperm hdistinct]
    exact checkPurity_declarations hq (hiff.mp hfound)
      ((((Program.functions_perm hperm).map _).nodup_iff).mp hdistinct)

end

/-! ### All phases -/

/-- Two modules have the same lines above their declarations, and the same block of lines for each
declaration, wherever it stands. -/
structure TypeScript.Module.Rearranges (m m' : Module) (ds ds' : List Decl) : Prop where
  preamble : ∀ target, m.preamble target = m'.preamble target
  complete : m.items.length = ds.length
  complete' : m'.items.length = ds'.length
  blocks : (ds.zip (m.items.map Item.lines)).Perm (ds'.zip (m'.items.map Item.lines))

section

variable {r r' : Reading} {registry : Registry}
  (hperm : r.program.declarations.Perm r'.program.declarations)

include hperm

/-- Two type checks of the same declarations that end in time find something in both orders or in
neither. -/
theorem typed_eq_nil_iff {found found' : List Diagnostic}
    (h : (r.typed registry).result = .ok found) (h' : (r'.typed registry).result = .ok found') :
    found = [] ↔ found' = [] := by
  constructor
  · rintro rfl
    exact (Program.checkTypes_perm hperm h h').1
  · rintro rfl
    exact (Program.checkTypes_perm hperm.symm h' h).1

variable (htyped : (r.typed registry).result = .ok [])
  (htyped' : (r'.typed registry).result = .ok [])
  (hdistinct : (r.program.functions.map fun f => f.name.text).Nodup)
  {report report' : PurityReport} (hreport : (r.labelled registry).result = .ok report)
  (hreport' : (r'.labelled registry).result = .ok report')

include htyped htyped' hdistinct hreport hreport'

/-- The purity checks find something in both orders or in neither; in the latter case the checks
have written the same into each declaration. -/
theorem labelled_eq_nil_iff : (report.found = [] ↔ report'.found = []) ∧
    (report.found = [] →
      (r.program.declarations.zip (r.labelled registry).program.declarations).Perm
        (r'.program.declarations.zip (r'.labelled registry).program.declarations)) := by
  have hwritten : (r.program.declarations.zip (r.typed registry).program.declarations).Perm
      (r'.program.declarations.zip (r'.typed registry).program.declarations) :=
    (Program.checkTypes_perm hperm htyped htyped').2
  have hsame := r.sameBare_typed registry
  have hsame' := r'.sameBare_typed registry
  have htypedPerm : (r.typed registry).program.declarations.Perm
      (r'.typed registry).program.declarations := by
    have hsnd := hwritten.map Prod.snd
    rwa [List.map_snd_zip hsame.length_eq.le, List.map_snd_zip hsame'.length_eq.le] at hsnd
  rw [← hsame.functionNames] at hdistinct
  obtain ⟨hiff, hwrites⟩ := Program.checkPurity_perm htypedPerm hdistinct hreport hreport'
  refine ⟨hiff, fun hfound => ?_⟩
  obtain ⟨write, hwrite, hwrite'⟩ := hwrites hfound
  rw [Reading.labelled, Reading.labelled, hwrite, hwrite', List.zip_map_right, List.zip_map_right]
  exact hwritten.map _

/-- A program that is emitted in one order is emitted in the other, and rearranged. -/
theorem lower_rearranges (hfound : report.found = []) {m : TypeScript.Module}
    (hm : TypeScript.lower (r.labelled registry).program registry = .ok m) :
    ∃ m', TypeScript.lower (r'.labelled registry).program registry = .ok m' ∧
      m.Rearranges m' r.program.declarations r'.program.declarations := by
  have hwritten := (labelled_eq_nil_iff hperm htyped htyped' hdistinct hreport hreport').2 hfound
  have hlength := (r.sameBare_labelled registry).length_eq
  have hlength' := (r'.sameBare_labelled registry).length_eq
  obtain ⟨m', hm', hpreamble, hzip⟩ := TypeScript.lower_perm hwritten
    (List.map_snd_zip hlength.le) (List.map_snd_zip hlength'.le) hm
  rw [List.map_fst_zip hlength.ge, List.map_fst_zip hlength'.ge] at hzip
  refine ⟨m', hm', hpreamble, (TypeScript.length_lower hm).trans hlength,
    (TypeScript.length_lower hm').trans hlength', ?_⟩
  rw [List.zip_map_right, List.zip_map_right]
  exact hzip.map _

omit htyped htyped' hdistinct hreport hreport' in
/-- The order of declarations does not matter. Of two programs with the same declarations, whose
checks end in time, the type check finds something in both or in neither. If it finds nothing and no
two functions have the same name, which only functions whose names could not be read can have, the
purity check finds something in both or in neither. If that finds nothing either, both are emitted
with the same preamble and the same block of text for each declaration, or neither can be; a program
that is well read can be. -/
theorem order_irrelevant {found found' : List Diagnostic}
    (htypes : (r.typed registry).result = .ok found)
    (htypes' : (r'.typed registry).result = .ok found') :
    (found = [] ↔ found' = []) ∧
      (found = [] → (r.program.functions.map fun f => f.name.text).Nodup →
        ∀ report report', (r.labelled registry).result = .ok report →
          (r'.labelled registry).result = .ok report' →
            (report.found = [] ↔ report'.found = []) ∧
              (report.found = [] →
                let module := TypeScript.lower (r.labelled registry).program registry
                let module' := TypeScript.lower (r'.labelled registry).program registry
                ((∃ m m', module = .ok m ∧ module' = .ok m' ∧
                    m.Rearranges m' r.program.declarations r'.program.declarations) ∨
                  (∃ e e', module = .error e ∧ module' = .error e')) ∧
                ((∀ d ∈ r.program.declarations, d.WellRead True) → ∃ m, module = .ok m))) := by
  have hiff := typed_eq_nil_iff hperm htypes htypes'
  refine ⟨hiff, ?_⟩
  rintro rfl hdistinct report report' hreport hreport'
  obtain rfl := hiff.mp rfl
  have hdistinct' : (r'.program.functions.map fun f => f.name.text).Nodup :=
    (((Program.functions_perm hperm).map _).nodup_iff).mp hdistinct
  have hlabelled := labelled_eq_nil_iff hperm htypes htypes' hdistinct hreport hreport'
  refine ⟨hlabelled.1, fun hfound => ⟨?_, fun hread => ?_⟩⟩
  · cases hm : TypeScript.lower (r.labelled registry).program registry with
    | ok m =>
        obtain ⟨m', hm', hsame⟩ :=
          lower_rearranges hperm htypes htypes' hdistinct hreport hreport' hfound hm
        exact .inl ⟨m, m', rfl, hm', hsame⟩
    | error e =>
        cases hm' : TypeScript.lower (r'.labelled registry).program registry with
        | error e' => exact .inr ⟨e, e', rfl, rfl⟩
        | ok m' =>
            obtain ⟨m, hok, -⟩ := lower_rearranges hperm.symm htypes' htypes hdistinct' hreport'
              hreport (hlabelled.1.mp hfound) hm'
            rw [hm] at hok
            cases hok
  · exact TypeScript.lower_ok registry (lowerable_of_clean hread htypes hreport hfound).2

end

/-! ### Texts -/

/-- A program that was read, with its declarations in the opposite order. -/
def Reading.reversed (r : Reading) : Reading :=
  { r with program := { r.program with declarations := r.program.declarations.reverse } }

theorem Reading.perm_reversed (r : Reading) :
    r.program.declarations.Perm r.reversed.program.declarations :=
  (List.reverse_perm _).symm

/-- A registry with one operation. -/
def logging : Registry := ⟨[], [], [], [("log", ⟨[], none⟩)], []⟩

/-- Declarations of which each refers to a later one or to the operation. -/
def forwardReferences : String :=
  "Define effectful function greet taking who as Nick: Call log. Call greet with who. " ++
    "End function. Define record User: nick as Nick. End record. Define type Nick as Label. " ++
      "Define type Label as String."

theorem order_irrelevant_forwardReferences :
    ∃ r : Reading, ∃ report report' m m',
      (r.typed logging).result = .ok [] ∧ (r.reversed.typed logging).result = .ok [] ∧
        (r.labelled logging).result = .ok report ∧
          (r.reversed.labelled logging).result = .ok report' ∧
          report.found = [] ∧ report'.found = [] ∧
            TypeScript.lower (r.labelled logging).program logging = .ok m ∧
              TypeScript.lower (r.reversed.labelled logging).program logging = .ok m' ∧
                m.Rearranges m' r.program.declarations r.reversed.program.declarations := by
  have hrun : ((Token.scan forwardReferences).toOption.any fun tokens =>
      (Program.read tokens (.start .standard .still)).any fun r =>
        r.found.isEmpty && ((r.typed logging).found .types id).isEmpty &&
          ((r.reversed.typed logging).found .types id).isEmpty &&
            decide (r.program.functions.map fun f => f.name.text).Nodup &&
              ((r.labelled logging).found .effects PurityReport.found).isEmpty &&
                ((r.reversed.labelled logging).found .effects PurityReport.found).isEmpty) =
                  true := by
    have hsource : forwardReferences = .ofList _ :=
      Token.append_eq_ofList (Token.append_eq_ofList rfl rfl) rfl
    rw [hsource, Token.scan_ofList]
    decide +kernel
  obtain ⟨tokens, hscan, hrun⟩ := any_toOption.mp hrun
  obtain ⟨r, hr, hrun⟩ := (Option.any_eq_true _ _).mp hrun
  simp only [Bool.and_eq_true, List.isEmpty_iff, decide_eq_true_eq] at hrun
  obtain ⟨⟨⟨⟨⟨hfound, htyped⟩, htyped'⟩, hdistinct⟩, hlabelled⟩, hlabelled'⟩ := hrun
  obtain ⟨types, htypes, rfl⟩ := Checked.found_eq_nil htyped
  obtain ⟨types', htypes', rfl⟩ := Checked.found_eq_nil htyped'
  obtain ⟨report, hreport, hnone⟩ := Checked.found_eq_nil hlabelled
  obtain ⟨report', hreport', hnone'⟩ := Checked.found_eq_nil hlabelled'
  have hread : ∀ d ∈ r.program.declarations, d.WellRead True := by
    obtain ⟨r', hr', hread⟩ := Program.read_scanned hscan (.start .standard .still)
    obtain rfl := Option.some.inj (hr.symm.trans hr')
    exact fun d hd => ⟨fun _ => (hread d hd).formed hfound, (hread d hd).body⟩
  obtain ⟨-, hchecks⟩ := order_irrelevant r.perm_reversed htypes htypes'
  obtain ⟨-, hemitted⟩ := hchecks rfl hdistinct report report' hreport hreport'
  obtain ⟨hboth, hlowered⟩ := hemitted hnone
  obtain ⟨m, hm⟩ := hlowered hread
  rcases hboth with ⟨m₁, m', hm₁, hm', hsame⟩ | ⟨e, e', he, -⟩
  · exact ⟨r, report, report', m₁, m', htypes, htypes', hreport, hreport', hnone, hnone',
      hm₁, hm', hsame⟩
  · rw [hm] at he
    cases he

/-- Two functions whose names cannot be read; the second has an effect that it is not declared
with. -/
def unreadableNames : String :=
  "Define function 1: End function. Define function 2: Call log. End function."

/-- Only the first function of a name is looked at, so the effect is found only if its function
comes first. -/
theorem order_relevant_unreadableNames :
    ∃ tokens r report report', Token.scan unreadableNames = .ok tokens ∧
      Program.read tokens (.start .standard .still) = some r ∧
        r.program.declarations.Perm r.reversed.program.declarations ∧
          (r.typed logging).result = .ok [] ∧ (r.reversed.typed logging).result = .ok [] ∧
            (r.labelled logging).result = .ok report ∧
              (r.reversed.labelled logging).result = .ok report' ∧
                report.found = [] ∧ report'.found ≠ [] := by
  have hrun : ((Token.scan unreadableNames).toOption.any fun tokens =>
      (Program.read tokens (.start .standard .still)).any fun r =>
        ((r.typed logging).found .types id).isEmpty &&
          ((r.reversed.typed logging).found .types id).isEmpty &&
            (r.labelled logging).result.toOption.any (fun report => report.found.isEmpty) &&
              (r.reversed.labelled logging).result.toOption.any
                fun report => !report.found.isEmpty) = true := by
    decide +kernel
  obtain ⟨tokens, hscan, hrun⟩ := any_toOption.mp hrun
  obtain ⟨r, hr, hrun⟩ := (Option.any_eq_true _ _).mp hrun
  simp only [Bool.and_eq_true, List.isEmpty_iff] at hrun
  obtain ⟨⟨⟨htyped, htyped'⟩, hlabelled⟩, hlabelled'⟩ := hrun
  obtain ⟨types, htypes, rfl⟩ := Checked.found_eq_nil htyped
  obtain ⟨types', htypes', rfl⟩ := Checked.found_eq_nil htyped'
  obtain ⟨report, hreport, hnone⟩ := any_toOption.mp hlabelled
  obtain ⟨report', hreport', hsome⟩ := any_toOption.mp hlabelled'
  exact ⟨tokens, r, report, report', hscan, hr, r.perm_reversed, htypes, htypes', hreport, hreport',
    by simpa using hnone, by simpa using hsome⟩

end Prosaic
