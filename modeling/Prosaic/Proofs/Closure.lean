import Prosaic.Proofs.ReadBack
import Prosaic.Proofs.TypeScript.Fragments
import Prosaic.Proofs.TypeScript.Imports

/-!
Emitted modules are closed. A name that stands for a type in a checked program is a base type, a
type that the program declares, or one of the registry, and what is called is a function of the
program or comes from the registry; so whatever the text of a module names is predefined, exported
or imported.
-/

namespace Prosaic

open TypeScript (Item Module)

/-! ### Names of types in checked programs -/

/-- A conversion is to a name that is known for a type. -/
def Expr.ConvertsTo (named : String → Option Ty) : Expr → Prop
  | .call callee _ note => note.target = some .conversion → (named callee.text).isSome = true
  | _ => True

theorem Expr.convertsTo_labelled {named : String → Option Ty} (label : String → Option Purity)
    (e : Expr) (h : e.ConvertsTo named) : (e.labelled label).ConvertsTo named := by
  cases e <;> exact h

theorem TypeRef.Denotes.base {named : String → Option Ty} {ref : TypeRef} (h : ref.Denotes named) :
    (named ref.base).isSome = true := by
  induction ref with
  | named name span =>
      rw [Denotes, denote?] at h
      split at h
      · cases h
      · exact h
  | list element span ih =>
      rw [Denotes, denote?, Option.isSome_map] at h
      exact ih h

namespace TypeEnv

variable {env : TypeEnv}

theorem convertsTo_of_callFits {callee : Name} {args : List Expr} {note : CallNote}
    {returns : Option Ty} (h : env.CallFits callee.text args note.target returns) :
    (Expr.call callee args note).ConvertsTo env.type? := by
  intro htarget
  rcases callFits_cases h with ⟨b, _, _, hbase, -⟩ | ⟨kind, _, hknown, hkind, -⟩
  · rw [type?, hbase]
    rfl
  · obtain rfl : CallTarget.conversion = kind := Option.some.inj (htarget.symm.trans hkind)
    cases hknown with
    | conversion _ _ _ _ ht _ => rw [ht]; rfl

theorem convertsTo_of_accepts {scope : Scope} {e : Expr} (h : env.Accepts scope e) :
    e.ConvertsTo env.type? := by
  cases e with
  | call callee args note =>
      obtain ⟨t, -, hfits⟩ := h
      exact convertsTo_of_callFits hfits
  | _ => trivial

end TypeEnv

theorem Decl.typeRefs_bare (d : Decl) : d.bare.typeRefs = d.typeRefs := by cases d <;> rfl

theorem Program.SameBare.typeRefs {p q : Program} (h : p.SameBare q) :
    p.declarations.flatMap Decl.typeRefs = q.declarations.flatMap Decl.typeRefs := by
  have := congrArg (List.flatMap Decl.typeRefs) h
  simpa only [List.flatMap_map, Decl.typeRefs_bare] using this

/-! ### Emitted modules -/

section

variable {source : String} {registry : Registry} {target : Target} {budget : Budget} {text : String}
  {p : Program} {m : Module}

/-- Every name that stands for a type in a program that is lowered is known for one. -/
theorem LowersTo.typesNamed (h : LowersTo source registry budget p m) :
    ∀ name ∈ p.typesNamed, (declaredType? registry (p.records.map RecordDecl.name)
      (p.types.map TypeDecl.name) name).isSome = true := by
  have hdistinct := h.scoped.distinct
  obtain ⟨r, report, rfl, hread, htypes, hreport, hnone⟩ := h.exists_reading
  have hsame := r.sameBare_typed registry
  have hbare := r.sameBare_labelled registry
  obtain ⟨hreflects, -, -⟩ := Program.checkTypes_accepts htypes
  have hreadable := Program.readable_eq fun d hd => (hread d hd).readable trivial
  have hnamed := hreflects.types
  rw [hreadable, ← hbare.records, ← hbare.types] at hnamed
  rw [← hnamed, Program.typesNamed, List.forall_mem_flatMap]
  have hrefs : ∀ ref ∈ (r.labelled registry).program.declarations.flatMap Decl.typeRefs,
      ref.Denotes (Declared.of registry r.program).env.type? := by
    rw [hbare.typeRefs, List.forall_mem_flatMap]
    intro d hd
    rw [← hreadable] at hd
    exact Decl.denotes_iff.mp (hreflects.denotes hd)
  rw [List.forall_mem_flatMap] at hrefs
  have hconverts : (r.labelled registry).program.Everywhere
      (Expr.ConvertsTo (Declared.of registry r.program).env.type?) := by
    refine Program.everywhere_checkPurity Expr.convertsTo_labelled
      (Program.checkTypes_everywhere (fun _ _ => TypeEnv.convertsTo_of_accepts)
        (fun _ _ _ _ => TypeEnv.convertsTo_of_callFits) htypes) hreport hnone ?_
    rw [hbare.functionNames, ← hsame.functionNames] at hdistinct
    exact hdistinct
  intro d hd
  rw [Decl.typesNamed, List.forall_mem_append, List.forall_mem_map]
  refine ⟨fun ref href => (hrefs d hd ref href).base, fun name hname => ?_⟩
  obtain ⟨site, hsite, hconversion⟩ := List.mem_filterMap.mp hname
  obtain ⟨f, hf, hsite⟩ := Program.mem_calls.mp (List.mem_flatMap_of_mem hd hsite)
  obtain ⟨args, hsite⟩ := (hconverts f hf).at_call site hsite
  unfold CallSite.conversion? at hconversion
  split at hconversion
  · next htarget => exact Option.some.inj hconversion ▸ hsite htarget
  · cases hconversion

/-- The types that a module exports are the types and records of its program. -/
theorem LowersTo.exportedTypes (h : LowersTo source registry budget p m) :
    ∀ name, name ∈ p.records.map RecordDecl.name ∨ name ∈ p.types.map TypeDecl.name →
      name ∈ m.items.filterMap Item.type? := by
  have hdecl : ∀ d ∈ p.declarations, d.function? = none →
      d.name ∈ m.items.filterMap Item.type? := by
    intro d hd hfunction
    obtain ⟨i, hi, hlower⟩ := exists_of_mem_left (TypeScript.lower_eq_ok.mp h.lower_eq) d hd
    refine List.mem_filterMap.mpr ⟨i, hi, ?_⟩
    cases d with
    | function f => cases hfunction
    | record d =>
        obtain ⟨fields, -, rfl⟩ := TypeScript.lowerDecl_record.mp hlower
        rfl
    | type t =>
        obtain ⟨name, body, span⟩ := t
        cases body with
        | literals values =>
            obtain rfl := TypeScript.lowerDecl_literals.mp hlower
            rfl
        | reference ref =>
            obtain ⟨a, -, rfl⟩ := TypeScript.lowerDecl_reference.mp hlower
            rfl
  rintro name (hname | hname)
  · obtain ⟨d, hd, rfl⟩ := List.mem_map.mp hname
    exact hdecl _ (Program.mem_records.mp hd) rfl
  · obtain ⟨t, ht, rfl⟩ := List.mem_map.mp hname
    exact hdecl _ (Program.mem_types.mp ht) rfl

variable {e : Registry.Entries} (hr : registry.Realizes e)
  (hfree : ∀ name ∈ e.types.keys, isBuiltinTypeName name = false)

include hr hfree

/-- A module exports whatever it names and does not import. -/
theorem LowersTo.closed (h : LowersTo source registry budget p m) : m.Closed := by
  refine Module.closed_of (fun ref href himported => ?_) fun ref href himported => ?_
  · rw [mem_types_lower h.lower_eq, TypeScript.writtenWith, List.mem_flatMap] at href
    obtain ⟨name, hname, href⟩ := href
    rcases (TypeScript.mem_references_typeOfName hr hfree).mp href with
      ⟨_, _, _, _, rfl⟩ | ⟨hnone, rfl⟩
    · cases himported
    · -- what the registry does not have is declared in the program
      have hsome := h.typesNamed name hname
      have hbase : Base.ofText? name = none := by
        cases hb : Base.ofText? name with
        | none => rfl
        | some b => simp [Registry.type?, hb] at hnone
      refine h.exportedTypes name ?_
      simp only [declaredType?, hbase, hnone] at hsome
      split at hsome
      · next hrecord => exact .inl hrecord
      · split at hsome
        · next htype => exact .inr htype
        · cases hsome
  · have hitems := (TypeScript.lower_eq_ok.mp h.lower_eq).imp fun d i => itemOf_lowerDecl
    rw [callees_lower hitems] at href
    have hcalls := h.scoped.callees ref href
    rw [Program.Calls, if_neg (by simp [himported])] at hcalls
    rwa [functions_lower hitems]

end

/-- What a module imports: the operations and helpers that its program calls, and the domain and
record types that stand at the end of what the types named in the program denote, every alias
expanded; each once and in ascending order. -/
structure TypeScript.Module.ImportsExactly (m : Module) (p : Program)
    (types : Keyed Registry.TypeEntry) : Prop where
  values : ∀ n, n ∈ m.valueImports ↔ ∃ site ∈ p.calls, site.callee.text = n ∧
    (site.note.target = some .operation ∨ site.note.target = some .helper)
  types : ∀ n, n ∈ m.typeImports ↔ ∃ name ∈ p.typesNamed, ∃ t, Registry.Denotes types name t ∧
    t.named? = some n
  sortedValues : m.valueImports.Pairwise (· < ·)
  sortedTypes : m.typeImports.Pairwise (· < ·)

/-- Whatever is emitted is the text of a module that is closed, below the lines that import exactly
what the program takes from the registry. -/
theorem emitted_closed {source : String} {doc : Keyed Document} {registry : Registry}
    {target : Target} {budget : Budget} {text : String}
    (hregistry : Registry.ofDocument doc = .ok registry)
    (h : compile source registry target budget = .ok (.emitted text)) :
    ∃ e p m, Registry.readEntries doc = .ok e ∧ LowersTo source registry budget p m ∧
      m.text target = text ∧ m.body = m.fragmentLines.map TypeScript.FragmentLine.line ∧
        m.Closed ∧ m.ImportsExactly p e.types := by
  obtain ⟨p, m, hlowers, htext⟩ := compile_eq_emitted.mp h
  cases hread : Registry.readEntries doc with
  | error problems =>
      rw [Registry.ofDocument, hread] at hregistry
      cases hregistry
  | ok e =>
      obtain ⟨hiff, hrealizes⟩ := Registry.ofDocument_of_read hread
      have hr := hrealizes registry hregistry
      have hfree := (hiff.mp ⟨registry, hregistry⟩).free
      refine ⟨e, p, m, rfl, hlowers, htext, m.map_line.symm, hlowers.closed hr hfree, ?_⟩
      exact {
        values := fun n => mem_valueImports hlowers.lower_eq
        types := fun n => mem_typeImports hr hfree hlowers.lower_eq
        sortedValues := sorted_importedNames _
        sortedTypes := sorted_importedNames _ }

/-- A registry with a domain type, aliases of it and of lists of it, and a helper. -/
def wages : Keyed Document :=
  let synonym (target : String) : Document :=
    .table [("kind", .string "alias"), ("target", .string target)]
  let domain : Document := .table [("kind", .string "domain"), ("underlying", .string "Number")]
  let number : Document := .table [("name", .string "x"), ("type", .string "Number")]
  [("types", .table [("Wages", synonym "List of Cash"), ("Cash", synonym "Money"),
      ("Money", domain)]),
    ("helpers", .table [("half", .table [("parameters", .array [number]),
      ("returns", .string "Number")])])]

/-- A record of the program, a conversion to an alias, and calls of both kinds. -/
def payslip : String :=
  "Define record Payslip: parts as List of Wages. End record. " ++
  "Define function pay taking slip as Payslip, total as Number returning Cash: " ++
    "Return Cash of (half of total). End function. " ++
  "Define function again taking slip as Payslip returning Cash: " ++
    "Return pay of slip, 1. End function."

def payslipEmitted : String :=
  "// Generated by sigil. Do not edit by hand.\n" ++
    "import type \x7b Money \x7d from \"./domain\";\n" ++
    "import \x7b half \x7d from \"./domain\";\n\n" ++
    "export interface Payslip \x7b\n" ++
    "  readonly parts: ReadonlyArray<ReadonlyArray<Money>>;\n\x7d\n\n" ++
    "export function pay(slip: Payslip, total: number): Money \x7b\n" ++
    "  return (half(total) as Money);\n\x7d\n\n" ++
    "export function again(slip: Payslip): Money \x7b\n" ++
    "  return pay(slip, 1);\n\x7d\n"

theorem emitted_closed_payslip : ∃ registry, Registry.ofDocument wages = .ok registry ∧
    compile payslip registry .standard (.start .standard .still) = .ok (.emitted payslipEmitted) ∧
    ∃ e p m, Registry.readEntries wages = .ok e ∧
      LowersTo payslip registry (.start .standard .still) p m ∧ m.text .standard = payslipEmitted ∧
      m.body = m.fragmentLines.map TypeScript.FragmentLine.line ∧ m.Closed ∧
        m.ImportsExactly p e.types := by
  have hrun : ((Registry.ofDocument wages).toOption.any fun registry =>
      (compile payslip registry .standard (.start .standard .still)).toOption.any fun outcome =>
        outcome = .emitted payslipEmitted) = true := by
    have hsource : payslip = .ofList _ := Token.append_eq_ofList (Token.append_eq_ofList
      (Token.append_eq_ofList (Token.append_eq_ofList rfl rfl) rfl) rfl) rfl
    simp only [hsource, compile_ofList]
    decide +kernel
  obtain ⟨registry, hregistry, hrun⟩ := any_toOption.mp hrun
  obtain ⟨outcome, houtcome, hemitted⟩ := any_toOption.mp hrun
  obtain rfl := of_decide_eq_true hemitted
  exact ⟨registry, hregistry, houtcome, emitted_closed hregistry houtcome⟩

end Prosaic
