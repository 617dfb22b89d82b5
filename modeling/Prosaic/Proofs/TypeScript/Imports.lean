import Mathlib.Data.List.Perm.Basic
import Prosaic.Proofs.Registry.Reordering
import Prosaic.Proofs.TypeScript.Calls
import Prosaic.Proofs.TypeScript.Reordering
import Prosaic.Proofs.Typing.Grounded

/-!
What a module refers to. The types in it are those that the references and the conversions of the
program stand for, and the values are the callees of its calls; so what is imported can be read off
the program and the registry.
-/

namespace Prosaic

open TypeScript (Call Command Item Locals Module Reference Term TypeExpr)

/-! ### Names of types in a program -/

/-- The domain or record type at the end of a type. -/
def Ty.named? : Ty → Option String
  | .list element => element.named?
  | .domain name => some name
  | .record name => some name
  | _ => none

/-- The name that a conversion converts to. -/
def CallSite.conversion? (site : CallSite) : Option String :=
  if site.note.target = some .conversion then some site.callee.text else none

namespace Decl

/-- The calls in a declaration. -/
def calls (d : Decl) : List CallSite := d.function?.toList.flatMap fun f => Stmt.callsAll f.body

/-- The names that stand for types in a declaration: in its references, and of its conversions. -/
def typesNamed (d : Decl) : List String :=
  d.typeRefs.map TypeRef.base ++ d.calls.filterMap CallSite.conversion?

theorem denotes_iff {named : String → Option Ty} {d : Decl} :
    d.Denotes named ↔ ∀ ref ∈ d.typeRefs, ref.Denotes named := by
  cases d with
  | type t =>
      obtain ⟨name, body, span⟩ := t
      cases body with
      | literals values => exact iff_of_true trivial (List.forall_mem_nil _)
      | reference ref => simp [typeRefs, Denotes]
  | record r => exact List.forall_mem_map.symm
  | function f =>
      rw [typeRefs, List.forall_mem_append, List.forall_mem_map]
      simp [Denotes]

end Decl

namespace Program

/-- The calls of a program. -/
def calls (p : Program) : List CallSite := p.declarations.flatMap Decl.calls

/-- The names that stand for types in a program. -/
def typesNamed (p : Program) : List String := p.declarations.flatMap Decl.typesNamed

theorem mem_calls {p : Program} {site : CallSite} :
    site ∈ p.calls ↔ ∃ f ∈ p.functions, site ∈ Stmt.callsAll f.body := by
  simp only [calls, Decl.calls, functions_eq, List.mem_flatMap, List.mem_filterMap,
    Option.mem_toList]
  constructor
  · rintro ⟨d, hd, f, hf, hsite⟩
    exact ⟨f, ⟨d, hd, hf⟩, hsite⟩
  · rintro ⟨f, ⟨d, hd, hf⟩, hsite⟩
    exact ⟨d, hd, f, hf, hsite⟩

end Program

/-! ### Types of a registry -/

theorem Ty.named?_wrap (n : Nat) (t : Ty) : (Registry.Expression.wrap n t).named? = t.named? := by
  induction n with
  | zero => rfl
  | succ n ih => exact ih

namespace Registry

variable {r : Registry} {e : Entries}

/-- The registry knows a name for a type if the entries denote one by it. -/
theorem Realizes.type?_iff (hr : r.Realizes e) (hfree : ∀ name ∈ e.types.keys,
    isBuiltinTypeName name = false) {name : String} {t : Ty} :
    r.type? name = some t ↔ Denotes e.types name t := by
  have hrel := hr.types name
  rw [Registry.type?]
  cases hbase : Base.ofText? name with
  | some b =>
      obtain rfl := ofText?_eq_some hbase
      exact ⟨fun h => Option.some.inj h ▸ .base b, fun h => by rw [h.base_unique hfree]⟩
  | none =>
      constructor
      · intro h
        have h : r.types.lookup name = some t := h
        rw [h] at hrel
        generalize e.types.lookup name = entry at hrel
        cases hrel with
        | some hdenotes => exact hdenotes
      · intro h
        have hentry : (e.types.lookup name).isSome = true := by
          refine h.known.resolve_left ?_
          rintro ⟨b, rfl⟩
          rw [Base.ofText?_text] at hbase
          cases hbase
        obtain ⟨entry, hentry⟩ := Option.isSome_iff_exists.mp hentry
        obtain ⟨u, hu, hdenotes⟩ := exists_of_rel hrel hentry
        rw [h.unique hfree hdenotes]
        exact hu

end Registry

namespace TypeScript

section

variable {r : Registry} {e : Registry.Entries}

/-- A type that entries denote is written with the domain or record type at its end, which is
imported. -/
theorem references_typeExpr (hr : r.Realizes e) {name : String} {t : Ty}
    (h : Registry.Denotes e.types name t) :
    (typeExpr r t).references = t.named?.toList.map fun n => ⟨n, true⟩ := by
  induction h with
  | base b => rfl
  | @record name fields h =>
      obtain ⟨record, hrecord, hmeans⟩ :=
        exists_of_rel (hr.records name) (by rw [h]; rfl)
      simp [typeExpr, TypeExpr.references, isExternal, Ty.named?, Ty.text, hrecord, hmeans.external]
  | @domain name underlying values h =>
      obtain ⟨domain, hdomain, hmeans⟩ :=
        exists_of_rel (hr.domains name) (by rw [h]; rfl)
      have hexternal : domain.external = true := by cases hmeans <;> rfl
      simp [typeExpr, TypeExpr.references, isExternal, Ty.named?, Ty.text, hdomain, hexternal]
  | @synonym name target aim n t h spells denotes ih =>
      rw [Ty.named?_wrap, ← ih]
      clear spells
      induction n with
      | zero => rfl
      | succ n ihn => exact ihn

/-- A name is written as what it denotes, if the registry has it, and as itself otherwise. -/
theorem mem_references_typeOfName (hr : r.Realizes e)
    (hfree : ∀ name ∈ e.types.keys, isBuiltinTypeName name = false) {name : String}
    {ref : Reference} : ref ∈ (typeOfName r name).references ↔
      (∃ t, Registry.Denotes e.types name t ∧ ∃ n, t.named? = some n ∧ ref = ⟨n, true⟩) ∨
        (r.type? name = none ∧ ref = ⟨name, false⟩) := by
  unfold typeOfName
  cases ht : r.type? name with
  | some t =>
      have hdenotes := (hr.type?_iff hfree).mp ht
      simp only [references_typeExpr hr hdenotes, List.mem_map, Option.mem_toList, reduceCtorEq,
        false_and, or_false]
      constructor
      · rintro ⟨n, hn, rfl⟩
        exact ⟨t, hdenotes, n, hn, rfl⟩
      · rintro ⟨u, hu, n, hn, rfl⟩
        exact ⟨n, hu.unique hfree hdenotes ▸ hn, rfl⟩
  | none =>
      simp only [TypeExpr.references, List.mem_singleton, true_and]
      refine (or_iff_right ?_).symm
      rintro ⟨t, hdenotes, -⟩
      rw [(hr.type?_iff hfree).mpr hdenotes] at ht
      cases ht

end

/-! ### References in a module -/

section

variable {r : Registry}

/-- What some names that stand for types are written with. -/
def writtenWith (r : Registry) (names : List String) : List Reference :=
  names.flatMap fun name => (typeOfName r name).references

theorem writtenWith_append (names names' : List String) :
    writtenWith r (names ++ names') = writtenWith r names ++ writtenWith r names' :=
  List.flatMap_append

theorem references_lowerRef {ref : TypeRef} {a : TypeExpr} (h : lowerRef r ref = .ok a) :
    a.references = (typeOfName r ref.base).references := by
  induction ref generalizing a with
  | named name span =>
      rw [lowerRef] at h
      split at h
      · cases h
      · rw [← Except.ok.inj h, TypeRef.base]
  | list element span ih =>
      obtain ⟨b, hb, h⟩ := bind_eq_ok.mp h
      obtain rfl := pure_eq_ok.mp h
      exact (ih hb :)

theorem references_lowerRefs {refs : List TypeRef} {as : List TypeExpr}
    (h : List.Forall₂ (fun ref a => lowerRef r ref = .ok a) refs as) :
    as.flatMap TypeExpr.references = writtenWith r (refs.map TypeRef.base) := by
  induction h with
  | nil => rfl
  | cons ha _ ih =>
      rw [List.flatMap_cons, ih, references_lowerRef ha]
      rfl

theorem types_referencesAll_of {es : List Expr} {ts : List Term} {l : Locals}
    (h : ∀ e ∈ es, ∀ {t}, lowerExpr r l e = .ok t → t.references.types.Perm
      (writtenWith r (e.calls.filterMap CallSite.conversion?)))
    (hts : List.Forall₂ (fun e t => lowerExpr r l e = .ok t) es ts) :
    (Term.referencesAll ts).types.Perm
      (writtenWith r ((Expr.callsAll es).filterMap CallSite.conversion?)) := by
  induction hts with
  | nil => exact .nil
  | cons ht _ ih =>
      obtain ⟨he, hes⟩ := List.forall_mem_cons.mp h
      rw [Term.referencesAll, References.types_append, Expr.callsAll, List.filterMap_append,
        writtenWith_append]
      exact (he ht).append (ih hes)

/-- The types in a term are those that the conversions of its expression go to. -/
theorem types_lowerExpr {e : Expr} {t : Term} {l : Locals} (h : lowerExpr r l e = .ok t) :
    t.references.types.Perm (writtenWith r (e.calls.filterMap CallSite.conversion?)) := by
  induction e generalizing t with
  | literal value note =>
      obtain ⟨-, h⟩ := lowerExpr_literal.mp h
      cases value with
      | number n =>
          obtain ⟨digits, -, rfl⟩ := lowerLiteral_number.mp h
          exact .nil
      | string s | boolean b =>
          cases h
          exact .nil
  | var name note =>
      obtain ⟨-, rfl⟩ := lowerExpr_variable.mp h
      exact .nil
  | list es note ih =>
      obtain ⟨-, ts, hts, rfl⟩ := lowerExpr_list.mp h
      exact types_referencesAll_of ih hts
  | unary op e note ih =>
      obtain ⟨-, u, hu, rfl⟩ := lowerExpr_unary.mp h
      exact (ih hu :)
  | field e name note ih =>
      obtain ⟨-, u, hu, rfl⟩ := lowerExpr_field.mp h
      exact (ih hu :)
  | binary op a b note iha ihb =>
      obtain ⟨-, u, hu, v, hv, rfl⟩ := lowerExpr_binary.mp h
      rw [Term.references, References.types_append, Expr.calls, List.filterMap_append,
        writtenWith_append]
      exact (iha hu).append (ihb hv)
  | call callee args note ih =>
      obtain ⟨target, purity, ts, ⟨htarget, -⟩, hone, hts, rfl⟩ := lowerExpr_call.mp h
      have hargs := types_referencesAll_of ih hts
      rw [Expr.calls, List.filterMap_cons]
      cases target with
      | function | operation | helper =>
          simpa [callTerm, CallSite.conversion?, htarget, Term.references, References.types_append]
            using hargs
      | conversion =>
          obtain ⟨value, rfl⟩ := List.length_eq_one_iff.mp (hone rfl)
          have hvalue : (Term.referencesAll [value]).types = value.references.types :=
            List.append_nil _
          rw [hvalue] at hargs
          have htype : (References.ofTypes [typeOfName r callee.text]).types =
              (typeOfName r callee.text).references := by
            simp [References.ofTypes]
          simp only [callTerm, CallSite.conversion?, htarget, if_pos, Term.references,
            References.types_append, htype, writtenWith, List.flatMap_cons]
          exact List.perm_append_comm.trans (hargs.append_left _)

end

theorem Command.references_termsAll_of {cs : List Command}
    (h : ∀ c ∈ cs, c.references.types = c.terms.flatMap (fun t => t.references.types) ∧
      c.references.values = c.terms.flatMap fun t => t.references.values) :
    (Command.referencesAll cs).types = (Command.termsAll cs).flatMap (fun t => t.references.types) ∧
      (Command.referencesAll cs).values =
        (Command.termsAll cs).flatMap fun t => t.references.values := by
  induction cs with
  | nil => exact ⟨rfl, rfl⟩
  | cons c cs ih =>
      obtain ⟨hc, hcs⟩ := List.forall_mem_cons.mp h
      simp [referencesAll, termsAll, References.types_append, hc, ih hcs]

/-- A command refers to what its terms do. -/
theorem Command.references_terms (c : Command) :
    c.references.types = c.terms.flatMap (fun t => t.references.types) ∧
      c.references.values = c.terms.flatMap fun t => t.references.values := by
  induction c with
  | const x e | expression e => simp [references, terms]
  | branch c t iht =>
      simp [references, terms, References.types_append, references_termsAll_of iht]
  | branchOtherwise c t o iht iho =>
      simp [references, terms, References.types_append, references_termsAll_of iht,
        references_termsAll_of iho]
  | forOf x e body ih =>
      simp [references, terms, References.types_append, references_termsAll_of ih]
  | returns value => cases value <;> simp [references, terms, References.none]

/-- The values in a term are the callees of its calls. -/
theorem Term.values_references (t : Term) : t.references.values = t.calls.map Call.callee := by
  have hall : ∀ ts : List Term, (∀ t ∈ ts, t.references.values = t.calls.map Call.callee) →
      (Term.referencesAll ts).values = (Term.callsAll ts).map Call.callee := by
    intro ts ih
    induction ts with
    | nil => rfl
    | cons t ts hts =>
        obtain ⟨ht, hmore⟩ := List.forall_mem_cons.mp ih
        simp [referencesAll, callsAll, ht, hts hmore]
  induction t with
  | number | string | boolean | var => rfl
  | array es ih => exact hall es ih
  | unary op e ih | member e field ih => exact (ih :)
  | binary op l r ihl ihr => simp [references, calls, ihl, ihr]
  | call callee awaited args ih => simp [references, calls, hall args ih]
  | cast e t ih => simp [references, calls, ih, References.ofTypes]

section

variable {r : Registry} {names : List String}

/-- The types in the body of a function are those that its conversions go to. -/
theorem types_lowerStmts {ss : List Stmt} {cs : List Command} {l l' : Locals}
    (h : lowerStmts r l ss = .ok (cs, l')) : (Command.referencesAll cs).types.Perm
      (writtenWith r ((Stmt.callsAll ss).filterMap CallSite.conversion?)) := by
  rw [(Command.references_termsAll_of fun c _ => c.references_terms).1,
    Stmt.callsAll_sites ss l]
  have hsites := (lowersSites_of (fun s _ => lowersSites_lowerStmt) h).terms
  generalize (Stmt.walkAll Locals.walk ⟨⟩ l ss).1 = sites at hsites ⊢
  generalize Command.termsAll cs = terms at hsites ⊢
  induction hsites with
  | nil => exact .nil
  | cons ht _ ih =>
      rw [List.flatMap_cons, List.flatMap_cons, List.filterMap_append, writtenWith_append]
      exact (types_lowerExpr ht).append ih

/-- The types in an item are those that are named in its declaration. -/
theorem types_lowerDecl {d : Decl} {i : Item} (h : lowerDecl r names d = .ok i) :
    i.references.types.Perm (writtenWith r d.typesNamed) := by
  cases d with
  | type t =>
      obtain ⟨name, body, span⟩ := t
      cases body with
      | literals values =>
          obtain rfl := lowerDecl_literals.mp h
          exact .nil
      | reference ref =>
          obtain ⟨a, ha, rfl⟩ := lowerDecl_reference.mp h
          exact .of_eq (references_lowerRefs (.cons ha .nil))
  | record d =>
      obtain ⟨fields, hfields, rfl⟩ := lowerDecl_record.mp h
      have hrefs : List.Forall₂ (fun ref a => lowerRef r ref = .ok a) (d.fields.map Typed.ty)
          (fields.map Prod.snd) := by
        rw [List.forall₂_map_left_iff, List.forall₂_map_right_iff]
        exact hfields.imp fun f q hf => (lowerField_eq_ok.mp hf).1
      rw [Decl.typesNamed, show (Decl.record d).calls = [] from rfl, List.filterMap_nil,
        List.append_nil]
      exact .of_eq (references_lowerRefs hrefs)
  | function f =>
      obtain ⟨purity, -, parameters, hparameters, returns, hreturns, body, l, hbody, rfl⟩ :=
        lowerDecl_function.mp h
      have hps : List.Forall₂ (fun ref a => lowerRef r ref = .ok a) (f.parameters.map Typed.ty)
          (parameters.map Prod.snd) := by
        rw [List.forall₂_map_left_iff, List.forall₂_map_right_iff]
        exact hparameters.imp fun p q hp => (lowerParameter_eq_ok.mp hp).1
      have hrs : List.Forall₂ (fun ref a => lowerRef r ref = .ok a) f.returns.toList
          returns.toList := by
        cases hf : f.returns with
        | none =>
            rw [hf] at hreturns
            obtain rfl := pure_eq_ok.mp hreturns
            exact .nil
        | some ref =>
            rw [hf] at hreturns
            obtain ⟨a, ha, hreturns⟩ := bind_eq_ok.mp hreturns
            obtain rfl := pure_eq_ok.mp hreturns
            exact .cons ha .nil
      have hrefs := references_lowerRefs (List.rel_append hps hrs)
      have hcalls : (Decl.function f).calls = Stmt.callsAll f.body := List.append_nil _
      rw [Item.references, References.types_append, Decl.typesNamed, writtenWith_append, hcalls]
      exact .append (.of_eq hrefs) (types_lowerStmts hbody)

/-- The values in an item are what is called in its declaration, beside the conversions. -/
theorem values_lowerDecl {d : Decl} {i : Item} (h : lowerDecl r names d = .ok i) :
    i.references.values = (d.calls.filterMap CallSite.lowered).map Call.callee := by
  cases d with
  | type t =>
      obtain ⟨name, body, span⟩ := t
      cases body with
      | literals values =>
          obtain rfl := lowerDecl_literals.mp h
          rfl
      | reference ref =>
          obtain ⟨a, -, rfl⟩ := lowerDecl_reference.mp h
          rfl
  | record d =>
      obtain ⟨fields, -, rfl⟩ := lowerDecl_record.mp h
      rfl
  | function f =>
      obtain ⟨purity, parameters, returns, body, l, -, rfl, -, -, hbody⟩ := lowerFunction_cases h
      have hcalls : (Decl.function f).calls = Stmt.callsAll f.body := List.append_nil _
      have hvalues : (fun t : Term => t.references.values) = fun t => t.calls.map Call.callee :=
        funext Term.values_references
      rw [hcalls, ← calls_lowerStmts hbody, List.map_flatMap, ← hvalues]
      exact (Command.references_termsAll_of fun c _ => c.references_terms).2

end

end TypeScript

/-! ### Imports -/

open TypeScript (lower importedNames)

section

variable {registry : Registry} {p : Program} {m : Module}

/-- The types that a module refers to are those that the program names. -/
theorem mem_types_lower (h : lower p registry = .ok m) {ref : Reference} :
    ref ∈ m.references.types ↔ ref ∈ TypeScript.writtenWith registry p.typesNamed := by
  have hitems := (TypeScript.lower_eq_ok.mp h).imp fun d i => TypeScript.types_lowerDecl
  rw [(TypeScript.mem_references ref).1, Program.typesNamed, TypeScript.writtenWith,
    List.flatMap_assoc, List.mem_flatMap]
  constructor
  · rintro ⟨i, hi, href⟩
    obtain ⟨d, hd, hperm⟩ := exists_of_mem_left hitems.flip i hi
    exact ⟨d, hd, hperm.mem_iff.mp href⟩
  · rintro ⟨d, hd, href⟩
    obtain ⟨i, hi, hperm⟩ := exists_of_mem_left hitems d hd
    exact ⟨i, hi, hperm.mem_iff.mpr href⟩

/-- The values that a module refers to are what the program calls, beside the conversions. -/
theorem mem_values_lower (h : lower p registry = .ok m) {ref : Reference} :
    ref ∈ m.references.values ↔ ∃ site ∈ p.calls, ∃ c, site.lowered = some c ∧ c.callee = ref := by
  have hitems := (TypeScript.lower_eq_ok.mp h).imp fun d i => TypeScript.values_lowerDecl
  have hmem {d : Decl} : ref ∈ (d.calls.filterMap CallSite.lowered).map Call.callee ↔
      ∃ site ∈ d.calls, ∃ c, site.lowered = some c ∧ c.callee = ref := by
    simp only [List.mem_map, List.mem_filterMap]
    constructor
    · rintro ⟨c, ⟨site, hsite, hc⟩, hcallee⟩
      exact ⟨site, hsite, c, hc, hcallee⟩
    · rintro ⟨site, hsite, c, hc, hcallee⟩
      exact ⟨c, ⟨site, hsite, hc⟩, hcallee⟩
  rw [(TypeScript.mem_references ref).2]
  simp only [Program.calls, List.mem_flatMap]
  constructor
  · rintro ⟨i, hi, href⟩
    obtain ⟨d, hd, hvalues⟩ := exists_of_mem_left hitems.flip i hi
    obtain ⟨site, hsite, hc⟩ := hmem.mp (hvalues ▸ href)
    exact ⟨site, ⟨d, hd, hsite⟩, hc⟩
  · rintro ⟨site, ⟨d, hd, hsite⟩, hc⟩
    obtain ⟨i, hi, hvalues⟩ := exists_of_mem_left hitems d hd
    exact ⟨i, hi, hvalues ▸ hmem.mpr ⟨site, hsite, hc⟩⟩

/-- The values that are imported are the operations and helpers that are called. -/
theorem mem_valueImports (h : lower p registry = .ok m) {n : String} :
    n ∈ m.valueImports ↔ ∃ site ∈ p.calls, site.callee.text = n ∧
      (site.note.target = some .operation ∨ site.note.target = some .helper) := by
  rw [Module.valueImports, mem_importedNames, mem_values_lower h]
  refine exists_congr fun site => and_congr_right fun _ => ?_
  rw [CallSite.lowered]
  cases site.note.target with
  | none => simp
  | some kind => cases kind <;> simp [TypeScript.isImported]

/-- The types that are imported are the domain and record types of the registry that stand at the
end of what the program names. -/
theorem mem_typeImports {e : Registry.Entries} (hr : registry.Realizes e)
    (hfree : ∀ name ∈ e.types.keys, isBuiltinTypeName name = false)
    (h : lower p registry = .ok m) {n : String} :
    n ∈ m.typeImports ↔ ∃ name ∈ p.typesNamed, ∃ t, Registry.Denotes e.types name t ∧
      t.named? = some n := by
  rw [Module.typeImports, mem_importedNames, mem_types_lower h, TypeScript.writtenWith,
    List.mem_flatMap]
  refine exists_congr fun name => and_congr_right fun _ => ?_
  simp [TypeScript.mem_references_typeOfName hr hfree]

theorem sorted_importedNames (rs : List Reference) : (importedNames rs).Pairwise (· < ·) := by
  have hle : (importedNames rs).Pairwise (· ≤ ·) := List.pairwise_mergeSort' (· ≤ ·) _
  exact (hle.and (nodup_importedNames rs)).imp fun h => lt_of_le_of_ne h.1 h.2

end

end Prosaic
