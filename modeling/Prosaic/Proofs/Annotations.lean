import Prosaic.Proofs.Closure

/-!
Annotations. The emitter does not use the types that the check has resolved: it looks the names of
references up by itself, in the registry first and with no table of what the program declares. Since
a checked program declares no built-in name, none of the registry and none twice, what it writes for
a reference, and what it imports for it, is what the resolved type would be written as.
-/

namespace Prosaic

open TypeScript (TypeExpr lowerRef typeExpr typeOfName)

/-! ### Types as they are written -/

/-- The names that a type is written with and that have to be imported. -/
def TypeScript.TypeExpr.imports (e : TypeExpr) : List String :=
  (e.references.filter Reference.imported).map Reference.name

/-- How a resolved type is written, and what is imported for it: the domain or record type at its
end if it is defined outside the program. Types in error and types of functions are not written. -/
def TypeEnv.written? (env : TypeEnv) : Ty → Option (String × List String)
  | .base b => some (TypeScript.primitiveText b, [])
  | .list t => (env.written? t).map fun w => ("ReadonlyArray<" ++ w.1 ++ ">", w.2)
  | .domain name => (env.domain? (.domain name)).map fun d =>
    (TypeScript.typeIdentifier name, if d.external then [name] else [])
  | .record name => (env.record? (.record name)).map fun r =>
    (TypeScript.typeIdentifier name, if r.external then [name] else [])
  | .function .. | .error => none

/-- A type and a resolved type are written alike. -/
def TypeEnv.WritesAs (env : TypeEnv) (t : Ty) (e : TypeExpr) : Prop :=
  env.written? t = some (e.text, e.imports)

theorem TypeEnv.WritesAs.list {env : TypeEnv} {t : Ty} {e : TypeExpr} (h : env.WritesAs t e) :
    env.WritesAs (.list t) (.array e) := by
  unfold WritesAs at h ⊢
  rw [written?, h]
  rfl

/-- Among distinct names, each has the type that is declared for it. -/
theorem Denoted.lookup {named : String → Option Ty} {declared : List Typed}
    {types : List (String × Ty)} (h : Denoted named declared types)
    (hnodup : (declared.map Typed.name).Nodup) {q : Typed} (hq : q ∈ declared) :
    ∃ t, types.lookup q.name = some t ∧ q.ty.denote? named = some t := by
  obtain ⟨⟨name, t⟩, hmem, hname, hdenote⟩ := exists_of_mem_left h q hq
  obtain rfl : name = q.name := hname
  have hnames : declared.map Typed.name = types.map Prod.fst :=
    map_eq_of_forall₂ (h.imp fun _ _ h => h.1.symm)
  exact ⟨t, lookup_of_mem (hnames ▸ hnodup) hmem, hdenote⟩

section

variable {env : TypeEnv} {registry : Registry} {p : Program} {entries : Registry.Entries}
  (henv : env.Reflects registry p) (hr : registry.Realizes entries)
  (hfree : ∀ name ∈ entries.types.keys, isBuiltinTypeName name = false)

include henv

/-! ### Names of the program and names of the registry -/

theorem TypeEnv.Reflects.lookup_records {r : RecordDecl} (hrecord : r ∈ p.readable.records) :
    ∃ fields, env.records.lookup r.name = some ⟨fields, false⟩ ∧
      (r.fields.map Typed.name).Nodup ∧ Denoted env.type? r.fields fields := by
  obtain ⟨⟨name, record⟩, hmem, hname, hnodup, fields, hfields, hdenoted⟩ :=
    exists_of_mem_left henv.records r hrecord
  obtain rfl : name = r.name := hname
  obtain rfl : record = ⟨fields, false⟩ := hfields
  have hnames : p.readable.records.map RecordDecl.name = env.records.map Prod.fst :=
    map_eq_of_forall₂ (henv.records.imp fun _ _ h => h.1.symm)
  exact ⟨fields, lookup_of_mem (hnames ▸ Program.nodup_recordNames henv.distinct) hmem, hnodup,
    hdenoted⟩

include hr hfree

omit hfree in
/-- A type of the registry is written as the registry defines it: nothing that the program declares
hides it. -/
theorem TypeEnv.Reflects.writes_denoted {name : String} {t : Ty}
    (h : Registry.Denotes entries.types name t) : env.WritesAs t (typeExpr registry t) := by
  have hforeign : ∀ {name entry}, entries.types.lookup name = some entry →
      ∀ d ∈ p.readable.declarations, d.name ≠ name := by
    rintro name entry hentry d hd rfl
    obtain ⟨ty, hty, -⟩ := exists_of_rel (hr.types d.name) hentry
    refine (henv.free d hd).2 (List.mem_append_left _ (List.mem_append_left _ ?_))
    exact List.mem_map_of_mem (f := Prod.fst) (mem_of_lookup hty)
  induction h with
  | base b => rfl
  | @record name fields h =>
      obtain ⟨record, hrecord, hmeans⟩ := exists_of_rel (hr.records name) (by rw [h]; rfl)
      have hown : env.records.lookup name = none := by
        cases hlookup : env.records.lookup name with
        | none => rfl
        | some record =>
            obtain ⟨r, hr, hname, -⟩ := exists_of_lookup henv.records (fun _ _ h => h.1) hlookup
            exact (hforeign h _ (Program.mem_records.mp hr) hname).elim
      simp [WritesAs, written?, record?, hown, henv.outside, hrecord, hmeans.external, typeExpr,
        TypeExpr.text, TypeExpr.imports, TypeExpr.references, TypeScript.isExternal, Ty.text]
  | @domain name underlying values h =>
      obtain ⟨domain, hdomain, hmeans⟩ := exists_of_rel (hr.domains name) (by rw [h]; rfl)
      have hexternal : domain.external = true := by cases hmeans <;> rfl
      have hown : env.domains.lookup name = none := by
        refine henv.foreign name fun hmem => ?_
        obtain ⟨t, ht, hname⟩ := List.mem_map.mp hmem
        exact hforeign h _ (Program.mem_types.mp ht) hname
      simp [WritesAs, written?, domain?, hown, henv.outside, hdomain, hexternal, typeExpr,
        TypeExpr.text, TypeExpr.imports, TypeExpr.references, TypeScript.isExternal, Ty.text]
  | @synonym name target aim n t h spells denotes ih =>
      clear spells
      induction n with
      | zero => exact ih
      | succ n ihn => exact ihn.list

/-- What a reference denotes is written as the emitter writes the reference. -/
theorem TypeEnv.Reflects.writes {ref : TypeRef} {t : Ty} (h : ref.denote? env.type? = some t) :
    ∃ e, lowerRef registry ref = .ok e ∧ env.WritesAs t e := by
  induction ref generalizing t with
  | list element span ih =>
      rw [TypeRef.denote?, Option.map_eq_some_iff] at h
      obtain ⟨u, hu, rfl⟩ := h
      obtain ⟨e, he, hwrites⟩ := ih hu
      exact ⟨.array e, bind_eq_ok.mpr ⟨e, he, rfl⟩, hwrites.list⟩
  | named name span =>
      rw [TypeRef.denote?] at h
      split at h
      · cases h
      next hlist =>
      rw [lowerRef, if_neg hlist]
      refine ⟨_, rfl, ?_⟩
      rw [henv.types, declaredType?] at h
      cases hbase : Base.ofText? name with
      | some b =>
          rw [hbase] at h
          obtain rfl := Option.some.inj h
          rw [typeOfName, Registry.type?, hbase]
          rfl
      | none =>
          simp only [hbase] at h
          have hown : ∀ d ∈ p.readable.declarations, d.name = name →
              registry.type? name = none := by
            rintro d hd rfl
            rw [Registry.type?, hbase]
            refine List.lookup_eq_none_iff.mpr fun e he => bne_iff_ne.mpr fun heq => ?_
            refine (henv.free d hd).2 (List.mem_append_left _ (List.mem_append_left _ ?_))
            rw [heq]
            exact List.mem_map_of_mem he
          split at h
          · next hrecord =>
              obtain rfl := Option.some.inj h
              obtain ⟨r, hr, rfl⟩ := List.mem_map.mp hrecord
              obtain ⟨fields, hfields, -⟩ := henv.lookup_records hr
              rw [typeOfName, hown _ (Program.mem_records.mp hr) rfl]
              simp [WritesAs, written?, record?, hfields, TypeExpr.text, TypeExpr.imports,
                TypeExpr.references]
          · split at h
            · next halias =>
                obtain rfl := Option.some.inj h
                obtain ⟨u, hu, rfl⟩ := List.mem_map.mp halias
                obtain ⟨d, hd, hbody⟩ := henv.domains u hu
                have hinside : d.external = false := by
                  cases hb : u.body with
                  | literals values =>
                      rw [hb] at hbody
                      rw [hbody]
                  | reference ref =>
                      rw [hb] at hbody
                      obtain ⟨_, -, rfl⟩ := hbody
                      rfl
                rw [typeOfName, hown _ (Program.mem_types.mp hu) rfl]
                simp [WritesAs, written?, domain?, hd, hinside, TypeExpr.text, TypeExpr.imports,
                  TypeExpr.references]
            · rw [typeOfName, h]
              exact henv.writes_denoted hr ((hr.type?_iff hfree).mp h)

end

/-! ### What the check resolves -/

/-- What the check resolves a reference in a declaration to, as its tables have it: the signatures
go with the functions in order, and a field and a definition are those of a declaration whose name
is registered. -/
inductive Declared.Gives (registry : Registry) (p : Program) : Decl → TypeRef → Ty → Prop
  | parameter {f s q e} (hf : (f, s) ∈ p.functions.zip (Declared.of registry p).signatures)
    (hq : (q, e) ∈ f.parameters.zip s.parameters) : Gives registry p (.function f) q.ty e.2
  | returns {f s ref t} (hf : (f, s) ∈ p.functions.zip (Declared.of registry p).signatures)
    (href : f.returns = some ref) (ht : s.returns = some t) : Gives registry p (.function f) ref t
  | field {r q record t} (hr : r ∈ (p.registered registry).records) (hq : q ∈ r.fields)
    (hrecord : (Declared.of registry p).env.record? (.record r.name) = some record)
    (ht : record.fields.lookup q.name = some t) : Gives registry p (.record r) q.ty t
  | definition {u ref t} (hu : u ∈ (p.registered registry).types) (href : u.body = .reference ref)
    (ht : (Declared.of registry p).env.underlying? (.domain u.name) = some t) :
    Gives registry p (.type u) ref t

namespace Declared

variable {registry : Registry} {p : Program} (h : (Declared.of registry p).found = [])

include h

theorem Gives.denotes {d : Decl} {ref : TypeRef} {t : Ty} (hgives : Gives registry p d ref t) :
    ref.denote? (Declared.of registry p).env.type? = some t := by
  obtain ⟨hreflects, hsignatures⟩ := of_reflects h
  have hown := Program.registered_eq_readable (registerNames_of_found h)
  cases hgives with
  | parameter hf hq =>
      have hs := (List.forall₂_iff_zip.mp hsignatures).2 hf
      exact ((List.forall₂_iff_zip.mp hs.parameters).2 hq).2
  | returns hf href ht =>
      have hs := (List.forall₂_iff_zip.mp hsignatures).2 hf
      obtain ⟨u, hu, hdenote⟩ := exists_of_rel hs.returns href
      rwa [ht, ← hu] at *
  | @field r q record t hr hq hrecord ht =>
      obtain ⟨fields, hlookup, hnodup, hdenoted⟩ := hreflects.lookup_records (hown ▸ hr)
      simp only [TypeEnv.record?, hlookup, Option.some_or, Option.some.injEq] at hrecord
      subst hrecord
      obtain ⟨u, hu, hdenote⟩ := hdenoted.lookup hnodup hq
      rw [hdenote, ← ht, ← hu]
  | @definition u ref t hu href ht =>
      obtain ⟨d, hlookup, hbody⟩ := hreflects.domains u (hown ▸ hu)
      rw [href] at hbody
      obtain ⟨ty, hdenote, rfl⟩ := hbody
      simp only [TypeEnv.underlying?, TypeEnv.domain?, hlookup, Option.some_or, Option.bind_some]
        at ht
      rw [hdenote, ← ht]

/-- Every reference in a function, and in a declaration that is registered, is resolved to a
type. -/
theorem exists_gives {d : Decl} (hd : d ∈ p.declarations)
    (hresolved : d.function?.isSome = true ∨ d.isReadable = true) {ref : TypeRef}
    (href : ref ∈ d.typeRefs) : ∃ t, Gives registry p d ref t := by
  obtain ⟨hreflects, hsignatures⟩ := of_reflects h
  have hown := Program.registered_eq_readable (registerNames_of_found h)
  cases d with
  | function f =>
      obtain ⟨s, hf, hs⟩ := exists_mem_zip hsignatures f (Program.mem_functions.mpr hd)
      rcases List.mem_append.mp href with href | href
      · obtain ⟨q, hq, rfl⟩ := List.mem_map.mp href
        obtain ⟨e, he, -⟩ := exists_mem_zip hs.parameters q hq
        exact ⟨e.2, .parameter hf he⟩
      · have href := Option.mem_toList.mp href
        obtain ⟨t, ht, -⟩ := exists_of_rel hs.returns href
        exact ⟨t, .returns hf href ht⟩
  | record r =>
      have hr : r ∈ p.readable.records := Program.mem_records.mpr
        (List.mem_filter.mpr ⟨hd, hresolved.resolve_left Bool.false_ne_true⟩)
      obtain ⟨q, hq, rfl⟩ := List.mem_map.mp href
      obtain ⟨fields, hlookup, hnodup, hdenoted⟩ := hreflects.lookup_records hr
      have hrecord : (Declared.of registry p).env.record? (.record r.name) =
          some ⟨fields, false⟩ := by
        rw [TypeEnv.record?, hlookup]
        rfl
      obtain ⟨t, ht, -⟩ := hdenoted.lookup hnodup hq
      exact ⟨t, .field (hown ▸ hr) hq hrecord ht⟩
  | type u =>
      have hu : u ∈ p.readable.types := Program.mem_types.mpr
        (List.mem_filter.mpr ⟨hd, hresolved.resolve_left Bool.false_ne_true⟩)
      obtain ⟨d, hlookup, hbody⟩ := hreflects.domains u hu
      obtain ⟨name, body, span⟩ := u
      cases body with
      | literals values => cases href
      | reference ref' =>
          obtain rfl := List.mem_singleton.mp href
          obtain ⟨t, -, rfl⟩ := hbody
          refine ⟨t, .definition (hown ▸ hu) rfl ?_⟩
          rw [TypeEnv.underlying?, TypeEnv.domain?, hlookup]
          rfl

end Declared

/-- In a program that is checked without findings every reference is resolved to a type, and what
the emitter writes and imports for the reference is what is written and imported for that type. -/
theorem annotations_agree {doc : Keyed Document} {registry : Registry} {p : Program}
    {budget : Budget} (hregistry : Registry.ofDocument doc = .ok registry)
    (h : (p.checkTypes registry budget).result = .ok []) :
    (∀ d ∈ p.declarations, d.function?.isSome = true ∨ d.isReadable = true →
        ∀ ref ∈ d.typeRefs, ∃ t, Declared.Gives registry p d ref t) ∧
      ∀ d ref t, Declared.Gives registry p d ref t → ∃ e, lowerRef registry ref = .ok e ∧
        (Declared.of registry p).env.written? t = some (e.text, e.imports) := by
  obtain ⟨-, hnone⟩ := Program.checkTypes_eq_ok.mp h
  have hdeclared := (List.append_eq_nil_iff.mp hnone.symm).1
  obtain ⟨hreflects, -⟩ := Declared.of_reflects hdeclared
  refine ⟨fun d hd hresolved ref href => Declared.exists_gives hdeclared hd hresolved href, ?_⟩
  intro d ref t hgives
  cases hread : Registry.readEntries doc with
  | error problems =>
      rw [Registry.ofDocument, hread] at hregistry
      cases hregistry
  | ok entries =>
      obtain ⟨hiff, hrealizes⟩ := Registry.ofDocument_of_read hread
      exact hreflects.writes (hrealizes registry hregistry)
        (hiff.mp ⟨registry, hregistry⟩).free (hgives.denotes hdeclared)

/-- Aliases of the registry, in fields, parameters and behind a list, next to a record of the
program. -/
theorem annotations_agree_payslip : ∃ registry tokens r, Registry.ofDocument wages = .ok registry ∧
    Token.scan payslip = .ok tokens ∧ Program.read tokens (.start .standard .still) = some r ∧
    (r.typed registry).result = .ok [] ∧
    ∀ d ref t, Declared.Gives registry r.program d ref t → ∃ e, lowerRef registry ref = .ok e ∧
      (Declared.of registry r.program).env.written? t = some (e.text, e.imports) := by
  have hrun : ((Registry.ofDocument wages).toOption.any fun registry =>
      (Token.scan payslip).toOption.any fun tokens =>
        (Program.read tokens (.start .standard .still)).any fun r =>
          decide ((r.typed registry).result.toOption = some [])) = true := by
    have hsource : payslip = .ofList _ := Token.append_eq_ofList (Token.append_eq_ofList
      (Token.append_eq_ofList (Token.append_eq_ofList rfl rfl) rfl) rfl) rfl
    rw [hsource, Token.scan_ofList]
    decide +kernel
  obtain ⟨registry, hregistry, hrun⟩ := any_toOption.mp hrun
  obtain ⟨tokens, hscan, hrun⟩ := any_toOption.mp hrun
  obtain ⟨r, hr, hrun⟩ := (Option.any_eq_true _ _).mp hrun
  have hfound := toOption_eq_some.mp (of_decide_eq_true hrun)
  exact ⟨registry, tokens, r, hregistry, hscan, hr, hfound, (annotations_agree hregistry hfound).2⟩

end Prosaic
