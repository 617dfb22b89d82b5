import Prosaic.Proofs.Program.Parts
import Prosaic.Proofs.Table
import Prosaic.Proofs.Typing.Aliases

/-!
What the declarations of a program mean once they are resolved and nothing is found: names are
distinct, every reference denotes a type, and the environment gives each name what its declaration
says.
-/

namespace Prosaic

/-! ### Records -/

/-- The fields of a record without findings are those that are declared, under distinct names. -/
theorem recordFields_eq_nil {env : TypeEnv} {record : String} {known : List (String × Ty)}
    {fs : List Typed} (h : (recordFields env record known fs).2 = []) :
    (∃ fields, (recordFields env record known fs).1 = known ++ fields ∧
        Denoted env.type? fs fields) ∧
      (∀ f ∈ fs, known.lookup f.name = none) ∧ (fs.map Typed.name).Nodup := by
  induction fs generalizing known with
  | nil => exact ⟨⟨[], by simp [recordFields], .nil⟩, by simp, by simp⟩
  | cons f fs ih =>
      cases hf : known.lookup f.name with
      | some t => simp [recordFields, hf] at h
      | none =>
          simp only [recordFields, hf, List.append_eq_nil_iff] at h ⊢
          obtain ⟨⟨fields, hfields, hdenoted⟩, hfresh, hnodup⟩ := ih h.2
          have hsplit : ∀ g ∈ fs, known.lookup g.name = none ∧ g.name ≠ f.name := by
            intro g hg
            have := hfresh g hg
            rw [List.lookup_append, Option.or_eq_none_iff] at this
            refine ⟨this.1, fun heq => ?_⟩
            rw [heq] at this
            simp at this
          refine ⟨⟨(f.name, (env.resolve f.ty).1) :: fields, ?_, ?_⟩, ?_, ?_⟩
          · rw [hfields, List.append_assoc, List.singleton_append]
          · exact .cons ⟨rfl, env.resolve_eq_nil h.1⟩ hdenoted
          · exact List.forall_mem_cons.mpr ⟨hf, fun g hg => (hsplit g hg).1⟩
          · rw [List.map_cons, List.nodup_cons]
            refine ⟨fun hmem => ?_, hnodup⟩
            obtain ⟨g, hg, heq⟩ := List.mem_map.mp hmem
            exact (hsplit g hg).2 heq

theorem recordDefinitions_eq (env : TypeEnv) (rs : List RecordDecl) :
    recordDefinitions env rs =
      (rs.map fun r => (r.name, ⟨(recordFields env r.name [] r.fields).1, false⟩),
        rs.flatMap fun r => (recordFields env r.name [] r.fields).2) := by
  induction rs with
  | nil => rfl
  | cons r rs ih => simp [recordDefinitions, ih]

/-! ### Names -/

theorem nameConflict_eq_none {registry : Registry} {lines : List (String × Nat)} {d : Decl}
    (h : nameConflict registry lines d = none) :
    isBuiltinTypeName d.name = false ∧ d.name ∉ registry.declaredNames ∧
      lines.lookup d.name = none := by
  unfold nameConflict at h
  dsimp only at h
  split at h
  · cases h
  · next hbuiltin =>
      split at h
      · cases h
      · next hforeign =>
          split at h
          · cases h
          · next hline => exact ⟨by simpa using hbuiltin, by simpa using hforeign, hline⟩

/-- Where no name is in conflict, the declarations with a readable name are registered, and their
names are distinct and used nowhere else. -/
theorem registerNames_eq_nil {registry : Registry} {lines : List (String × Nat)} {ds : List Decl}
    (h : (registerNames registry lines ds).2 = []) :
    (registerNames registry lines ds).1 = ds.map (fun d => (d, d.isReadable)) ∧
      ((ds.filter Decl.isReadable).map Decl.name).Nodup ∧
      ∀ d ∈ ds, d.isReadable = true →
        isBuiltinTypeName d.name = false ∧ d.name ∉ registry.declaredNames ∧
          lines.lookup d.name = none := by
  induction ds generalizing lines with
  | nil => simp [registerNames]
  | cons d ds ih =>
      by_cases hname : d.name = unreadableName
      · have hd : d.isReadable = false := by simp [Decl.isReadable, hname]
        simp only [registerNames, if_pos hname] at h ⊢
        obtain ⟨hmarked, hnodup, hfree⟩ := ih h
        refine ⟨by rw [hmarked, List.map_cons, hd], by simpa [hd] using hnodup, ?_⟩
        exact List.forall_mem_cons.mpr ⟨by simp [hd], hfree⟩
      · have hd : d.isReadable = true := by simp [Decl.isReadable, hname]
        cases hc : nameConflict registry lines d with
        | some conflict => simp [registerNames, hname, hc] at h
        | none =>
            simp only [registerNames, if_neg hname, hc] at h ⊢
            obtain ⟨hmarked, hnodup, hfree⟩ := ih h
            have hsplit : ∀ e ∈ ds, e.isReadable = true →
                e.name ≠ d.name ∧ lines.lookup e.name = none := by
              intro e he hreadable
              have := (hfree e he hreadable).2.2
              rw [List.lookup_cons] at this
              split at this
              · cases this
              · next heq => exact ⟨by simpa using heq, this⟩
            refine ⟨by rw [hmarked, List.map_cons, hd], ?_, ?_⟩
            · rw [List.filter_cons_of_pos hd, List.map_cons, List.nodup_cons]
              refine ⟨fun hmem => ?_, hnodup⟩
              obtain ⟨e, he, heq⟩ := List.mem_map.mp hmem
              exact (hsplit e (List.mem_filter.mp he).1 (List.mem_filter.mp he).2).1 heq
            · refine List.forall_mem_cons.mpr
                ⟨fun _ => nameConflict_eq_none hc, fun e he hreadable => ?_⟩
              obtain ⟨hbuiltin, hforeign, -⟩ := hfree e he hreadable
              exact ⟨hbuiltin, hforeign, (hsplit e he hreadable).2⟩

/-- Whatever is in conflict, the names of what is registered are distinct and used nowhere else. -/
theorem registered_free (registry : Registry) (lines : List (String × Nat)) (ds : List Decl) :
    ((registered (registerNames registry lines ds).1).map Decl.name).Nodup ∧
      ∀ d ∈ registered (registerNames registry lines ds).1,
        isBuiltinTypeName d.name = false ∧ d.name ∉ registry.declaredNames ∧
          lines.lookup d.name = none := by
  induction ds generalizing lines with
  | nil => simp [registerNames, registered]
  | cons d ds ih =>
      by_cases hname : d.name = unreadableName
      · simpa [registerNames, hname, registered] using ih lines
      · cases hc : nameConflict registry lines d with
        | some conflict => simpa [registerNames, hname, hc, registered] using ih lines
        | none =>
            obtain ⟨hnodup, hfree⟩ := ih ((d.name, d.span.start.line) :: lines)
            have hregistered : registered (registerNames registry lines (d :: ds)).1 =
                d :: registered (registerNames registry
                  ((d.name, d.span.start.line) :: lines) ds).1 := by
              simp [registerNames, hname, hc, registered]
            have hsplit : ∀ e ∈ registered (registerNames registry
                ((d.name, d.span.start.line) :: lines) ds).1,
                e.name ≠ d.name ∧ lines.lookup e.name = none := by
              intro e he
              have hlookup := (hfree e he).2.2
              rw [List.lookup_cons] at hlookup
              split at hlookup
              · cases hlookup
              · next heq => exact ⟨by simpa using heq, hlookup⟩
            rw [hregistered]
            refine ⟨List.nodup_cons.mpr ⟨fun hmem => ?_, hnodup⟩, List.forall_mem_cons.mpr
              ⟨?_, fun e he => ⟨(hfree e he).1, (hfree e he).2.1, (hsplit e he).2⟩⟩⟩
            · obtain ⟨e, he, heq⟩ := List.mem_map.mp hmem
              exact (hsplit e he).1 heq
            · exact nameConflict_eq_none hc

/-! ### All declarations -/

/-- The environment gives every name what the declarations of a program and a registry say. -/
structure TypeEnv.Reflects (env : TypeEnv) (registry : Registry) (p : Program) : Prop where
  outside : env.registry = registry
  distinct : (p.readable.declarations.map Decl.name).Nodup
  free : ∀ d ∈ p.readable.declarations,
    isBuiltinTypeName d.name = false ∧ d.name ∉ registry.declaredNames
  types : env.type? = declaredType? registry (p.readable.records.map RecordDecl.name)
    (p.readable.types.map TypeDecl.name)
  records : List.Forall₂ (fun (r : RecordDecl) (e : String × Ty.Record) =>
    e.1 = r.name ∧ (r.fields.map Typed.name).Nodup ∧
      ∃ fields, e.2 = ⟨fields, false⟩ ∧ Denoted env.type? r.fields fields)
    p.readable.records env.records
  domains : ∀ t ∈ p.readable.types,
    ∃ d, env.domains.lookup t.name = some d ∧ DomainDenoted env.type? t.body d
  foreign : ∀ n, n ∉ p.readable.types.map TypeDecl.name → env.domains.lookup n = none
  functions : List.Forall₂ (fun (f : FunctionDecl) (e : String × DeclaredFunction) =>
    e.1 = f.name.text ∧ SignatureDenoted env.type? f e.2.signature)
    p.readable.functions env.functions

theorem registered_eq (ds : List Decl) :
    registered (ds.map fun d => (d, d.isReadable)) = ds.filter Decl.isReadable := by
  simp [registered, List.filter_map, Function.comp_def]

/-- The declarations of a program whose names could be registered. -/
def Program.registered (registry : Registry) (p : Program) : Program :=
  { p with declarations := Prosaic.registered (registerNames registry [] p.declarations).1 }

/-- Where no name is in conflict, what is registered is what has a readable name. -/
theorem Program.registered_eq_readable {registry : Registry} {p : Program}
    (h : (registerNames registry [] p.declarations).2 = []) :
    p.registered registry = p.readable := by
  rw [registered, (registerNames_eq_nil h).1, registered_eq]
  rfl

namespace Declared

variable (registry : Registry)

/-- The records of a program as types. -/
def recordTypes (own : Program) : List (String × Ty) :=
  own.records.map fun r => (r.name, .record r.name)

/-- The type declarations of a program, resolved. -/
def aliases (own : Program) : Aliases :=
  let known : TypeEnv :=
    ⟨registry, [], recordTypes own ++ own.types.map fun t => (t.name, .error), [], []⟩
  own.types.foldl (fun a t => (a.resolve registry own.types known.typeNames
    (own.types.length + 1) [] t).2) ⟨recordTypes own, [], []⟩

/-- The environment of the types of a program. -/
def typed (own : Program) : TypeEnv :=
  ⟨registry, [], (aliases registry own).types, (aliases registry own).domains, []⟩

/-- The environment of the types and records of a program. -/
def recorded (own : Program) : TypeEnv :=
  { typed registry own with records := (recordDefinitions (typed registry own) own.records).1 }

/-- The signatures of the functions that are registered. -/
def functionTable (marked : List (Decl × Bool)) (signatures : List Signature) :
    List (String × DeclaredFunction) :=
  ((marked.filterMap fun (d, ok) =>
    match d with
    | .function f => some (f, ok)
    | _ => none).zip signatures).filterMap fun ((f, ok), s) =>
  if ok then some (f.name.text, ⟨f.span.start.line, s⟩) else none

/-- The stages of the resolution by name. -/
theorem of_eq (p : Program) :
    Declared.of registry p =
      let marked := (registerNames registry [] p.declarations).1
      let own : Program := { p with declarations := registered marked }
      let signatures := (recorded registry own).signatures p.functions
      ⟨{ recorded registry own with functions := functionTable marked signatures.1 }, signatures.1,
        (registerNames registry [] p.declarations).2 ++ (aliases registry own).found
          ++ (recordDefinitions (typed registry own) own.records).2 ++ signatures.2⟩ := rfl

theorem functionTable_eq (signature : FunctionDecl → Signature) (ds : List Decl) :
    functionTable (ds.map fun d => (d, d.isReadable))
        ((ds.filterMap Decl.function?).map signature) =
      ((ds.filter Decl.isReadable).filterMap Decl.function?).map
        fun f => (f.name.text, ⟨f.span.start.line, signature f⟩) := by
  induction ds with
  | nil => rfl
  | cons d ds ih =>
      unfold functionTable at ih ⊢
      rw [List.map_cons, List.filter_cons]
      cases d with
      | function f =>
          simp only [List.filterMap_cons, Decl.function?, List.map_cons, List.zip_cons_cons, ih]
          cases (Decl.function f).isReadable <;> rfl
      | type t =>
          simp only [List.filterMap_cons, Decl.function?, ih]
          cases (Decl.type t).isReadable <;> rfl
      | record r =>
          simp only [List.filterMap_cons, Decl.function?, ih]
          cases (Decl.record r).isReadable <;> rfl

variable {registry}

theorem registerNames_of_found {p : Program} (h : (Declared.of registry p).found = []) :
    (registerNames registry [] p.declarations).2 = [] := by
  rw [of_eq] at h
  simp only [List.append_eq_nil_iff] at h
  exact h.1.1.1

/-- The declarations of a program in which no name is in conflict. -/
theorem of_eq_of_registered {p : Program} (h : (registerNames registry [] p.declarations).2 = []) :
    Declared.of registry p =
      let signature f := ((recorded registry p.readable).signature f).1
      ⟨{ recorded registry p.readable with
          functions := p.readable.functions.map
            fun f => (f.name.text, ⟨f.span.start.line, signature f⟩) },
        p.functions.map signature,
        (aliases registry p.readable).found
          ++ (recordDefinitions (typed registry p.readable) p.readable.records).2
          ++ p.functions.flatMap fun f => ((recorded registry p.readable).signature f).2⟩ := by
  have hmarked := (registerNames_eq_nil h).1
  have htable := functionTable_eq (fun f => ((recorded registry p.readable).signature f).1)
    p.declarations
  rw [of_eq, h, hmarked]
  simp only [registered_eq, TypeEnv.signatures_eq, List.nil_append]
  exact congrArg (fun table => (⟨{ recorded registry p.readable with functions := table }, _, _⟩ :
    Declared)) htable

/-- Before any type declaration is resolved, the records are known and nothing else. -/
theorem recordTypes_sound (own : Program) :
    Aliases.Sound registry (own.records.map RecordDecl.name) own.types
      ⟨recordTypes own, [], []⟩ := by
  have hrecords : recordTypes own =
      (own.records.map RecordDecl.name).map fun n => (n, Ty.record n) := by
    simp [recordTypes, Function.comp_def]
  exact {
    known := fun n hn => by rw [hrecords, lookup_map_self, if_pos hn]
    only := fun n t ht => by
      rw [hrecords, lookup_map_self] at ht
      split at ht
      · next hn => exact .inl hn
      · cases ht
    defined := fun t ht htype => by
      rw [hrecords, lookup_map_self] at htype
      split at htype <;> cases htype
    foreign := fun _ _ => rfl }

/-- Type declarations that are resolved without findings give names the types that are declared. -/
theorem aliases_eq_nil {own : Program}
    (hdisjoint : ∀ t ∈ own.types, ∀ r ∈ own.records, r.name ≠ t.name)
    (hdistinct : (own.types.map TypeDecl.name).Nodup) (h : (aliases registry own).found = []) :
    let named := declaredType? registry (own.records.map RecordDecl.name)
      (own.types.map TypeDecl.name)
    (typed registry own).type? = named ∧
      (∀ t ∈ own.types, ∃ d, (aliases registry own).domains.lookup t.name = some d ∧
        DomainDenoted named t.body d) ∧
      ∀ n, n ∉ own.types.map TypeDecl.name → (aliases registry own).domains.lookup n = none := by
  have hrecordNames : ∀ t ∈ own.types, t.name ∉ own.records.map RecordDecl.name := by
    simpa using hdisjoint
  obtain ⟨-, hsound⟩ := Aliases.foldl_resolve hrecordNames hdistinct (List.Subset.refl own.types) h
  obtain ⟨hs, -, hall⟩ := hsound (recordTypes_sound own)
  refine ⟨funext fun n => ?_, fun t ht => hs.defined t ht (hall t ht), hs.foreign⟩
  unfold TypeEnv.type? declaredType?
  cases Base.ofText? n with
  | some b => rfl
  | none =>
      by_cases hrecord : n ∈ own.records.map RecordDecl.name
      · simp only [if_pos hrecord]
        exact congrArg (Option.or · _) (hs.known n hrecord)
      · by_cases halias : n ∈ own.types.map TypeDecl.name
        · simp only [if_neg hrecord, if_pos halias]
          obtain ⟨t, ht, rfl⟩ := List.mem_map.mp halias
          exact congrArg (Option.or · _) (hall t ht)
        · simp only [if_neg hrecord, if_neg halias]
          have hnone : (aliases registry own).types.lookup n = none := by
            cases hn : (aliases registry own).types.lookup n with
            | none => rfl
            | some t => exact absurd (hs.only n t hn) (by tauto)
          exact congrArg (Option.or · _) hnone

/-- Declarations that are resolved without findings are reflected by the environment, and there is a
signature for every function, registered or not. -/
theorem of_reflects {p : Program} (h : (Declared.of registry p).found = []) :
    (Declared.of registry p).env.Reflects registry p ∧
      List.Forall₂ (SignatureDenoted (Declared.of registry p).env.type?) p.functions
        (Declared.of registry p).signatures := by
  have hnames := registerNames_of_found h
  obtain ⟨-, hdistinct, hfree⟩ := registerNames_eq_nil hnames
  rw [of_eq_of_registered hnames] at h ⊢
  simp only [List.append_eq_nil_iff, List.flatMap_eq_nil_iff, recordDefinitions_eq] at h ⊢
  obtain ⟨⟨haliases, hrecords⟩, hsignatures⟩ := h
  obtain ⟨htype, hdefined, hforeign⟩ := aliases_eq_nil
    (fun t ht r hr => Program.recordName_ne_typeName hdistinct hr ht)
    (Program.nodup_typeNames hdistinct) haliases
  have hsignature : ∀ f ∈ p.functions, SignatureDenoted (typed registry p.readable).type? f
      ((recorded registry p.readable).signature f).1 :=
    fun f hf => TypeEnv.signature_eq_nil _ (hsignatures f hf)
  refine ⟨{
    outside := rfl
    distinct := hdistinct
    free := fun d hd => ?_
    types := htype
    records := ?_
    domains := fun t ht => by
      obtain ⟨d, hd, hbody⟩ := hdefined t ht
      exact ⟨d, hd, htype ▸ hbody⟩
    foreign := hforeign
    functions := ?_ }, ?_⟩
  · obtain ⟨hmem, hreadable⟩ := List.mem_filter.mp hd
    exact ⟨(hfree d hmem hreadable).1, (hfree d hmem hreadable).2.1⟩
  · show List.Forall₂ _ _ (recordDefinitions (typed registry p.readable) p.readable.records).1
    rw [recordDefinitions_eq, List.forall₂_map_right_iff, List.forall₂_same]
    intro r hr
    obtain ⟨⟨fields, hfields, hdenoted⟩, -, hnodup⟩ := recordFields_eq_nil (hrecords r hr)
    exact ⟨rfl, hnodup, fields, by rw [hfields, List.nil_append], hdenoted⟩
  · rw [List.forall₂_map_right_iff]
    refine List.forall₂_same.mpr fun f hf => ⟨rfl, hsignature f ?_⟩
    have := Program.mem_functions (p := p.readable).mp hf
    exact Program.mem_functions.mpr (List.mem_filter.mp this).1
  · rw [List.forall₂_map_right_iff, List.forall₂_same]
    exact hsignature

end Declared

/-! ### Headers

The declarations of a program are resolved without a look at the bodies of its functions. -/

/-- A declaration without the body, if it is that of a function. -/
def Decl.header : Decl → Decl
  | .function f => .function { f with body := [] }
  | d => d

/-- A program without the bodies of its functions. -/
def Program.headers (p : Program) : Program :=
  { p with declarations := p.declarations.map Decl.header }

theorem registerNames_header (registry : Registry) (lines : List (String × Nat)) (ds : List Decl) :
    registerNames registry lines (ds.map Decl.header) =
      ((registerNames registry lines ds).1.map (Prod.map Decl.header id),
        (registerNames registry lines ds).2) := by
  have hname : ∀ d : Decl, d.header.name = d.name := fun d => by cases d <;> rfl
  have hspan : ∀ d : Decl, d.header.span = d.span := fun d => by cases d <;> rfl
  have hconflict : ∀ lines d,
      nameConflict registry lines d.header = nameConflict registry lines d := fun lines d => by
    cases d <;> rfl
  induction ds generalizing lines with
  | nil => rfl
  | cons d ds ih =>
      simp only [List.map_cons, registerNames, hname, hspan, hconflict, ih]
      split
      · rfl
      · split <;> rfl

theorem registered_header (marked : List (Decl × Bool)) :
    registered (marked.map (Prod.map Decl.header id)) = (registered marked).map Decl.header := by
  simp only [registered, List.filter_map, List.map_map]
  rfl

namespace Program

variable (p : Program)

theorem functions_headers :
    p.headers.functions = p.functions.map fun f => { f with body := [] } := by
  simp only [functions, headers, List.filterMap_map, List.map_filterMap]
  congr 1
  funext d
  cases d <;> rfl

theorem types_headers : p.headers.types = p.types := by
  simp only [types, headers, List.filterMap_map]
  congr 1
  funext d
  cases d <;> rfl

theorem records_headers : p.headers.records = p.records := by
  simp only [records, headers, List.filterMap_map]
  congr 1
  funext d
  cases d <;> rfl

end Program

theorem TypeEnv.signatures_headers (env : TypeEnv) (fs : List FunctionDecl) :
    env.signatures (fs.map fun f => { f with body := [] }) = env.signatures fs := by
  induction fs with
  | nil => rfl
  | cons f fs ih =>
      simp only [List.map_cons, signatures, ih]
      rfl

namespace Declared

variable (registry : Registry)

theorem aliases_headers (own : Program) : aliases registry own.headers = aliases registry own := by
  simp only [aliases, recordTypes, Program.types_headers, Program.records_headers]

theorem typed_headers (own : Program) : typed registry own.headers = typed registry own := by
  simp only [typed, aliases_headers]

theorem recorded_headers (own : Program) :
    recorded registry own.headers = recorded registry own := by
  simp only [recorded, typed_headers, Program.records_headers]

theorem functionTable_headers (marked : List (Decl × Bool)) (signatures : List Signature) :
    functionTable (marked.map (Prod.map Decl.header id)) signatures =
      functionTable marked signatures := by
  induction marked generalizing signatures with
  | nil => rfl
  | cons m marked ih =>
      unfold functionTable at ih ⊢
      obtain ⟨d, ok⟩ := m
      cases d with
      | function f =>
          cases signatures with
          | nil => simp only [List.zip_nil_right]
          | cons s signatures =>
              simp only [List.map_cons, Prod.map, Decl.header, id, List.filterMap_cons,
                List.zip_cons_cons]
              rw [ih]
      | type t =>
          simp only [List.map_cons, Prod.map, Decl.header, id, List.filterMap_cons]
          exact ih signatures
      | record r =>
          simp only [List.map_cons, Prod.map, Decl.header, id, List.filterMap_cons]
          exact ih signatures

/-- What a program declares does not depend on the bodies of its functions. -/
theorem of_headers (p : Program) : Declared.of registry p.headers = Declared.of registry p := by
  let own : Program :=
    { p with declarations := registered (registerNames registry [] p.declarations).1 }
  have hown : (⟨own.declarations.map Decl.header, p.span⟩ : Program) = own.headers := rfl
  simp only [of_eq, Program.functions_headers, TypeEnv.signatures_headers]
  simp only [Program.headers, registerNames_header, registered_header, functionTable_headers]
  simp only [hown, own, aliases_headers, typed_headers, recorded_headers, Program.records_headers]

end Declared

end Prosaic
