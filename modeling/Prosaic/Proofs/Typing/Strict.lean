import Prosaic.Proofs.Typing.Findings
import Prosaic.Proofs.Typing.OnDemand

/-!
The type check read strictly: by the time that the type of a declaration is given back, its name has
to be in the table, and every function has to have a signature at its place. The strict reading has
no outcome where one of them is missing. It agrees with the check on every program.
-/

namespace Prosaic

/-! ### Type declarations -/

namespace Aliases

/-- Resolves a reference, given how to resolve a name. -/
def referenceStrict (named : String → Position → Aliases → Option (Ty × Aliases)) :
    TypeRef → Aliases → Option (Ty × Aliases)
  | .named name span, a =>
    if name = "List" then some (.error, a.report (TypeEnv.bareList span.start))
    else named name span.start a
  | .list element _, a => do
    let (t, a) ← referenceStrict named element a
    return (.list t, a)

section

variable (registry : Registry) (declared : List TypeDecl) (known : List String)

/-- Resolves a name, given how to resolve a declaration. -/
def namedStrict (resolve : TypeDecl → Aliases → Option (Ty × Aliases)) (name : String)
    (start : Position) (a : Aliases) : Option (Ty × Aliases) :=
  match Base.ofText? name with
  | some b => some (.base b, a)
  | none =>
    match a.types.lookup name with
    | some ty => some (ty, a)
    | none =>
      match declared.find? fun t => t.name == name with
      | some other => resolve other a
      | none =>
        match registry.type? name with
        | some ty => some (ty, a)
        | none => some (.error, a.report (TypeEnv.unknownType known name start))

/-- The type of a declared name, which is in the table by the time that its type is given back. -/
def resolveStrict : Nat → List String → TypeDecl → Aliases → Option (Ty × Aliases)
  | 0, _, _, _ => none
  | fuel + 1, opened, t, a =>
    match a.types.lookup t.name with
    | some ty => some (ty, a)
    | none =>
      if opened.contains t.name then some (.error, a.cyclic t)
      else do
        let (domain, a) ← match t.body with
          | .literals values => some ((⟨some .string, values, false⟩ : Ty.Domain), a)
          | .reference ref =>
            let named :=
              namedStrict registry declared known (resolveStrict fuel (t.name :: opened))
            (referenceStrict named ref a).map fun (ty, a) => (⟨some ty, [], false⟩, a)
        let a := a.define t.name domain
        return (← a.types.lookup t.name, a)

/-- Resolves declarations one after another. -/
def resolveAllStrict : List TypeDecl → Aliases → Option Aliases
  | [], a => some a
  | t :: ts, a => do
    let (_, a) ← resolveStrict registry declared known (declared.length + 1) [] t a
    resolveAllStrict ts a

end

variable {registry : Registry} {declared : List TypeDecl} {known opened : List String} {fuel : Nat}

theorem namedStrict_eq {resolveStrict : TypeDecl → Aliases → Option (Ty × Aliases)}
    (h : ∀ t ∈ declared, ∀ a, resolveStrict t a =
      some (resolve registry declared known fuel opened t a))
    (name : String) (start : Position) (a : Aliases) :
    namedStrict registry declared known resolveStrict name start a =
      some (named registry declared known fuel opened name start a) := by
  unfold namedStrict named
  cases Base.ofText? name with
  | some b => rfl
  | none =>
      cases a.types.lookup name with
      | some ty => rfl
      | none =>
          cases hfind : declared.find? fun t => t.name == name with
          | some other => exact h other (List.mem_of_find?_eq_some hfind) a
          | none => cases registry.type? name <;> rfl

theorem referenceStrict_eq {strict : String → Position → Aliases → Option (Ty × Aliases)}
    {step : String → Position → Aliases → Ty × Aliases}
    (h : ∀ name start a, strict name start a = some (step name start a)) (ref : TypeRef)
    (a : Aliases) : referenceStrict strict ref a = some (reference step ref a) := by
  induction ref with
  | named name span =>
      rw [referenceStrict, reference, h]
      split <;> rfl
  | list element span ih =>
      rw [referenceStrict, ih]
      rfl

/-- Each step opens one more declaration, so that the bound is never reached, and what has been
defined is in the table. -/
theorem resolveStrict_eq (hopened : opened.Nodup) (hsub : opened ⊆ declared.map TypeDecl.name)
    (hfuel : declared.length < opened.length + fuel) {t : TypeDecl} (ht : t ∈ declared)
    (a : Aliases) : resolveStrict registry declared known fuel opened t a =
      some (resolve registry declared known fuel opened t a) := by
  induction fuel generalizing opened t a with
  | zero =>
      have hle := (hopened.subperm hsub).length_le
      rw [List.length_map] at hle
      omega
  | succ fuel ih =>
      rw [resolve_succ, resolveStrict]
      cases hlookup : a.types.lookup t.name with
      | some ty => rfl
      | none =>
          by_cases hopen : t.name ∈ opened
          · simp only [List.contains_eq_mem, hopen, decide_true, if_true]
          · simp only [List.contains_eq_mem, hopen, decide_false, Bool.false_eq_true, if_false]
            have hdefined : ∀ (b : Aliases) (d : Ty.Domain), ((b.define t.name d).types.lookup
                t.name).bind (fun ty => some (ty, b.define t.name d)) =
                  some (((b.define t.name d).types.lookup t.name).getD .error,
                    b.define t.name d) := by
              intro b d
              obtain ⟨ty, hty⟩ : ∃ ty, (b.define t.name d).types.lookup t.name = some ty :=
                ⟨_, lookup_define ..⟩
              rw [hty]
              rfl
            cases hbody : t.body with
            | literals values => exact hdefined a _
            | reference ref =>
                have hnext : ∀ u ∈ declared, ∀ b, resolveStrict registry declared known fuel
                    (t.name :: opened) u b =
                      some (resolve registry declared known fuel (t.name :: opened) u b) := by
                  refine fun u hu b => ih (List.nodup_cons.mpr ⟨hopen, hopened⟩)
                    (List.cons_subset.mpr ⟨List.mem_map_of_mem ht, hsub⟩) ?_ hu b
                  rw [List.length_cons]
                  omega
                simp only [referenceStrict_eq (namedStrict_eq hnext)]
                exact hdefined _ _

theorem resolveAllStrict_eq {ts : List TypeDecl} (hts : ts ⊆ declared) (a : Aliases) :
    resolveAllStrict registry declared known ts a = some (ts.foldl (fun a t =>
      (resolve registry declared known (declared.length + 1) [] t a).2) a) := by
  induction ts generalizing a with
  | nil => rfl
  | cons t ts ih =>
      obtain ⟨ht, hts⟩ := List.cons_subset.mp hts
      have hfuel : declared.length < ([] : List String).length + (declared.length + 1) := by simp
      rw [resolveAllStrict, resolveStrict_eq List.nodup_nil (List.nil_subset _) hfuel ht]
      exact ih hts _

end Aliases

/-! ### All declarations -/

namespace Declared

/-- The signatures of the functions that are registered, each at the place of its function. -/
def functionTableStrict :
    List (Decl × Bool) → List Signature → Option (List (String × DeclaredFunction))
  | [], _ => some []
  | (.function f, ok) :: marked, s :: ss => do
    let table ← functionTableStrict marked ss
    return if ok then (f.name.text, ⟨f.span.start.line, s⟩) :: table else table
  | (.function _, _) :: _, [] => none
  | _ :: marked, ss => functionTableStrict marked ss

/-- Resolves the declarations of a program, strictly. -/
def ofStrict (registry : Registry) (p : Program) : Option Declared := do
  let (marked, nameFindings) := registerNames registry [] p.declarations
  let own : Program := { p with declarations := registered marked }
  let known : TypeEnv :=
    ⟨registry, [], recordTypes own ++ own.types.map fun t => (t.name, .error), [], []⟩
  let resolved ← Aliases.resolveAllStrict registry own.types known.typeNames own.types
    ⟨recordTypes own, [], []⟩
  let env : TypeEnv := ⟨registry, [], resolved.types, resolved.domains, []⟩
  let (records, recordFindings) := recordDefinitions env own.records
  let env := { env with records := records }
  let (signatures, signatureFindings) := env.signatures p.functions
  let functions ← functionTableStrict marked signatures
  return ⟨{ env with functions := functions }, signatures,
    nameFindings ++ resolved.found ++ recordFindings ++ signatureFindings⟩

theorem functionTableStrict_eq {marked : List (Decl × Bool)} {ss : List Signature}
    (h : ((marked.map Prod.fst).filterMap Decl.function?).length ≤ ss.length) :
    functionTableStrict marked ss = some (functionTable marked ss) := by
  induction marked generalizing ss with
  | nil => rfl
  | cons m marked ih =>
      obtain ⟨d, ok⟩ := m
      cases d with
      | type t =>
          rw [functionTableStrict, ih h]
          · rfl
          all_goals exact nofun
      | record r =>
          rw [functionTableStrict, ih h]
          · rfl
          all_goals exact nofun
      | function f =>
          cases ss with
          | nil => simp [Decl.function?] at h
          | cons s ss =>
              rw [functionTableStrict, ih (Nat.le_of_succ_le_succ h)]
              cases ok <;> rfl

theorem ofStrict_eq (registry : Registry) (p : Program) :
    ofStrict registry p = some (Declared.of registry p) := by
  have hsignatures : ∀ env : TypeEnv, functionTableStrict
      (registerNames registry [] p.declarations).1 (env.signatures p.functions).1 =
        some (functionTable (registerNames registry [] p.declarations).1
          (env.signatures p.functions).1) := by
    intro env
    refine functionTableStrict_eq ?_
    rw [map_fst_registerNames, TypeEnv.signatures_eq, List.length_map, Program.functions_eq]
  unfold ofStrict
  simp only [Aliases.resolveAllStrict_eq (List.Subset.refl _), hsignatures, Option.bind_eq_bind,
    Option.bind_some]
  rfl

end Declared

/-! ### Functions -/

/-- Checks the bodies of all functions, each of which has a signature. -/
def TypeEnv.checkDeclsStrict (env : TypeEnv) :
    Timer → List Decl → List Signature → Option (List Decl × List Diagnostic × Timer)
  | timer, [], _ => some ([], [], timer)
  | timer, .function f :: ds, s :: ss => do
    let (f, found, timer) := env.checkFunction timer f s
    let (ds, more, timer) ← env.checkDeclsStrict timer ds ss
    return (.function f :: ds, found ++ more, timer)
  | _, .function _ :: _, [] => none
  | timer, d :: ds, ss => do
    let (ds, found, timer) ← env.checkDeclsStrict timer ds ss
    return (d :: ds, found, timer)

theorem TypeEnv.checkDeclsStrict_eq (env : TypeEnv) {timer : Timer} {ds : List Decl}
    {ss : List Signature} (h : (ds.filterMap Decl.function?).length ≤ ss.length) :
    env.checkDeclsStrict timer ds ss = some (env.checkDecls timer ds ss) := by
  induction ds generalizing timer ss with
  | nil => simp only [checkDeclsStrict, checkDecls]
  | cons d ds ih =>
      cases d with
      | type t =>
          rw [checkDeclsStrict, ih h, checkDecls]
          · rfl
          all_goals
            intros
            contradiction
      | record r =>
          rw [checkDeclsStrict, ih h, checkDecls]
          · rfl
          all_goals
            intros
            contradiction
      | function f =>
          cases ss with
          | nil => simp [Decl.function?] at h
          | cons s ss =>
              rw [checkDeclsStrict, checkDecls]
              simp only [ih (Nat.le_of_succ_le_succ h), Option.bind_eq_bind,
                Option.bind_some]
              rfl

/-- Checks the types of a program, strictly. -/
def Program.checkTypesStrict (program : Program) (registry : Registry) (budget : Budget) :
    Option (Checked (List Diagnostic)) := do
  let declared ← Declared.ofStrict registry program
  let (ds, found, timer) ←
    declared.env.checkDeclsStrict ⟨budget, none⟩ program.declarations declared.signatures
  return ⟨{ program with declarations := ds }, timer.budget,
    match timer.exceeded with
    | some e => .error e
    | none => .ok (declared.found ++ found)⟩

/-- Whatever the type check of a program looks up is there. -/
theorem Program.checkTypesStrict_eq (p : Program) (registry : Registry) (budget : Budget) :
    p.checkTypesStrict registry budget = some (p.checkTypes registry budget) := by
  have hsignatures : (p.declarations.filterMap Decl.function?).length ≤
      (Declared.of registry p).signatures.length := by
    simp [Declared.of_eq, TypeEnv.signatures_eq, Program.functions_eq]
  rw [checkTypesStrict, Declared.ofStrict_eq]
  simp only [Option.bind_eq_bind, Option.bind_some, TypeEnv.checkDeclsStrict_eq _ hsignatures]
  rfl

end Prosaic
