import Prosaic.Proofs.Registry.Extension
import Prosaic.Proofs.Typing.Declared
import Prosaic.Proofs.Typing.Findings

/-!
The types that the declarations of a program lead to. Where the types of its own names are of a
family, and all that a registry declares leads to types of that family, so does the environment in
which the bodies are checked.
-/

namespace Prosaic

variable {P : Ty → Prop}

/-! ### Type declarations -/

namespace Aliases

/-- What is resolved so far is of a family. -/
structure Over (P : Ty → Prop) (a : Aliases) : Prop where
  types : ∀ e ∈ a.types, P e.2
  domains : ∀ e ∈ a.domains, ∀ t ∈ e.2.underlying, P t

theorem Over.lookup {a : Aliases} (h : a.Over P) {name : String} {t : Ty}
    (ht : a.types.lookup name = some t) : P t := h.types _ (mem_of_lookup ht)

theorem Over.define {a : Aliases} (h : a.Over P) {name : String} (hname : P (.domain name))
    {d : Ty.Domain} (hd : ∀ t ∈ d.underlying, P t) : (a.define name d).Over P := by
  unfold Aliases.define
  split
  · exact h
  · exact ⟨List.forall_mem_cons.mpr ⟨hname, h.types⟩, List.forall_mem_cons.mpr ⟨hd, h.domains⟩⟩

/-- A step that comes to a type of a family and keeps to it. -/
def StepOver (P : Ty → Prop) (step : Aliases → Ty × Aliases) : Prop :=
  ∀ a, a.Over P → P (step a).1 ∧ (step a).2.Over P

variable (hP : Ty.Family P)

include hP

theorem reference_over {step : String → Position → Aliases → Ty × Aliases}
    (hstep : ∀ name start, StepOver P (step name start)) (ref : TypeRef) :
    StepOver P (reference step ref) := by
  induction ref with
  | named name span =>
      intro a ha
      unfold reference
      split
      · exact ⟨hP.error, ha.types, ha.domains⟩
      · exact hstep name span.start a ha
  | list element span ih =>
      intro a ha
      exact (ih a ha).imp_left (hP.list _).mpr

variable {registry : Registry} (hregistry : registry.Over P) {declared : List TypeDecl}

include hregistry

theorem named_over {known : List String} {fuel : Nat} {opened : List String}
    (hresolve : ∀ t ∈ declared, StepOver P (resolve registry declared known fuel opened t))
    (name : String) (start : Position) :
    StepOver P (named registry declared known fuel opened name start) := by
  intro a ha
  unfold named
  split
  · exact ⟨hP.base _, ha⟩
  · next hbase =>
      split
      · next t ht => exact ⟨ha.lookup ht, ha⟩
      · split
        · next other hother => exact hresolve other (List.mem_of_find?_eq_some hother) a ha
        · split
          · next t ht =>
              rw [Registry.type?, hbase] at ht
              exact ⟨hregistry.types name t ht, ha⟩
          · exact ⟨hP.error, ha.types, ha.domains⟩

variable (hdeclared : ∀ t ∈ declared, P (.domain t.name))

include hdeclared

/-- A declaration comes to a type of the family, whatever is resolved on the way. -/
theorem resolve_over {known : List String} (fuel : Nat) (opened : List String) {t : TypeDecl}
    (ht : t ∈ declared) : StepOver P (resolve registry declared known fuel opened t) := by
  induction fuel generalizing opened t with
  | zero => exact fun a ha => ⟨hP.error, ha⟩
  | succ fuel ih =>
      intro a ha
      have hdefine : ∀ {a : Aliases} {d : Ty.Domain}, a.Over P → (∀ u ∈ d.underlying, P u) →
          P (((a.define t.name d).types.lookup t.name).getD .error) ∧
            (a.define t.name d).Over P := by
        intro a d ha hd
        have hdefined := ha.define (hdeclared t ht) hd
        refine ⟨?_, hdefined⟩
        cases hlookup : (a.define t.name d).types.lookup t.name with
        | none => exact hP.error
        | some u => exact hdefined.lookup hlookup
      rw [resolve_succ]
      split
      · next u hu => exact ⟨ha.lookup hu, ha⟩
      · split
        · exact ⟨hP.error, List.forall_mem_cons.mpr ⟨hP.error, ha.types⟩, ha.domains⟩
        · cases t.body with
          | literals values => exact hdefine ha (TypeEnv.forall_mem_some (hP.base _))
          | reference ref =>
              obtain ⟨hu, hrest⟩ := reference_over hP (named_over hP hregistry
                fun other hother => ih (t.name :: opened) hother) ref a ha
              exact hdefine hrest (TypeEnv.forall_mem_some hu)

theorem foldl_over {known : List String} (fuel : Nat) {ts : List TypeDecl} (hts : ts ⊆ declared)
    {a : Aliases} (ha : a.Over P) :
    (ts.foldl (fun a t => (resolve registry declared known fuel [] t a).2) a).Over P := by
  induction ts generalizing a with
  | nil => exact ha
  | cons t ts ih =>
      obtain ⟨ht, hts⟩ := List.cons_subset.mp hts
      exact ih hts (resolve_over hP hregistry hdeclared fuel [] ht a ha).2

end Aliases

/-! ### All declarations -/

namespace Declared

theorem signature_mem_of_functionTable {marked : List (Decl × Bool)} {signatures : List Signature}
    {e : String × DeclaredFunction} (h : e ∈ functionTable marked signatures) :
    e.2.signature ∈ signatures := by
  obtain ⟨⟨⟨f, ok⟩, s⟩, hmem, he⟩ := List.mem_filterMap.mp h
  cases ok with
  | false => cases he
  | true =>
      cases he
      exact (List.of_mem_zip hmem).2

section

variable (hP : Ty.Family P) {registry : Registry} (hregistry : registry.Over P) {own : Program}
  (htypes : ∀ t ∈ own.types, P (.domain t.name)) (hrecords : ∀ r ∈ own.records, P (.record r.name))

include hP hregistry htypes hrecords

theorem aliases_over : (aliases registry own).Over P := by
  refine Aliases.foldl_over hP hregistry htypes _ (List.Subset.refl _) ⟨?_, List.forall_mem_nil _⟩
  exact List.forall_mem_map.mpr hrecords

theorem type?_over (n : String) (t : Ty) (h : (typed registry own).type? n = some t) : P t := by
  unfold TypeEnv.type? at h
  split at h
  · cases h
    exact hP.base _
  · next hbase =>
      rcases Option.or_eq_some_iff.mp h with h | ⟨-, h⟩
      · exact (aliases_over hP hregistry htypes hrecords).lookup h
      · rw [Registry.type?, hbase] at h
        exact hregistry.types n t h

theorem recordDefinitions_over :
    ∀ e ∈ (recordDefinitions (typed registry own) own.records).1, ∀ f ∈ e.2.fields, P f.2 := by
  have hnames : ∀ n t, True → (typed registry own).type? n = some t → P t := fun n t _ =>
    type?_over hP hregistry htypes hrecords n t
  simp only [recordDefinitions_eq, List.forall_mem_map]
  exact fun r _ => TypeEnv.recordFields_over hP hnames r.name (fun _ _ => trivial)
    (List.forall_mem_nil _)

/-- The environment of a program leads to types of the family if the signatures in it do. -/
theorem recorded_over {functions : List (String × DeclaredFunction)}
    (hfunctions : ∀ e ∈ functions, e.2.signature.Over P) :
    TypeEnv.Over (fun _ => True) P { recorded registry own with functions := functions } where
  functions n f _ hf := hfunctions _ (mem_of_lookup hf)
  helpers n s _ hs := hregistry.helpers n s hs
  operations n s _ hs := hregistry.operations n s hs
  types n t _ := type?_over hP hregistry htypes hrecords n t
  underlying t u _ hu := by
    obtain ⟨d, hd, hmade⟩ := Option.bind_eq_some_iff.mp hu
    cases t with
    | domain name =>
        rcases Option.or_eq_some_iff.mp hd with hd | ⟨-, hd⟩
        · exact (aliases_over hP hregistry htypes hrecords).domains _ (mem_of_lookup hd) u hmade
        · exact hregistry.domains name d hd u hmade
    | _ => cases hd
  fields t r _ hr := by
    cases t with
    | record name =>
        rcases Option.or_eq_some_iff.mp hr with hr | ⟨-, hr⟩
        · exact recordDefinitions_over hP hregistry htypes hrecords _ (mem_of_lookup hr)
        · exact hregistry.records name r hr
    | _ => cases hr

theorem signatures_over (fs : List FunctionDecl) :
    ∀ s ∈ ((recorded registry own).signatures fs).1, s.Over P := by
  -- the records that are added do not change what names stand for
  have hnames : ∀ n t, True → (recorded registry own).type? n = some t → P t := fun n t _ =>
    type?_over hP hregistry htypes hrecords n t
  simp only [TypeEnv.signatures_eq, List.forall_mem_map]
  exact fun f _ => TypeEnv.signature_over hP hnames (fun _ _ => trivial) fun _ _ => trivial

end

/-- What a program declares leads to types of a family if its own types and those of the registry
are. -/
theorem of_over (hP : Ty.Family P) {registry : Registry} (hregistry : registry.Over P) {p : Program}
    (htypes : ∀ t ∈ p.types, P (.domain t.name)) (hrecords : ∀ r ∈ p.records, P (.record r.name)) :
    (Declared.of registry p).env.Over (fun _ => True) P ∧
      ∀ s ∈ (Declared.of registry p).signatures, s.Over P := by
  obtain ⟨own, hown⟩ : ∃ own : Program, own = { p with
      declarations := registered (registerNames registry [] p.declarations).1 } := ⟨_, rfl⟩
  have hsub : ∀ d ∈ own.declarations, d ∈ p.declarations := by
    rw [hown]
    exact fun d => mem_registered
  have hownTypes : ∀ t ∈ own.types, P (.domain t.name) := fun t ht =>
    htypes t (Program.mem_types.mpr (hsub _ (Program.mem_types.mp ht)))
  have hownRecords : ∀ r ∈ own.records, P (.record r.name) := fun r hr =>
    hrecords r (Program.mem_records.mpr (hsub _ (Program.mem_records.mp hr)))
  have hsignatures := signatures_over hP hregistry hownTypes hownRecords p.functions
  simp only [of_eq, ← hown]
  exact ⟨recorded_over hP hregistry hownTypes hownRecords fun e he =>
    hsignatures _ (signature_mem_of_functionTable he), hsignatures⟩

end Declared

end Prosaic
