import Mathlib.Data.List.Forall2
import Mathlib.Data.List.Nodup
import Mathlib.Data.List.Perm.Subperm
import Prosaic.Typing.Declared

/-!
What references to types denote, given the types of names, and what is declared with their help:
typed names, signatures and domain types. A reference that is resolved without findings has the type
that it denotes.

Type declarations. They are resolved on demand; that none of them is cyclic shows only in the
findings, so the invariant of the resolution speaks about runs that end without any.
-/

namespace Prosaic

/-! ### References -/

/-- The type that a reference denotes, given the types of names. `List` alone denotes none. -/
def TypeRef.denote? (named : String → Option Ty) : TypeRef → Option Ty
  | .named name _ => if name = "List" then none else named name
  | .list element _ => (element.denote? named).map .list

/-- Names with the types that are declared for them. -/
def Denoted (named : String → Option Ty) (declared : List Typed) (types : List (String × Ty)) :
    Prop :=
  List.Forall₂ (fun d t => t.1 = d.name ∧ d.ty.denote? named = some t.2) declared types

/-- The signature of a function as it is declared. -/
structure SignatureDenoted (named : String → Option Ty) (f : FunctionDecl) (s : Signature) :
    Prop where
  parameters : Denoted named f.parameters s.parameters
  returns : Option.Rel (fun ref t => ref.denote? named = some t) f.returns s.returns

/-- What a type declaration says about its name. -/
def DomainDenoted (named : String → Option Ty) : TypeBody → Ty.Domain → Prop
  | .literals values, d => d = ⟨some .string, values, false⟩
  | .reference ref, d => ∃ t, ref.denote? named = some t ∧ d = ⟨some t, [], false⟩

namespace TypeEnv

variable (env : TypeEnv)

theorem resolve_eq_nil {ref : TypeRef} (h : (env.resolve ref).2 = []) :
    ref.denote? env.type? = some (env.resolve ref).1 := by
  induction ref with
  | named name span =>
      simp only [resolve, TypeRef.denote?] at h ⊢
      by_cases hlist : name = "List"
      · simp [hlist] at h
      · cases ht : env.type? name with
        | none => simp [hlist, ht] at h
        | some t => simp [hlist]
  | list element span ih =>
      simp only [resolve, TypeRef.denote?] at h ⊢
      rw [ih h, Option.map_some]

theorem resolveAll_eq (refs : List TypeRef) :
    env.resolveAll refs =
      (refs.map fun r => (env.resolve r).1, refs.flatMap fun r => (env.resolve r).2) := by
  induction refs with
  | nil => rfl
  | cons r rs ih => simp [resolveAll, ih]

theorem signature_eq_nil {f : FunctionDecl} (h : (env.signature f).2 = []) :
    SignatureDenoted env.type? f (env.signature f).1 := by
  have hparameters : ∀ ps : List Typed, (ps.flatMap fun p => (env.resolve p.ty).2) = [] →
      Denoted env.type? ps ((ps.map Typed.name).zip (ps.map fun p => (env.resolve p.ty).1)) := by
    intro ps hps
    induction ps with
    | nil => exact .nil
    | cons p ps ih =>
        rw [List.flatMap_cons, List.append_eq_nil_iff] at hps
        exact .cons ⟨rfl, resolve_eq_nil env hps.1⟩ (ih hps.2)
  simp only [signature, resolveAll_eq, List.map_map, List.flatMap_map] at h ⊢
  cases hr : f.returns with
  | none =>
      simp only [hr] at h ⊢
      refine ⟨hparameters f.parameters h, ?_⟩
      rw [hr]
      exact .none
  | some ref =>
      simp only [hr, List.append_eq_nil_iff] at h ⊢
      refine ⟨hparameters f.parameters h.1, ?_⟩
      rw [hr]
      exact .some (resolve_eq_nil env h.2)

theorem signatures_eq (fs : List FunctionDecl) :
    env.signatures fs =
      (fs.map fun f => (env.signature f).1, fs.flatMap fun f => (env.signature f).2) := by
  induction fs with
  | nil => rfl
  | cons f fs ih => simp [signatures, ih]

end TypeEnv

/-! ### Type declarations -/

/-- The type of a name, given the records and the type declarations of a program. -/
def declaredType? (registry : Registry) (records aliases : List String) (name : String) :
    Option Ty :=
  match Base.ofText? name with
  | some b => some (.base b)
  | none =>
    if name ∈ records then some (.record name)
    else if name ∈ aliases then some (.domain name)
    else registry.type? name

namespace Aliases

variable (registry : Registry) (records : List String) (declared : List TypeDecl)

/-- What has been resolved agrees with the declarations. -/
structure Sound (a : Aliases) : Prop where
  known : ∀ n ∈ records, a.types.lookup n = some (.record n)
  only : ∀ n t, a.types.lookup n = some t →
    n ∈ records ∨ (n ∈ declared.map TypeDecl.name ∧ t = .domain n)
  defined : ∀ t ∈ declared, a.types.lookup t.name = some (.domain t.name) →
    ∃ d, a.domains.lookup t.name = some d ∧
      DomainDenoted (declaredType? registry records (declared.map TypeDecl.name)) t.body d
  foreign : ∀ n, n ∉ declared.map TypeDecl.name → a.domains.lookup n = none

/-- Nothing that was known is forgotten. -/
def Extends (a b : Aliases) : Prop :=
  ∀ n t, a.types.lookup n = some t → b.types.lookup n = some t

/-- A step that finds nothing keeps what is resolved sound, and yields the type of what it
resolves. -/
def Resolves (a : Aliases) (t : Option Ty) (result : Ty × Aliases) : Prop :=
  result.2.found = [] → a.found = [] ∧
    (Sound registry records declared a →
      Sound registry records declared result.2 ∧ Extends a result.2 ∧ t = some result.1)

/-- The same for a declaration, whose name has its type from then on. -/
def Establishes (a : Aliases) (t : TypeDecl) (result : Ty × Aliases) : Prop :=
  Resolves registry records declared a (some (.domain t.name)) result ∧
    (result.2.found = [] → Sound registry records declared a →
      result.2.types.lookup t.name = some (.domain t.name))

/-- What the resolution of a declaration does with a name in it. -/
def named (knownNames : List String) (fuel : Nat) (opened : List String) (name : String)
    (start : Position) (a : Aliases) : Ty × Aliases :=
  match Base.ofText? name with
  | some b => (.base b, a)
  | none =>
    match a.types.lookup name with
    | some ty => (ty, a)
    | none =>
      match declared.find? fun t => t.name == name with
      | some other => resolve registry declared knownNames fuel opened other a
      | none =>
        match registry.type? name with
        | some ty => (ty, a)
        | none => (.error, a.report (TypeEnv.unknownType knownNames name start))

theorem resolve_succ (knownNames : List String) (fuel : Nat) (opened : List String) (t : TypeDecl)
    (a : Aliases) :
    resolve registry declared knownNames (fuel + 1) opened t a =
      match a.types.lookup t.name with
      | some ty => (ty, a)
      | none =>
        if opened.contains t.name then (.error, a.cyclic t)
        else
          let (domain, a) : Ty.Domain × Aliases := match t.body with
            | .literals values => (⟨some .string, values, false⟩, a)
            | .reference ref =>
              let (ty, a) :=
                reference (named registry declared knownNames fuel (t.name :: opened)) ref a
              (⟨some ty, [], false⟩, a)
          let a := a.define t.name domain
          ((a.types.lookup t.name).getD .error, a) := rfl

theorem reference_resolves {step : String → Position → Aliases → Ty × Aliases}
    (hstep : ∀ name start a, Resolves registry records declared a
      (declaredType? registry records (declared.map TypeDecl.name) name) (step name start a))
    (ref : TypeRef) (a : Aliases) :
    Resolves registry records declared a
      (ref.denote? (declaredType? registry records (declared.map TypeDecl.name)))
      (reference step ref a) := by
  induction ref with
  | named name span =>
      by_cases hlist : name = "List"
      · simp [reference, hlist, Resolves, report]
      · simpa only [reference, TypeRef.denote?, if_neg hlist] using hstep name span.start a
  | list element span ih =>
      intro hfound
      obtain ⟨ha, hsound⟩ := ih hfound
      refine ⟨ha, fun hs => ?_⟩
      obtain ⟨hresult, hextends, ht⟩ := hsound hs
      exact ⟨hresult, hextends, by simp [TypeRef.denote?, ht, reference]⟩

section

variable {registry records declared}
variable (hdisjoint : ∀ t ∈ declared, t.name ∉ records)
  (hdistinct : (declared.map TypeDecl.name).Nodup)

include hdisjoint

/-- Where the declarations in a name's way resolve, so does the name. -/
theorem named_resolves (knownNames : List String) {fuel : Nat} {opened : List String}
    (hresolve : ∀ t ∈ declared, ∀ a, Resolves registry records declared a (some (.domain t.name))
      (resolve registry declared knownNames fuel opened t a))
    (name : String) (start : Position) (a : Aliases) :
    Resolves registry records declared a
      (declaredType? registry records (declared.map TypeDecl.name) name)
      (named registry declared knownNames fuel opened name start a) := by
  unfold named declaredType?
  cases hb : Base.ofText? name with
  | some b => exact fun hfound => ⟨hfound, fun hs => ⟨hs, fun n t h => h, rfl⟩⟩
  | none =>
      cases hlookup : a.types.lookup name with
      | some ty =>
          refine fun hfound => ⟨hfound, fun hs => ⟨hs, fun n t h => h, ?_⟩⟩
          obtain hrecord | ⟨halias, rfl⟩ := hs.only _ _ hlookup
          · rw [hs.known name hrecord] at hlookup
            simpa [hrecord] using hlookup
          · obtain ⟨t, ht, rfl⟩ := List.mem_map.mp halias
            simp [hdisjoint t ht, halias]
      | none =>
          cases hfind : declared.find? (fun t => t.name == name) with
          | some other =>
              have hother := List.mem_of_find?_eq_some hfind
              obtain rfl : other.name = name := by simpa using List.find?_some hfind
              simpa [hdisjoint other hother, List.mem_map_of_mem hother] using
                hresolve other hother a
          | none =>
              have halias : name ∉ declared.map TypeDecl.name := by
                intro hmem
                obtain ⟨t, ht, rfl⟩ := List.mem_map.mp hmem
                simpa using List.find?_eq_none.mp hfind t ht
              cases hr : registry.type? name with
              | some ty =>
                  refine fun hfound => ⟨hfound, fun hs => ⟨hs, fun n t h => h, ?_⟩⟩
                  have hrecord : name ∉ records := by
                    intro hmem
                    simp [hs.known name hmem] at hlookup
                  simp [hrecord, halias]
              | none => simp [Resolves, report]

include hdistinct

theorem define_sound {t : TypeDecl} {a : Aliases} {d : Ty.Domain} (ht : t ∈ declared)
    (hs : Sound registry records declared a)
    (hd : DomainDenoted (declaredType? registry records (declared.map TypeDecl.name)) t.body d) :
    Sound registry records declared (a.define t.name d) ∧ Extends a (a.define t.name d) ∧
      (a.define t.name d).types.lookup t.name = some (.domain t.name) := by
  have hname : t.name ∈ declared.map TypeDecl.name := List.mem_map_of_mem ht
  cases hlookup : a.types.lookup t.name with
  | some ty =>
      obtain hrecord | ⟨-, rfl⟩ := hs.only _ _ hlookup
      · exact absurd hrecord (hdisjoint t ht)
      · simpa [define, hlookup] using ⟨hs, fun n t h => h⟩
  | none =>
      have hother : ∀ n, n ≠ t.name →
          (a.define t.name d).types.lookup n = a.types.lookup n := by
        intro n hn
        simp [define, hlookup, List.lookup_cons, beq_false_of_ne hn]
      have hself : (a.define t.name d).types.lookup t.name = some (.domain t.name) := by
        simp [define, hlookup]
      refine ⟨⟨fun n hn => ?_, fun n ty hty => ?_, fun u hu hty => ?_, fun n hn => ?_⟩,
        fun n ty hty => ?_, hself⟩
      · rw [hother n (fun heq => hdisjoint t ht (heq ▸ hn))]
        exact hs.known n hn
      · by_cases hn : n = t.name
        · subst hn
          rw [hself] at hty
          exact .inr ⟨hname, (Option.some.inj hty).symm⟩
        · rw [hother n hn] at hty
          exact hs.only n ty hty
      · by_cases hn : u.name = t.name
        · obtain rfl := List.inj_on_of_nodup_map hdistinct hu ht hn
          exact ⟨d, by simp [define, hlookup], hd⟩
        · rw [hother _ hn] at hty
          obtain ⟨e, he, hbody⟩ := hs.defined u hu hty
          exact ⟨e, by
            simpa [define, hlookup, List.lookup_cons, beq_false_of_ne hn] using he, hbody⟩
      · have hne : n ≠ t.name := fun heq => hn (heq ▸ hname)
        simpa [define, hlookup, List.lookup_cons, beq_false_of_ne hne] using hs.foreign n hn
      · rw [hother n (fun heq => by simp [← heq, hty] at hlookup)]
        exact hty

/-- What is resolved up to a declaration stays resolved when the declaration is defined. -/
theorem establishes_define {t : TypeDecl} {a b : Aliases} {d : Ty.Domain} (ht : t ∈ declared)
    (hb : b.found = [] → a.found = [] ∧ (Sound registry records declared a →
      Sound registry records declared b ∧ Extends a b ∧
        DomainDenoted (declaredType? registry records (declared.map TypeDecl.name)) t.body d)) :
    Establishes registry records declared a t
      (((b.define t.name d).types.lookup t.name).getD .error, b.define t.name d) := by
  have hfound : (b.define t.name d).found = b.found := by
    unfold define
    split <;> rfl
  refine ⟨fun h => ?_, fun h hs => ?_⟩
  · obtain ⟨ha, hsound⟩ := hb (hfound ▸ h)
    refine ⟨ha, fun hs => ?_⟩
    obtain ⟨hbs, hextends, hd⟩ := hsound hs
    obtain ⟨hresult, hmore, hself⟩ := define_sound hdisjoint hdistinct ht hbs hd
    exact ⟨hresult, fun n ty h => hmore n ty (hextends n ty h), by rw [hself]; rfl⟩
  · obtain ⟨hbs, -, hd⟩ := (hb (hfound ▸ h)).2 hs
    exact (define_sound hdisjoint hdistinct ht hbs hd).2.2

/-- The resolution of a declaration has fuel enough as long as the open names are distinct, since
each step opens one more. -/
theorem establishes_resolve (knownNames : List String) {fuel : Nat} {opened : List String}
    (hopened : opened.Nodup) (hsub : opened ⊆ declared.map TypeDecl.name)
    (hfuel : declared.length < opened.length + fuel) {t : TypeDecl} (ht : t ∈ declared)
    (a : Aliases) :
    Establishes registry records declared a t
      (resolve registry declared knownNames fuel opened t a) := by
  induction fuel generalizing opened t a with
  | zero =>
      have hle := (hopened.subperm hsub).length_le
      rw [List.length_map] at hle
      omega
  | succ fuel ih =>
      rw [resolve_succ]
      cases hlookup : a.types.lookup t.name with
      | some ty =>
          have hty : Sound registry records declared a → ty = .domain t.name := by
            intro hs
            obtain hrecord | ⟨-, rfl⟩ := hs.only _ _ hlookup
            · exact absurd hrecord (hdisjoint t ht)
            · rfl
          refine ⟨fun hfound => ⟨hfound, fun hs => ⟨hs, fun n t h => h, by rw [hty hs]⟩⟩, ?_⟩
          intro _ hs
          rw [hlookup, hty hs]
      | none =>
          by_cases hopen : t.name ∈ opened
          · -- a cycle is found, so there is nothing to show
            simp [hopen, Establishes, Resolves, cyclic, report]
          · have hnames : t.name ∈ declared.map TypeDecl.name := List.mem_map_of_mem ht
            simp only [List.contains_eq_mem, hopen, decide_false, Bool.false_eq_true, if_false]
            cases hbody : t.body with
            | literals values =>
                refine establishes_define hdisjoint hdistinct ht fun h => ⟨h, fun hs => ?_⟩
                exact ⟨hs, fun n t h => h, by rw [hbody]; rfl⟩
            | reference ref =>
                refine establishes_define hdisjoint hdistinct ht fun h => ?_
                have hopenedNext := List.nodup_cons.mpr ⟨hopen, hopened⟩
                have hsubNext := List.cons_subset.mpr ⟨hnames, hsub⟩
                have hfuelNext : declared.length < (t.name :: opened).length + fuel := by
                  rw [List.length_cons]
                  omega
                have hstep := named_resolves hdisjoint knownNames
                  fun u hu b => (ih hopenedNext hsubNext hfuelNext hu b).1
                obtain ⟨ha, hsound⟩ := reference_resolves registry records declared hstep ref a h
                refine ⟨ha, fun hs => ?_⟩
                obtain ⟨hresult, hextends, hty⟩ := hsound hs
                exact ⟨hresult, hextends, by rw [hbody]; exact ⟨_, hty, rfl⟩⟩

/-- Resolving several declarations one after another gives each of them its type. -/
theorem foldl_resolve {knownNames : List String} {ts : List TypeDecl} (hts : ts ⊆ declared)
    {a : Aliases} (hfound : (ts.foldl (fun a t => (resolve registry declared knownNames
      (declared.length + 1) [] t a).2) a).found = []) :
    let final := ts.foldl (fun a t => (resolve registry declared knownNames (declared.length + 1)
      [] t a).2) a
    a.found = [] ∧ (Sound registry records declared a →
      Sound registry records declared final ∧ Extends a final ∧
        ∀ t ∈ ts, final.types.lookup t.name = some (.domain t.name)) := by
  induction ts generalizing a with
  | nil => exact ⟨hfound, fun hs => ⟨hs, fun n t h => h, by simp⟩⟩
  | cons t ts ih =>
      obtain ⟨ht, hts⟩ := List.cons_subset.mp hts
      have henough : declared.length < ([] : List String).length + (declared.length + 1) := by
        rw [List.length_nil]
        omega
      obtain ⟨hresolves, hself⟩ := establishes_resolve hdisjoint hdistinct knownNames List.nodup_nil
        (List.nil_subset _) henough ht a
      rw [List.foldl_cons] at hfound ⊢
      obtain ⟨hstep, hrest⟩ := ih hts hfound
      obtain ⟨ha, hsound⟩ := hresolves hstep
      refine ⟨ha, fun hs => ?_⟩
      obtain ⟨hnext, hextends, -⟩ := hsound hs
      obtain ⟨hfinal, hmore, hall⟩ := hrest hnext
      refine ⟨hfinal, fun n ty h => hmore n ty (hextends n ty h), ?_⟩
      exact List.forall_mem_cons.mpr ⟨hmore _ _ (hself hstep hs), hall⟩

end

end Aliases

end Prosaic
