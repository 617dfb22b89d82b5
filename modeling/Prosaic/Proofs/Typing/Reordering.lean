import Prosaic.Proofs.Typing.Alike
import Prosaic.Proofs.Typing.Check
import Prosaic.Proofs.Typing.Grounded

/-!
The type check of the same declarations in another order. Where it finds nothing in one order, names
are distinct and type declarations are grounded, neither of which is about an order; so the names
stand for the same in the other one, and each declaration is checked alike.
-/

namespace Prosaic

/-! ### Declarations -/

/-- Where readable names are distinct and used nowhere else, no name is in conflict. -/
theorem registerNames_of_distinct {registry : Registry} {lines : List (String × Nat)}
    {ds : List Decl} (hdistinct : ((ds.filter Decl.isReadable).map Decl.name).Nodup)
    (hfree : ∀ d ∈ ds, d.isReadable = true →
      isBuiltinTypeName d.name = false ∧ d.name ∉ registry.declaredNames ∧
        lines.lookup d.name = none) :
    (registerNames registry lines ds).2 = [] := by
  induction ds generalizing lines with
  | nil => rfl
  | cons d ds ih =>
      obtain ⟨hd, hds⟩ := List.forall_mem_cons.mp hfree
      by_cases hname : d.name = unreadableName
      · have hunreadable : d.isReadable = false := by simp [Decl.isReadable, hname]
        rw [List.filter_cons_of_neg (by simp [hunreadable])] at hdistinct
        simpa only [registerNames, if_pos hname] using ih hdistinct hds
      · have hreadable : d.isReadable = true := by simp [Decl.isReadable, hname]
        rw [List.filter_cons_of_pos hreadable, List.map_cons, List.nodup_cons] at hdistinct
        obtain ⟨hbuiltin, hforeign, hline⟩ := hd hreadable
        have hnone : nameConflict registry lines d = none := by
          simp [nameConflict, hbuiltin, hforeign, hline]
        simp only [registerNames, if_neg hname, hnone]
        refine ih hdistinct.2 fun e he hreadable => ?_
        obtain ⟨hbuiltin, hforeign, hline⟩ := hds e he hreadable
        have hne : e.name ≠ d.name := by
          intro heq
          exact hdistinct.1 (heq ▸ List.mem_map_of_mem (List.mem_filter.mpr ⟨he, hreadable⟩))
        exact ⟨hbuiltin, hforeign, by simpa [List.lookup_cons, beq_false_of_ne hne] using hline⟩

theorem declaredType?_perm (registry : Registry) {p q : Program}
    (h : p.declarations.Perm q.declarations) :
    declaredType? registry (p.records.map RecordDecl.name) (p.types.map TypeDecl.name) =
      declaredType? registry (q.records.map RecordDecl.name) (q.types.map TypeDecl.name) := by
  funext n
  simp only [declaredType?, ((Program.records_perm h).map RecordDecl.name).mem_iff,
    ((Program.types_perm h).map TypeDecl.name).mem_iff]

theorem domainDenoted_unique {named : String → Option Ty} {body : TypeBody} {d e : Ty.Domain}
    (hd : DomainDenoted named body d) (he : DomainDenoted named body e) : d = e := by
  cases body with
  | literals values => exact Eq.trans hd (Eq.symm he)
  | reference ref =>
      obtain ⟨t, ht, rfl⟩ := hd
      obtain ⟨u, hu, rfl⟩ := he
      rw [ht] at hu
      cases hu
      rfl

theorem Grounded.congr {declared declared' : List TypeDecl} (h : ∀ t, t ∈ declared ↔ t ∈ declared')
    {t : TypeDecl} (ht : Grounded declared t) : Grounded declared' t := by
  have hrefers : RefersTo declared' = RefersTo declared := by
    funext u t
    simp only [RefersTo, h]
  rwa [Grounded, hrefers]

/-! ### All names -/

namespace TypeEnv.Alike

variable {env env' : TypeEnv} (h : env.Alike env')

include h

theorem signature (f : FunctionDecl) :
    (env.signature f).1 = (env'.signature f).1 ∧
      SameFound (env.signature f).2 (env'.signature f).2 :=
  signature_alike (h.on (fun _ => True) fun _ => True) (fun _ _ => trivial) fun _ _ => trivial

theorem recordFields (r : RecordDecl) :
    (recordFields env r.name [] r.fields).1 = (recordFields env' r.name [] r.fields).1 ∧
      SameFound (recordFields env r.name [] r.fields).2 (recordFields env' r.name [] r.fields).2 :=
  recordFields_alike (h.on (fun _ => True) fun _ => True) r.name (fun _ _ => trivial) []

theorem checkFunction (f : FunctionDecl) (s : Signature) {timer timer' : Timer}
    (htime : (env.checkFunction timer f s).2.2.exceeded = none)
    (htime' : (env'.checkFunction timer' f s).2.2.exceeded = none) :
    (env.checkFunction timer f s).1 = (env'.checkFunction timer' f s).1 ∧
      SameFound (env.checkFunction timer f s).2.1 (env'.checkFunction timer' f s).2.1 :=
  checkFunction_alike (h.on (fun _ => True) fun _ => True) env.closed_true (fun _ _ => trivial)
    (fun s _ => s.within_true) s.within_true htime htime'

end TypeEnv.Alike

namespace Declared

variable {registry : Registry}

/-! ### Types -/

section

variable {own own' : Program} (hperm : own.declarations.Perm own'.declarations)
  (hdistinct : (own.declarations.map Decl.name).Nodup)

include hperm hdistinct

/-- Type declarations that are resolved without findings are so in every order. -/
theorem aliases_perm (hbuiltin : ∀ d ∈ own.declarations, isBuiltinTypeName d.name = false)
    (hfound : (aliases registry own).found = []) : (aliases registry own').found = [] := by
  have hdistinct' : (own'.declarations.map Decl.name).Nodup :=
    (hperm.map Decl.name).nodup_iff.mp hdistinct
  have hmem : ∀ t, t ∈ own.types ↔ t ∈ own'.types := fun t => (Program.types_perm hperm).mem_iff
  have hdisjoint : ∀ t ∈ own.types, ∀ r ∈ own.records, r.name ≠ t.name :=
    fun t ht r hr => Program.recordName_ne_typeName hdistinct hr ht
  -- nothing but records is known at the start, so each type declaration is grounded on its own
  have hgrounded : ∀ t ∈ own.types, Grounded own.types t := by
    have hbase : ∀ t ∈ own.types, Base.ofText? t.name = none := by
      intro t ht
      have hnot : isBuiltinTypeName t.name = false := hbuiltin _ (Program.mem_types.mp ht)
      rw [isBuiltinTypeName, Bool.or_eq_false_iff, Option.isSome_eq_false_iff,
        Option.isNone_iff_eq_none] at hnot
      exact hnot.2
    refine (Aliases.foldl_grounds hbase (Program.nodup_typeNames hdistinct) (List.Subset.refl _)
      hfound).2 fun t ht hknown => ?_
    obtain ⟨ty, hty⟩ := Option.isSome_iff_exists.mp hknown
    obtain ⟨r, hr, hname⟩ := List.mem_map.mp (mem_of_lookup hty)
    exact absurd (congrArg Prod.fst hname) (hdisjoint t ht r hr)
  obtain ⟨-, hdenoted, -⟩ := aliases_eq_nil hdisjoint (Program.nodup_typeNames hdistinct) hfound
  refine Aliases.foldl_found ?_ (Program.nodup_typeNames hdistinct') (fun t ht ref href => ?_)
    (List.Subset.refl _) (fun t ht => ?_) (recordTypes_sound own') rfl
  · intro t ht hrecord
    obtain ⟨r, hr, hname⟩ := List.mem_map.mp hrecord
    exact Program.recordName_ne_typeName hdistinct' hr ht hname
  · obtain ⟨d, -, hbody⟩ := hdenoted t ((hmem t).mpr ht)
    rw [href] at hbody
    obtain ⟨ty, hty, -⟩ := hbody
    rw [← declaredType?_perm registry hperm, hty]
    rfl
  · exact (hgrounded t ((hmem t).mpr ht)).congr hmem

/-- The names of types stand for the same in every order. -/
theorem typed_alike (hfound : (aliases registry own).found = [])
    (hfound' : (aliases registry own').found = []) :
    (typed registry own).Alike (typed registry own') := by
  have hdistinct' : (own'.declarations.map Decl.name).Nodup :=
    (hperm.map Decl.name).nodup_iff.mp hdistinct
  have htypes := (Program.types_perm hperm).map TypeDecl.name
  have hnamed := declaredType?_perm registry hperm
  obtain ⟨htype, hdenoted, hforeign⟩ := aliases_eq_nil
    (fun t ht r hr => Program.recordName_ne_typeName hdistinct hr ht)
    (Program.nodup_typeNames hdistinct) hfound
  obtain ⟨htype', hdenoted', hforeign'⟩ := aliases_eq_nil
    (fun t ht r hr => Program.recordName_ne_typeName hdistinct' hr ht)
    (Program.nodup_typeNames hdistinct') hfound'
  refine ⟨rfl, fun _ => rfl, by rw [htype, htype', hnamed], fun n => ?_, fun _ => rfl⟩
  by_cases hn : n ∈ own.types.map TypeDecl.name
  · obtain ⟨t, ht, rfl⟩ := List.mem_map.mp hn
    obtain ⟨d, hd, hbody⟩ := hdenoted t ht
    obtain ⟨d', hd', hbody'⟩ := hdenoted' t ((Program.types_perm hperm).mem_iff.mp ht)
    rw [← hnamed] at hbody'
    exact hd.trans ((domainDenoted_unique hbody hbody') ▸ hd'.symm)
  · exact (hforeign n hn).trans (hforeign' n (mt htypes.mem_iff.mpr hn)).symm

/-- The names of types and records stand for the same in every order, and the fields of records are
resolved alike. -/
theorem recorded_alike (hfound : (aliases registry own).found = [])
    (hfound' : (aliases registry own').found = []) :
    (recorded registry own).Alike (recorded registry own') ∧
      ((recordDefinitions (typed registry own) own.records).2 = [] →
        (recordDefinitions (typed registry own') own'.records).2 = []) := by
  have htyped := typed_alike hperm hdistinct hfound hfound'
  have hrecords := Program.records_perm hperm
  refine ⟨⟨rfl, fun _ => rfl, htyped.type?_eq, htyped.domains, fun n => ?_⟩, fun h => ?_⟩
  · show (recordDefinitions (typed registry own) own.records).1.lookup n =
      (recordDefinitions (typed registry own') own'.records).1.lookup n
    simp only [recordDefinitions_eq, ← (htyped.recordFields _).1]
    refine lookup_eq_of_perm (hrecords.map _) ?_ n
    rw [List.map_map]
    exact Program.nodup_recordNames hdistinct
  · simp only [recordDefinitions_eq, List.flatMap_eq_nil_iff] at h ⊢
    intro r hr
    exact (htyped.recordFields r).2.eq_nil_iff.mp (h r (hrecords.mem_iff.mpr hr))

end

/-! ### All declarations -/

/-- Declarations that are resolved without findings are so in every order, all names stand for the
same, and functions have the same signatures. -/
theorem of_perm {p q : Program} (hperm : p.declarations.Perm q.declarations)
    (h : (Declared.of registry p).found = []) :
    (Declared.of registry q).found = [] ∧
      (Declared.of registry p).env.Alike (Declared.of registry q).env ∧
      ∃ signature, (Declared.of registry p).signatures = p.functions.map signature ∧
        (Declared.of registry q).signatures = q.functions.map signature := by
  have hreadable := Program.readable_perm hperm
  have hnames := registerNames_of_found h
  obtain ⟨-, hdistinct, hfree⟩ := registerNames_eq_nil hnames
  have hnames' : (registerNames registry [] q.declarations).2 = [] :=
    registerNames_of_distinct (((hreadable.map Decl.name).nodup_iff).mp hdistinct)
      fun d hd => hfree d (hperm.mem_iff.mpr hd)
  rw [of_eq_of_registered hnames] at h ⊢
  rw [of_eq_of_registered hnames']
  simp only [List.append_eq_nil_iff] at h ⊢
  obtain ⟨⟨haliases, hrecords⟩, hsignatures⟩ := h
  have hbuiltin : ∀ d ∈ p.readable.declarations, isBuiltinTypeName d.name = false := by
    intro d hd
    obtain ⟨hmem, hreadable⟩ := List.mem_filter.mp hd
    exact (hfree d hmem hreadable).1
  have haliases' := aliases_perm hreadable hdistinct hbuiltin haliases
  obtain ⟨halike, hrecords'⟩ := recorded_alike hreadable hdistinct haliases haliases'
  have hsignature : ∀ f, ((recorded registry p.readable).signature f).1 =
      ((recorded registry q.readable).signature f).1 := fun f => (halike.signature f).1
  refine ⟨⟨⟨haliases', hrecords' hrecords⟩, ?_⟩, ?_, _, rfl, by simp only [hsignature]⟩
  · rw [List.flatMap_eq_nil_iff] at hsignatures ⊢
    intro f hf
    exact (halike.signature f).2.eq_nil_iff.mp
      (hsignatures f ((Program.functions_perm hperm).mem_iff.mpr hf))
  · refine ⟨halike.registry, fun n => ?_, halike.type?_eq, halike.domains, halike.records⟩
    simp only [← hsignature]
    refine lookup_eq_of_perm ((Program.functions_perm hreadable).map _) ?_ n
    rw [List.map_map]
    exact Program.nodup_functionNames hdistinct

end Declared

namespace TypeEnv

/-! ### Bodies -/

variable {env env' : TypeEnv} {signature : FunctionDecl → Signature}

variable (env signature) in
/-- What a check without findings makes of a declaration. -/
def Clears : Decl → Decl → Prop
  | .function f, d => ∃ timer, (env.checkFunction timer f (signature f)).2.2.exceeded = none ∧
      (env.checkFunction timer f (signature f)).2.1 = [] ∧
      d = .function (env.checkFunction timer f (signature f)).1
  | d, d' => d' = d

theorem clears_unique (h : env.Alike env') (d : Decl) {d₁ d₂ : Decl}
    (h₁ : env.Clears signature d d₁) (h₂ : env'.Clears signature d d₂) : d₁ = d₂ := by
  cases d with
  | function f =>
      obtain ⟨_, htime, -, rfl⟩ := h₁
      obtain ⟨_, htime', -, rfl⟩ := h₂
      rw [(h.checkFunction f (signature f) htime htime').1]
  | type t | record r => exact h₁.trans h₂.symm

/-- A check of all bodies without findings clears every declaration. -/
theorem checkDecls_clears {timer : Timer} {ds : List Decl}
    (hfound : (env.checkDecls timer ds ((ds.filterMap Decl.function?).map signature)).2.1 = [])
    (htime :
      (env.checkDecls timer ds ((ds.filterMap Decl.function?).map signature)).2.2.exceeded = none) :
    List.Forall₂ (env.Clears signature) ds
      (env.checkDecls timer ds ((ds.filterMap Decl.function?).map signature)).1 := by
  induction ds generalizing timer with
  | nil => exact .nil
  | cons d ds ih =>
      cases d with
      | function f =>
          simp only [List.filterMap_cons, Decl.function?, List.map_cons, checkDecls,
            List.append_eq_nil_iff] at hfound htime ⊢
          exact .cons ⟨timer, exceeded_of_checkDecls env htime, hfound.1, rfl⟩ (ih hfound.2 htime)
      | type t | record r =>
          simp only [List.filterMap_cons, Decl.function?, checkDecls] at hfound htime ⊢
          exact .cons rfl (ih hfound htime)

/-- A check of declarations that another one clears finds nothing. -/
theorem checkDecls_of_clears (h : env.Alike env') {timer : Timer} {ds : List Decl}
    (hclears : ∀ d ∈ ds, ∃ d', env.Clears signature d d')
    (htime :
      (env'.checkDecls timer ds ((ds.filterMap Decl.function?).map signature)).2.2.exceeded =
        none) :
    (env'.checkDecls timer ds ((ds.filterMap Decl.function?).map signature)).2.1 = [] := by
  induction ds generalizing timer with
  | nil => rfl
  | cons d ds ih =>
      obtain ⟨⟨d', hd⟩, hds⟩ := List.forall_mem_cons.mp hclears
      cases d with
      | function f =>
          simp only [List.filterMap_cons, Decl.function?, List.map_cons, checkDecls,
            List.append_eq_nil_iff] at htime ⊢
          obtain ⟨_, hintime, hnone, -⟩ := hd
          have halike := h.checkFunction f (signature f) hintime (exceeded_of_checkDecls env' htime)
          exact ⟨halike.2.eq_nil_iff.mp hnone, ih hds htime⟩
      | type t | record r =>
          simp only [List.filterMap_cons, Decl.function?, checkDecls] at htime ⊢
          exact ih hds htime

end TypeEnv

/-! ### The whole check -/

/-- A type check that ends in time finds nothing where one of the same declarations in another order
finds nothing, and writes the same into each of them. -/
theorem Program.checkTypes_perm {p q : Program} {registry : Registry} {budget budget' : Budget}
    (hperm : p.declarations.Perm q.declarations)
    (hp : (p.checkTypes registry budget).result = .ok []) {found : List Diagnostic}
    (hq : (q.checkTypes registry budget').result = .ok found) :
    found = [] ∧ (p.declarations.zip (p.checkTypes registry budget).program.declarations).Perm
      (q.declarations.zip (q.checkTypes registry budget').program.declarations) := by
  obtain ⟨htime, hempty⟩ := checkTypes_eq_ok.mp hp
  obtain ⟨htime', rfl⟩ := checkTypes_eq_ok.mp hq
  obtain ⟨hdeclared, hfound⟩ := List.append_eq_nil_iff.mp hempty.symm
  obtain ⟨hdeclared', halike, signature, hsignatures, hsignatures'⟩ :=
    Declared.of_perm hperm hdeclared
  simp only [checkTypes]
  rw [hsignatures, functions_eq] at hfound htime ⊢
  rw [hsignatures', functions_eq] at htime' ⊢
  rw [hdeclared', List.nil_append]
  have hclears := TypeEnv.checkDecls_clears hfound htime
  have hnone := TypeEnv.checkDecls_of_clears halike (fun d hd => by
    obtain ⟨d', -, hd'⟩ := exists_of_mem_left hclears d (hperm.mem_iff.mpr hd)
    exact ⟨d', hd'⟩) htime'
  exact ⟨hnone, zip_perm_of_forall₂ hperm hclears (TypeEnv.checkDecls_clears hnone htime')
    fun d _ _ => TypeEnv.clears_unique halike d⟩

end Prosaic
