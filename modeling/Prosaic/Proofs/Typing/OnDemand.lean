import Prosaic.Proofs.Typing.Cycles

/-!
Type declarations that are resolved on demand. The rules of the resolution have no bound on how far
it goes; what the bound of the running definition allows is always enough. One step keeps the table
consistent, and so does the resolution of all declarations one after another, whatever their order.
-/

namespace Prosaic

open Relation Diagnostic

namespace Aliases

/-! ### Rules -/

section

variable (registry : Registry) (declared : List TypeDecl) (known : List String)

mutual

/-- How a declaration is resolved while others are open. Once it is defined, its name has a type. -/
inductive Resolution : List String → TypeDecl → Aliases → Ty × Aliases → Prop
  | known {opened t a ty} : a.types.lookup t.name = some ty → Resolution opened t a (ty, a)
  | again {opened t a} : a.types.lookup t.name = none → t.name ∈ opened →
    Resolution opened t a (.error, a.cyclic t)
  | literals {opened t a values b ty} : a.types.lookup t.name = none → t.name ∉ opened →
    t.body = .literals values → b = a.define t.name ⟨some .string, values, false⟩ →
    b.types.lookup t.name = some ty → Resolution opened t a (ty, b)
  | reference {opened t a ref referred b c ty} : a.types.lookup t.name = none → t.name ∉ opened →
    t.body = .reference ref → ReferenceResolution (t.name :: opened) ref a (referred, b) →
    c = b.define t.name ⟨some referred, [], false⟩ → c.types.lookup t.name = some ty →
    Resolution opened t a (ty, c)

/-- How a reference is resolved. -/
inductive ReferenceResolution : List String → TypeRef → Aliases → Ty × Aliases → Prop
  | list {opened element span a ty b} : ReferenceResolution opened element a (ty, b) →
    ReferenceResolution opened (.list element span) a (.list ty, b)
  | bareList {opened span a} : ReferenceResolution opened (.named "List" span) a
    (.error, a.report (TypeEnv.bareList span.start))
  | base {opened name span a base} : name ≠ "List" → Base.ofText? name = some base →
    ReferenceResolution opened (.named name span) a (.base base, a)
  | known {opened name span a ty} : name ≠ "List" → Base.ofText? name = none →
    a.types.lookup name = some ty → ReferenceResolution opened (.named name span) a (ty, a)
  | declared {opened name span a other result} : name ≠ "List" → Base.ofText? name = none →
    a.types.lookup name = none → declared.find? (fun t => t.name == name) = some other →
    Resolution opened other a result → ReferenceResolution opened (.named name span) a result
  | foreign {opened name span a ty} : name ≠ "List" → Base.ofText? name = none →
    a.types.lookup name = none → declared.find? (fun t => t.name == name) = none →
    registry.type? name = some ty → ReferenceResolution opened (.named name span) a (ty, a)
  | unknown {opened name span a} : name ≠ "List" → Base.ofText? name = none →
    a.types.lookup name = none → declared.find? (fun t => t.name == name) = none →
    registry.type? name = none → ReferenceResolution opened (.named name span) a
      (.error, a.report (TypeEnv.unknownType known name span.start))

end

/-- Declarations that are resolved one after another. -/
inductive ResolutionInTurn : List TypeDecl → Aliases → Aliases → Prop
  | nil {a} : ResolutionInTurn [] a a
  | cons {t ts a ty b c} : Resolution registry declared known [] t a (ty, b) →
    ResolutionInTurn ts b c → ResolutionInTurn (t :: ts) a c

end

variable {registry : Registry} {records : List String} {declared : List TypeDecl}
  {known : List String} {a b : Aliases} {t : TypeDecl} {opened : List String}

/-! ### The running definition follows the rules -/

theorem reference_follows {fuel : Nat} (hresolve : ∀ t ∈ declared, ∀ a,
      Resolution registry declared known opened t a
        (resolve registry declared known fuel opened t a)) (ref : TypeRef) (a : Aliases) :
    ReferenceResolution registry declared known opened ref a
      (reference (named registry declared known fuel opened) ref a) := by
  induction ref with
  | list element span ih => exact .list ih
  | named name span =>
      by_cases hlist : name = "List"
      · subst hlist
        exact .bareList
      · rw [reference, if_neg hlist]
        unfold named
        split
        · next hbase => exact .base hlist hbase
        · next hbase =>
            split
            · next hlookup => exact .known hlist hbase hlookup
            · next hlookup =>
                split
                · next other hfind =>
                    exact .declared hlist hbase hlookup hfind
                      (hresolve other (List.mem_of_find?_eq_some hfind) a)
                · next hfind =>
                    split
                    · next hforeign => exact .foreign hlist hbase hlookup hfind hforeign
                    · next hforeign => exact .unknown hlist hbase hlookup hfind hforeign

/-- A name that is defined has a type. -/
theorem lookup_define (a : Aliases) (name : String) (d : Ty.Domain) :
    (a.define name d).types.lookup name =
      some (((a.define name d).types.lookup name).getD .error) := by
  cases hlookup : a.types.lookup name with
  | some ty => simp [define, hlookup]
  | none => simp [define, hlookup]

/-- Each step opens one more declaration, so that the bound is never reached. -/
theorem resolve_follows {fuel : Nat} (hopened : opened.Nodup)
    (hsub : opened ⊆ declared.map TypeDecl.name) (hfuel : declared.length < opened.length + fuel)
    (ht : t ∈ declared) (a : Aliases) :
    Resolution registry declared known opened t a
      (resolve registry declared known fuel opened t a) := by
  induction fuel generalizing opened t a with
  | zero =>
      have hle := (hopened.subperm hsub).length_le
      rw [List.length_map] at hle
      omega
  | succ fuel ih =>
      rw [resolve_succ]
      cases hlookup : a.types.lookup t.name with
      | some ty => exact .known hlookup
      | none =>
          by_cases hopen : t.name ∈ opened
          · simp only [List.contains_eq_mem, hopen, decide_true, if_true]
            exact .again hlookup hopen
          · simp only [List.contains_eq_mem, hopen, decide_false, Bool.false_eq_true, if_false]
            cases hbody : t.body with
            | literals values => exact .literals hlookup hopen hbody rfl (lookup_define ..)
            | reference ref =>
                refine .reference hlookup hopen hbody (reference_follows (fun u hu b => ?_) ref a)
                  rfl (lookup_define ..)
                refine ih (List.nodup_cons.mpr ⟨hopen, hopened⟩)
                  (List.cons_subset.mpr ⟨List.mem_map_of_mem ht, hsub⟩) ?_ hu b
                rw [List.length_cons]
                omega

theorem foldl_follows {ts : List TypeDecl} (hts : ts ⊆ declared) (a : Aliases) :
    ResolutionInTurn registry declared known ts a (ts.foldl (fun a t =>
      (resolve registry declared known (declared.length + 1) [] t a).2) a) := by
  induction ts generalizing a with
  | nil => exact .nil
  | cons t ts ih =>
      obtain ⟨ht, hts⟩ := List.cons_subset.mp hts
      have hfuel : declared.length < ([] : List String).length + (declared.length + 1) := by simp
      exact .cons (resolve_follows List.nodup_nil (List.nil_subset _) hfuel ht a) (ih hts _)

/-! ### Steps -/

theorem consistent_report (ha : Consistent registry records declared a) {d : Diagnostic}
    (hd : d.tellsOfCycle = false) : Consistent registry records declared (a.report d) where
  known := ha.known
  only := ha.only
  ends := ha.ends
  cyclic := ha.cyclic
  single := ha.single
  reported := by
    obtain ⟨ts, hnodup, hmem, htold⟩ := ha.reported
    refine ⟨ts, hnodup, hmem, ?_⟩
    rw [Aliases.report, List.filter_append, htold]
    simp [hd]
  defined := ha.defined

section

variable (hdistinct : (declared.map TypeDecl.name).Nodup)

include hdistinct

theorem consistent_cyclic (ha : Consistent registry records declared a) (ht : t ∈ declared)
    (hchain : Chain declared a opened t) (hopen : t.name ∈ opened) :
    Consistent registry records declared (a.cyclic t) := by
  have hlookup := hchain.fresh _ hopen
  have hb : (a.cyclic t).types = (t.name, .error) :: a.types := rfl
  have hentered := entered_entry ha ht hlookup hb (.inr rfl)
  refine { hentered, charted_cyclic hdistinct ha ht hlookup hb hchain hopen rfl rfl with
    defined := fun u hu hdomain => ?_ }
  rw [lookup_entry hb] at hdomain
  split at hdomain
  · cases hdomain
  · obtain ⟨hsettled, hlookup'⟩ := ha.defined u hu hdomain
    have hextends := extends_entry hlookup hb
    exact ⟨hsettled.mono hextends, by
      rw [ha.toEntered.domain_eq hentered hextends hsettled]
      exact hlookup'⟩

/-- Once all that it refers to is settled, a declaration can be entered. -/
theorem consistent_define (ha : Consistent registry records declared a) (ht : t ∈ declared)
    (hsettled : Settled declared a t) :
    let b := a.define t.name (t.body.domain (a.env registry))
    Consistent registry records declared b ∧ Extends a b := by
  cases hlookup : a.types.lookup t.name with
  | some ty => simpa [Aliases.define, hlookup] using ⟨ha, Extends.refl a⟩
  | none =>
      obtain ⟨b, hb⟩ : ∃ b, b = a.define t.name (t.body.domain (a.env registry)) := ⟨_, rfl⟩
      have htypes : b.types = (t.name, .domain t.name) :: a.types := by
        rw [hb, Aliases.define, hlookup]
      have hdomains : b.domains = (t.name, t.body.domain (a.env registry)) :: a.domains := by
        rw [hb, Aliases.define, hlookup]
      have hfound : b.found = a.found := by rw [hb, Aliases.define, hlookup]
      rw [← hb]
      have hextends := extends_entry hlookup htypes
      have hentered := entered_entry ha ht hlookup htypes (.inl rfl)
      refine ⟨{ hentered, charted_domain hdistinct ha ht hlookup htypes hsettled rfl hfound with
        defined := fun u hu hdomain => ?_ }, hextends⟩
      by_cases hname : u.name = t.name
      · obtain rfl := List.inj_on_of_nodup_map hdistinct hu ht hname
        refine ⟨hsettled.mono hextends, ?_⟩
        rw [ha.toEntered.domain_eq hentered hextends hsettled, hdomains]
        simp
      · rw [lookup_entry htypes, if_neg hname] at hdomain
        obtain ⟨husettled, hudomain⟩ := ha.defined u hu hdomain
        refine ⟨husettled.mono hextends, ?_⟩
        rw [ha.toEntered.domain_eq hentered hextends husettled, ← hudomain, hdomains]
        simp [List.lookup_cons, beq_false_of_ne hname]

/-- A declaration is in the table when it has been resolved, with the type that is given back. -/
structure Resolved (registry : Registry) (records : List String) (declared : List TypeDecl)
    (a : Aliases) (t : TypeDecl) (result : Ty × Aliases) : Prop where
  consistent : Consistent registry records declared result.2
  extended : Extends a result.2
  type : result.2.types.lookup t.name = some result.1

/-- What is wanted of a name has been settled, and its type is given back. -/
structure NameResolved (registry : Registry) (records : List String) (declared : List TypeDecl)
    (a : Aliases) (name : String) (result : Ty × Aliases) : Prop where
  consistent : Consistent registry records declared result.2
  extended : Extends a result.2
  type : result.1 = ((result.2.env registry).type? name).getD .error
  settled : ∀ u ∈ declared, name = u.name → (result.2.types.lookup u.name).isSome = true

variable (hbuiltin : ∀ t ∈ declared, isBuiltinTypeName t.name = false)

include hbuiltin

omit hdistinct in
theorem named_resolved (known : List String) {fuel : Nat}
    (ha : Consistent registry records declared a) {name : String}
    (hresolve : ∀ u ∈ declared, u.name = name → Resolved registry records declared a u
      (resolve registry declared known fuel opened u a)) (start : Position) :
    NameResolved registry records declared a name
      (named registry declared known fuel opened name start a) := by
  unfold named
  cases hbase : Base.ofText? name with
  | some base =>
      refine ⟨ha, .refl a, by simp [TypeEnv.type?, hbase], ?_⟩
      rintro u hu rfl
      have := hbuiltin u hu
      simp [isBuiltinTypeName, hbase] at this
  | none =>
      cases hlookup : a.types.lookup name with
      | some ty =>
          refine ⟨ha, .refl a, by simp [TypeEnv.type?, hbase, env, hlookup], ?_⟩
          rintro u - rfl
          rw [hlookup]
          rfl
      | none =>
          cases hfind : declared.find? (fun t => t.name == name) with
          | some other =>
              have hother := List.mem_of_find?_eq_some hfind
              obtain rfl : other.name = name := by simpa using List.find?_some hfind
              obtain ⟨hconsistent, hextends, htype⟩ := hresolve other hother rfl
              refine ⟨hconsistent, hextends, by simp [TypeEnv.type?, hbase, env, htype], ?_⟩
              intro u _ hname
              rw [← hname, htype]
              rfl
          | none =>
              have hforeign : ∀ u ∈ declared, name ≠ u.name := by
                rintro u hu rfl
                simpa using List.find?_eq_none.mp hfind u hu
              cases htype : registry.type? name with
              | some ty =>
                  exact ⟨ha, .refl a, by simp [TypeEnv.type?, hbase, env, hlookup, htype],
                    fun u hu hname => (hforeign u hu hname).elim⟩
              | none =>
                  exact ⟨consistent_report ha (tellsOfCycle_unknownType ..), .refl a,
                    by simp [TypeEnv.type?, hbase, env, report, hlookup, htype],
                    fun u hu hname => (hforeign u hu hname).elim⟩

omit hdistinct in
/-- A reference is resolved as the table says in the end. -/
theorem reference_resolved {step : String → Position → Aliases → Ty × Aliases} {ref : TypeRef}
    (ha : Consistent registry records declared a)
    (hstep : ∀ start, NameResolved registry records declared a ref.base (step ref.base start a)) :
    let result := reference step ref a
    Consistent registry records declared result.2 ∧ Extends a result.2 ∧
      result.1 = ((result.2.env registry).resolve ref).1 ∧
      ∀ u ∈ declared, ref.base = u.name → (result.2.types.lookup u.name).isSome = true := by
  induction ref with
  | named name span =>
      by_cases hlist : name = "List"
      · subst hlist
        refine ⟨consistent_report ha (tellsOfCycle_bareList _), .refl a, rfl, fun u hu hname => ?_⟩
        have := hbuiltin u hu
        rw [TypeRef.base] at hname
        simp [isBuiltinTypeName, ← hname] at this
      · simp only [reference, if_neg hlist]
        obtain ⟨hconsistent, hextends, htype, hsettled⟩ := hstep span.start
        refine ⟨hconsistent, hextends, ?_, hsettled⟩
        rw [TypeRef.base] at htype
        rw [htype, TypeEnv.resolve, if_neg hlist]
        cases (env registry _).type? name <;> rfl
  | list element span ih =>
      obtain ⟨hconsistent, hextends, htype, hsettled⟩ := ih hstep
      exact ⟨hconsistent, hextends, congrArg Ty.list htype, hsettled⟩

/-- Every declaration can be resolved from a consistent table. -/
theorem resolve_resolved (known : List String) {fuel : Nat}
    (ha : Consistent registry records declared a)
    (ht : t ∈ declared) (hchain : Chain declared a opened t)
    (hfuel : declared.length < opened.length + fuel) :
    Resolved registry records declared a t
      (resolve registry declared known fuel opened t a) := by
  induction fuel generalizing opened t with
  | zero =>
      have hle := (hchain.distinct.subperm hchain.subset).length_le
      rw [List.length_map] at hle
      omega
  | succ fuel ih =>
      rw [resolve_succ]
      cases hlookup : a.types.lookup t.name with
      | some ty => exact ⟨ha, .refl a, hlookup⟩
      | none =>
          by_cases hopen : t.name ∈ opened
          · simp only [List.contains_eq_mem, hopen, decide_true, if_true]
            exact ⟨consistent_cyclic hdistinct ha ht hchain hopen,
              extends_entry hlookup (b := a.cyclic t) rfl, by simp [cyclic]⟩
          · simp only [List.contains_eq_mem, hopen, decide_false, Bool.false_eq_true, if_false]
            have hentry : ∀ {b}, Consistent registry records declared b → Extends a b →
                Settled declared b t →
                let c := b.define t.name (t.body.domain (b.env registry))
                Resolved registry records declared a t
                  ((c.types.lookup t.name).getD .error, c) := by
              intro b hb hextends hsettled
              obtain ⟨hconsistent, hmore⟩ := consistent_define hdistinct hb ht hsettled
              exact ⟨hconsistent, hextends.trans hmore, lookup_define ..⟩
            cases hbody : t.body with
            | literals values =>
                have hsettled : Settled declared a t := by
                  rintro u ⟨-, ref, href, -⟩
                  rw [hbody] at href
                  cases href
                have hresolved := hentry ha (.refl a) hsettled
                rw [hbody] at hresolved
                exact hresolved
            | reference ref =>
                have hfuelNext : declared.length < (t.name :: opened).length + fuel := by
                  rw [List.length_cons]
                  omega
                have hnamed := named_resolved hbuiltin known ha
                  fun u hu (hname : u.name = ref.base) => ih hu
                    (hchain.cons hdistinct ht hlookup hopen ⟨hu, ref, hbody, hname.symm⟩) hfuelNext
                obtain ⟨hconsistent, hextends, htype, hsettled⟩ :=
                  reference_resolved hbuiltin ha hnamed
                have hnext : Settled declared
                    (reference (named registry declared known fuel (t.name :: opened))
                      ref a).2 t := by
                  rintro u ⟨hu, ref', href, hname⟩
                  exact hsettled u hu (TypeBody.reference.inj (hbody.symm.trans href) ▸ hname)
                have hresolved := hentry hconsistent hextends hnext
                rw [hbody, TypeBody.domain, ← htype] at hresolved
                exact hresolved

/-- Declarations that are resolved one after another are all in the table. -/
theorem foldl_consistent (known : List String) {ts : List TypeDecl} (hts : ts ⊆ declared)
    (ha : Consistent registry records declared a) :
    let final := ts.foldl (fun a t =>
      (resolve registry declared known (declared.length + 1) [] t a).2) a
    Consistent registry records declared final ∧ Extends a final ∧
      ∀ t ∈ ts, (final.types.lookup t.name).isSome = true := by
  induction ts generalizing a with
  | nil => exact ⟨ha, .refl a, List.forall_mem_nil _⟩
  | cons t ts ih =>
      obtain ⟨ht, hts⟩ := List.cons_subset.mp hts
      have hfuel : declared.length < ([] : List String).length + (declared.length + 1) := by simp
      obtain ⟨hnext, hextends, htype⟩ := resolve_resolved hdistinct hbuiltin known ha
        ht (Chain.start declared a t) hfuel
      obtain ⟨hfinal, hmore, hall⟩ := ih hts hnext
      refine ⟨hfinal, hextends.trans hmore, List.forall_mem_cons.mpr ⟨hmore.isSome ?_, hall⟩⟩
      rw [htype]
      rfl

end

end Aliases

/-! ### All declarations -/

namespace Declared

variable (registry : Registry) (p : Program)

/-- Before any type declaration is resolved, nothing is known of cycles. -/
theorem consistent_start {own : Program}
    (hdisjoint : ∀ t ∈ own.types, ∀ r ∈ own.records, r.name ≠ t.name) :
    Aliases.Consistent registry (own.records.map RecordDecl.name) own.types
      ⟨recordTypes own, [], []⟩ := by
  have hsound : Aliases.Sound registry _ _ _ := recordTypes_sound own
  have hnone : ∀ t ∈ own.types, (recordTypes own).lookup t.name = none := by
    intro t ht
    cases hlookup : (recordTypes own).lookup t.name with
    | none => rfl
    | some ty =>
        obtain ⟨r, hr, hname⟩ := List.mem_map.mp (mem_of_lookup hlookup)
        exact absurd (congrArg Prod.fst hname) (hdisjoint t ht r hr)
  have hfailed : ∀ t ∈ own.types, ¬Aliases.Failed ⟨recordTypes own, [], []⟩ t := by
    intro t ht h
    rw [Aliases.Failed, hnone t ht] at h
    cases h
  exact {
    known := hsound.known
    only := fun n ty h => (hsound.only n ty h).imp_right (And.imp_right .inl)
    ends := fun t ht h => by
      rw [hnone t ht] at h
      cases h
    cyclic := fun t ht h => (hfailed t ht h).elim
    single := fun t ht _ _ h => (hfailed t ht h).elim
    reported := ⟨[], List.nodup_nil, fun t => by simpa using hfailed t, rfl⟩
    defined := fun t ht h => by
      rw [hnone t ht] at h
      cases h }

/-- The findings about cycles are those of the resolution of type declarations. -/
theorem found_filter :
    (Declared.of registry p).found.filter tellsOfCycle =
      (aliases registry (p.registered registry)).found.filter tellsOfCycle := by
  have hnames := noCycles_registerNames registry [] p.declarations
  have hrecords : NoCycles (recordDefinitions (typed registry (p.registered registry))
      (p.registered registry).records).2 := by
    rw [recordDefinitions_eq]
    exact List.forall_mem_flatMap.mpr fun r _ => noCycles_recordFields _ _ _ _
  have hsignatures : NoCycles ((recorded registry (p.registered registry)).signatures
      p.functions).2 := by
    rw [TypeEnv.signatures_eq]
    exact List.forall_mem_flatMap.mpr fun f _ => TypeEnv.noCycles_signature _ f
  rw [of_eq]
  change List.filter _ ((registerNames registry [] p.declarations).2 ++
    (aliases registry (p.registered registry)).found ++
    (recordDefinitions (typed registry (p.registered registry))
      (p.registered registry).records).2 ++
    ((recorded registry (p.registered registry)).signatures p.functions).2) = _
  rw [List.filter_append, List.filter_append, List.filter_append, hnames.filter, hrecords.filter,
    hsignatures.filter, List.nil_append, List.append_nil, List.append_nil]

/-- Type declarations are resolved in finitely many steps, whatever they refer to. One that does not
lead back to itself denotes a domain type of its own name, made from what its declaration says, and
on each cycle one declaration is reported, once. -/
theorem typeDecls_resolved :
    let env := (Declared.of registry p).env
    let own := p.registered registry
    let known : TypeEnv :=
      ⟨registry, [], recordTypes own ++ own.types.map fun t => (t.name, .error), [], []⟩
    (∃ final, Aliases.ResolutionInTurn registry own.types known.typeNames own.types
        ⟨recordTypes own, [], []⟩ final ∧
        env.types = final.types ∧ env.domains = final.domains) ∧
      (∀ t ∈ own.types, ¬TransGen (RefersTo own.types) t t →
        env.type? t.name = some (.domain t.name) ∧
          env.domain? (.domain t.name) = some (t.body.domain env)) ∧
      ∃ reported : List TypeDecl, reported.Nodup ∧
        (Declared.of registry p).found.filter tellsOfCycle =
          reported.map TypeDecl.cycleFinding ∧
        (∀ r ∈ reported, r ∈ own.types ∧ TransGen (RefersTo own.types) r r) ∧
        ∀ t ∈ own.types, TransGen (RefersTo own.types) t t →
          ∃! r, r ∈ reported ∧ SameCycle own.types t r := by
  obtain ⟨hnodup, hfree⟩ := registered_free registry [] p.declarations
  have hdistinct := Program.nodup_typeNames (p := p.registered registry) hnodup
  have hbuiltin : ∀ t ∈ (p.registered registry).types, isBuiltinTypeName t.name = false :=
    fun t ht => (hfree (.type t) (Program.mem_types.mp ht)).1
  have hstart := consistent_start registry fun t ht r hr =>
    Program.recordName_ne_typeName (p := p.registered registry) hnodup hr ht
  obtain ⟨hconsistent, -, hall⟩ : Aliases.Consistent registry _ _
      (aliases registry (p.registered registry)) ∧ _ ∧ _ :=
    Aliases.foldl_consistent hdistinct hbuiltin _ (List.Subset.refl _) hstart
  refine ⟨⟨_, Aliases.foldl_follows (List.Subset.refl _) _, rfl, rfl⟩, fun t ht hcyclic => ?_, ?_⟩
  · obtain ⟨ty, hty⟩ := Option.isSome_iff_exists.mp (hall t ht)
    have hdomain : ty = .domain t.name := by
      rcases hconsistent.only _ _ hty with hrecord | ⟨-, rfl | rfl⟩
      · obtain ⟨r, hr, hname⟩ := List.mem_map.mp hrecord
        exact (Program.recordName_ne_typeName hnodup hr ht hname).elim
      · rfl
      · exact (hcyclic (hconsistent.cyclic t ht hty)).elim
    subst hdomain
    have hbase : Base.ofText? t.name = none := by
      simpa [isBuiltinTypeName] using (Bool.or_eq_false_iff.mp (hbuiltin t ht)).2
    refine ⟨?_, ?_⟩
    · rw [TypeEnv.type?, hbase]
      exact congrArg (Option.or · _) hty
    · have hdefined := (hconsistent.defined t ht hty).2
      have hbody : t.body.domain ((aliases registry (p.registered registry)).env registry) =
          t.body.domain (Declared.of registry p).env :=
        TypeBody.domain_congr fun _ _ => rfl
      rw [← hbody]
      exact congrArg (Option.or · _) hdefined
  · obtain ⟨reported, hreported, hmem, htold⟩ := hconsistent.reported
    refine ⟨reported, hreported, (found_filter registry p).trans htold, fun r hr => ?_, ?_⟩
    · obtain ⟨hr, hfailed⟩ := (hmem r).mp hr
      exact ⟨hr, hconsistent.cyclic r hr hfailed⟩
    · intro t ht hcyclic
      rcases hconsistent.ends t ht (hall t ht) with hgrounded | ⟨u, hu, hpath, hfailed⟩
      · exact (Aliases.Grounded.not_refersTo_self hgrounded hcyclic).elim
      · -- what the cycle leads to is on the cycle
        have hleads := TransGen.trans_right hpath hcyclic
        have hback := leads_back hdistinct hcyclic hleads
        refine ⟨u, ⟨(hmem u).mpr ⟨hu, hfailed⟩, hback, hleads⟩, ?_⟩
        rintro v ⟨hv, htv, hvt⟩
        obtain ⟨hv, hfailed'⟩ := (hmem v).mp hv
        exact hconsistent.single u hu v hv hfailed hfailed' (hvt.trans hback)

end Declared

end Prosaic
