import Prosaic.Proofs.Program.Replacing
import Prosaic.Proofs.Typing.Declared
import Prosaic.Proofs.Typing.Findings

/-!
References that stand for the same type of a registry. A program cannot redeclare a name of its
registry, so such references are resolved to the same type without findings wherever they stand, and
one of them may take the place of the other: the same is declared, and every body is checked in the
same environment.
-/

namespace Prosaic

/-- Two references that are the same, or stand for the same type of a registry. -/
def Registry.Synonymous (registry : Registry) (a b : TypeRef) : Prop :=
  a = b ∨ ∃ t, a.denote? registry.type? = some t ∧ b.denote? registry.type? = some t

/-! ### Names that are declared -/

/-- What is registered has no name of a type of the registry. -/
theorem type?_of_registered {registry : Registry} {lines : List (String × Nat)} {ds : List Decl}
    {d : Decl} (h : d ∈ registered (registerNames registry lines ds).1) :
    registry.type? d.name = none := by
  obtain ⟨hbuiltin, hforeign, -⟩ := (registered_free registry lines ds).2 d h
  have hbase : Base.ofText? d.name = none := by
    rw [isBuiltinTypeName, Bool.or_eq_false_iff] at hbuiltin
    simpa using hbuiltin.2
  rw [Registry.type?, hbase]
  refine List.lookup_eq_none_iff.mpr fun e he => ?_
  rw [bne_iff_ne]
  intro heq
  refine hforeign (List.mem_append_left _ (List.mem_append_left _ ?_))
  rw [heq]
  exact List.mem_map_of_mem he

section

variable {R : TypeRef → TypeRef → Prop}

/-- Names are registered alike. -/
theorem registerNames_upTo (registry : Registry) (lines : List (String × Nat)) {ds es : List Decl}
    (h : List.Forall₂ (Decl.UpTo R) ds es) :
    List.Forall₂ (fun m n => m.1.UpTo R n.1 ∧ m.2 = n.2) (registerNames registry lines ds).1
        (registerNames registry lines es).1 ∧
      (registerNames registry lines ds).2 = (registerNames registry lines es).2 := by
  induction h generalizing lines with
  | nil => exact ⟨.nil, rfl⟩
  | @cons d e ds es hde _ ih =>
      have hconflict : nameConflict registry lines e = nameConflict registry lines d := by
        rw [nameConflict, nameConflict, hde.name, hde.nameStart]
      simp only [registerNames, ← hde.name, hconflict, ← hde.span]
      split
      · exact ⟨.cons ⟨hde, rfl⟩ (ih _).1, (ih _).2⟩
      · split
        · exact ⟨.cons ⟨hde, rfl⟩ (ih _).1, congrArg (List.cons _) (ih _).2⟩
        · exact ⟨.cons ⟨hde, rfl⟩ (ih _).1, (ih _).2⟩

theorem registered_upTo {marked marked' : List (Decl × Bool)}
    (h : List.Forall₂ (fun m n => m.1.UpTo R n.1 ∧ m.2 = n.2) marked marked') :
    List.Forall₂ (Decl.UpTo R) (registered marked) (registered marked') := by
  induction h with
  | nil => exact .nil
  | @cons m n marked marked' hmn _ ih =>
      obtain ⟨d, ok⟩ := m
      obtain ⟨e, ok'⟩ := n
      obtain rfl : ok = ok' := hmn.2
      cases ok with
      | true => exact .cons hmn.1 ih
      | false => exact ih

end

/-! ### Type declarations -/

namespace Aliases

variable {registry : Registry} {declared declared' : List TypeDecl}

/-- Nothing that is resolved goes by the name of a type of the registry. -/
def Beside (registry : Registry) (a : Aliases) : Prop :=
  ∀ e ∈ a.types, registry.type? e.1 = none

theorem Beside.lookup {a : Aliases} (ha : a.Beside registry) {name : String} {u : Ty}
    (h : registry.type? name = some u) : a.types.lookup name = none := by
  cases hlookup : a.types.lookup name with
  | none => rfl
  | some ty =>
      rw [ha _ (mem_of_lookup hlookup)] at h
      cases h

theorem Beside.define {a : Aliases} (ha : a.Beside registry) {name : String}
    (hname : registry.type? name = none) (d : Ty.Domain) : (a.define name d).Beside registry := by
  unfold Aliases.define
  split
  · exact ha
  · exact List.forall_mem_cons.mpr ⟨hname, ha⟩

theorem beside_reference {step : String → Position → Aliases → Ty × Aliases}
    (hstep : ∀ name start a, a.Beside registry → (step name start a).2.Beside registry)
    {ref : TypeRef} {a : Aliases} (ha : a.Beside registry) :
    (reference step ref a).2.Beside registry := by
  induction ref with
  | named name span =>
      unfold reference
      split
      · exact ha
      · exact hstep _ _ _ ha
  | list element span ih => exact ih

theorem beside_named {known : List String} {fuel : Nat} {opened : List String}
    (hresolve : ∀ t ∈ declared, ∀ a, a.Beside registry →
      (resolve registry declared known fuel opened t a).2.Beside registry)
    (name : String) (start : Position) (a : Aliases) (ha : a.Beside registry) :
    (named registry declared known fuel opened name start a).2.Beside registry := by
  unfold named
  split
  · exact ha
  · split
    · exact ha
    · split
      · next other hother => exact hresolve other (List.mem_of_find?_eq_some hother) a ha
      · split <;> exact ha

section

variable (hfree : ∀ t ∈ declared, registry.type? t.name = none)

include hfree

theorem beside_resolve {known : List String} (fuel : Nat) (opened : List String) {t : TypeDecl}
    (ht : t ∈ declared) {a : Aliases} (ha : a.Beside registry) :
    (resolve registry declared known fuel opened t a).2.Beside registry := by
  induction fuel generalizing opened t a with
  | zero => exact ha
  | succ fuel ih =>
      rw [resolve_succ]
      split
      · exact ha
      · split
        · exact List.forall_mem_cons.mpr ⟨hfree t ht, ha⟩
        · refine Beside.define ?_ (hfree t ht) _
          split
          · exact ha
          · exact beside_reference (beside_named fun u hu a ha => ih _ hu ha) ha

/-- A name of the registry stands for what it does there. -/
theorem named_of_type? {known : List String} {fuel : Nat} {opened : List String} {a : Aliases}
    (ha : a.Beside registry) {name : String} {u : Ty} (h : registry.type? name = some u)
    (start : Position) :
    named registry declared known fuel opened name start a = (u, a) := by
  have hfind : declared.find? (fun t => t.name == name) = none := by
    refine List.find?_eq_none.mpr fun t ht heq => ?_
    rw [← beq_iff_eq.mp heq, hfree t ht] at h
    cases h
  unfold named
  cases hbase : Base.ofText? name with
  | some b =>
      rw [Registry.type?, hbase] at h
      rw [← Option.some.inj h]
  | none => simp only [ha.lookup h, hfind, h]

omit hfree in
theorem reference_of_denotes {named : String → Option Ty}
    {step : String → Position → Aliases → Ty × Aliases} {a : Aliases}
    (hstep : ∀ name u start, named name = some u → step name start a = (u, a)) {ref : TypeRef}
    {t : Ty} (h : ref.denote? named = some t) : reference step ref a = (t, a) := by
  induction ref generalizing t with
  | named name span =>
      rw [TypeRef.denote?] at h
      split at h
      · cases h
      · next hlist =>
          rw [reference, if_neg hlist]
          exact hstep name t span.start h
  | list element span ih =>
      obtain ⟨u, hu, rfl⟩ := Option.map_eq_some_iff.mp h
      rw [reference, ih hu]

omit hfree in
theorem reference_congr {step step' : String → Position → Aliases → Ty × Aliases} {a : Aliases}
    (h : ∀ name start, step name start a = step' name start a) (ref : TypeRef) :
    reference step ref a = reference step' ref a := by
  induction ref with
  | named name span => rw [reference, reference, h]
  | list element span ih => rw [reference, reference, ih]

variable (hdeclared : List.Forall₂ (TypeDecl.UpTo registry.Synonymous) declared declared')

include hdeclared

/-- A declaration with another reference in its place is resolved to the same. -/
theorem resolve_synonymous {known : List String} (fuel : Nat) (opened : List String)
    {t t' : TypeDecl} (ht : t.UpTo registry.Synonymous t') {a : Aliases} (ha : a.Beside registry) :
    resolve registry declared known fuel opened t a =
      resolve registry declared' known fuel opened t' a := by
  induction fuel generalizing opened t t' a with
  | zero => rfl
  | succ fuel ih =>
      have hfree' : ∀ u ∈ declared', registry.type? u.name = none := by
        intro u hu
        obtain ⟨t, ht, htu⟩ := exists_of_mem_left hdeclared.flip u hu
        rw [← htu.name]
        exact hfree t ht
      have hnamed (opened : List String) (name : String) (start : Position) :
          named registry declared known fuel opened name start a =
            named registry declared' known fuel opened name start a := by
        have hfind := find?_forall₂ hdeclared (p := fun t => t.name == name)
          (q := fun t => t.name == name) fun t t' ht => by rw [ht.name]
        unfold named
        generalize declared.find? (fun t => t.name == name) = o,
          declared'.find? (fun t => t.name == name) = o' at hfind ⊢
        cases hfind with
        | none => rfl
        | some hother => simp only [ih _ hother ha]
      rw [resolve_succ, resolve_succ, ← ht.name, cyclic, cyclic, ht.name, ht.span]
      obtain ⟨-, hbody, -⟩ := ht
      generalize t.body = b, t'.body = b' at hbody ⊢
      cases hbody with
      | literals values => rfl
      | @reference ref ref' hsame =>
          rcases hsame with rfl | ⟨u, hu, hu'⟩
          · simp only [reference_congr (hnamed _)]
          · simp only [reference_of_denotes (fun _ _ start h => named_of_type? hfree ha h start) hu,
              reference_of_denotes (fun _ _ start h => named_of_type? hfree' ha h start) hu']

/-- Type declarations that differ in such references are resolved to the same. -/
theorem foldl_synonymous {known : List String} (fuel : Nat) {ts ts' : List TypeDecl}
    (hts : List.Forall₂ (TypeDecl.UpTo registry.Synonymous) ts ts') (hsub : ts ⊆ declared)
    {a : Aliases} (ha : a.Beside registry) :
    ts.foldl (fun a t => (resolve registry declared known fuel [] t a).2) a =
        ts'.foldl (fun a t => (resolve registry declared' known fuel [] t a).2) a ∧
      (ts.foldl (fun a t => (resolve registry declared known fuel [] t a).2) a).Beside
        registry := by
  induction hts generalizing a with
  | nil => exact ⟨rfl, ha⟩
  | @cons t t' ts ts' ht _ ih =>
      obtain ⟨hmem, hsub⟩ := List.cons_subset.mp hsub
      rw [List.foldl_cons, List.foldl_cons, ← resolve_synonymous hfree hdeclared fuel [] ht ha]
      exact ih hsub (beside_resolve hfree fuel [] hmem ha)

end

end Aliases

/-! ### Heads -/

namespace TypeEnv

variable {env : TypeEnv}

theorem resolve_of_denote? {ref : TypeRef} {t : Ty} (h : ref.denote? env.type? = some t) :
    env.resolve ref = (t, []) := by
  induction ref generalizing t with
  | named name span =>
      rw [TypeRef.denote?] at h
      split at h
      · cases h
      · next hlist => rw [resolve, if_neg hlist, h]
  | list element span ih =>
      obtain ⟨u, hu, rfl⟩ := Option.map_eq_some_iff.mp h
      rw [resolve, ih hu]

variable (env) in
/-- The names of the registry stand for what they do there. -/
def Keeps : Prop := ∀ name t, env.registry.type? name = some t → env.type? name = some t

theorem keeps_of_beside (h : ∀ e ∈ env.types, env.registry.type? e.1 = none) : env.Keeps := by
  intro name t ht
  have hnone : env.types.lookup name = none :=
    Aliases.Beside.lookup (a := ⟨env.types, [], []⟩) h ht
  unfold type?
  cases hbase : Base.ofText? name with
  | some b =>
      rw [Registry.type?, hbase] at ht
      exact ht
  | none => rw [hnone, ht, Option.none_or]

section

variable (henv : env.Keeps)

include henv

theorem denote?_of_keeps {ref : TypeRef} {t : Ty} (h : ref.denote? env.registry.type? = some t) :
    ref.denote? env.type? = some t := by
  induction ref generalizing t with
  | named name span =>
      rw [TypeRef.denote?] at h ⊢
      split at h
      · cases h
      · next hlist =>
          rw [if_neg hlist]
          exact henv name t h
  | list element span ih =>
      obtain ⟨u, hu, rfl⟩ := Option.map_eq_some_iff.mp h
      rw [TypeRef.denote?, ih hu, Option.map_some]

/-- Such references are resolved to the same, with the same findings if they are the same. -/
theorem resolve_synonymous {a b : TypeRef} (h : env.registry.Synonymous a b) :
    env.resolve a = env.resolve b := by
  rcases h with rfl | ⟨t, ha, hb⟩
  · rfl
  · rw [resolve_of_denote? (denote?_of_keeps henv ha),
      resolve_of_denote? (denote?_of_keeps henv hb)]

theorem recordFields_synonymous (record : String) (known : List (String × Ty)) {fs gs : List Typed}
    (h : List.Forall₂ (Typed.UpTo env.registry.Synonymous) fs gs) :
    recordFields env record known fs = recordFields env record known gs := by
  induction h generalizing known with
  | nil => rfl
  | @cons f g fs gs hfg _ ih =>
      simp only [recordFields, hfg.name, hfg.span, resolve_synonymous henv hfg.ty, ih]

theorem recordDefinitions_synonymous {rs ss : List RecordDecl}
    (h : List.Forall₂ (RecordDecl.UpTo env.registry.Synonymous) rs ss) :
    recordDefinitions env rs = recordDefinitions env ss := by
  induction h with
  | nil => rfl
  | @cons r s rs ss hrs _ ih =>
      rw [recordDefinitions, recordDefinitions, ih, hrs.name,
        recordFields_synonymous henv s.name [] hrs.fields]

theorem resolveAll_synonymous {ps qs : List Typed}
    (h : List.Forall₂ (Typed.UpTo env.registry.Synonymous) ps qs) :
    env.resolveAll (ps.map Typed.ty) = env.resolveAll (qs.map Typed.ty) := by
  induction h with
  | nil => rfl
  | @cons p q ps qs hpq _ ih =>
      rw [List.map_cons, List.map_cons, resolveAll, resolveAll, ih, resolve_synonymous henv hpq.ty]

theorem signature_synonymous {f g : FunctionDecl} (h : f.UpTo env.registry.Synonymous g) :
    env.signature f = env.signature g := by
  have hnames : f.parameters.map Typed.name = g.parameters.map Typed.name :=
    map_eq_of_forall₂ (h.parameters.imp fun _ _ hpq => hpq.name)
  rw [signature, signature, hnames, resolveAll_synonymous henv h.parameters]
  have hreturns := h.returns
  generalize f.returns = a, g.returns = b at hreturns ⊢
  cases hreturns with
  | none => rfl
  | some hab => simp only [resolve_synonymous henv hab]

theorem signatures_synonymous {fs gs : List FunctionDecl}
    (h : List.Forall₂ (FunctionDecl.UpTo env.registry.Synonymous) fs gs) :
    env.signatures fs = env.signatures gs := by
  induction h with
  | nil => rfl
  | @cons f g fs gs hfg _ ih => rw [signatures, signatures, ih, signature_synonymous henv hfg]

end

end TypeEnv

/-! ### All declarations -/

namespace Declared

theorem functionTable_upTo {R : TypeRef → TypeRef → Prop} {marked marked' : List (Decl × Bool)}
    (h : List.Forall₂ (fun m n => m.1.UpTo R n.1 ∧ m.2 = n.2) marked marked')
    (signatures : List Signature) :
    functionTable marked signatures = functionTable marked' signatures := by
  induction h generalizing signatures with
  | nil => rfl
  | @cons m n marked marked' hmn _ ih =>
      obtain ⟨d, ok⟩ := m
      obtain ⟨e, ok'⟩ := n
      obtain ⟨hde, rfl⟩ := hmn
      unfold functionTable at ih ⊢
      cases hde with
      | @function f g hfg =>
          cases signatures with
          | nil => rfl
          | cons s ss =>
              simp only [List.filterMap_cons, List.zip_cons_cons, hfg.name, hfg.span, ih ss]
      | type _ | record _ => exact ih signatures

section

variable {registry : Registry} {own own' : Program} (hown : own.UpTo registry.Synonymous own')
  (hfree : ∀ d ∈ own.declarations, registry.type? d.name = none)

include hown hfree

theorem aliases_synonymous : aliases registry own = aliases registry own' ∧
    (aliases registry own).Beside registry := by
  have hrecords : recordTypes own = recordTypes own' :=
    map_eq_of_forall₂ (hown.records.imp fun r s hrs => by rw [hrs.name])
  have hnames : (own.types.map fun t => (t.name, Ty.error)) =
      own'.types.map fun t => (t.name, Ty.error) :=
    map_eq_of_forall₂ (hown.types.imp fun t u htu => by rw [htu.name])
  have hbeside : ∀ e ∈ recordTypes own, registry.type? e.1 = none := by
    intro e he
    obtain ⟨r, hr, rfl⟩ := List.mem_map.mp he
    exact hfree _ (Program.mem_records.mp hr)
  unfold aliases
  simp only [← hrecords, ← hnames, ← hown.types.length_eq]
  exact Aliases.foldl_synonymous (fun t ht => hfree _ (Program.mem_types.mp ht)) hown.types _
    hown.types (List.Subset.refl _) hbeside

theorem typed_synonymous : typed registry own = typed registry own' ∧
    (typed registry own).Keeps := by
  obtain ⟨heq, hbeside⟩ := aliases_synonymous hown hfree
  exact ⟨by rw [typed, typed, heq], TypeEnv.keeps_of_beside hbeside⟩

theorem recordDefinitions_synonymous : recordDefinitions (typed registry own) own.records =
    recordDefinitions (typed registry own') own'.records := by
  obtain ⟨heq, hkeeps⟩ := typed_synonymous hown hfree
  rw [← heq]
  exact TypeEnv.recordDefinitions_synonymous hkeeps hown.records

theorem recorded_synonymous : recorded registry own = recorded registry own' := by
  rw [recorded, recorded, recordDefinitions_synonymous hown hfree, (typed_synonymous hown hfree).1]

end

/-- Programs that differ in such references declare the same. -/
theorem of_synonymous {registry : Registry} {p q : Program} (h : p.UpTo registry.Synonymous q) :
    Declared.of registry p = Declared.of registry q := by
  obtain ⟨hmarked, hfound⟩ := registerNames_upTo registry [] h.declarations
  have hown : ({ p with declarations := registered (registerNames registry [] p.declarations).1 } :
      Program).UpTo registry.Synonymous
        { q with declarations := registered (registerNames registry [] q.declarations).1 } :=
    ⟨registered_upTo hmarked, h.span⟩
  have hfree : ∀ d ∈ registered (registerNames registry [] p.declarations).1,
      registry.type? d.name = none := fun _ hd => type?_of_registered hd
  have hkeeps : (recorded registry ({ p with
      declarations := registered (registerNames registry [] p.declarations).1 } : Program)).Keeps :=
    (typed_synonymous hown hfree).2
  have hsignatures := TypeEnv.signatures_synonymous hkeeps h.functions
  simp only [of_eq]
  rw [hsignatures, functionTable_upTo hmarked, hfound, (aliases_synonymous hown hfree).1,
    recordDefinitions_synonymous hown hfree, recorded_synonymous hown hfree]

end Declared

/-! ### Bodies -/

namespace TypeEnv

variable (env : TypeEnv) {R : TypeRef → TypeRef → Prop}

theorem bindParameters_upTo {ps qs : List Typed} (h : List.Forall₂ (Typed.UpTo R) ps qs)
    (types : List Ty) (scope : Scope) :
    env.bindParameters scope (ps.zip types) = env.bindParameters scope (qs.zip types) := by
  induction h generalizing types scope with
  | nil => rfl
  | @cons p q ps qs hpq _ ih =>
      cases types with
      | nil => rfl
      | cons t types =>
          rw [List.zip_cons_cons, List.zip_cons_cons, bindParameters, bindParameters, hpq.name,
            hpq.span]
          simp only [ih]

theorem checkFunction_upTo {f g : FunctionDecl} (h : f.UpTo R g) (timer : Timer) (s : Signature) :
    (env.checkFunction timer f s).1.UpTo R (env.checkFunction timer g s).1 ∧
      (env.checkFunction timer f s).2 = (env.checkFunction timer g s).2 := by
  obtain ⟨hparameters, hreturns⟩ := h
  simp only [checkFunction, bindParameters_upTo env hparameters, and_true]
  exact .intro hparameters hreturns

/-- Bodies are checked alike. -/
theorem checkDecls_upTo {ds es : List Decl} (h : List.Forall₂ (Decl.UpTo R) ds es) (timer : Timer)
    (signatures : List Signature) :
    List.Forall₂ (Decl.UpTo R) (env.checkDecls timer ds signatures).1
        (env.checkDecls timer es signatures).1 ∧
      (env.checkDecls timer ds signatures).2 = (env.checkDecls timer es signatures).2 := by
  induction h generalizing timer signatures with
  | nil => cases signatures <;> exact ⟨.nil, rfl⟩
  | @cons d e ds es hde _ ih =>
      cases hde with
      | @function f g hfg =>
          cases signatures with
          | nil => exact ⟨.cons (.function hfg) (ih _ _).1, (ih _ _).2⟩
          | cons s ss =>
              obtain ⟨hfunction, hrest⟩ := checkFunction_upTo env hfg timer s
              simp only [checkDecls, hrest, (ih _ _).2, and_true]
              exact .cons (.function hfunction) (ih _ _).1
      | type h => exact ⟨.cons (.type h) (ih _ _).1, (ih _ _).2⟩
      | record h => exact ⟨.cons (.record h) (ih _ _).1, (ih _ _).2⟩

end TypeEnv

/-! ### The whole check -/

/-- Programs that differ in such references are checked with the same result, and differ in nothing
else behind the check. -/
theorem Program.UpTo.checkTypes {registry : Registry} {p q : Program}
    (h : p.UpTo registry.Synonymous q) (budget : Budget) :
    (p.checkTypes registry budget).program.UpTo registry.Synonymous
        (q.checkTypes registry budget).program ∧
      (p.checkTypes registry budget).budget = (q.checkTypes registry budget).budget ∧
      (p.checkTypes registry budget).result = (q.checkTypes registry budget).result := by
  obtain ⟨hdecls, hrest⟩ := TypeEnv.checkDecls_upTo (Declared.of registry q).env
    h.declarations ⟨budget, none⟩ (Declared.of registry q).signatures
  simp only [Program.checkTypes, Declared.of_synonymous h, hrest, and_self, and_true]
  exact ⟨hdecls, h.span⟩

end Prosaic
