import Prosaic.Proofs.Typing.Alike
import Prosaic.Proofs.Typing.Places
import Prosaic.Proofs.Typing.Reached

/-!
The type check against a registry that extends another one. Where the names that are added do not
occur in a program, the same is declared in it, and what is declared leads to types that both
registries know alike; so the check writes the same into the program and finds the same up to hints.
-/

namespace Prosaic

variable {occurs : String → Prop} {r r' : Registry}

/-! ### Names -/

/-- Names that occur are registered alike. -/
theorem registerNames_extended (h : r.ExtendedBy occurs r') {ds : List Decl}
    (hds : ∀ d ∈ ds, occurs d.name) (lines : List (String × Nat)) :
    registerNames r lines ds = registerNames r' lines ds := by
  induction ds generalizing lines with
  | nil => rfl
  | cons d ds ih =>
      obtain ⟨hd, hds⟩ := List.forall_mem_cons.mp hds
      have hforeign : r.declaredNames.contains d.name = r'.declaredNames.contains d.name := by
        rw [Bool.eq_iff_iff, List.contains_iff_mem, List.contains_iff_mem, h.mem_declaredNames hd]
      have hconflict : nameConflict r lines d = nameConflict r' lines d := by
        rw [nameConflict, nameConflict, hforeign]
      simp only [registerNames, hconflict, ih hds]

/-! ### Type declarations -/

namespace Aliases

/-- What is resolved against either registry: the same, with findings that differ in hints at
most. -/
structure AlikeIn (a b : Aliases) : Prop where
  types : a.types = b.types
  domains : a.domains = b.domains
  found : SameFound a.found b.found

/-- The outcomes of resolving something against either registry. -/
structure SameStep (x y : Ty × Aliases) : Prop where
  ty : x.1 = y.1
  rest : x.2.AlikeIn y.2

variable {a b : Aliases}

theorem AlikeIn.report (h : a.AlikeIn b) {d e : Diagnostic} (hde : d.hintless = e.hintless) :
    (a.report d).AlikeIn (b.report e) :=
  ⟨h.types, h.domains, h.found.append (.cons hde rfl)⟩

theorem AlikeIn.cyclic (h : a.AlikeIn b) (t : TypeDecl) : (a.cyclic t).AlikeIn (b.cyclic t) :=
  ⟨congrArg (List.cons _) h.types, h.domains, h.found.append rfl⟩

theorem AlikeIn.define (h : a.AlikeIn b) (name : String) (d : Ty.Domain) :
    (a.define name d).AlikeIn (b.define name d) := by
  unfold Aliases.define
  rw [← h.types]
  split
  · exact h
  · exact ⟨rfl, congrArg (List.cons _) h.domains, h.found⟩

theorem reference_extended {step step' : String → Position → Aliases → Ty × Aliases} {ref : TypeRef}
    (hstep : ∀ start, SameStep (step ref.base start a) (step' ref.base start b))
    (h : a.AlikeIn b) : SameStep (reference step ref a) (reference step' ref b) := by
  induction ref with
  | named name span =>
      unfold reference
      split
      · exact ⟨rfl, h.report rfl⟩
      · exact hstep span.start
  | list element span ih =>
      obtain ⟨hty, hrest⟩ := ih hstep
      exact ⟨congrArg Ty.list hty, hrest⟩

section

variable (h : r.ExtendedBy occurs r') {declared : List TypeDecl}
  (hrefs : ∀ t ∈ declared, ∀ ref, t.body = .reference ref → occurs ref.base)

include h

theorem named_extended {knownNames knownNames' : List String} {fuel : Nat} {opened : List String}
    (hresolve : ∀ t ∈ declared, SameStep (resolve r declared knownNames fuel opened t a)
      (resolve r' declared knownNames' fuel opened t b))
    {name : String} (hname : occurs name) (start : Position) (hab : a.AlikeIn b) :
    SameStep (named r declared knownNames fuel opened name start a)
      (named r' declared knownNames' fuel opened name start b) := by
  unfold named
  rw [← hab.types, ← h.type? hname]
  split
  · exact ⟨rfl, hab⟩
  · split
    · exact ⟨rfl, hab⟩
    · split
      · next other hother => exact hresolve other (List.mem_of_find?_eq_some hother)
      · split
        · exact ⟨rfl, hab⟩
        · exact ⟨rfl, hab.report rfl⟩

include hrefs

/-- A type declaration is resolved alike. -/
theorem resolve_extended {knownNames knownNames' : List String} (fuel : Nat) (opened : List String)
    {t : TypeDecl} (ht : t ∈ declared) (hab : a.AlikeIn b) :
    SameStep (resolve r declared knownNames fuel opened t a)
      (resolve r' declared knownNames' fuel opened t b) := by
  induction fuel generalizing opened t a b with
  | zero => exact ⟨rfl, hab⟩
  | succ fuel ih =>
      have hdefine : ∀ {a b : Aliases} {d e : Ty.Domain}, a.AlikeIn b → d = e →
          SameStep
            (((a.define t.name d).types.lookup t.name).getD .error, a.define t.name d)
            (((b.define t.name e).types.lookup t.name).getD .error, b.define t.name e) := by
        rintro a b d _ hab rfl
        have hdefined := hab.define t.name d
        exact ⟨by rw [hdefined.types], hdefined⟩
      rw [resolve_succ, resolve_succ, ← hab.types]
      split
      · exact ⟨rfl, hab⟩
      · split
        · exact ⟨rfl, hab.cyclic t⟩
        · cases hbody : t.body with
          | literals values => exact hdefine hab rfl
          | reference ref =>
              obtain ⟨hty, hrest⟩ := reference_extended (fun start =>
                named_extended h (fun u hu => ih (t.name :: opened) hu hab)
                  (hrefs t ht ref hbody) start hab) hab
              exact hdefine hrest (by rw [hty])

/-- All type declarations are resolved alike. -/
theorem foldl_extended {knownNames knownNames' : List String} (fuel : Nat) {ts : List TypeDecl}
    (hts : ts ⊆ declared) (hab : a.AlikeIn b) :
    (ts.foldl (fun a t => (resolve r declared knownNames fuel [] t a).2) a).AlikeIn
      (ts.foldl (fun b t => (resolve r' declared knownNames' fuel [] t b).2) b) := by
  induction ts generalizing a b with
  | nil => exact hab
  | cons t ts ih =>
      obtain ⟨ht, hts⟩ := List.cons_subset.mp hts
      exact ih hts (resolve_extended h hrefs fuel [] ht hab).rest

end

end Aliases

/-! ### Heads -/

/-- What is declared around two registries looks names up alike. -/
theorem Registry.ExtendedBy.alikeOn (h : r.ExtendedBy occurs r')
    (functions : List (String × DeclaredFunction)) (types : List (String × Ty))
    (domains : List (String × Ty.Domain)) (records : List (String × Ty.Record)) :
    TypeEnv.AlikeOn occurs (r.ComesTo occurs) ⟨r, functions, types, domains, records⟩
      ⟨r', functions, types, domains, records⟩ where
  functions _ _ := rfl
  helpers n hn := (h.helpers n (.inl hn)).symm
  operations n hn := (h.operations n (.inl hn)).symm
  type?_eq n hn := by simp only [TypeEnv.type?, h.type? hn]
  domains n hn := by simp only [TypeEnv.domain?, h.domains n hn]
  records n hn := by simp only [TypeEnv.record?, h.records n hn]

/-- What a program declares against either registry. -/
structure Declared.AlikeIn (occurs known : String → Prop) (d d' : Declared) : Prop where
  env : d.env.AlikeOn occurs known d'.env
  signatures : d.signatures = d'.signatures
  found : SameFound d.found d'.found

namespace Declared

section

variable (h : r.ExtendedBy occurs r') {own : Program}
  (hreferred : ∀ d ∈ own.declarations, ∀ ref ∈ d.typeRefs, occurs ref.base)

include h hreferred

theorem aliases_extended : (aliases r own).AlikeIn (aliases r' own) := by
  refine Aliases.foldl_extended h (fun t ht ref href => ?_) _ (List.Subset.refl _) ⟨rfl, rfl, rfl⟩
  refine hreferred _ (Program.mem_types.mp ht) ref ?_
  obtain ⟨name, body, span⟩ := t
  obtain rfl : body = .reference ref := href
  exact List.mem_singleton.mpr rfl

theorem typed_extended :
    (typed r own).AlikeOn occurs (r.ComesTo occurs) (typed r' own) := by
  have halike := aliases_extended h hreferred
  rw [typed, typed, ← halike.types, ← halike.domains]
  exact h.alikeOn [] _ _ []

theorem recordDefinitions_extended :
    (recordDefinitions (typed r own) own.records).1 =
        (recordDefinitions (typed r' own) own.records).1 ∧
      SameFound (recordDefinitions (typed r own) own.records).2
        (recordDefinitions (typed r' own) own.records).2 := by
  have hfields : ∀ record ∈ own.records, ∀ f ∈ record.fields, occurs f.ty.base :=
    fun record hrecord f hf =>
      hreferred _ (Program.mem_records.mp hrecord) _ (List.mem_map_of_mem hf)
  have halike := fun record hrecord => TypeEnv.recordFields_alike
    (typed_extended h hreferred) record.name (hfields record hrecord) []
  simp only [recordDefinitions_eq]
  exact ⟨List.map_congr_left fun record hrecord => by rw [(halike record hrecord).1],
    .flatMap fun record hrecord => (halike record hrecord).2⟩

theorem recorded_extended (functions : List (String × DeclaredFunction)) :
    TypeEnv.AlikeOn occurs (r.ComesTo occurs) { recorded r own with functions := functions }
      { recorded r' own with functions := functions } := by
  have halike := aliases_extended h hreferred
  have hrecords := (recordDefinitions_extended h hreferred).1
  show TypeEnv.AlikeOn occurs (r.ComesTo occurs)
    ⟨r, functions, (aliases r own).types, (aliases r own).domains,
      (recordDefinitions (typed r own) own.records).1⟩
    ⟨r', functions, (aliases r' own).types, (aliases r' own).domains,
      (recordDefinitions (typed r' own) own.records).1⟩
  rw [← halike.types, ← halike.domains, ← hrecords]
  exact h.alikeOn functions _ _ _

end

/-- A program whose names occur declares the same against both registries. -/
theorem of_extended (h : r.ExtendedBy occurs r') {p : Program} (hp : p.Within occurs) :
    (Declared.of r p).AlikeIn occurs (r.ComesTo occurs) (Declared.of r' p) := by
  have hnames := registerNames_extended h hp.declared []
  obtain ⟨own, hown⟩ : ∃ own : Program, own = { p with
      declarations := registered (registerNames r [] p.declarations).1 } := ⟨_, rfl⟩
  have hreferred : ∀ d ∈ own.declarations, ∀ ref ∈ d.typeRefs, occurs ref.base := by
    rw [hown]
    exact fun d hd => hp.referred d (mem_registered hd)
  have hparameters : ∀ f ∈ p.functions, ∀ q ∈ f.parameters, occurs q.ty.base := fun f hf q hq =>
    hp.referred _ (Program.mem_functions.mp hf) _
      (List.mem_append_left _ (List.mem_map_of_mem hq))
  have hreturns : ∀ f ∈ p.functions, ∀ ref ∈ f.returns, occurs ref.base := fun f hf ref href =>
    hp.referred _ (Program.mem_functions.mp hf) _
      (List.mem_append_right _ (Option.mem_toList.mpr href))
  have halike := fun f hf => TypeEnv.signature_alike
    (recorded_extended h hreferred []) (hparameters f hf) (hreturns f hf)
  have hsignatures : (p.functions.map fun f => ((recorded r own).signature f).1) =
      p.functions.map fun f => ((recorded r' own).signature f).1 :=
    List.map_congr_left fun f hf => (halike f hf).1
  have hrecords := (recordDefinitions_extended h hreferred).2
  have haliases := (aliases_extended h hreferred).found
  simp only [of_eq, ← hnames, ← hown, TypeEnv.signatures_eq, ← hsignatures]
  exact {
    env := recorded_extended h hreferred _
    signatures := rfl
    found := ((SameFound.append rfl haliases).append hrecords).append
      (.flatMap fun f hf => (halike f hf).2) }

/-- What a program whose names occur declares leads to types that a registry knows. -/
theorem closed_of (hclosed : r.Closed) {p : Program} (hp : p.Within occurs) :
    (Declared.of r p).env.Closed occurs (r.ComesTo occurs) ∧
      ∀ s ∈ (Declared.of r p).signatures, s.Within (r.ComesTo occurs) := by
  have hdeclared : ∀ d ∈ p.declarations, r.ComesTo occurs d.name := fun d hd =>
    .inl (hp.declared d hd)
  obtain ⟨henv, hsignatures⟩ := Declared.of_over (Ty.family_within (r.ComesTo occurs))
    (hclosed.over fun _ => .inr) (fun t ht => hdeclared _ (Program.mem_types.mp ht))
    fun record hrecord => hdeclared _ (Program.mem_records.mp hrecord)
  exact ⟨(henv.mono fun _ _ => trivial).closed, fun s hs => (hsignatures s hs).within⟩

end Declared

/-! ### Bodies -/

namespace TypeEnv

variable {known : String → Prop} {env env' : TypeEnv}

/-- The time that a check of bodies takes does not depend on what is declared. -/
theorem timer_checkDecls (env env' : TypeEnv) (timer : Timer) (ds : List Decl)
    (ss : List Signature) :
    (env.checkDecls timer ds ss).2.2 = (env'.checkDecls timer ds ss).2.2 := by
  induction ds generalizing timer ss with
  | nil => cases ss <;> rfl
  | cons d ds ih =>
      cases d with
      | function f =>
          cases ss with
          | nil => exact ih timer []
          | cons s ss =>
              have hfunction : (env.checkFunction timer f s).2.2 =
                  (env'.checkFunction timer f s).2.2 := by
                simp only [checkFunction, timer_checkBlock]
              simp only [checkDecls, hfunction, ih]
      | type t | record record => exact ih timer ss

/-- Bodies in which only names that occur are called and bound are checked alike, if both checks are
in time. -/
theorem checkDecls_alike (h : env.AlikeOn occurs known env') (henv : env.Closed occurs known)
    {ds : List Decl}
    (hparameters : ∀ f ∈ ds.filterMap Decl.function?, ∀ q ∈ f.parameters, occurs q.name)
    (hbodies : ∀ f ∈ ds.filterMap Decl.function?, ∀ s ∈ f.body, s.Within occurs)
    {ss : List Signature} (hss : ∀ s ∈ ss, s.Within known) {timer : Timer}
    (htime : (env.checkDecls timer ds ss).2.2.exceeded = none) :
    (env.checkDecls timer ds ss).1 = (env'.checkDecls timer ds ss).1 ∧
      SameFound (env.checkDecls timer ds ss).2.1 (env'.checkDecls timer ds ss).2.1 := by
  have htime' := htime
  rw [timer_checkDecls env env'] at htime'
  induction ds generalizing timer ss with
  | nil => cases ss <;> exact ⟨rfl, rfl⟩
  | cons d ds ih =>
      cases d with
      | function f =>
          obtain ⟨hfparameters, hparameters⟩ := List.forall_mem_cons.mp hparameters
          obtain ⟨hfbody, hbodies⟩ := List.forall_mem_cons.mp hbodies
          cases ss with
          | nil =>
              obtain ⟨hdecls, hfound⟩ := ih hparameters hbodies hss htime htime'
              exact ⟨congrArg (Decl.function f :: ·) hdecls, hfound⟩
          | cons s ss =>
              obtain ⟨hs, hss⟩ := List.forall_mem_cons.mp hss
              simp only [checkDecls] at htime htime' ⊢
              obtain ⟨hfunction, hfound⟩ := checkFunction_alike h henv hfparameters hfbody hs
                (exceeded_of_checkDecls env htime) (exceeded_of_checkDecls env' htime')
              have htimer : (env'.checkFunction timer f s).2.2 =
                  (env.checkFunction timer f s).2.2 := by
                simp only [checkFunction, timer_checkBlock]
              rw [htimer] at htime' ⊢
              obtain ⟨hdecls, hmore⟩ := ih hparameters hbodies hss htime htime'
              exact ⟨by rw [hfunction, hdecls], hfound.append hmore⟩
      | type t | record record =>
          obtain ⟨hdecls, hfound⟩ := ih hparameters hbodies hss htime htime'
          exact ⟨congrArg (List.cons _) hdecls, hfound⟩

end TypeEnv

/-! ### The whole check -/

/-- Against a registry and one that extends it by names that do not occur in a program, the type
check takes the same time. If it ends in time it writes the same and finds the same up to hints. -/
theorem Program.checkTypes_extended (h : r.ExtendedBy occurs r') (hclosed : r.Closed) {p : Program}
    (hp : p.Within occurs) (budget : Budget) :
    (p.checkTypes r budget).budget = (p.checkTypes r' budget).budget ∧
      ((∃ e, (p.checkTypes r budget).result = .error e ∧
          (p.checkTypes r' budget).result = .error e) ∨
        ∃ found found', (p.checkTypes r budget).result = .ok found ∧
          (p.checkTypes r' budget).result = .ok found' ∧ SameFound found found' ∧
          (p.checkTypes r budget).program = (p.checkTypes r' budget).program) := by
  have hdeclared := Declared.of_extended h hp
  obtain ⟨henv, hsignatures⟩ := Declared.closed_of hclosed hp
  have htimer :=
    TypeEnv.timer_checkDecls (Declared.of r p).env (Declared.of r' p).env ⟨budget, none⟩
    p.declarations (Declared.of r p).signatures
  simp only [checkTypes, ← hdeclared.signatures, ← htimer, true_and]
  split
  · next e he => exact .inl ⟨e, rfl, by simp only [he]⟩
  · next htime =>
      obtain ⟨hdecls, hfound⟩ := TypeEnv.checkDecls_alike hdeclared.env henv
        hp.parameters hp.bodies hsignatures htime
      exact .inr ⟨_, _, rfl, by simp only [htime], hdeclared.found.append hfound, by rw [hdecls]⟩

end Prosaic
