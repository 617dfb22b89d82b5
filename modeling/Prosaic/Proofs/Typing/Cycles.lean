import Prosaic.Proofs.Typing.Grounded
import Prosaic.Proofs.Typing.Synonyms

/-!
Cycles of type declarations. Each declaration refers to at most one other one, so whatever a cycle
leads to is on the cycle itself. While a declaration is resolved, the ones that ask for it are open
and none of them is in the table; the first one that is asked for again closes a cycle, and all of
the cycle is open then. So what is known of each cycle is one declaration that failed, and the ones
that lead to it are domain types as all others are.
-/

namespace Prosaic

open Relation

/-! ### Chains of references -/

/-- Two declarations lie on one cycle. -/
def SameCycle (declared : List TypeDecl) (t u : TypeDecl) : Prop :=
  TransGen (RefersTo declared) t u ∧ TransGen (RefersTo declared) u t

section

variable {declared : List TypeDecl} {t u v : TypeDecl}
  (hdistinct : (declared.map TypeDecl.name).Nodup)

include hdistinct

theorem RefersTo.unique (hu : RefersTo declared u t) (hv : RefersTo declared v t) : u = v := by
  obtain ⟨hu, ref, hbody, hname⟩ := hu
  obtain ⟨hv, ref', hbody', hname'⟩ := hv
  obtain rfl : ref = ref' := TypeBody.reference.inj (hbody.symm.trans hbody')
  exact List.inj_on_of_nodup_map hdistinct hu hv (hname.symm.trans hname')

/-- Whatever a cycle leads to leads back to it. -/
theorem leads_back (hcycle : TransGen (RefersTo declared) t t)
    (h : TransGen (RefersTo declared) u t) : TransGen (RefersTo declared) t u := by
  have hstep : ∀ {u v}, RefersTo declared u v → TransGen (RefersTo declared) t v →
      TransGen (RefersTo declared) t u := by
    intro u v huv hv
    obtain ⟨w, hw, hwv⟩ := TransGen.tail'_iff.mp hv
    rw [RefersTo.unique hdistinct huv hwv]
    exact hcycle.trans_left hw
  induction h using TransGen.head_induction_on with
  | single h => exact hstep h hcycle
  | head h _ ih => exact hstep h ih

end

/-! ### Findings -/

/-- The finding that a declaration is defined in terms of itself. -/
def TypeDecl.cycleFinding (t : TypeDecl) : Diagnostic :=
  typeFinding Diagnostic.unknownType ("Type '" ++ t.name ++ "' is defined in terms of itself")
    t.span.start (some "Define the type as a base type or a set of string literals.")

/-- A finding says of something that it is defined in terms of itself. -/
def Diagnostic.tellsOfCycle (d : Diagnostic) : Bool :=
  " is defined in terms of itself".toList.isSuffixOf d.message.toList

namespace Diagnostic

theorem tellsOfCycle_cycleFinding (t : TypeDecl) : t.cycleFinding.tellsOfCycle = true := by
  rw [tellsOfCycle, List.isSuffixOf_iff_suffix]
  refine ⟨("Type '" ++ t.name ++ "'").toList, ?_⟩
  simp [TypeDecl.cycleFinding, typeFinding]

/-- A message that ends in another letter tells of no cycle. -/
theorem tellsOfCycle_eq_false {d : Diagnostic} {front tail : String} {c : Char}
    (h : d.message = front ++ tail) (htail : tail.toList.getLast? = some c) (hc : c ≠ 'f') :
    d.tellsOfCycle = false := by
  rw [← Bool.not_eq_true, tellsOfCycle, List.isSuffixOf_iff_suffix, h, String.toList_append]
  rintro ⟨before, hbefore⟩
  have hlast := congrArg List.getLast? hbefore
  rw [List.getLast?_append, List.getLast?_append, htail] at hlast
  exact hc (Option.some.inj hlast).symm

/-- None of the findings tells of a cycle. -/
def NoCycles (ds : List Diagnostic) : Prop := ∀ d ∈ ds, d.tellsOfCycle = false

theorem NoCycles.filter {ds : List Diagnostic} (h : NoCycles ds) :
    ds.filter tellsOfCycle = [] :=
  List.filter_eq_nil_iff.mpr fun d hd => by rw [h d hd]; exact Bool.false_ne_true

theorem noCycles_append {ds es : List Diagnostic} (hds : NoCycles ds) (hes : NoCycles es) :
    NoCycles (ds ++ es) := List.forall_mem_append.mpr ⟨hds, hes⟩

end Diagnostic

open Diagnostic

theorem tellsOfCycle_bareList (start : Position) :
    (TypeEnv.bareList start).tellsOfCycle = false :=
  tellsOfCycle_eq_false (c := 'e')
    (show _ = "'List' needs an element " ++ "type" from rfl) rfl (by decide)

theorem tellsOfCycle_unknownType (known : List String) (name : String) (start : Position) :
    (TypeEnv.unknownType known name start).tellsOfCycle = false :=
  tellsOfCycle_eq_false (c := '\'') rfl rfl (by decide)

theorem TypeEnv.noCycles_resolve (env : TypeEnv) (ref : TypeRef) :
    NoCycles (env.resolve ref).2 := by
  induction ref with
  | named name span =>
      unfold TypeEnv.resolve
      split
      · exact List.forall_mem_singleton.mpr (tellsOfCycle_bareList _)
      · split
        · exact List.forall_mem_nil _
        · exact List.forall_mem_singleton.mpr (tellsOfCycle_unknownType ..)
  | list element span ih => exact ih

theorem noCycles_registerNames (registry : Registry) (lines : List (String × Nat))
    (ds : List Decl) : NoCycles (registerNames registry lines ds).2 := by
  have hconflict : ∀ {lines d conflict}, nameConflict registry lines d = some conflict →
      conflict.tellsOfCycle = false := by
    intro lines d conflict h
    unfold nameConflict at h
    dsimp only at h
    split at h
    · obtain rfl := Option.some.inj h
      exact tellsOfCycle_eq_false (c := 'd') rfl rfl (by decide)
    · split at h
      · obtain rfl := Option.some.inj h
        exact tellsOfCycle_eq_false (c := 'y') rfl rfl (by decide)
      · split at h
        · next line _ =>
            obtain rfl := Option.some.inj h
            -- the message ends with the number of a line, so with a digit
            have hdigits : (toString line).toList = Nat.toDigits 10 line := by simp
            obtain ⟨c, hc⟩ : ∃ c, (Nat.toDigits 10 line).getLast? = some c :=
              Option.isSome_iff_exists.mp (by simp)
            refine tellsOfCycle_eq_false (c := c) rfl (hdigits ▸ hc) ?_
            rintro rfl
            have hdigit := Nat.isDigit_of_mem_toDigits (by decide) (by decide)
              (List.mem_of_getLast? hc)
            exact absurd hdigit (by decide)
        · cases h
  induction ds generalizing lines with
  | nil => exact List.forall_mem_nil _
  | cons d ds ih =>
      unfold registerNames
      split
      · exact ih lines
      · split
        · next conflict h => exact List.forall_mem_cons.mpr ⟨hconflict h, ih lines⟩
        · exact ih _

theorem noCycles_recordFields (env : TypeEnv) (record : String) (known : List (String × Ty))
    (fs : List Typed) : NoCycles (recordFields env record known fs).2 := by
  induction fs generalizing known with
  | nil => exact List.forall_mem_nil _
  | cons f fs ih =>
      unfold recordFields
      split
      · exact List.forall_mem_cons.mpr
          ⟨tellsOfCycle_eq_false (c := 'e') rfl rfl (by decide), ih known⟩
      · exact noCycles_append (env.noCycles_resolve f.ty) (ih _)

theorem TypeEnv.noCycles_signature (env : TypeEnv) (f : FunctionDecl) :
    NoCycles (env.signature f).2 := by
  have hparameters : NoCycles (env.resolveAll (f.parameters.map Typed.ty)).2 := by
    rw [env.resolveAll_eq]
    refine List.forall_mem_flatMap.mpr fun ref _ => env.noCycles_resolve ref
  unfold TypeEnv.signature
  cases f.returns with
  | none => exact hparameters
  | some ref => exact noCycles_append hparameters (env.noCycles_resolve ref)

/-! ### What a declaration says -/

/-- The domain type that a declaration defines in an environment. -/
def TypeBody.domain (env : TypeEnv) : TypeBody → Ty.Domain
  | .literals values => ⟨some .string, values, false⟩
  | .reference ref => ⟨some (env.resolve ref).1, [], false⟩

/-- A reference is resolved to the same type where its name has the same type. -/
theorem TypeEnv.resolve_congr {env env' : TypeEnv} {ref : TypeRef}
    (h : env.type? ref.base = env'.type? ref.base) :
    (env.resolve ref).1 = (env'.resolve ref).1 := by
  induction ref with
  | named name span =>
      rw [TypeRef.base] at h
      unfold TypeEnv.resolve
      rw [h]
      split
      · rfl
      · cases env'.type? name <;> rfl
  | list element span ih =>
      simp only [TypeEnv.resolve]
      rw [ih h]

theorem TypeBody.domain_congr {env env' : TypeEnv} {body : TypeBody}
    (h : ∀ ref, body = .reference ref → env.type? ref.base = env'.type? ref.base) :
    body.domain env = body.domain env' := by
  cases body with
  | literals values => rfl
  | reference ref => rw [domain, domain, TypeEnv.resolve_congr (h ref rfl)]

namespace Aliases

variable {registry : Registry} {records : List String} {declared : List TypeDecl}
  {a b : Aliases} {t : TypeDecl} {opened : List String}

/-- The environment in which references are resolved at some point. -/
def env (registry : Registry) (a : Aliases) : TypeEnv := ⟨registry, [], a.types, a.domains, []⟩

/-- Every declaration that another one refers to is in the table. -/
def Settled (declared : List TypeDecl) (a : Aliases) (t : TypeDecl) : Prop :=
  ∀ u, RefersTo declared u t → (a.types.lookup u.name).isSome = true

theorem Extends.refl (a : Aliases) : Extends a a := fun _ _ h => h

theorem Extends.trans {c : Aliases} (h : Extends a b) (h' : Extends b c) : Extends a c :=
  fun n ty hn => h' n ty (h n ty hn)

theorem Extends.isSome (h : Extends a b) {n : String} (hn : (a.types.lookup n).isSome = true) :
    (b.types.lookup n).isSome = true := by
  obtain ⟨ty, hty⟩ := Option.isSome_iff_exists.mp hn
  rw [h n ty hty]
  rfl

theorem Settled.mono (h : Extends a b) (ha : Settled declared a t) : Settled declared b t :=
  fun u hu => h.isSome (ha u hu)

/-! ### The table while declarations are resolved -/

/-- The names in the table are those of records and declarations, each with its type or with the
error type. -/
structure Entered (records : List String) (declared : List TypeDecl) (a : Aliases) : Prop where
  known : ∀ n ∈ records, a.types.lookup n = some (.record n)
  only : ∀ n ty, a.types.lookup n = some ty →
    n ∈ records ∨ n ∈ declared.map TypeDecl.name ∧ (ty = .domain n ∨ ty = .error)

/-- A declaration failed. -/
def Failed (a : Aliases) (t : TypeDecl) : Prop := a.types.lookup t.name = some .error

/-- What the table says about cycles. -/
structure Charted (declared : List TypeDecl) (a : Aliases) : Prop where
  /-- From what is in the table, the references come to an end or to one that failed. -/
  ends : ∀ t ∈ declared, (a.types.lookup t.name).isSome = true →
    Grounded declared t ∨ ∃ u ∈ declared, ReflTransGen (RefersTo declared) u t ∧ a.Failed u
  cyclic : ∀ t ∈ declared, a.Failed t → TransGen (RefersTo declared) t t
  single : ∀ t ∈ declared, ∀ u ∈ declared, a.Failed t → a.Failed u →
    TransGen (RefersTo declared) u t → u = t
  reported : ∃ ts : List TypeDecl, ts.Nodup ∧ (∀ t, t ∈ ts ↔ t ∈ declared ∧ a.Failed t) ∧
    a.found.filter tellsOfCycle = ts.map TypeDecl.cycleFinding

/-- The table at some point of the resolution. -/
structure Consistent (registry : Registry) (records : List String) (declared : List TypeDecl)
    (a : Aliases) : Prop extends Entered records declared a, Charted declared a where
  defined : ∀ t ∈ declared, a.types.lookup t.name = some (.domain t.name) →
    Settled declared a t ∧ a.domains.lookup t.name = some (t.body.domain (a.env registry))

/-- What is settled stays resolved as it is when declarations are added. -/
theorem Entered.type?_eq (ha : Entered records declared a) (hb : Entered records declared b)
    (h : Extends a b) {ref : TypeRef} (hbody : t.body = .reference ref)
    (hsettled : Settled declared a t) :
    (b.env registry).type? ref.base = (a.env registry).type? ref.base := by
  have hlookup : b.types.lookup ref.base = a.types.lookup ref.base := by
    cases ht : a.types.lookup ref.base with
    | some ty => exact h _ _ ht
    | none =>
        cases hty : b.types.lookup ref.base with
        | none => rfl
        | some ty =>
            exfalso
            rcases hb.only _ _ hty with hrecord | ⟨halias, -⟩
            · rw [ha.known _ hrecord] at ht
              cases ht
            · obtain ⟨u, hu, hname⟩ := List.mem_map.mp halias
              have hsome := hsettled u ⟨hu, ref, hbody, hname.symm⟩
              rw [hname, ht] at hsome
              cases hsome
  simp only [TypeEnv.type?, env, hlookup]

/-- An environment with more entries says the same of a declaration that is settled. -/
theorem Entered.domain_eq (ha : Entered records declared a) (hb : Entered records declared b)
    (h : Extends a b) (hsettled : Settled declared a t) :
    t.body.domain (b.env registry) = t.body.domain (a.env registry) :=
  TypeBody.domain_congr fun _ hbody => ha.type?_eq hb h hbody hsettled

/-! ### Chains of open declarations -/

/-- The declarations that are open when another one is asked for: a chain of references that leads
to it, none of which is in the table. -/
structure Chain (declared : List TypeDecl) (a : Aliases) (opened : List String) (t : TypeDecl) :
    Prop where
  distinct : opened.Nodup
  subset : opened ⊆ declared.map TypeDecl.name
  fresh : ∀ o ∈ opened, a.types.lookup o = none
  leads : ∀ u ∈ declared, u.name ∈ opened → TransGen (RefersTo declared) t u
  follows : ∀ u ∈ declared, u.name ∈ opened → ∀ v, RefersTo declared v u →
    v = t ∨ v.name ∈ opened

theorem Chain.start (declared : List TypeDecl) (a : Aliases) (t : TypeDecl) :
    Chain declared a [] t :=
  ⟨List.nodup_nil, List.nil_subset _, List.forall_mem_nil _, fun _ _ h => (List.not_mem_nil h).elim,
    fun _ _ h => (List.not_mem_nil h).elim⟩

/-- A chain that comes back to one of its own declarations has all that this one leads to. -/
theorem Chain.closed (h : Chain declared a opened t) (ht : t ∈ declared) (hopen : t.name ∈ opened)
    {v : TypeDecl} (hv : TransGen (RefersTo declared) v t) : v.name ∈ opened := by
  have hstep : ∀ {v u}, RefersTo declared v u → u ∈ declared → u.name ∈ opened →
      v.name ∈ opened := by
    intro v u hvu hu huo
    rcases h.follows u hu huo v hvu with rfl | hvo
    · exact hopen
    · exact hvo
  induction hv using TransGen.head_induction_on with
  | single hvt => exact hstep hvt ht hopen
  | head hvu huw ih =>
      obtain ⟨w, huw, -⟩ := TransGen.head'_iff.mp huw
      exact hstep hvu huw.1 ih

section

variable (hdistinct : (declared.map TypeDecl.name).Nodup)

include hdistinct

/-- The declaration that a fresh one refers to is asked for by a longer chain. -/
theorem Chain.cons (h : Chain declared a opened t) (ht : t ∈ declared)
    (hlookup : a.types.lookup t.name = none) (hopen : t.name ∉ opened) {u : TypeDecl}
    (hu : RefersTo declared u t) : Chain declared a (t.name :: opened) u where
  distinct := List.nodup_cons.mpr ⟨hopen, h.distinct⟩
  subset := List.cons_subset.mpr ⟨List.mem_map_of_mem ht, h.subset⟩
  fresh := List.forall_mem_cons.mpr ⟨hlookup, h.fresh⟩
  leads v hv hmem := by
    rcases List.mem_cons.mp hmem with hname | hmem
    · obtain rfl := List.inj_on_of_nodup_map hdistinct hv ht hname
      exact .single hu
    · exact .head hu (h.leads v hv hmem)
  follows v hv hmem w hw := by
    rcases List.mem_cons.mp hmem with hname | hmem
    · obtain rfl := List.inj_on_of_nodup_map hdistinct hv ht hname
      exact .inl (RefersTo.unique hdistinct hw hu)
    · rcases h.follows v hv hmem w hw with rfl | hmem
      · exact .inr List.mem_cons_self
      · exact .inr (List.mem_cons_of_mem _ hmem)

/-! ### Entries -/

section

variable {ty : Ty} (ha : Consistent registry records declared a) (ht : t ∈ declared)
  (hlookup : a.types.lookup t.name = none) (hb : b.types = (t.name, ty) :: a.types)

include hb

omit hdistinct in
theorem lookup_entry (n : String) :
    b.types.lookup n = if n = t.name then some ty else a.types.lookup n := by
  rw [hb, List.lookup_cons]
  by_cases hn : n = t.name
  · simp [hn]
  · simp [beq_false_of_ne hn, hn]

include hlookup

omit hdistinct in
theorem extends_entry : Extends a b := by
  intro n ty' hn
  rw [lookup_entry hb, if_neg (fun heq => by simp [← heq, hn] at hlookup)]
  exact hn

include ha ht

omit hdistinct in
theorem entered_entry (hty : ty = .domain t.name ∨ ty = .error) : Entered records declared b where
  known n hn := extends_entry hlookup hb n _ (ha.known n hn)
  only n ty' hn := by
    rw [lookup_entry hb] at hn
    split at hn
    · next heq =>
        obtain rfl := Option.some.inj hn
        exact .inr ⟨heq ▸ List.mem_map_of_mem ht, heq ▸ hty⟩
    · exact ha.only n ty' hn

/-- A declaration that is asked for while it is open closes a cycle. -/
theorem charted_cyclic (hchain : Chain declared a opened t) (hopen : t.name ∈ opened)
    (hty : ty = .error) (hfound : b.found = a.found ++ [t.cycleFinding]) : Charted declared b := by
  subst hty
  have hextends := extends_entry hlookup hb
  have hself : b.Failed t := by rw [Failed, lookup_entry hb, if_pos rfl]
  have hcyclic := hchain.leads t ht hopen
  have hfailed : ∀ u ∈ declared, b.Failed u → u = t ∨ a.Failed u := by
    intro u hu h
    rw [Failed, lookup_entry hb] at h
    split at h
    · next heq => exact .inl (List.inj_on_of_nodup_map hdistinct hu ht heq)
    · exact .inr h
  -- all of the cycle is open, so nothing of it has failed before
  have hfresh : ∀ u, TransGen (RefersTo declared) u t → ¬a.Failed u := by
    intro u hu h
    rw [Failed, hchain.fresh _ (hchain.closed ht hopen hu)] at h
    cases h
  refine ⟨fun u hu hsome => ?_, fun u hu h => ?_, fun u hu v hv hfu hfv huv => ?_, ?_⟩
  · rw [lookup_entry hb] at hsome
    split at hsome
    · next heq =>
        obtain rfl := List.inj_on_of_nodup_map hdistinct hu ht heq
        exact .inr ⟨u, hu, .refl, hself⟩
    · rcases ha.ends u hu hsome with hgrounded | ⟨v, hv, hpath, hfv⟩
      · exact .inl hgrounded
      · exact .inr ⟨v, hv, hpath, hextends _ _ hfv⟩
  · rcases hfailed u hu h with rfl | h
    · exact hcyclic
    · exact ha.cyclic u hu h
  · rcases hfailed u hu hfu with rfl | hfu
    · rcases hfailed v hv hfv with rfl | hfv
      · rfl
      · exact (hfresh v huv hfv).elim
    · rcases hfailed v hv hfv with rfl | hfv
      · exact (hfresh u (leads_back hdistinct (ha.cyclic u hu hfu) huv) hfu).elim
      · exact ha.single u hu v hv hfu hfv huv
  · obtain ⟨ts, hnodup, hmem, htold⟩ := ha.reported
    have htnew : t ∉ ts := fun h => by
      have := ((hmem t).mp h).2
      rw [Failed, hlookup] at this
      cases this
    refine ⟨ts ++ [t], List.nodup_append.mpr ⟨hnodup, List.nodup_singleton t, ?_⟩, fun u => ?_, ?_⟩
    · rintro u hu v hv rfl
      exact htnew (List.mem_singleton.mp hv ▸ hu)
    · rw [List.mem_append, List.mem_singleton, hmem]
      constructor
      · rintro (⟨hu, h⟩ | rfl)
        · exact ⟨hu, hextends _ _ h⟩
        · exact ⟨ht, hself⟩
      · rintro ⟨hu, h⟩
        exact (hfailed u hu h).symm.imp (fun h => ⟨hu, h⟩) id
    · rw [hfound, List.filter_append, htold, List.map_append]
      simp [tellsOfCycle_cycleFinding]

/-- A declaration whose references are settled changes nothing about cycles. -/
theorem charted_domain (hsettled : Settled declared a t) (hty : ty = .domain t.name)
    (hfound : b.found = a.found) : Charted declared b := by
  subst hty
  have hextends := extends_entry hlookup hb
  have hfailed : ∀ u, b.Failed u ↔ a.Failed u := by
    intro u
    refine ⟨fun h => ?_, fun h => hextends _ _ h⟩
    rw [Failed, lookup_entry hb] at h
    split at h
    · cases h
    · exact h
  have hends : ∀ u ∈ declared, (a.types.lookup u.name).isSome = true →
      Grounded declared u ∨
        ∃ v ∈ declared, ReflTransGen (RefersTo declared) v u ∧ b.Failed v := by
    intro u hu hsome
    refine (ha.ends u hu hsome).imp_right ?_
    rintro ⟨v, hv, hpath, hfv⟩
    exact ⟨v, hv, hpath, (hfailed v).mpr hfv⟩
  refine ⟨fun u hu hsome => ?_, fun u hu h => ha.cyclic u hu ((hfailed u).mp h),
    fun u hu v hv hfu hfv => ha.single u hu v hv ((hfailed u).mp hfu) ((hfailed v).mp hfv), ?_⟩
  · rw [lookup_entry hb] at hsome
    split at hsome
    · next heq =>
        obtain rfl := List.inj_on_of_nodup_map hdistinct hu ht heq
        by_cases hrefers : ∃ v, RefersTo declared v u
        · obtain ⟨v, hvu⟩ := hrefers
          rcases hends v hvu.1 (hsettled v hvu) with hgrounded | ⟨w, hw, hpath, hfw⟩
          · refine .inl (.intro u fun w hwu => ?_)
            rwa [RefersTo.unique hdistinct hwu hvu]
          · exact .inr ⟨w, hw, hpath.tail hvu, hfw⟩
        · exact .inl (.intro u fun v hvu => (hrefers ⟨v, hvu⟩).elim)
    · exact hends u hu hsome
  · obtain ⟨ts, hnodup, hmem, htold⟩ := ha.reported
    exact ⟨ts, hnodup, fun u => by rw [hmem, hfailed], by rw [hfound, htold]⟩

end

end

end Aliases

end Prosaic
