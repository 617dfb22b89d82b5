import Prosaic.Proofs.Except
import Prosaic.Proofs.Table
import Prosaic.Registry.Resolution

/-!
What each step of resolving the names of a document can do, and what the resolution keeps true.
Every type that comes out of it is made from names that the document declares; a name that it does
not declare keeps the registry from being made, so that no type in it is in error.
-/

namespace Prosaic.Registry

/-! ### What a step can do -/

section

variable {entries : Keyed TypeEntry} {r r' : Resolved} {name context : String} {t : Ty}

theorem resolveWith_eq_ok {named : String → Resolved → Except Defect (Ty × Resolved)}
    {expression : String} : resolveWith named expression context r = .ok (t, r') ↔
      (Expression.ofText expression).name.isEmpty = false ∧
        ∃ u, named (Expression.ofText expression).name r = .ok (u, r') ∧
          Expression.wrap (Expression.ofText expression).depth u = t := by
  rw [resolveWith]
  cases hempty : (Expression.ofText expression).name.isEmpty with
  | true => simp
  | false =>
      simp only [Bool.false_eq_true, if_false, bind_eq_ok, pure_eq_ok, Prod.exists, Prod.mk.injEq,
        exists_eq_right_right, true_and]

theorem define_domain {named : String → String → Resolved → Except Defect (Ty × Resolved)}
    {underlying : String} {values : List String} :
    define named name (.domain (some underlying) values) r = .ok (t, r') ↔ ∃ u r₁,
      resolveWith (named · ("domain type '" ++ name ++ "'")) underlying
          ("domain type '" ++ name ++ "'") r = .ok (u, r₁) ∧
        .domain name = t ∧ r₁.addDomain name ⟨some u, values, true⟩ = r' := by
  simp only [define, bind_eq_ok, pure_eq_ok, Prod.exists, Prod.mk.injEq]

/-- A name is resolved as a base type, or because it was before, or by its entry, as one more name
that waits. -/
theorem resolveName_cases {fuel : Nat} {pending : List String}
    (h : resolveName entries fuel pending name context r = .ok (t, r')) :
    (∃ b, Base.ofText? name = some b ∧ .base b = t ∧ r = r') ∨
      (r.types.lookup name = some t ∧ r = r') ∨
        ∃ entry less r₁, fuel = less + 1 ∧ r.types.lookup name = none ∧
          entries.lookup name = some entry ∧ name ∉ pending ∧
            define (resolveName entries less (name :: pending)) name entry r = .ok (t, r₁) ∧
              r₁.add name t = r' := by
  unfold resolveName at h
  split at h
  · next b hbase =>
      cases h
      exact .inl ⟨b, hbase, rfl, rfl⟩
  split at h
  · next hknown =>
      cases h
      exact .inr (.inl ⟨hknown, rfl⟩)
  next hlookup =>
  split at h
  · cases h
  next entry hentry =>
  split at h
  · cases h
  next hpending =>
  cases fuel with
  | zero => cases h
  | succ less =>
      obtain ⟨⟨u, r₁⟩, hdefine, h⟩ := bind_eq_ok.mp h
      obtain ⟨rfl, rfl⟩ := Prod.mk.inj (pure_eq_ok.mp h)
      exact .inr (.inr
        ⟨entry, less, r₁, rfl, hlookup, hentry, by simpa using hpending, hdefine, rfl⟩)

theorem resolveNames_cons {names : List String} :
    resolveNames entries (name :: names) r = .ok r' ↔ ∃ t r₁,
      resolveTop entries name ("type '" ++ name ++ "'") r = .ok (t, r₁) ∧
        resolveNames entries names r₁ = .ok r' := by
  simp only [resolveNames, bind_eq_ok, Prod.exists]

theorem resolveExpression_eq_ok {expression : String} :
    resolveExpression entries r context expression = .ok t ↔
      ∃ r', resolveWith (resolveTop entries · context) expression context r = .ok (t, r') := by
  simp only [resolveExpression, bind_eq_ok, pure_eq_ok, Prod.exists]
  constructor
  · rintro ⟨u, r', h, rfl⟩
    exact ⟨r', h⟩
  · rintro ⟨r', h⟩
    exact ⟨t, r', h, rfl⟩

/-- Expressions under names, in order. -/
theorem resolveFields_eq_ok {α : Type} {nameOf expression contextOf : α → String} {as : List α}
    {resolved : List (String × Ty)} :
    (as.mapM fun a => do
      return (nameOf a, ← resolveExpression entries r (contextOf a) (expression a))) =
        .ok resolved ↔
      List.Forall₂ (fun a e => resolveExpression entries r (contextOf a) (expression a) = .ok e.2 ∧
        nameOf a = e.1) as resolved := by
  simp only [mapM_eq_ok, bind_eq_ok, pure_eq_ok, Prod.ext_iff, exists_eq_right_right]

theorem resolveReturns_some {expression : String} (hne : expression ≠ "") {t : Option Ty} :
    resolveReturns entries r context (some expression) = .ok t ↔
      ∃ u, resolveExpression entries r context expression = .ok u ∧ some u = t := by
  rw [resolveReturns, if_neg (mt String.isEmpty_iff.mp hne)]
  simp only [bind_eq_ok, pure_eq_ok]

theorem resolveSignature_eq_ok {c : CallableEntry} {s : Signature} :
    resolveSignature entries r name c = .ok s ↔
      List.Forall₂ (fun p e => resolveExpression entries r
          ("parameter '" ++ p.name ++ "' of '" ++ name ++ "'") p.type = .ok e.2 ∧ p.name = e.1)
        c.parameters s.parameters ∧
      resolveReturns entries r ("return type of '" ++ name ++ "'") c.returns = .ok s.returns := by
  simp only [resolveSignature, bind_eq_ok, pure_eq_ok, resolveFields_eq_ok]
  constructor
  · rintro ⟨parameters, hparameters, returns, hreturns, rfl⟩
    exact ⟨hparameters, hreturns⟩
  · exact fun ⟨hparameters, hreturns⟩ => ⟨_, hparameters, _, hreturns, rfl⟩

theorem resolveCallables_eq_ok {cs : Keyed CallableEntry} {signatures : Keyed Signature} :
    resolveCallables entries r cs = .ok signatures ↔
      List.Forall₂ (fun e e' => resolveSignature entries r e.1 e.2 = .ok e'.2 ∧ e.1 = e'.1) cs
        signatures := by
  simp only [resolveCallables, mapM_eq_ok, bind_eq_ok, pure_eq_ok, Prod.ext_iff,
    exists_eq_right_right]

end

theorem ofEntries_eq_ok {e : Entries} {registry : Registry} :
    ofEntries e = .ok registry ↔ nameDefect? e = none ∧ ∃ r,
      resolveNames e.types e.types.keys .none = .ok r ∧
        ∃ records, resolveRecords e.types r = .ok records ∧
          ∃ operations, resolveCallables e.types r e.operations = .ok operations ∧
            ∃ helpers, resolveCallables e.types r e.helpers = .ok helpers ∧
              ⟨r.types, r.domains, records, operations, helpers⟩ = registry := by
  rw [ofEntries]
  cases nameDefect? e with
  | some d => simp
  | none => simp only [bind_eq_ok, pure_eq_ok, true_and]

theorem ofDocument_eq_ok {entries : Keyed Document} {registry : Registry} :
    ofDocument entries = .ok registry ↔
      ∃ e, readEntries entries = .ok e ∧ ofEntries e = .ok registry := by
  rw [ofDocument]
  cases readEntries entries <;> simp

/-! ### What is kept true -/

/-- A type that is resolved: not in error, and a domain only under a name that has its type. -/
structure Resolved.Knows (r : Resolved) (t : Ty) : Prop where
  clean : t.containsError = false
  named : ∀ name, t = .domain name → name ∈ r.types.keys

/-- What is resolved so far of some entries. -/
structure Resolved.Sound (entries : Keyed TypeEntry) (r : Resolved) : Prop where
  declared : ∀ e ∈ r.types, e.1 ∈ entries.keys
  known : ∀ e ∈ r.types, r.Knows e.2
  domains : ∀ e ∈ r.domains, ∀ u ∈ e.2.underlying, u.containsError = false

namespace Resolved

variable {entries : Keyed TypeEntry} {r : Resolved} {name : String} {t : Ty}

theorem Knows.add (h : r.Knows t) (name : String) (u : Ty) : (r.add name u).Knows t := by
  refine ⟨h.clean, fun n hn => ?_⟩
  show n ∈ (r.types ++ [(name, u)]).map Prod.fst
  rw [List.map_append]
  exact List.mem_append_left _ (h.named n hn)

/-- A domain is known from the moment when its own name is. -/
theorem knows_add_domain : (r.add name (Ty.domain name)).Knows (Ty.domain name) := by
  refine ⟨rfl, fun n hn => ?_⟩
  cases hn
  show name ∈ (r.types ++ [(name, Ty.domain name)]).map Prod.fst
  simp

theorem Knows.wrap (h : r.Knows t) (n : Nat) : r.Knows (Expression.wrap n t) := by
  induction n with
  | zero => exact h
  | succ n ih => exact ⟨ih.clean, nofun⟩

theorem Sound.add (h : r.Sound entries) (hname : name ∈ entries.keys)
    (ht : (r.add name t).Knows t) : (r.add name t).Sound entries := by
  refine ⟨List.forall_mem_append.mpr ⟨h.declared, ?_⟩,
    List.forall_mem_append.mpr ⟨fun e he => (h.known e he).add name t, ?_⟩, h.domains⟩
  · simpa using hname
  · simpa using ht

theorem Sound.addDomain (h : r.Sound entries) {d : Ty.Domain}
    (hd : ∀ u ∈ d.underlying, u.containsError = false) : (r.addDomain name d).Sound entries := by
  refine ⟨h.declared, fun e he => ⟨(h.known e he).clean, (h.known e he).named⟩,
    List.forall_mem_append.mpr ⟨h.domains, ?_⟩⟩
  simpa using hd

theorem sound_none : Resolved.none.Sound entries :=
  ⟨List.forall_mem_nil _, List.forall_mem_nil _, List.forall_mem_nil _⟩

end Resolved

/-- The outcome of resolving something: a type that is known, and all that is resolved by then. -/
def Resolves (entries : Keyed TypeEntry) (result : Except Defect (Ty × Resolved)) : Prop :=
  ∀ t r, result = .ok (t, r) → r.Sound entries ∧ r.Knows t

variable {entries : Keyed TypeEntry}

theorem mem_keys_of_lookup {α : Type} {table : Keyed α} {name : String} {a : α}
    (h : table.lookup name = some a) : name ∈ table.keys :=
  List.mem_map_of_mem (f := Prod.fst) (mem_of_lookup h)

theorem resolveWith_resolves {named : String → Resolved → Except Defect (Ty × Resolved)}
    (hnamed : ∀ name r, r.Sound entries → Resolves entries (named name r))
    (expression context : String) {r : Resolved} (hr : r.Sound entries) :
    Resolves entries (resolveWith named expression context r) := by
  intro t r' h
  obtain ⟨-, u, hu, rfl⟩ := resolveWith_eq_ok.mp h
  obtain ⟨hsound, hknown⟩ := hnamed _ r hr u r' hu
  exact ⟨hsound, hknown.wrap _⟩

/-- A definition is known as soon as its name is. -/
theorem define_resolves {named : String → String → Resolved → Except Defect (Ty × Resolved)}
    (hnamed : ∀ name context r, r.Sound entries → Resolves entries (named name context r))
    {name : String} (entry : TypeEntry) {r r' : Resolved} (hr : r.Sound entries) {t : Ty}
    (h : define named name entry r = .ok (t, r')) :
    r'.Sound entries ∧ (r'.add name t).Knows t := by
  cases entry with
  | record fields =>
      cases h
      exact ⟨hr, ⟨rfl, nofun⟩⟩
  | synonym target =>
      obtain ⟨hsound, hknown⟩ :=
        resolveWith_resolves (fun name r => hnamed name _ r) target _ hr t r' h
      exact ⟨hsound, hknown.add name t⟩
  | domain underlying values =>
      cases underlying with
      | some underlying =>
          obtain ⟨u, r₁, hu, rfl, rfl⟩ := define_domain.mp h
          obtain ⟨hsound, hknown⟩ :=
            resolveWith_resolves (fun name r => hnamed name _ r) underlying _ hr u r₁ hu
          exact ⟨hsound.addDomain (by simpa using hknown.clean), Resolved.knows_add_domain⟩
      | none =>
          cases h
          refine ⟨hr.addDomain fun u hu => ?_, Resolved.knows_add_domain⟩
          split at hu
          · cases hu
          · cases hu
            rfl

theorem resolveName_resolves {fuel : Nat} {pending : List String} (name context : String)
    {r : Resolved} (hr : r.Sound entries) :
    Resolves entries (resolveName entries fuel pending name context r) := by
  induction fuel using Nat.strongRecOn generalizing pending name context r with
  | ind fuel ih =>
      intro t r' h
      obtain ⟨b, -, rfl, rfl⟩ | ⟨ht, rfl⟩ | ⟨entry, less, r₁, rfl, -, hentry, -, hdefine, rfl⟩ :=
        resolveName_cases h
      · exact ⟨hr, ⟨rfl, nofun⟩⟩
      · exact ⟨hr, hr.known _ (mem_of_lookup ht)⟩
      · obtain ⟨hsound, hknown⟩ := define_resolves
          (fun name context r hr => ih less (Nat.lt_succ_self less) name context hr) _ hr hdefine
        -- the name is known from now on, with the type that its entry has
        exact ⟨hsound.add (mem_keys_of_lookup hentry) hknown, hknown⟩

theorem resolveNames_sound {names : List String} {r r' : Resolved} (hr : r.Sound entries)
    (h : resolveNames entries names r = .ok r') : r'.Sound entries := by
  induction names generalizing r with
  | nil =>
      cases h
      exact hr
  | cons name names ih =>
      obtain ⟨t, r₁, ht, h⟩ := resolveNames_cons.mp h
      exact ih (resolveName_resolves name _ hr t r₁ ht).1 h

theorem resolveExpression_clean {r : Resolved} (hr : r.Sound entries) {context expression : String}
    {t : Ty} (h : resolveExpression entries r context expression = .ok t) :
    t.containsError = false := by
  obtain ⟨r', ht⟩ := resolveExpression_eq_ok.mp h
  exact (resolveWith_resolves (fun name r hr => resolveName_resolves name _ hr) expression _ hr t
    r' ht).2.clean

end Prosaic.Registry

/-! ### Registries without errors -/

namespace Prosaic

/-- The types that a callable takes and returns are not in error. -/
structure Signature.ErrorFree (s : Signature) : Prop where
  parameters : ∀ p ∈ s.parameters, p.2.containsError = false
  returns : ∀ t ∈ s.returns, t.containsError = false

namespace Registry

/-- No type in a registry is in error. -/
structure ErrorFree (r : Registry) : Prop where
  types : ∀ e ∈ r.types, e.2.containsError = false
  domains : ∀ e ∈ r.domains, ∀ u ∈ e.2.underlying, u.containsError = false
  records : ∀ e ∈ r.records, ∀ f ∈ e.2.fields, f.2.containsError = false
  operations : ∀ e ∈ r.operations, e.2.ErrorFree
  helpers : ∀ e ∈ r.helpers, e.2.ErrorFree

theorem resolveRecords_errorFree {entries : Keyed TypeEntry} {r : Resolved}
    (hr : r.Sound entries) {records : Keyed Ty.Record}
    (h : resolveRecords entries r = .ok records) :
    ∀ e ∈ records, ∀ f ∈ e.2.fields, f.2.containsError = false := by
  intro e hmem
  obtain ⟨declared, -, he⟩ := exists_of_mem_left (mapM_eq_ok.mp h).flip e hmem
  obtain ⟨fields, hfields, he⟩ := bind_eq_ok.mp he
  cases pure_eq_ok.mp he
  intro f hmem
  obtain ⟨field, -, ht, -⟩ := exists_of_mem_left (resolveFields_eq_ok.mp hfields).flip f hmem
  exact resolveExpression_clean hr ht

theorem resolveSignature_errorFree {entries : Keyed TypeEntry} {r : Resolved}
    (hr : r.Sound entries) {name : String} {c : CallableEntry} {s : Signature}
    (h : resolveSignature entries r name c = .ok s) : s.ErrorFree := by
  obtain ⟨hparameters, hreturns⟩ := resolveSignature_eq_ok.mp h
  constructor
  · intro e hmem
    obtain ⟨p, -, ht, -⟩ := exists_of_mem_left hparameters.flip e hmem
    exact resolveExpression_clean hr ht
  · intro t ht
    rw [ht] at hreturns
    cases hc : c.returns with
    | none =>
        rw [hc] at hreturns
        cases hreturns
    | some expression =>
        rw [hc] at hreturns
        by_cases hempty : expression = ""
        · subst hempty
          cases hreturns
        · obtain ⟨u, hu, heq⟩ := (resolveReturns_some hempty).mp hreturns
          cases heq
          exact resolveExpression_clean hr hu

theorem resolveCallables_errorFree {entries : Keyed TypeEntry} {r : Resolved}
    (hr : r.Sound entries) {cs : Keyed CallableEntry} {signatures : Keyed Signature}
    (h : resolveCallables entries r cs = .ok signatures) : ∀ e ∈ signatures, e.2.ErrorFree := by
  intro e hmem
  obtain ⟨c, -, hs, -⟩ := exists_of_mem_left (resolveCallables_eq_ok.mp h).flip e hmem
  exact resolveSignature_errorFree hr hs

/-- A registry that is made from a document is free of errors. -/
theorem ofDocument_errorFree {entries : Keyed Document} {registry : Registry}
    (h : ofDocument entries = .ok registry) : registry.ErrorFree := by
  obtain ⟨e, -, h⟩ := ofDocument_eq_ok.mp h
  obtain ⟨-, r, hnames, records, hrecords, operations, hoperations, helpers, hhelpers, rfl⟩ :=
    ofEntries_eq_ok.mp h
  have hr : r.Sound e.types := resolveNames_sound Resolved.sound_none hnames
  exact ⟨fun e he => (hr.known e he).clean, hr.domains, resolveRecords_errorFree hr hrecords,
    resolveCallables_errorFree hr hoperations, resolveCallables_errorFree hr hhelpers⟩

end Registry

end Prosaic
