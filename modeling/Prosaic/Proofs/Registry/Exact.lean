import Mathlib.Data.Option.Basic
import Prosaic.Proofs.Registry.Meaning
import Prosaic.Proofs.Registry.Names

/-!
The resolution of names is exact. What it yields is what the names denote, and it yields it if and
only if every definition ends in names that are known. A run that succeeds leaves nothing behind
that does not come to an end, so there is no cycle among the names; and where there is none, the
names that wait for one another are all different, so that a run has levels enough.
-/

namespace Prosaic.Registry

open Relation

variable {types : Keyed TypeEntry}

/-! ### Definitions that come to an end -/

/-- A base type, or a name whose definition needs such names only. -/
inductive Grounded (types : Keyed TypeEntry) : String → Prop
  | base (b : Base) : Grounded types b.text
  | entry {name : String} {entry : TypeEntry} (h : types.lookup name = some entry)
      (refers : ∀ other, Refers types name other → Grounded types other) : Grounded types name

theorem Grounded.known {name : String} (h : Grounded types name) : Known types name := by
  cases h with
  | base b => exact .inl ⟨b, rfl⟩
  | entry h => exact .inr (by rw [h]; rfl)

/-- What comes to an end does not come back. -/
theorem Grounded.acyclic (hfree : ∀ name ∈ types.keys, isBuiltinTypeName name = false)
    {name : String} (h : Grounded types name) : ¬TransGen (Refers types) name name := by
  induction h with
  | base b =>
      intro hcycle
      obtain ⟨_, ⟨entry, _, _, hentry, -⟩, -⟩ := TransGen.head'_iff.mp hcycle
      exact lookup_ne_some_of_base hfree hentry
  | @entry name entry h refers ih =>
      intro hcycle
      obtain ⟨other, hother, hback⟩ := TransGen.head'_iff.mp hcycle
      exact ih other hother (TransGen.tail' hback hother)

/-- What a definition that comes to an end refers to is legible. -/
theorem Grounded.legible (hfree : ∀ name ∈ types.keys, isBuiltinTypeName name = false)
    {name : String} (h : Grounded types name) {entry : TypeEntry}
    (hentry : types.lookup name = some entry) {s : String} (hs : s ∈ entry.reference?) :
    Legible types s := by
  cases h with
  | base b => exact (lookup_ne_some_of_base hfree hentry).elim
  | entry h refers =>
      obtain ⟨n, other, hspells⟩ := exists_spells s.toList
      exact ⟨n, other, hspells, (refers other ⟨entry, s, n, hentry, hs, hspells⟩).known⟩

/-! ### What a run yields -/

/-- What is known of a name: nothing, or all that its entry says. -/
inductive Settled (types : Keyed TypeEntry) (name : String) : Option Ty → Option Ty.Domain → Prop
  | pending : Settled types name none none
  | done {entry : TypeEntry} {t : Ty} {d : Option Ty.Domain} (h : types.lookup name = some entry)
      (denotes : Denotes types name t) (grounded : Grounded types name)
      (domain : Option.Rel (fun e d => DomainMeans types e.1 e.2 d) entry.domain? d) :
      Settled types name (some t) d

/-- A name that is settled stays as it is. -/
theorem Settled.or {name : String} {t : Option Ty} {d : Option Ty.Domain}
    (h : Settled types name t d) {t' : Ty} {d' : Option Ty.Domain}
    (h' : Settled types name (some t') d') : Settled types name (t.or (some t')) (d.or d') := by
  cases h with
  | pending => exact h'
  | @done entry t d h denotes grounded domain =>
      have hd : d.or d' = d := by
        cases h' with
        | done h' _ _ domain' =>
            cases h.symm.trans h'
            generalize entry.domain? = e at domain domain'
            cases domain with
            | some _ => rfl
            | none => cases domain'; rfl
      rw [hd]
      exact .done h denotes grounded domain

namespace Resolved

/-- What is resolved so far is what the names denote, and comes to an end. -/
def Exact (types : Keyed TypeEntry) (r : Resolved) : Prop :=
  ∀ name, Settled types name (r.types.lookup name) (r.domains.lookup name)

/-- All that was resolved still is, and what is resolved now is exact. -/
structure Leads (types : Keyed TypeEntry) (r r' : Resolved) : Prop where
  exact : r'.Exact types
  keeps : ∀ name, (r.types.lookup name).isSome = true → (r'.types.lookup name).isSome = true

variable {r r' r'' : Resolved} {name : String} {t : Ty}

theorem exact_none : Resolved.none.Exact types := fun _ => .pending

theorem Leads.refl (h : r.Exact types) : Leads types r r := ⟨h, fun _ h => h⟩

theorem Leads.trans (h : Leads types r r') (h' : Leads types r' r'') : Leads types r r'' :=
  ⟨h'.exact, fun name hname => h'.keeps name (h.keeps name hname)⟩

theorem lookup_concat {α : Type} (table : Keyed α) (name n : String) (a : α) :
    (table ++ [(name, a)]).lookup n =
      (table.lookup n).or (if n = name then some a else Option.none) := by
  rw [List.lookup_append]
  by_cases hn : n = name
  · simp [hn]
  · simp [List.lookup_cons, beq_false_of_ne hn, hn]

/-- One more name, and its definition if it is a domain type. -/
theorem Exact.extend (h : r.Exact types) {d : Option Ty.Domain}
    (hname : Settled types name (some t) d) (htypes : r'.types = r.types ++ [(name, t)])
    (hdomains : r'.domains = r.domains ++ d.toList.map fun d => (name, d)) :
    Leads types r r' := by
  have hdomain : ∀ n, r'.domains.lookup n =
      (r.domains.lookup n).or (if n = name then d else .none) := by
    intro n
    rw [hdomains]
    cases d with
    | none => simp
    | some d => exact lookup_concat _ _ _ _
  constructor
  · intro n
    rw [htypes, lookup_concat, hdomain]
    by_cases hn : n = name
    · rw [if_pos hn, if_pos hn]
      exact (h n).or (hn ▸ hname)
    · rw [if_neg hn, if_neg hn, Option.or_none, Option.or_none]
      exact h n
  · intro n hn
    rw [htypes, lookup_concat, Option.isSome_or, hn, Bool.true_or]

end Resolved

open Resolved

/-- A run that looks a name up ends with what the name denotes. -/
structure Answers (types : Keyed TypeEntry) (name : String) (t : Ty) (r r' : Resolved) : Prop where
  leads : Leads types r r'
  denotes : Denotes types name t
  grounded : Grounded types name
  /-- Unless it is a base type, the name is settled from now on. -/
  settled : (∃ b : Base, name = b.text) ∨ (r'.types.lookup name).isSome = true

theorem resolveWith_answers {named : String → Resolved → Except Defect (Ty × Resolved)}
    (hnamed : ∀ name r, r.Exact types → ∀ t r', named name r = .ok (t, r') →
      Answers types name t r r')
    {expression context : String} {r r' : Resolved} (hr : r.Exact types) {t : Ty}
    (h : resolveWith named expression context r = .ok (t, r')) :
    Leads types r r' ∧ Means types expression t ∧
      ∀ n other, Spells expression.toList n other → Grounded types other := by
  obtain ⟨-, u, hu, rfl⟩ := resolveWith_eq_ok.mp h
  obtain ⟨hleads, hdenotes, hgrounded, -⟩ := hnamed _ r hr u r' hu
  refine ⟨hleads, ⟨_, _, u, spells_ofText expression, hdenotes, rfl⟩, fun n other hspells => ?_⟩
  obtain ⟨-, rfl⟩ := (spells_ofText expression).unique hspells
  exact hgrounded

/-- The definition of a name comes to an end if what it refers to does. -/
theorem Grounded.ofReference {name : String} {entry : TypeEntry}
    (hentry : types.lookup name = some entry)
    (h : ∀ s ∈ entry.reference?, ∀ n other, Spells s.toList n other → Grounded types other) :
    Grounded types name := by
  refine .entry hentry fun other ⟨entry', s, n, hentry', hs, hspells⟩ => ?_
  cases hentry.symm.trans hentry'
  exact h s hs n other hspells

/-- An entry is settled as soon as what it refers to is. -/
theorem define_answers {named : String → String → Resolved → Except Defect (Ty × Resolved)}
    (hnamed : ∀ name context r, r.Exact types → ∀ t r', named name context r = .ok (t, r') →
      Answers types name t r r')
    {name : String} {entry : TypeEntry} (hentry : types.lookup name = some entry)
    {r r' : Resolved} (hr : r.Exact types) {t : Ty}
    (h : define named name entry r = .ok (t, r')) :
    Leads types r (r'.add name t) ∧ Denotes types name t ∧ Grounded types name := by
  cases entry with
  | record fields =>
      cases h
      have hgrounded : Grounded types name := .ofReference hentry nofun
      exact ⟨hr.extend (.done hentry (.record hentry) hgrounded .none) rfl (by simp [Resolved.add]),
        .record hentry, hgrounded⟩
  | synonym target =>
      obtain ⟨hleads, ⟨n, aim, u, hspells, hdenotes, rfl⟩, hrefers⟩ :=
        resolveWith_answers (fun name r => hnamed name _ r) hr h
      have hgrounded : Grounded types name :=
        .ofReference hentry fun s hs => Option.some.inj hs ▸ hrefers
      have hname : Denotes types name (Expression.wrap n u) := .synonym hentry hspells hdenotes
      exact ⟨hleads.trans (hleads.exact.extend (.done hentry hname hgrounded .none) rfl
        (by simp [Resolved.add])), hname, hgrounded⟩
  | domain underlying values =>
      cases underlying with
      | some underlying =>
          obtain ⟨u, r₁, hu, rfl, rfl⟩ := define_domain.mp h
          obtain ⟨hleads, hmeans, hrefers⟩ :=
            resolveWith_answers (fun name r => hnamed name _ r) hr hu
          have hgrounded : Grounded types name :=
            .ofReference hentry fun s hs => Option.some.inj hs ▸ hrefers
          exact ⟨hleads.trans (hleads.exact.extend
            (.done hentry (.domain hentry) hgrounded (.some (.made hmeans))) rfl rfl),
            .domain hentry, hgrounded⟩
      | none =>
          cases h
          have hgrounded : Grounded types name := .ofReference hentry nofun
          refine ⟨hr.extend (.done hentry (.domain hentry) hgrounded (.some ?_)) rfl rfl,
            .domain hentry, hgrounded⟩
          cases values with
          | nil => exact .bare
          | cons value values => exact .literals (List.cons_ne_nil _ _)

theorem ofText?_eq_some {name : String} {b : Base} (h : Base.ofText? name = some b) :
    name = b.text :=
  (beq_iff_eq.mp (List.find?_some (p := fun b : Base => b.text == name) h)).symm

/-- A name that was resolved before is not looked at again. -/
theorem Answers.known {name : String} {r : Resolved} (hr : r.Exact types) {t : Ty}
    (h : r.types.lookup name = some t) : Answers types name t r r := by
  have hsettled := hr name
  rw [h] at hsettled
  cases hsettled with
  | done _ hdenotes hgrounded _ =>
      exact ⟨.refl hr, hdenotes, hgrounded, .inr (by rw [h]; rfl)⟩

theorem Answers.base {name : String} {r : Resolved} (hr : r.Exact types) {b : Base}
    (h : Base.ofText? name = some b) : Answers types name (.base b) r r := by
  obtain rfl := ofText?_eq_some h
  exact ⟨.refl hr, .base b, .base b, .inl ⟨b, rfl⟩⟩

theorem resolveName_answers {fuel : Nat} {pending : List String} {name context : String}
    {r r' : Resolved} (hr : r.Exact types) {t : Ty}
    (h : resolveName types fuel pending name context r = .ok (t, r')) :
    Answers types name t r r' := by
  induction fuel using Nat.strongRecOn generalizing pending name context r r' t with
  | ind fuel ih =>
      obtain ⟨b, hbase, rfl, rfl⟩ | ⟨hknown, rfl⟩ |
          ⟨entry, less, r₁, rfl, -, hentry, -, hdefine, rfl⟩ := resolveName_cases h
      · exact .base hr hbase
      · exact .known hr hknown
      · obtain ⟨hleads, hdenotes, hgrounded⟩ := define_answers
          (fun name context r hr t r' h => ih less (Nat.lt_succ_self less) hr h) hentry hr hdefine
        refine ⟨hleads, hdenotes, hgrounded, .inr ?_⟩
        rw [Resolved.add, lookup_concat, if_pos rfl, Option.isSome_or, Option.isSome_some,
          Bool.or_true]

/-- Resolving names in order leaves none of them out. -/
theorem resolveNames_leads {names : List String} {r r' : Resolved} (hr : r.Exact types)
    (h : resolveNames types names r = .ok r') :
    Leads types r r' ∧ ∀ name ∈ names, Grounded types name ∧
      ((∃ b : Base, name = b.text) ∨ (r'.types.lookup name).isSome = true) := by
  induction names generalizing r with
  | nil =>
      cases h
      exact ⟨.refl hr, nofun⟩
  | cons name names ih =>
      obtain ⟨t, r₁, ht, h⟩ := resolveNames_cons.mp h
      obtain ⟨hleads, -, hgrounded, hsettled⟩ := resolveName_answers hr ht
      obtain ⟨hmore, hnames⟩ := ih hleads.exact h
      refine ⟨hleads.trans hmore, List.forall_mem_cons.mpr ⟨⟨hgrounded, ?_⟩, hnames⟩⟩
      exact hsettled.imp_right (hmore.keeps name)

/-! ### Names that can be resolved -/

section

variable (hnames : ∀ name ∈ types.keys, isName name = true)

include hnames

theorem Known.isEmpty_eq_false {name : String} (h : Known types name) : name.isEmpty = false := by
  rcases h with ⟨b, rfl⟩ | h
  · cases b <;> decide
  · by_contra hempty
    rw [Bool.not_eq_false, String.isEmpty_iff] at hempty
    subst hempty
    exact absurd (hnames _ (isSome_lookup_iff.mp h)) (by decide)

/-- A legible expression is resolved if its name is. -/
theorem resolveWith_ok {named : String → Resolved → Except Defect (Ty × Resolved)} {s : String}
    (hlegible : Legible types s) {r : Resolved}
    (hnamed : ∀ n name, Spells s.toList n name → Known types name →
      ∃ t r', named name r = .ok (t, r')) (context : String) :
    ∃ t r', resolveWith named s context r = .ok (t, r') := by
  obtain ⟨n, name, hspells, hknown⟩ := hlegible
  obtain ⟨t, r', ht⟩ := hnamed n name hspells hknown
  refine ⟨Expression.wrap n t, r', resolveWith_eq_ok.mpr ?_⟩
  rw [spells_iff.mp hspells]
  exact ⟨hknown.isEmpty_eq_false hnames, t, ht, rfl⟩

theorem define_ok {named : String → String → Resolved → Except Defect (Ty × Resolved)}
    (name : String) {entry : TypeEntry} (hlegible : ∀ s ∈ entry.reference?, Legible types s)
    {r : Resolved} (hnamed : ∀ s ∈ entry.reference?, ∀ n other, Spells s.toList n other →
      Known types other → ∀ context, ∃ t r', named other context r = .ok (t, r')) :
    ∃ t r', define named name entry r = .ok (t, r') := by
  cases entry with
  | record fields => exact ⟨_, _, rfl⟩
  | synonym target =>
      exact resolveWith_ok hnames (hlegible target rfl)
        (fun n other hspells hknown => hnamed target rfl n other hspells hknown _) _
  | domain underlying values =>
      cases underlying with
      | none => exact ⟨_, _, rfl⟩
      | some underlying =>
          obtain ⟨t, r', ht⟩ := resolveWith_ok hnames (hlegible underlying rfl)
            (fun n other hspells hknown => hnamed underlying rfl n other hspells hknown _)
            ("domain type '" ++ name ++ "'")
          exact ⟨_, _, define_domain.mpr ⟨t, r', ht, rfl, rfl⟩⟩

variable (hlegible : ∀ name entry, types.lookup name = some entry → ∀ s ∈ entry.reference?,
    Legible types s)
  (hacyclic : ∀ name, ¬TransGen (Refers types) name name)

include hlegible hacyclic

/-- Where every reference is legible and none comes back, a name that is known is resolved. The
names that wait for it lead to it, so they are different from it, and from each other. -/
theorem resolveName_ok {fuel : Nat} {pending : List String} {name : String}
    (hpending : pending.Nodup) (hsub : pending ⊆ types.keys)
    (hwait : ∀ p ∈ pending, TransGen (Refers types) p name)
    (hfuel : types.length < pending.length + fuel) (hname : Known types name) (context : String)
    (r : Resolved) : ∃ t r', resolveName types fuel pending name context r = .ok (t, r') := by
  induction fuel generalizing pending name context r with
  | zero =>
      have hroom := (List.subperm_of_subset hpending hsub).length_le
      rw [Keyed.keys, List.length_map] at hroom
      omega
  | succ fuel ih =>
      unfold resolveName
      cases hbase : Base.ofText? name with
      | some b => exact ⟨_, _, rfl⟩
      | none =>
          cases hknown : r.types.lookup name with
          | some t => exact ⟨t, r, rfl⟩
          | none =>
              have hdeclared : (types.lookup name).isSome = true := by
                refine hname.resolve_left ?_
                rintro ⟨b, rfl⟩
                rw [Base.ofText?_text] at hbase
                cases hbase
              obtain ⟨entry, hentry⟩ := Option.isSome_iff_exists.mp hdeclared
              have hfresh : name ∉ pending := fun hmem => hacyclic name (hwait name hmem)
              have hcontains : pending.contains name = false := by simpa using hfresh
              obtain ⟨t, r', ht⟩ := define_ok hnames name (r := r)
                (hlegible name entry hentry) fun s hs n other hspells hother context =>
                ih (List.nodup_cons.mpr ⟨hfresh, hpending⟩)
                  (List.cons_subset.mpr ⟨mem_keys_of_lookup hentry, hsub⟩)
                  (List.forall_mem_cons.mpr ⟨.single ⟨entry, s, n, hentry, hs, hspells⟩,
                    fun p hp => (hwait p hp).tail ⟨entry, s, n, hentry, hs, hspells⟩⟩)
                  (by rw [List.length_cons]; omega) hother context r
              refine ⟨t, r'.add name t, ?_⟩
              simp only [hentry, hcontains, Bool.false_eq_true, if_false, ht]
              rfl

theorem resolveNames_ok {names : List String} (hknown : ∀ name ∈ names, Known types name)
    (r : Resolved) : ∃ r', resolveNames types names r = .ok r' := by
  induction names generalizing r with
  | nil => exact ⟨r, rfl⟩
  | cons name names ih =>
      obtain ⟨hname, hrest⟩ := List.forall_mem_cons.mp hknown
      have hroom : types.length < ([] : List String).length + (types.length + 1) := by simp
      obtain ⟨t, r₁, ht⟩ := resolveName_ok hnames hlegible hacyclic .nil (List.nil_subset _)
        nofun hroom hname ("type '" ++ name ++ "'") r
      obtain ⟨r', hr'⟩ := ih hrest r₁
      exact ⟨r', resolveNames_cons.mpr ⟨t, r₁, ht, hr'⟩⟩

end

/-! ### Everything that is resolved once the names are -/

/-- Every name is resolved. -/
structure Resolved.Complete (types : Keyed TypeEntry) (r : Resolved) : Prop where
  exact : r.Exact types
  all : ∀ name, (types.lookup name).isSome = true → (r.types.lookup name).isSome = true

section

variable {r : Resolved} (hfree : ∀ name ∈ types.keys, isBuiltinTypeName name = false)
  (hnames : ∀ name ∈ types.keys, isName name = true) (hr : r.Complete types)

include hr

/-- All known names denote something then. -/
theorem Known.denotes {name : String} (h : Known types name) : ∃ t, Denotes types name t := by
  rcases h with ⟨b, rfl⟩ | h
  · exact ⟨.base b, .base b⟩
  · obtain ⟨t, ht⟩ := Option.isSome_iff_exists.mp (hr.all name h)
    have hsettled := hr.exact name
    rw [ht] at hsettled
    cases hsettled with
    | done _ hdenotes _ _ => exact ⟨t, hdenotes⟩

omit hr in
theorem Denotes.known {name : String} {t : Ty} (h : Denotes types name t) : Known types name := by
  cases h with
  | base b => exact .inl ⟨b, rfl⟩
  | record h | domain h | synonym h => exact .inr (by rw [h]; rfl)

omit hr in
theorem Means.legible {s : String} {t : Ty} (h : Means types s t) : Legible types s := by
  obtain ⟨n, name, u, hspells, hdenotes, -⟩ := h
  exact ⟨n, name, hspells, hdenotes.known⟩

theorem Legible.means {s : String} (h : Legible types s) : ∃ t, Means types s t := by
  obtain ⟨n, name, hspells, hknown⟩ := h
  obtain ⟨t, ht⟩ := hknown.denotes hr
  exact ⟨_, n, name, t, hspells, ht, rfl⟩

include hfree in
theorem resolveTop_of_denotes {name : String} {t : Ty} (h : Denotes types name t)
    (context : String) : resolveTop types name context r = .ok (t, r) := by
  unfold resolveTop resolveName
  cases hbase : Base.ofText? name with
  | some b =>
      obtain rfl := ofText?_eq_some hbase
      rw [h.base_unique hfree]
  | none =>
      have hdeclared : (types.lookup name).isSome = true := by
        refine h.known.resolve_left ?_
        rintro ⟨b, rfl⟩
        rw [Base.ofText?_text] at hbase
        cases hbase
      obtain ⟨u, hu⟩ := Option.isSome_iff_exists.mp (hr.all name hdeclared)
      have hsettled := hr.exact name
      rw [hu] at hsettled
      cases hsettled with
      | done _ hdenotes _ _ => rw [hu, h.unique hfree hdenotes]

include hfree hnames in
/-- An expression is resolved to what it means, and only if it means something. -/
theorem resolveExpression_iff {context s : String} {t : Ty} :
    resolveExpression types r context s = .ok t ↔ Means types s t := by
  constructor
  · intro h
    obtain ⟨r', ht⟩ := resolveExpression_eq_ok.mp h
    exact (resolveWith_answers (fun _ _ hr _ _ h => resolveName_answers hr h) hr.exact ht).2.1
  · rintro ⟨n, name, u, hspells, hdenotes, rfl⟩
    have htop := resolveTop_of_denotes hfree hr hdenotes context
    refine resolveExpression_eq_ok.mpr ⟨r, resolveWith_eq_ok.mpr ?_⟩
    rw [spells_iff.mp hspells]
    exact ⟨hdenotes.known.isEmpty_eq_false hnames, u, htop, rfl⟩

end

end Prosaic.Registry
