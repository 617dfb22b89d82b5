import Prosaic.Proofs.Registry.Resolved

/-!
The names in a registry that is made from a document: all are identifiers, no type is called like a
built-in one, and no operation like a helper. An operation or a helper may well have the name of a
built-in type.
-/

namespace Prosaic.Registry

/-- What the names of a registry keep to. -/
structure Named (r : Registry) : Prop where
  types : ∀ name ∈ r.types.map Prod.fst, isName name = true ∧ isBuiltinTypeName name = false
  operations : ∀ name ∈ r.operations.map Prod.fst, isName name = true
  helpers : ∀ name ∈ r.helpers.map Prod.fst, isName name = true
  apart : ∀ name ∈ r.operations.map Prod.fst, name ∉ r.helpers.map Prod.fst
  /-- The types that the names stand for are known by names of the registry. -/
  domains : ∀ name d, r.types.lookup name = some (.domain d) → d ∈ r.types.map Prod.fst

theorem isOperation_iff {r : Registry} {name : String} :
    r.isOperation name = true ↔ name ∈ r.operations.map Prod.fst := by
  simp [isOperation]

theorem isHelper_iff {r : Registry} {name : String} :
    r.isHelper name = true ↔ name ∈ r.helpers.map Prod.fst := by
  simp [isHelper]

theorem isName_unreadable : isName unreadableName = false := by decide

/-! ### Reading -/

theorem both_eq_ok {α β : Type} {a : Read α} {b : Read β} {x : α} {y : β}
    (h : a.both b = .ok (x, y)) : a = .ok x ∧ b = .ok y := by
  unfold Read.both at h
  split at h
  · cases h
    exact ⟨rfl, rfl⟩
  · cases h

theorem ensure_eq_ok {α : Type} {path : List String} {flaw? : α → Option Flaw} {a : Read α} {x : α}
    (h : a.ensure path flaw? = .ok x) : a = .ok x ∧ flaw? x = none := by
  obtain ⟨y, hy, h⟩ := bind_eq_ok.mp h
  split at h
  · cases h
  · next hflaw =>
      cases h
      exact ⟨hy, hflaw⟩

theorem keys_readNamed {α : Type} {r : Reader α} {entries : Keyed Document} {key : String}
    {named : Keyed α} (h : readNamed r entries key = .ok named) :
    ∀ name ∈ named.keys, isName name = true := by
  intro name hname
  have hflaw := List.findSome?_eq_none_iff.mp (ensure_eq_ok h).2 name hname
  unfold nameFlaw? at hflaw
  split at hflaw
  · assumption
  · cases hflaw

/-- The keys of a document's entries are names. -/
theorem keys_readEntries {entries : Keyed Document} {e : Entries}
    (h : readEntries entries = .ok e) :
    (∀ name ∈ e.types.keys, isName name = true) ∧
      (∀ name ∈ e.operations.keys, isName name = true) ∧
      ∀ name ∈ e.helpers.keys, isName name = true := by
  obtain ⟨⟨types, operations, helpers, _⟩, hparts, rfl⟩ := map_eq_ok.mp h
  obtain ⟨htypes, hparts⟩ := both_eq_ok hparts
  obtain ⟨hoperations, hparts⟩ := both_eq_ok hparts
  obtain ⟨hhelpers, -⟩ := both_eq_ok hparts
  exact ⟨keys_readNamed htypes, keys_readNamed hoperations, keys_readNamed hhelpers⟩

/-! ### Parameters -/

section

variable {α : Type} {P : α → Prop} {r : Reader α}

/-- Whatever a reader yields has a property. -/
def Reader.Yields (r : Reader α) (P : α → Prop) : Prop := ∀ path d x, r path d = .ok x → P x

theorem forall_mem_all {reads : List (Read α)} {xs : List α} (h : Read.all reads = .ok xs)
    (hreads : ∀ a ∈ reads, ∀ x, a = .ok x → P x) : ∀ x ∈ xs, P x := by
  induction reads generalizing xs with
  | nil =>
      cases h
      exact List.forall_mem_nil _
  | cons a reads ih =>
      obtain ⟨ha, hreads⟩ := List.forall_mem_cons.mp hreads
      obtain ⟨⟨x, rest⟩, hboth, rfl⟩ := map_eq_ok.mp h
      obtain ⟨hx, hrest⟩ := both_eq_ok hboth
      exact List.forall_mem_cons.mpr ⟨ha x hx, ih hrest hreads⟩

theorem Reader.Yields.list (hr : r.Yields P) : (Reader.list r).Yields fun xs => ∀ x ∈ xs, P x := by
  intro path d xs h
  unfold Reader.list at h
  split at h
  · refine forall_mem_all h fun a ha x hx => ?_
    obtain ⟨⟨d, i⟩, -, rfl⟩ := List.mem_map.mp ha
    exact hr _ d x hx
  · cases h

theorem forall_mem_insert {entries : Keyed α} (h : ∀ e ∈ entries, P e.2) {key : String} {a : α}
    (ha : P a) : ∀ e ∈ Keyed.insert entries key a, P e.2 := by
  induction entries with
  | nil => exact List.forall_mem_singleton.mpr ha
  | cons e entries ih =>
      obtain ⟨he, hentries⟩ := List.forall_mem_cons.mp h
      unfold Keyed.insert
      split
      · exact List.forall_mem_cons.mpr ⟨ha, hentries⟩
      · exact List.forall_mem_cons.mpr ⟨he, ih hentries⟩

theorem forall_mem_ofPairs {pairs : List (String × α)} (h : ∀ p ∈ pairs, P p.2) :
    ∀ e ∈ Keyed.ofPairs pairs, P e.2 := by
  suffices hfold : ∀ entries : Keyed α, (∀ e ∈ entries, P e.2) →
      ∀ e ∈ pairs.foldl (fun entries p => Keyed.insert entries p.1 p.2) entries, P e.2 from
    hfold [] (List.forall_mem_nil _)
  induction pairs with
  | nil => exact fun _ hentries => hentries
  | cons p pairs ih =>
      obtain ⟨hp, hpairs⟩ := List.forall_mem_cons.mp h
      exact fun entries hentries => ih hpairs _ (forall_mem_insert hentries hp)

theorem Reader.Yields.table (hr : r.Yields P) :
    (Reader.table r).Yields fun entries => ∀ e ∈ entries, P e.2 := by
  intro path d entries h
  unfold Reader.table at h
  split at h
  · obtain ⟨pairs, hpairs, rfl⟩ := map_eq_ok.mp h
    refine forall_mem_ofPairs (forall_mem_all hpairs fun a ha x hx => ?_)
    obtain ⟨⟨key, d⟩, -, rfl⟩ := List.mem_map.mp ha
    obtain ⟨y, hy, rfl⟩ := map_eq_ok.mp hx
    exact hr _ d y hy
  · cases h

theorem Reader.Yields.orElse (hr : r.Yields P) {absent : α} (habsent : P absent)
    {path : List String} {entries : Keyed Document} {key : String} {x : α}
    (h : r.orElse absent path entries key = .ok x) : P x := by
  unfold Reader.orElse at h
  split at h
  · exact hr _ _ x h
  · cases h
    exact habsent

end

/-- Parameters have names. -/
theorem yields_readParameter : readParameter.Yields fun p => isName p.name = true := by
  intro path d p h
  unfold readParameter at h
  split at h
  · obtain ⟨⟨name, type, _⟩, hparts, rfl⟩ := map_eq_ok.mp h
    have hflaw := (ensure_eq_ok (both_eq_ok hparts).1).2
    unfold nameFlaw? at hflaw
    split at hflaw
    · assumption
    · cases hflaw
  · cases h

/-- What can be called has parameters with names. -/
def CallableEntry.Named (c : CallableEntry) : Prop := ∀ p ∈ c.parameters, isName p.name = true

theorem yields_readCallable : readCallable.Yields CallableEntry.Named := by
  intro path d c h
  unfold readCallable at h
  split at h
  · obtain ⟨⟨parameters, returns, _⟩, hparts, rfl⟩ := map_eq_ok.mp (ensure_eq_ok h).1
    exact Reader.Yields.orElse yields_readParameter.list (List.forall_mem_nil _)
      (both_eq_ok hparts).1
  · cases h

theorem named_readEntries {doc : Keyed Document} {e : Entries} (h : readEntries doc = .ok e) :
    (∀ o ∈ e.operations, o.2.Named) ∧ ∀ o ∈ e.helpers, o.2.Named := by
  have hnamed : ∀ {key named}, readNamed readCallable doc key = .ok named →
      ∀ o ∈ named, o.2.Named := fun hread =>
    Reader.Yields.orElse yields_readCallable.table (List.forall_mem_nil _) (ensure_eq_ok hread).1
  obtain ⟨⟨types, operations, helpers, _⟩, hparts, rfl⟩ := map_eq_ok.mp h
  obtain ⟨-, hparts⟩ := both_eq_ok hparts
  obtain ⟨hoperations, hparts⟩ := both_eq_ok hparts
  obtain ⟨hhelpers, -⟩ := both_eq_ok hparts
  exact ⟨hnamed hoperations, hnamed hhelpers⟩

/-! ### Resolution -/

theorem keys_resolveCallables {entries : Keyed TypeEntry} {r : Resolved} {cs : Keyed CallableEntry}
    {signatures : Keyed Signature} (h : resolveCallables entries r cs = .ok signatures) :
    signatures.map Prod.fst = cs.keys :=
  (map_eq_of_forall₂ ((resolveCallables_eq_ok.mp h).imp fun _ _ he => he.2)).symm

theorem nameDefect?_eq_none {e : Entries} (h : nameDefect? e = none) :
    (∀ name ∈ e.types.keys, isBuiltinTypeName name = false) ∧
      ∀ name ∈ e.operations.keys, name ∉ e.helpers.keys := by
  unfold nameDefect? at h
  split at h
  · cases h
  · next hbuiltin =>
      refine ⟨fun name hname => by simpa using List.find?_eq_none.mp hbuiltin name hname, ?_⟩
      simp only at h
      split at h
      · next hshared =>
          intro name hoperation hhelper
          have hmem : name ∈ (e.operations.keys.filter e.helpers.keys.contains).mergeSort
              fun a b => a ≤ b := by
            rw [List.mem_mergeSort, List.mem_filter]
            exact ⟨hoperation, by simpa using hhelper⟩
          rw [List.isEmpty_iff.mp hshared] at hmem
          cases hmem
      · cases h

theorem ofDocument_named {entries : Keyed Document} {registry : Registry}
    (h : ofDocument entries = .ok registry) : registry.Named := by
  obtain ⟨e, hread, h⟩ := ofDocument_eq_ok.mp h
  obtain ⟨hdefect, r, hnames, records, -, operations, hos, helpers, hhs, rfl⟩ :=
    ofEntries_eq_ok.mp h
  obtain ⟨htypes, hoperations, hhelpers⟩ := keys_readEntries hread
  obtain ⟨hbuiltin, hapart⟩ := nameDefect?_eq_none hdefect
  have hr : r.Sound e.types := resolveNames_sound Resolved.sound_none hnames
  refine ⟨?_, ?_, ?_, ?_, ?_⟩
  · intro name hname
    obtain ⟨entry, hentry, rfl⟩ := List.mem_map.mp hname
    exact ⟨htypes _ (hr.declared entry hentry), hbuiltin _ (hr.declared entry hentry)⟩
  · exact fun name hname => hoperations name (keys_resolveCallables hos ▸ hname)
  · exact fun name hname => hhelpers name (keys_resolveCallables hhs ▸ hname)
  · intro name hoperation hhelper
    exact hapart name (keys_resolveCallables hos ▸ hoperation)
      (keys_resolveCallables hhs ▸ hhelper)
  · intro name d hd
    exact (hr.known _ (mem_of_lookup hd)).named d rfl

/-! ### Names that are resolved -/

/-- No name is resolved twice, and none that waits for others is resolved. -/
structure Resolved.Fresh (pending : List String) (r : Resolved) : Prop where
  distinct : r.types.keys.Nodup
  apart : ∀ name ∈ pending, name ∉ r.types.keys

/-- A name that is resolved as the last one keeps the names distinct. -/
theorem Resolved.Fresh.add {pending : List String} {name : String} {r : Resolved}
    (h : r.Fresh (name :: pending)) (hname : name ∉ pending) (t : Ty) :
    (r.add name t).Fresh pending := by
  obtain ⟨hunresolved, hpending⟩ := List.forall_mem_cons.mp h.apart
  have hkeys : (r.add name t).types.keys = r.types.keys ++ [name] := List.map_append
  constructor
  case distinct =>
    rw [hkeys, List.nodup_append]
    refine ⟨h.distinct, List.nodup_singleton name, fun n hn m hm heq => ?_⟩
    rw [heq, List.mem_singleton.mp hm] at hn
    exact hunresolved hn
  case apart =>
    intro n hn hmem
    rw [hkeys, List.mem_append, List.mem_singleton] at hmem
    rcases hmem with hmem | rfl
    · exact hpending n hn hmem
    · exact hname hn

/-- A step that keeps the names distinct. -/
def KeepsFresh (pending : List String) (step : Resolved → Except Defect (Ty × Resolved)) : Prop :=
  ∀ r t r', r.Fresh pending → step r = .ok (t, r') → r'.Fresh pending

theorem keepsFresh_resolveWith {pending : List String}
    {named : String → Resolved → Except Defect (Ty × Resolved)}
    (hnamed : ∀ name, KeepsFresh pending (named name)) (expression context : String) :
    KeepsFresh pending (resolveWith named expression context) := by
  intro r t r' hr h
  obtain ⟨-, u, hu, -⟩ := resolveWith_eq_ok.mp h
  exact hnamed _ r u r' hr hu

theorem keepsFresh_define {pending : List String}
    {named : String → String → Resolved → Except Defect (Ty × Resolved)}
    (hnamed : ∀ name context, KeepsFresh pending (named name context)) (name : String)
    (entry : TypeEntry) : KeepsFresh pending (define named name entry) := by
  intro r t r' hr h
  cases entry with
  | record fields =>
      cases h
      exact hr
  | synonym target =>
      exact keepsFresh_resolveWith (fun name => hnamed name _) target _ r t r' hr h
  | domain underlying values =>
      cases underlying with
      | some underlying =>
          obtain ⟨u, r₁, hu, -, rfl⟩ := define_domain.mp h
          obtain ⟨hdistinct, hapart⟩ :=
            keepsFresh_resolveWith (fun name => hnamed name _) underlying _ r u r₁ hr hu
          exact ⟨hdistinct, hapart⟩
      | none =>
          cases h
          exact ⟨hr.distinct, hr.apart⟩

theorem keepsFresh_resolveName (entries : Keyed TypeEntry) (fuel : Nat) (pending : List String)
    (name context : String) :
    KeepsFresh pending (resolveName entries fuel pending name context) := by
  induction fuel using Nat.strongRecOn generalizing pending name context with
  | ind fuel ih =>
      intro r t r' hr h
      obtain ⟨b, -, -, rfl⟩ | ⟨-, rfl⟩ |
          ⟨entry, less, r₁, rfl, hlookup, -, hname, hdefine, rfl⟩ := resolveName_cases h
      · exact hr
      · exact hr
      · have hunresolved : name ∉ r.types.keys := by
          intro hmem
          obtain ⟨e, he, rfl⟩ := List.mem_map.mp hmem
          simpa using List.lookup_eq_none_iff.mp hlookup e he
        have hwaiting : r.Fresh (name :: pending) :=
          ⟨hr.distinct, List.forall_mem_cons.mpr ⟨hunresolved, hr.apart⟩⟩
        exact Resolved.Fresh.add (keepsFresh_define (ih less (Nat.lt_succ_self less) _) name entry
          r t r₁ hwaiting hdefine) hname t

/-- The names that are resolved are distinct. -/
theorem nodup_resolveNames {entries : Keyed TypeEntry} {names : List String} {r r' : Resolved}
    (hr : r.types.keys.Nodup) (h : resolveNames entries names r = .ok r') :
    r'.types.keys.Nodup := by
  induction names generalizing r with
  | nil =>
      cases h
      exact hr
  | cons name names ih =>
      obtain ⟨t, r₁, ht, h⟩ := resolveNames_cons.mp h
      have hfresh := keepsFresh_resolveName entries _ [] name _ r t r₁
        ⟨hr, List.forall_mem_nil _⟩ ht
      exact ih hfresh.distinct h

/-- The types of a registry that is made from a document have distinct names. -/
theorem nodup_ofDocument {doc : Keyed Document} {registry : Registry}
    (h : ofDocument doc = .ok registry) : (registry.types.map Prod.fst).Nodup := by
  obtain ⟨e, -, h⟩ := ofDocument_eq_ok.mp h
  obtain ⟨-, r, hnames, records, -, operations, -, helpers, -, rfl⟩ := ofEntries_eq_ok.mp h
  exact nodup_resolveNames (r := .none) List.nodup_nil hnames

end Prosaic.Registry
