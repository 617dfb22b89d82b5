import Prosaic.Proofs.Registry.Exact

/-!
The registry of some entries. It is made if and only if all that has to be resolved can be, and then
it says what the entries mean.
-/

namespace Prosaic.Registry

variable {types : Keyed TypeEntry} {r : Resolved}

/-- A name without an entry is known as nothing, and any other one as what its entry says. -/
theorem Resolved.Complete.cases (hr : r.Complete types) (name : String) :
    (types.lookup name = .none ∧ r.types.lookup name = .none ∧ r.domains.lookup name = .none) ∨
      ∃ entry t, types.lookup name = some entry ∧ r.types.lookup name = some t ∧
        Denotes types name t ∧ Option.Rel (fun e d => DomainMeans types e.1 e.2 d) entry.domain?
          (r.domains.lookup name) := by
  have hall := hr.all name
  have hsettled := hr.exact name
  generalize r.types.lookup name = t, r.domains.lookup name = d at hall hsettled
  cases hsettled with
  | pending =>
      refine .inl ⟨?_, rfl, rfl⟩
      by_contra hsome
      cases hall (Option.isSome_iff_ne_none.mpr hsome)
  | done h hdenotes _ hdomain => exact .inr ⟨_, _, h, rfl, hdenotes, hdomain⟩

section

variable (hr : r.Complete types)

include hr

theorem rel_types (name : String) :
    Option.Rel (fun _ t => Denotes types name t) (types.lookup name) (r.types.lookup name) := by
  obtain ⟨h, ht, -⟩ | ⟨entry, t, h, ht, hdenotes, -⟩ := hr.cases name
  · rw [h, ht]
    exact .none
  · rw [h, ht]
    exact .some hdenotes

theorem rel_domains (name : String) :
    Option.Rel (fun e d => DomainMeans types e.1 e.2 d)
      ((types.lookup name).bind TypeEntry.domain?) (r.domains.lookup name) := by
  obtain ⟨h, -, hd⟩ | ⟨entry, t, h, -, -, hdomain⟩ := hr.cases name
  · rw [h, hd]
    exact .none
  · rw [h]
    exact hdomain

/-- The records among the resolved names are those among the entries. -/
theorem lookup_records (name : String) :
    (r.types.filterMap fun (name, _) =>
      match types.lookup name with
      | some (.record fields) => some (name, fields)
      | _ => none).lookup name = (types.lookup name).bind TypeEntry.fields? := by
  have hvalue :=
    lookup_filterMap (fun name => (types.lookup name).bind TypeEntry.fields?) r.types name
  have hsame : (fun e : String × Ty => ((types.lookup e.1).bind TypeEntry.fields?).map fun fields =>
      (e.1, fields)) = fun (name, _) =>
        match types.lookup name with
        | some (.record fields) => some (name, fields)
        | _ => none := by
    funext ⟨name, _⟩
    dsimp only
    split
    · next fields h => rw [h]; rfl
    · next h =>
        cases hentry : types.lookup name with
        | none => rfl
        | some entry =>
            cases entry with
            | record fields => exact (h fields hentry).elim
            | _ => rfl
  rw [← hsame, hvalue]
  obtain ⟨h, ht, -⟩ | ⟨entry, t, h, ht, -⟩ := hr.cases name
  · rw [h, ht]
    rfl
  · rw [ht]
    rfl

variable (hfree : ∀ name ∈ types.keys, isBuiltinTypeName name = false)
  (hnames : ∀ name ∈ types.keys, isName name = true)

include hfree hnames

/-! ### What is made means what it should -/

/-- Expressions under names, in order. -/
theorem resolveFields_means {α : Type} {nameOf expression context : α → String} {as : List α}
    {resolved : List (String × Ty)}
    (h : (as.mapM fun a => do
      return (nameOf a, ← resolveExpression types r (context a) (expression a))) = .ok resolved) :
    List.Forall₂ (fun a e => nameOf a = e.1 ∧ Means types (expression a) e.2) as resolved := by
  refine (resolveFields_eq_ok.mp h).imp fun a e he => ?_
  obtain ⟨ht, hname⟩ := he
  exact ⟨hname, (resolveExpression_iff hfree hnames hr).mp ht⟩

theorem resolveRecords_rel {records : Keyed Ty.Record}
    (h : resolveRecords types r = .ok records) (name : String) :
    Option.Rel (RecordMeans types) ((types.lookup name).bind TypeEntry.fields?)
      (records.lookup name) := by
  rw [← lookup_records hr]
  refine lookup_forall₂ ((mapM_eq_ok.mp h).imp fun e e' he => ?_) name
  obtain ⟨fields, hfields, he⟩ := bind_eq_ok.mp he
  cases pure_eq_ok.mp he
  exact ⟨rfl, resolveFields_means hr hfree hnames hfields, rfl⟩

theorem resolveReturns_means {context : String} {returns : Option String} {t : Option Ty}
    (h : resolveReturns types r context returns = .ok t) : ReturnsMean types returns t := by
  cases returns with
  | none =>
      cases h
      exact .absent
  | some expression =>
      by_cases hempty : expression = ""
      · subst hempty
        cases h
        exact .empty
      · obtain ⟨u, hu, rfl⟩ := (resolveReturns_some hempty).mp h
        exact .some hempty ((resolveExpression_iff hfree hnames hr).mp hu)

theorem resolveSignature_means {name : String} {c : CallableEntry} {s : Signature}
    (h : resolveSignature types r name c = .ok s) : SignatureMeans types c s := by
  obtain ⟨hparameters, hreturns⟩ := resolveSignature_eq_ok.mp h
  exact ⟨resolveFields_means hr hfree hnames (resolveFields_eq_ok.mpr hparameters),
    resolveReturns_means hr hfree hnames hreturns⟩

theorem resolveCallables_rel {cs : Keyed CallableEntry} {signatures : Keyed Signature}
    (h : resolveCallables types r cs = .ok signatures) (name : String) :
    Option.Rel (SignatureMeans types) (cs.lookup name) (signatures.lookup name) := by
  refine lookup_forall₂ ((resolveCallables_eq_ok.mp h).imp fun c e he => ?_) name
  obtain ⟨hs, hname⟩ := he
  exact ⟨hname, resolveSignature_means hr hfree hnames hs⟩

/-! ### What is legible is made -/

theorem resolveExpression_ok {s : String} (h : Legible types s) (context : String) :
    ∃ t, resolveExpression types r context s = .ok t := by
  obtain ⟨t, ht⟩ := h.means hr
  exact ⟨t, (resolveExpression_iff hfree hnames hr).mpr ht⟩

theorem resolveFields_ok {α : Type} {nameOf expression context : α → String} {as : List α}
    (h : ∀ a ∈ as, Legible types (expression a)) :
    ∃ resolved, (as.mapM fun a => do
      return (nameOf a, ← resolveExpression types r (context a) (expression a))) =
        .ok resolved := by
  refine mapM_ok fun a ha => ?_
  obtain ⟨t, ht⟩ := resolveExpression_ok hr hfree hnames (h a ha) (context a)
  exact ⟨(nameOf a, t), bind_eq_ok.mpr ⟨t, ht, rfl⟩⟩

theorem resolveRecords_ok (h : ∀ name fields, types.lookup name = some (.record fields) →
    ∀ f ∈ fields, Legible types f.2) : ∃ records, resolveRecords types r = .ok records := by
  refine mapM_ok fun ⟨name, fields⟩ hmem => ?_
  obtain ⟨⟨name', t⟩, -, he⟩ := List.mem_filterMap.mp hmem
  dsimp only at he
  split at he
  · next hrecord =>
      cases he
      obtain ⟨resolved, hresolved⟩ := resolveFields_ok hr hfree hnames (h _ _ hrecord)
      exact ⟨(_, ⟨resolved, true⟩), bind_eq_ok.mpr ⟨resolved, hresolved, rfl⟩⟩
  · cases he

theorem resolveSignature_ok {c : CallableEntry} (h : ∀ s ∈ c.expressions, Legible types s)
    (name : String) : ∃ s, resolveSignature types r name c = .ok s := by
  obtain ⟨hparameters, hreturns⟩ := List.forall_mem_append.mp h
  obtain ⟨parameters, hps⟩ := resolveFields_ok hr hfree hnames
    (fun p hp => hparameters _ (List.mem_map_of_mem hp))
  have hreturn (context : String) : ∃ t, resolveReturns types r context c.returns = .ok t := by
    unfold resolveReturns
    split
    · next expression heq =>
        split
        · exact ⟨none, rfl⟩
        · next hne =>
            obtain ⟨t, ht⟩ := resolveExpression_ok hr hfree hnames
              (hreturns expression (by simp [heq, hne])) _
            exact ⟨some t, bind_eq_ok.mpr ⟨t, ht, rfl⟩⟩
    · exact ⟨none, rfl⟩
  obtain ⟨t, ht⟩ := hreturn ("return type of '" ++ name ++ "'")
  exact ⟨⟨parameters, t⟩, bind_eq_ok.mpr ⟨parameters, hps, bind_eq_ok.mpr ⟨t, ht, rfl⟩⟩⟩

theorem resolveCallables_ok {cs : Keyed CallableEntry}
    (h : ∀ e ∈ cs, ∀ s ∈ e.2.expressions, Legible types s) :
    ∃ signatures, resolveCallables types r cs = .ok signatures := by
  refine mapM_ok fun e he => ?_
  obtain ⟨s, hs⟩ := resolveSignature_ok hr hfree hnames (h e he) e.1
  exact ⟨(e.1, s), bind_eq_ok.mpr ⟨s, hs, rfl⟩⟩

end

/-! ### Registries -/

theorem RecordMeans.legible {fields : Keyed String} {record : Ty.Record}
    (h : RecordMeans types fields record) : ∀ f ∈ fields, Legible types f.2 := by
  intro f hf
  obtain ⟨g, -, -, hmeans⟩ := exists_of_mem_left h.fields f hf
  exact hmeans.legible

theorem ReturnsMean.legible {returns : Option String} {t : Option Ty}
    (h : ReturnsMean types returns t) : ∀ s ∈ returns, s ≠ "" → Legible types s := by
  intro s hs hne
  cases h with
  | absent => cases hs
  | empty => exact (hne (Option.some.inj hs).symm).elim
  | some _ hmeans => exact Option.some.inj hs ▸ hmeans.legible

theorem SignatureMeans.legible {c : CallableEntry} {signature : Signature}
    (h : SignatureMeans types c signature) : ∀ s ∈ c.expressions, Legible types s := by
  refine List.forall_mem_append.mpr ⟨fun s hs => ?_, fun s hs => ?_⟩
  · obtain ⟨p, hp, rfl⟩ := List.mem_map.mp hs
    obtain ⟨q, -, -, hmeans⟩ := exists_of_mem_left h.parameters p hp
    exact hmeans.legible
  · obtain ⟨hs, hne⟩ := List.mem_filter.mp hs
    exact h.returns.legible s (Option.mem_toList.mp hs) (by simpa using hne)

theorem nameDefect?_eq_none_iff {e : Entries} : nameDefect? e = none ↔
    (∀ name ∈ e.types.keys, isBuiltinTypeName name = false) ∧
      ∀ name ∈ e.operations.keys, name ∉ e.helpers.keys := by
  refine ⟨nameDefect?_eq_none, fun ⟨hfree, hapart⟩ => ?_⟩
  have hbuiltin : e.types.keys.find? isBuiltinTypeName = none :=
    List.find?_eq_none.mpr fun name hname => by simpa using hfree name hname
  have hshared : e.operations.keys.filter e.helpers.keys.contains = [] :=
    List.filter_eq_nil_iff.mpr fun name hname => by simpa using hapart name hname
  rw [nameDefect?, hbuiltin, hshared]
  simp

/-- Once the keys are resolved, everything is. -/
theorem resolveNames_complete (hfree : ∀ name ∈ types.keys, isBuiltinTypeName name = false)
    (h : resolveNames types types.keys .none = .ok r) : r.Complete types := by
  obtain ⟨hleads, hall⟩ := resolveNames_leads Resolved.exact_none h
  refine ⟨hleads.exact, fun name hname => ?_⟩
  refine (hall name (isSome_lookup_iff.mp hname)).2.resolve_left ?_
  rintro ⟨b, rfl⟩
  rw [lookup_base hfree] at hname
  cases hname

section

variable {e : Entries} (hnames : ∀ name ∈ e.types.keys, isName name = true)

include hnames

/-- A registry that is made says what its entries mean, and they are such that it can be made. -/
theorem ofEntries_realizes {registry : Registry} (h : ofEntries e = .ok registry) :
    registry.Realizes e ∧ e.Resolvable := by
  obtain ⟨hdefect, r, hresolved, records, hrecords, operations, hoperations, helpers, hhelpers,
    rfl⟩ := ofEntries_eq_ok.mp h
  obtain ⟨hfree, hapart⟩ := nameDefect?_eq_none hdefect
  have hall := (resolveNames_leads Resolved.exact_none hresolved).2
  have hr := resolveNames_complete hfree hresolved
  have hrel : Realizes ⟨r.types, r.domains, records, operations, helpers⟩ e :=
    ⟨rel_types hr, rel_domains hr, resolveRecords_rel hr hfree hnames hrecords,
      resolveCallables_rel hr hfree hnames hoperations,
      resolveCallables_rel hr hfree hnames hhelpers⟩
  refine ⟨hrel, hfree, hapart, ?_, ?_, ?_, ?_⟩
  · intro name entry hentry s hs
    rcases TypeEntry.mem_expressions.mp hs with hs | ⟨fields, hfields, f, hf, rfl⟩
    · exact (hall name (mem_keys_of_lookup hentry)).1.legible hfree hentry hs
    · obtain ⟨record, -, hmeans⟩ :=
        exists_of_rel (hrel.records name) (by rw [hentry]; exact hfields)
      exact hmeans.legible f hf
  · intro name c hc
    obtain ⟨signature, -, hmeans⟩ := exists_of_rel (hrel.operations name) hc
    exact hmeans.legible
  · intro name c hc
    obtain ⟨signature, -, hmeans⟩ := exists_of_rel (hrel.helpers name) hc
    exact hmeans.legible
  · intro name hcycle
    obtain ⟨_, ⟨entry, _, _, hentry, -⟩, -⟩ := Relation.TransGen.head'_iff.mp hcycle
    exact (hall name (mem_keys_of_lookup hentry)).1.acyclic hfree hcycle

/-- A registry is made from some entries if and only if all of them can be resolved. -/
theorem ofEntries_ok_iff (hoperations : e.operations.keys.Nodup) (hhelpers : e.helpers.keys.Nodup) :
    (∃ registry, ofEntries e = .ok registry) ↔ e.Resolvable := by
  refine ⟨fun ⟨registry, h⟩ => (ofEntries_realizes hnames h).2, fun h => ?_⟩
  have hreferences : ∀ name entry, e.types.lookup name = some entry → ∀ s ∈ entry.reference?,
      Legible e.types s := fun name entry hentry s hs =>
    h.types name entry hentry s (TypeEntry.mem_expressions.mpr (.inl hs))
  obtain ⟨r, hresolved⟩ := resolveNames_ok hnames hreferences h.acyclic
    (fun name hname => .inr (isSome_lookup_iff.mpr hname)) Resolved.none
  have hr := resolveNames_complete h.free hresolved
  obtain ⟨records, hrecords⟩ := resolveRecords_ok hr h.free hnames fun name fields hrecord f hf =>
    h.types name _ hrecord f.2 (List.mem_map_of_mem hf)
  obtain ⟨operations, hos⟩ := resolveCallables_ok hr h.free hnames fun c hc =>
    h.operations c.1 c.2 (lookup_of_mem hoperations hc)
  obtain ⟨helpers, hhs⟩ := resolveCallables_ok hr h.free hnames fun c hc =>
    h.helpers c.1 c.2 (lookup_of_mem hhelpers hc)
  have hdefect := nameDefect?_eq_none_iff.mpr ⟨h.free, h.apart⟩
  exact ⟨_, ofEntries_eq_ok.mpr
    ⟨hdefect, r, hresolved, records, hrecords, operations, hos, helpers, hhs, rfl⟩⟩

end

end Prosaic.Registry
