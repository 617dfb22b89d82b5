import Prosaic.Proofs.Registry.Reading
import Prosaic.Proofs.Registry.Realized

/-!
Registries from documents. A document that can be read makes a registry if and only if everything in
it can be resolved, the registry says what the document means, and the order of keys does not matter
to either, as long as no two of them stand for the same name.
-/

namespace Prosaic.Registry

open Document Relation

/-! ### What entries mean in any order -/

theorem TypeEntry.Alike.symm {entry entry' : TypeEntry} (h : entry.Alike entry') :
    entry'.Alike entry := by
  cases h with
  | refl => exact .refl _
  | record h distinct => exact .record h.symm ((h.map Prod.fst).nodup_iff.mp distinct)

theorem TypeEntry.Alike.reference?_eq {entry entry' : TypeEntry} (h : entry.Alike entry') :
    entry.reference? = entry'.reference? := by
  cases h <;> rfl

theorem TypeEntry.Alike.domain?_eq {entry entry' : TypeEntry} (h : entry.Alike entry') :
    entry.domain? = entry'.domain? := by
  cases h <;> rfl

/-- Fields in any order have the same expressions under their names. -/
theorem TypeEntry.Alike.fields?_rel {entry entry' : TypeEntry} (h : entry.Alike entry') :
    Option.Rel (fun fields fields' => ∀ name, fields.lookup name = fields'.lookup name)
      entry.fields? entry'.fields? := by
  cases h with
  | refl =>
      cases entry.fields? with
      | none => exact .none
      | some fields => exact .some fun _ => rfl
  | record h distinct => exact .some (lookup_eq_of_perm h distinct)

theorem TypeEntry.Alike.expressions {entry entry' : TypeEntry} (h : entry.Alike entry') :
    entry.expressions.Perm entry'.expressions := by
  cases h with
  | refl => exact .refl _
  | record h => exact h.map Prod.snd

/-- Types that are all among others, with the same entries up to the order of fields. -/
def CarriedTypes (types types' : Keyed TypeEntry) : Prop :=
  ∀ name entry, types.lookup name = some entry →
    ∃ entry', types'.lookup name = some entry' ∧ entry.Alike entry'

section

variable {types types' : Keyed TypeEntry} (h : CarriedTypes types types')

include h

/-- Names denote what they do among more types. -/
theorem CarriedTypes.denotes {name : String} {t : Ty} (ht : Denotes types name t) :
    Denotes types' name t := by
  induction ht with
  | base b => exact .base b
  | record hentry =>
      obtain ⟨entry', hentry', halike⟩ := h _ _ hentry
      cases halike with
      | refl | record => exact .record hentry'
  | domain hentry =>
      obtain ⟨entry', hentry', halike⟩ := h _ _ hentry
      cases halike with
      | refl => exact .domain hentry'
  | synonym hentry hspells _ ih =>
      obtain ⟨entry', hentry', halike⟩ := h _ _ hentry
      cases halike with
      | refl => exact .synonym hentry' hspells ih

theorem CarriedTypes.means {s : String} {t : Ty} (ht : Means types s t) : Means types' s t := by
  obtain ⟨n, name, u, hspells, hu, rfl⟩ := ht
  exact ⟨n, name, u, hspells, h.denotes hu, rfl⟩

theorem CarriedTypes.domainMeans {underlying : Option String} {values : List String} {d : Ty.Domain}
    (hd : DomainMeans types underlying values d) : DomainMeans types' underlying values d := by
  cases hd with
  | made hmeans => exact .made (h.means hmeans)
  | literals hne => exact .literals hne
  | bare => exact .bare

theorem CarriedTypes.recordMeans {fields : Keyed String} {record : Ty.Record}
    (hr : RecordMeans types fields record) : RecordMeans types' fields record :=
  ⟨hr.fields.imp fun _ _ ⟨hname, hmeans⟩ => ⟨hname, h.means hmeans⟩, hr.external⟩

theorem CarriedTypes.signatureMeans {c : CallableEntry} {s : Signature}
    (hs : SignatureMeans types c s) : SignatureMeans types' c s := by
  refine ⟨hs.parameters.imp fun _ _ ⟨hname, hmeans⟩ => ⟨hname, h.means hmeans⟩, ?_⟩
  have hreturns := hs.returns
  generalize c.returns = returns, s.returns = t at hreturns
  cases hreturns with
  | absent => exact .absent
  | empty => exact .empty
  | some hne hmeans => exact .some hne (h.means hmeans)

end

/-- Types of the same names, with the same entries up to the order of fields. -/
def SameTypes (types types' : Keyed TypeEntry) : Prop :=
  ∀ name, Option.Rel TypeEntry.Alike (types.lookup name) (types'.lookup name)

section

variable {types types' : Keyed TypeEntry} (h : SameTypes types types')

theorem SameTypes.symm (h : SameTypes types types') : SameTypes types' types := by
  intro name
  have hname := h name
  generalize types.lookup name = entry, types'.lookup name = entry' at hname
  cases hname with
  | none => exact .none
  | some h => exact .some h.symm

include h

theorem SameTypes.carried : CarriedTypes types types' := fun name _ hentry =>
  exists_of_rel (h name) hentry

theorem SameTypes.isSome_eq (name : String) :
    (types.lookup name).isSome = (types'.lookup name).isSome := by
  have hname := h name
  generalize types.lookup name = entry, types'.lookup name = entry' at hname
  cases hname <;> rfl

theorem SameTypes.domain?_eq (name : String) :
    (types.lookup name).bind TypeEntry.domain? = (types'.lookup name).bind TypeEntry.domain? := by
  have hname := h name
  generalize types.lookup name = entry, types'.lookup name = entry' at hname
  cases hname with
  | none => rfl
  | some h => exact h.domain?_eq

theorem SameTypes.fields?_rel (name : String) :
    Option.Rel (fun fields fields' => ∀ name, fields.lookup name = fields'.lookup name)
      ((types.lookup name).bind TypeEntry.fields?)
      ((types'.lookup name).bind TypeEntry.fields?) := by
  have hname := h name
  generalize types.lookup name = entry, types'.lookup name = entry' at hname
  cases hname with
  | none => exact .none
  | some h => exact h.fields?_rel

theorem SameTypes.legible {s : String} (hs : Legible types s) : Legible types' s := by
  obtain ⟨n, name, hspells, hknown⟩ := hs
  exact ⟨n, name, hspells, hknown.imp_right fun hname => h.isSome_eq name ▸ hname⟩

theorem SameTypes.refers {name other : String} (hrefers : Refers types name other) :
    Refers types' name other := by
  obtain ⟨entry, s, n, hentry, hs, hspells⟩ := hrefers
  obtain ⟨entry', hentry', halike⟩ := exists_of_rel (h name) hentry
  exact ⟨entry', s, n, hentry', halike.reference?_eq ▸ hs, hspells⟩

end

/-! ### What is meant is one thing -/

section

variable {types : Keyed TypeEntry} (hfree : ∀ name ∈ types.keys, isBuiltinTypeName name = false)

include hfree

theorem DomainMeans.unique {underlying : Option String} {values : List String} {d d' : Ty.Domain}
    (h : DomainMeans types underlying values d) (h' : DomainMeans types underlying values d') :
    d = d' := by
  cases h with
  | made hmeans =>
      cases h' with
      | made hmeans' => rw [hmeans.unique hfree hmeans']
  | literals hne =>
      cases h' with
      | literals => rfl
      | bare => exact (hne rfl).elim
  | bare =>
      cases h' with
      | literals hne => exact (hne rfl).elim
      | bare => rfl

theorem ReturnsMean.unique {returns : Option String} {t u : Option Ty}
    (h : ReturnsMean types returns t) (h' : ReturnsMean types returns u) : t = u := by
  cases h with
  | absent =>
      cases h'
      rfl
  | empty =>
      cases h' with
      | empty => rfl
      | some hne => exact (hne rfl).elim
  | some hne hmeans =>
      cases h' with
      | empty => exact (hne rfl).elim
      | some _ hmeans' => rw [hmeans.unique hfree hmeans']

theorem SignatureMeans.unique {c : CallableEntry} {s s' : Signature} (h : SignatureMeans types c s)
    (h' : SignatureMeans types c s') : s = s' := by
  have hsame : Relator.RightUnique fun (p : ParameterEntry) (q : String × Ty) =>
      p.name = q.1 ∧ Means types p.type q.2 :=
    fun _ _ _ h h' => Prod.ext (h.1.symm.trans h'.1) (h.2.unique hfree h'.2)
  have hparameters := hsame.forall₂ h.parameters h'.parameters
  have hreturns := h.returns.unique hfree h'.returns
  cases s
  cases s'
  exact congrArg₂ Signature.mk hparameters hreturns

theorem RecordMeans.unique {fields : Keyed String} {record record' : Ty.Record}
    (h : RecordMeans types fields record) (h' : RecordMeans types fields record') :
    record = record' := by
  have hsame : Relator.RightUnique fun (f : String × String) (g : String × Ty) =>
      f.1 = g.1 ∧ Means types f.2 g.2 :=
    fun _ _ _ h h' => Prod.ext (h.1.symm.trans h'.1) (h.2.unique hfree h'.2)
  have hfields := hsame.forall₂ h.fields h'.fields
  have hexternal := h.external.trans h'.external.symm
  cases record
  cases record'
  exact congrArg₂ Ty.Record.mk hfields hexternal

/-- Records with the same expressions under their names have the same types there. -/
theorem RecordMeans.field?_unique {fields fields' : Keyed String}
    (hsame : ∀ name, fields.lookup name = fields'.lookup name) {record record' : Ty.Record}
    (h : RecordMeans types fields record) (h' : RecordMeans types fields' record') (name : String) :
    record.field? name = record'.field? name := by
  have hfield := lookup_forall₂ h.fields name
  rw [hsame] at hfield
  exact eq_of_rel (rel_unique (fun _ _ _ h h' => h.unique hfree h') hfield
    (lookup_forall₂ h'.fields name))

end

/-! ### Registries that say the same -/

/-- Records with the same fields. -/
structure SameRecord (record record' : Ty.Record) : Prop where
  field? : ∀ name, record.field? name = record'.field? name
  external : record.external = record'.external

/-- Registries in which every name stands for the same. -/
structure Same (r r' : Registry) : Prop where
  types : ∀ name, r.types.lookup name = r'.types.lookup name
  domains : ∀ name, r.domains.lookup name = r'.domains.lookup name
  records : ∀ name, Option.Rel SameRecord (r.records.lookup name) (r'.records.lookup name)
  operations : ∀ name, r.operations.lookup name = r'.operations.lookup name
  helpers : ∀ name, r.helpers.lookup name = r'.helpers.lookup name

/-- The same entries under every name. -/
structure Entries.Same (e e' : Entries) : Prop where
  types : SameTypes e.types e'.types
  operations : ∀ name, e.operations.lookup name = e'.operations.lookup name
  helpers : ∀ name, e.helpers.lookup name = e'.helpers.lookup name

section

variable {e e' : Entries}

theorem Entries.Alike.same (h : e.Alike e') : e.Same e' :=
  ⟨h.types.lookup, fun name => eq_of_rel (h.operations.lookup name),
    fun name => eq_of_rel (h.helpers.lookup name)⟩

theorem Entries.Same.symm (h : e.Same e') : e'.Same e :=
  ⟨h.types.symm, fun name => (h.operations name).symm, fun name => (h.helpers name).symm⟩

variable (h : e.Same e')

include h

/-- Whether everything can be resolved is told by what stands under the names. -/
theorem Entries.Same.resolvable (hr : e.Resolvable) : e'.Resolvable := by
  constructor
  · intro name hname
    rw [← isSome_lookup_iff, ← h.types.isSome_eq] at hname
    exact hr.free name (isSome_lookup_iff.mp hname)
  · intro name hoperation hhelper
    rw [← isSome_lookup_iff, ← h.operations] at hoperation
    rw [← isSome_lookup_iff, ← h.helpers] at hhelper
    exact hr.apart name (isSome_lookup_iff.mp hoperation) (isSome_lookup_iff.mp hhelper)
  · intro name entry' hentry' s hs
    obtain ⟨entry, hentry, halike⟩ := exists_of_rel (h.types.symm name) hentry'
    exact h.types.legible (hr.types name entry hentry s (halike.expressions.mem_iff.mp hs))
  · intro name c hc s hs
    rw [← h.operations] at hc
    exact h.types.legible (hr.operations name c hc s hs)
  · intro name c hc s hs
    rw [← h.helpers] at hc
    exact h.types.legible (hr.helpers name c hc s hs)
  · intro name hcycle
    exact hr.acyclic name (TransGen.mono (fun _ _ h' => h.types.symm.refers h') name name hcycle)

/-- Registries of the same entries say the same. -/
theorem Realizes.same {r r' : Registry}
    (hfree : ∀ name ∈ e.types.keys, isBuiltinTypeName name = false)
    (hr : r.Realizes e) (hr' : r'.Realizes e') : r.Same r' := by
  have hback := h.types.symm.carried
  have hsignatures : ∀ c s s', SignatureMeans e.types c s → SignatureMeans e'.types c s' → s = s' :=
    fun _ _ _ h h' => h.unique hfree (hback.signatureMeans h')
  constructor
  · intro name
    have htypes : Option.Rel (fun _ t => Denotes e.types name t) (e'.types.lookup name)
        (r.types.lookup name) :=
      rel_unique (R := TypeEntry.Alike) (S := fun _ t => Denotes e.types name t)
        (fun _ _ _ _ ht => ht) (h.types name) (hr.types name)
    exact eq_of_rel (rel_unique (fun _ _ _ ht hu => ht.unique hfree (hback.denotes hu)) htypes
      (hr'.types name))
  · intro name
    have hdomains := hr.domains name
    rw [h.types.domain?_eq] at hdomains
    exact eq_of_rel (rel_unique (fun _ _ _ hd hd' => hd.unique hfree (hback.domainMeans hd'))
      hdomains (hr'.domains name))
  · intro name
    have hrecords : Option.Rel (fun fields' record => ∃ fields,
        (∀ name, fields.lookup name = fields'.lookup name) ∧ RecordMeans e.types fields record)
        ((e'.types.lookup name).bind TypeEntry.fields?) (r.records.lookup name) :=
      rel_unique (fun fields _ _ hfields h => ⟨fields, hfields, h⟩) (h.types.fields?_rel name)
        (hr.records name)
    refine rel_unique (fun fields' record record' hrecord hmeans' => ?_) hrecords (hr'.records name)
    obtain ⟨fields, hfields, hmeans⟩ := hrecord
    refine ⟨hmeans.field?_unique hfree hfields (hback.recordMeans hmeans'), ?_⟩
    rw [hmeans.external, hmeans'.external]
  · intro name
    have hops' := hr'.operations name
    rw [← h.operations] at hops'
    exact eq_of_rel (rel_unique hsignatures (hr.operations name) hops')
  · intro name
    have hhelpers' := hr'.helpers name
    rw [← h.helpers] at hhelpers'
    exact eq_of_rel (rel_unique hsignatures (hr.helpers name) hhelpers')

end

/-! ### Documents -/

/-- What a document that can be read makes. -/
theorem ofDocument_of_read {doc : Keyed Document} {e : Entries} (h : readEntries doc = .ok e) :
    ((∃ registry, ofDocument doc = .ok registry) ↔ e.Resolvable) ∧
      ∀ registry, ofDocument doc = .ok registry → registry.Realizes e := by
  have hofEntries : ofDocument doc = ofEntries e := by rw [ofDocument, h]
  obtain ⟨hnames, -⟩ := keys_readEntries h
  obtain ⟨-, hoperations, hhelpers⟩ := nodup_readEntries h
  rw [hofEntries]
  exact ⟨ofEntries_ok_iff hnames hoperations hhelpers,
    fun registry hregistry => (ofEntries_realizes hnames hregistry).1⟩

/-- A registry is made from a document that can be read if and only if no type has the name of a
built-in one, no operation that of a helper, every expression ends in a name that is known, and no
alias or domain type leads back to itself. Then every name maps to what its definition denotes.
Where the keys of each table are apart, none of this depends on their order. -/
theorem ofDocument_exact (doc : Keyed Document) :
    (∀ e, readEntries doc = .ok e →
      ((∃ registry, ofDocument doc = .ok registry) ↔ e.Resolvable) ∧
        ∀ registry, ofDocument doc = .ok registry → registry.Realizes e) ∧
    ∀ doc', (Document.table doc).Reordered (.table doc') → (Document.table doc).Apart →
      ((∃ registry, ofDocument doc = .ok registry) ↔ ∃ registry, ofDocument doc' = .ok registry) ∧
        ∀ registry registry', ofDocument doc = .ok registry → ofDocument doc' = .ok registry' →
          registry.Same registry' := by
  refine ⟨fun e h => ofDocument_of_read h, fun doc' hreordered hapart => ?_⟩
  have halike := readEntries_alike hreordered hapart
  generalize hread : readEntries doc = read, hread' : readEntries doc' = read' at halike
  cases halike with
  | @error ps qs =>
      have hnone (registry : Registry) : ofDocument doc ≠ .ok registry := by
        simp [ofDocument, hread]
      have hnone' (registry : Registry) : ofDocument doc' ≠ .ok registry := by
        simp [ofDocument, hread']
      exact ⟨iff_of_false (not_exists.mpr hnone) (not_exists.mpr hnone'),
        fun _ _ h => (hnone _ h).elim⟩
  | @ok e e' halike =>
      have hsame := halike.same
      obtain ⟨hiff, hrealizes⟩ := ofDocument_of_read hread
      obtain ⟨hiff', hrealizes'⟩ := ofDocument_of_read hread'
      refine ⟨hiff.trans (Iff.trans ⟨hsame.resolvable, hsame.symm.resolvable⟩ hiff'.symm), ?_⟩
      intro registry registry' hr hr'
      exact Realizes.same hsame (hiff.mp ⟨registry, hr⟩).free (hrealizes registry hr)
        (hrealizes' registry' hr')

/-- A list of records that hold such lists themselves, in either order. -/
theorem ofDocument_exact_recursive :
    let orders : Document := .table [("kind", .string "alias"), ("target", .string "List of Order")]
    let order : Document := .table [("kind", .string "record"),
      ("fields", .table [("parts", .string "Orders")])]
    let doc : Keyed Document := [("types", .table [("Orders", orders), ("Order", order)])]
    let doc' : Keyed Document := [("types", .table [("Order", order), ("Orders", orders)])]
    (∃ e registry, readEntries doc = .ok e ∧ e.Resolvable ∧ ofDocument doc = .ok registry ∧
      registry.Realizes e) ∧
    (Document.table doc).Reordered (.table doc') ∧ (Document.table doc).Apart ∧
      ∃ registry registry', ofDocument doc = .ok registry ∧ ofDocument doc' = .ok registry' ∧
        registry.Same registry' := by
  intro orders order doc doc'
  have hrun : ((ofDocument doc).toOption.any fun _ => true) = true := by decide +kernel
  obtain ⟨registry, hregistry, -⟩ := any_toOption.mp hrun
  have hread : ((readEntries doc).toOption.any fun _ => true) = true := by decide +kernel
  obtain ⟨e, he, -⟩ := any_toOption.mp hread
  obtain ⟨hexact, horder⟩ := ofDocument_exact doc
  obtain ⟨hiff, hrealizes⟩ := hexact e he
  have hreordered : (Document.table doc).Reordered (.table doc') :=
    .table (.refl _) rfl (.cons (.table (.swap _ _ _) rfl
      (List.forall₂_same.mpr fun d _ => .refl d)) .nil)
  have hapart : (Document.table doc).Apart := by
    have horders : orders.Apart := apart_table.mpr ⟨by decide, by simp [apart_string]⟩
    have hfields : (Document.table [("parts", .string "Orders")]).Apart :=
      apart_table.mpr ⟨by decide, by simp [apart_string]⟩
    have hrecord : order.Apart := apart_table.mpr ⟨by decide, by simp [apart_string, hfields]⟩
    have htypes : (Document.table [("Orders", orders), ("Order", order)]).Apart :=
      apart_table.mpr ⟨by decide, by simp [horders, hrecord]⟩
    exact apart_table.mpr ⟨by decide, by simp [doc, htypes]⟩
  obtain ⟨hok, hsame⟩ := horder doc' hreordered hapart
  obtain ⟨registry', hregistry'⟩ := hok.mp ⟨registry, hregistry⟩
  exact ⟨⟨e, registry, he, hiff.mp ⟨registry, hregistry⟩, hregistry, hrealizes registry hregistry⟩,
    hreordered, hapart, registry, registry', hregistry, hregistry', hsame _ _ hregistry hregistry'⟩

/-- Two keys that differ in white space only: whether there is a registry is up to the one that
comes last. -/
theorem ofDocument_order_matters :
    let record : Document := .table [("kind", .string "record")]
    let unknown : Document := .table [("kind", .string "alias"), ("target", .string "Missing")]
    let doc : Keyed Document := [("types", .table [(" A", unknown), ("A", record)])]
    let doc' : Keyed Document := [("types", .table [("A", record), (" A", unknown)])]
    (Document.table doc).Reordered (.table doc') ∧ (∃ e, readEntries doc = .ok e) ∧
      (∃ e, readEntries doc' = .ok e) ∧ (∃ registry, ofDocument doc = .ok registry) ∧
        ¬∃ registry, ofDocument doc' = .ok registry := by
  intro record unknown doc doc'
  have hread : ((readEntries doc).toOption.any fun _ => true) = true := by decide +kernel
  have hread' : ((readEntries doc').toOption.any fun _ => true) = true := by decide +kernel
  have hok : ((ofDocument doc).toOption.any fun _ => true) = true := by decide +kernel
  have hfails : (ofDocument doc').toOption.isNone = true := by decide +kernel
  obtain ⟨e, he, -⟩ := any_toOption.mp hread
  obtain ⟨e', he', -⟩ := any_toOption.mp hread'
  obtain ⟨registry, hregistry, -⟩ := any_toOption.mp hok
  refine ⟨?_, ⟨e, he⟩, ⟨e', he'⟩, ⟨registry, hregistry⟩, fun ⟨registry', h⟩ => ?_⟩
  · exact .table (.refl _) rfl (.cons (.table (.swap _ _ _) rfl
      (List.forall₂_same.mpr fun d _ => .refl d)) .nil)
  · rw [h] at hfails
    cases hfails

end Prosaic.Registry
