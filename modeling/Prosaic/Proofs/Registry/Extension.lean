import Prosaic.Proofs.Registry.Reordering
import Prosaic.Proofs.Typing.Family

/-!
Registries that extend each other. What one declares says the same in the other, and all types that
it leads to are declared in it; so the names that are added are come to from each other only.
-/

namespace Prosaic

namespace Registry

/-- A registry declares a type by a name. -/
def HasType (r : Registry) (name : String) : Prop := (r.types.lookup name).isSome = true

/-- Everything that a registry declares leads to types that it declares. -/
structure Closed (r : Registry) : Prop where
  types : ∀ n t, r.types.lookup n = some t → t.Within r.HasType
  domains : ∀ n d, r.domains.lookup n = some d → ∀ t ∈ d.underlying, t.Within r.HasType
  records : ∀ n record, r.records.lookup n = some record → ∀ f ∈ record.fields, f.2.Within r.HasType
  operations : ∀ n s, r.operations.lookup n = some s → s.Within r.HasType
  helpers : ∀ n s, r.helpers.lookup n = some s → s.Within r.HasType

/-- The names that occur, and those of the types of a registry. -/
def ComesTo (r : Registry) (occurs : String → Prop) (name : String) : Prop :=
  occurs name ∨ r.HasType name

/-- One registry has everything that another one has, and beside it only types, operations and
helpers whose names do not occur. -/
structure ExtendedBy (occurs : String → Prop) (r r' : Registry) : Prop where
  types : ∀ n, occurs n ∨ r.HasType n → r'.types.lookup n = r.types.lookup n
  domains : ∀ n, occurs n ∨ r.HasType n → r'.domains.lookup n = r.domains.lookup n
  records : ∀ n, occurs n ∨ r.HasType n → r'.records.lookup n = r.records.lookup n
  operations : ∀ n, occurs n ∨ r.isOperation n = true →
    r'.operations.lookup n = r.operations.lookup n
  helpers : ∀ n, occurs n ∨ r.isHelper n = true → r'.helpers.lookup n = r.helpers.lookup n

/-! ### Registries of documents -/

/-- Everything that a registry declares leads to types of a family. -/
structure Over (P : Ty → Prop) (r : Registry) : Prop where
  types : ∀ n t, r.types.lookup n = some t → P t
  domains : ∀ n d, r.domains.lookup n = some d → ∀ t ∈ d.underlying, P t
  records : ∀ n record, r.records.lookup n = some record → ∀ f ∈ record.fields, P f.2
  operations : ∀ n s, r.operations.lookup n = some s → s.Over P
  helpers : ∀ n s, r.helpers.lookup n = some s → s.Over P

section

variable {P : Ty → Prop} (hP : Ty.Family P) {r : Registry} {e : Entries} (hr : r.Realizes e)
  (hdomain : ∀ n, r.HasType n → P (.domain n)) (hrecord : ∀ n, r.HasType n → P (.record n))

include hP

theorem over_wrap {t : Ty} (h : P t) (n : Nat) : P (Expression.wrap n t) := by
  induction n with
  | zero => exact h
  | succ n ih => exact (hP.list _).mpr ih

include hr hdomain hrecord

theorem Denotes.over {name : String} {t : Ty} (h : Denotes e.types name t) : P t := by
  have hdeclared : ∀ {n entry}, e.types.lookup n = some entry → r.HasType n := by
    intro n entry hentry
    obtain ⟨t, ht, -⟩ := exists_of_rel (hr.types n) hentry
    exact Option.isSome_iff_exists.mpr ⟨t, ht⟩
  induction h with
  | base b => exact hP.base b
  | record hentry => exact hrecord _ (hdeclared hentry)
  | domain hentry => exact hdomain _ (hdeclared hentry)
  | synonym hentry spells denotes ih => exact over_wrap hP ih _

theorem Means.over {s : String} {t : Ty} (h : Means e.types s t) : P t := by
  obtain ⟨n, name, u, -, hu, rfl⟩ := h
  exact over_wrap hP (hu.over hP hr hdomain hrecord) n

theorem SignatureMeans.over {c : CallableEntry} {s : Signature}
    (h : SignatureMeans e.types c s) : s.Over P where
  parameters p hp := by
    obtain ⟨q, -, -, hmeans⟩ := exists_of_mem_left h.parameters.flip p hp
    exact Means.over hP hr hdomain hrecord hmeans
  returns t ht := by
    have hreturns := h.returns
    generalize c.returns = returns, s.returns = result at hreturns ht
    cases hreturns with
    | absent | empty => cases ht
    | some _ hmeans =>
        cases ht
        exact Means.over hP hr hdomain hrecord hmeans

/-- Where the declared names lead to types of a family, so does all that a registry says some
entries mean. -/
theorem Realizes.over : r.Over P where
  types n t ht := by
    obtain ⟨entry, -, hdenotes⟩ := exists_of_rel_right (hr.types n) ht
    exact hdenotes.over hP hr hdomain hrecord
  domains n d hd t ht := by
    obtain ⟨⟨underlying, values⟩, -, hmeans⟩ := exists_of_rel_right (hr.domains n) hd
    have hmeans : DomainMeans e.types underlying values d := hmeans
    cases hmeans with
    | made h =>
        cases ht
        exact Means.over hP hr hdomain hrecord h
    | literals =>
        cases ht
        exact hP.base _
    | bare => cases ht
  records n record hfields f hf := by
    obtain ⟨fields, -, hmeans⟩ := exists_of_rel_right (hr.records n) hfields
    obtain ⟨g, -, -, hfield⟩ := exists_of_mem_left hmeans.fields.flip f hf
    exact Means.over hP hr hdomain hrecord hfield
  operations n s hs := by
    obtain ⟨c, -, hmeans⟩ := exists_of_rel_right (hr.operations n) hs
    exact hmeans.over hP hr hdomain hrecord
  helpers n s hs := by
    obtain ⟨c, -, hmeans⟩ := exists_of_rel_right (hr.helpers n) hs
    exact hmeans.over hP hr hdomain hrecord

end

/-- A registry that says what some entries mean is closed. -/
theorem Realizes.closed {r : Registry} {e : Entries} (hr : r.Realizes e) : r.Closed :=
  have hover := hr.over (Ty.family_within r.HasType) (fun _ => id) fun _ => id
  { types := hover.types
    domains := hover.domains
    records := hover.records
    operations := fun n s hs => (hover.operations n s hs).within
    helpers := fun n s hs => (hover.helpers n s hs).within }

/-- What a closed registry leads to is known where its types are. -/
theorem Closed.over {r : Registry} (h : r.Closed) {known : String → Prop}
    (hknown : ∀ n, r.HasType n → known n) : r.Over (Ty.Within known) where
  types n t ht := (h.types n t ht).mono hknown
  domains n d hd t ht := (h.domains n d hd t ht).mono hknown
  records n record hrecord f hf := (h.records n record hrecord f hf).mono hknown
  operations n s hs := ⟨((h.operations n s hs).mono hknown).parameters,
    ((h.operations n s hs).mono hknown).returns⟩
  helpers n s hs := ⟨((h.helpers n s hs).mono hknown).parameters,
    ((h.helpers n s hs).mono hknown).returns⟩

theorem ofDocument_closed {doc : Keyed Document} {r : Registry} (h : ofDocument doc = .ok r) :
    r.Closed := by
  cases hread : readEntries doc with
  | error problems => simp [ofDocument, hread] at h
  | ok e => exact ((ofDocument_of_read hread).2 r h).closed

/-! ### Documents that extend each other -/

variable {occurs : String → Prop} {r r' : Registry}

/-- One document has everything that another one has, and beside it only types, operations and
helpers whose names do not occur. -/
structure Entries.ExtendedBy (occurs : String → Prop) (e e' : Entries) : Prop where
  types : ∀ n, occurs n ∨ n ∈ e.types.keys → e'.types.lookup n = e.types.lookup n
  operations : ∀ n, occurs n ∨ n ∈ e.operations.keys →
    e'.operations.lookup n = e.operations.lookup n
  helpers : ∀ n, occurs n ∨ n ∈ e.helpers.keys → e'.helpers.lookup n = e.helpers.lookup n

theorem lookup_append_of_fresh {α : Type} {table more : Keyed α}
    (hmore : ∀ n ∈ more.keys, ¬occurs n ∧ n ∉ table.keys) {n : String}
    (hn : occurs n ∨ n ∈ table.keys) : (table ++ more).lookup n = table.lookup n := by
  have hnone : more.lookup n = none := by
    rw [← Option.not_isSome_iff_eq_none, isSome_lookup_iff]
    intro hmem
    obtain ⟨hfresh, hnew⟩ := hmore n hmem
    exact hn.elim hfresh hnew
  rw [List.lookup_append, hnone, Option.or_none]

/-- A document is extended by what is added at the end under new names that do not occur. -/
theorem Entries.extendedBy_append {e more : Entries}
    (htypes : ∀ n ∈ more.types.keys, ¬occurs n ∧ n ∉ e.types.keys)
    (hoperations : ∀ n ∈ more.operations.keys, ¬occurs n ∧ n ∉ e.operations.keys)
    (hhelpers : ∀ n ∈ more.helpers.keys, ¬occurs n ∧ n ∉ e.helpers.keys) :
    e.ExtendedBy occurs ⟨e.types ++ more.types, e.operations ++ more.operations,
      e.helpers ++ more.helpers⟩ :=
  ⟨fun _ => lookup_append_of_fresh htypes, fun _ => lookup_append_of_fresh hoperations,
    fun _ => lookup_append_of_fresh hhelpers⟩

theorem mem_keys_of_rel {α β : Type} {R : α → β → Prop} {table : Keyed α} {name : String}
    {b : Option β} (h : Option.Rel R (table.lookup name) b) (hb : b.isSome = true) :
    name ∈ table.keys := by
  obtain ⟨y, hy⟩ := Option.isSome_iff_exists.mp hb
  obtain ⟨x, hx, -⟩ := exists_of_rel_right h hy
  exact mem_keys_of_lookup hx

/-- What is the same has one meaning, wherever it is looked up. -/
theorem same_of_rel {α β : Type} {R S : α → β → Prop} {a a' : Option α} {b b' : Option β}
    (hunique : ∀ x y y', R x y → S x y' → y = y') (h : Option.Rel R a b) (h' : Option.Rel S a' b')
    (hsame : a' = a) : b' = b := by
  subst hsame
  exact (eq_of_rel (rel_unique hunique h h')).symm

section

variable {e e' : Entries} (h : e.ExtendedBy occurs e')

include h

theorem Entries.ExtendedBy.carried : CarriedTypes e.types e'.types := fun name entry hentry =>
  ⟨entry, (h.types name (.inr (mem_keys_of_lookup hentry))).trans hentry, .refl entry⟩

/-- The registry of a document that extends another one extends the registry of that. -/
theorem Realizes.extendedBy (hfree : ∀ name ∈ e'.types.keys, isBuiltinTypeName name = false)
    (hr : r.Realizes e) (hr' : r'.Realizes e') : r.ExtendedBy occurs r' := by
  have hcarried := h.carried
  have htypes : ∀ n, occurs n ∨ r.HasType n → e'.types.lookup n = e.types.lookup n := by
    intro n hn
    exact h.types n (hn.imp_right (mem_keys_of_rel (hr.types n)))
  have hsignatures : ∀ c s s', SignatureMeans e.types c s → SignatureMeans e'.types c s' → s = s' :=
    fun _ _ _ h h' => (hcarried.signatureMeans h).unique hfree h'
  refine ⟨fun n hn => ?_, fun n hn => ?_, fun n hn => ?_, fun n hn => ?_, fun n hn => ?_⟩
  · refine same_of_rel ?_ (hr.types n) (hr'.types n) (htypes n hn)
    exact fun _ _ _ ht ht' => (hcarried.denotes ht).unique hfree ht'
  · refine same_of_rel ?_ (hr.domains n) (hr'.domains n) (by rw [htypes n hn])
    exact fun _ _ _ hd hd' => (hcarried.domainMeans hd).unique hfree hd'
  · refine same_of_rel ?_ (hr.records n) (hr'.records n) (by rw [htypes n hn])
    exact fun _ _ _ hrecord hrecord' => (hcarried.recordMeans hrecord).unique hfree hrecord'
  · exact same_of_rel hsignatures (hr.operations n) (hr'.operations n)
      (h.operations n (hn.imp_right (mem_keys_of_rel (hr.operations n))))
  · exact same_of_rel hsignatures (hr.helpers n) (hr'.helpers n)
      (h.helpers n (hn.imp_right (mem_keys_of_rel (hr.helpers n))))

end

/-- Registries that are made from documents extend each other as the documents do. -/
theorem ofDocument_extended {doc doc' : Keyed Document} {e e' : Entries}
    (hread : readEntries doc = .ok e) (hread' : readEntries doc' = .ok e')
    (h : e.ExtendedBy occurs e') (hr : ofDocument doc = .ok r) (hr' : ofDocument doc' = .ok r') :
    r.ExtendedBy occurs r' := by
  obtain ⟨-, hrealizes⟩ := ofDocument_of_read hread
  obtain ⟨hiff', hrealizes'⟩ := ofDocument_of_read hread'
  exact (hrealizes r hr).extendedBy h (hiff'.mp ⟨r', hr'⟩).free (hrealizes' r' hr')

/-! ### Names -/

theorem mem_declaredNames {n : String} : n ∈ r.declaredNames ↔
    (r.types.lookup n).isSome = true ∨ (r.operations.lookup n).isSome = true ∨
      (r.helpers.lookup n).isSome = true := by
  simp only [declaredNames, List.mem_append, isSome_lookup_iff, Keyed.keys, or_assoc]

theorem Closed.type? (h : r.Closed) {name : String} {t : Ty} (ht : r.type? name = some t) :
    t.Within r.HasType := by
  unfold Registry.type? at ht
  split at ht
  · cases ht
    trivial
  · exact h.types name t ht

section

variable (h : r.ExtendedBy occurs r')

include h

theorem ExtendedBy.type? {n : String} (hn : occurs n) : r.type? n = r'.type? n := by
  rw [Registry.type?, Registry.type?, h.types n (.inl hn)]

theorem ExtendedBy.isOperation {n : String} (hn : occurs n) :
    r.isOperation n = r'.isOperation n := by
  rw [Registry.isOperation, Registry.isOperation, h.operations n (.inl hn)]

theorem ExtendedBy.isHelper {n : String} (hn : occurs n) : r.isHelper n = r'.isHelper n := by
  rw [Registry.isHelper, Registry.isHelper, h.helpers n (.inl hn)]

theorem ExtendedBy.mem_declaredNames {n : String} (hn : occurs n) :
    n ∈ r.declaredNames ↔ n ∈ r'.declaredNames := by
  rw [Registry.mem_declaredNames, Registry.mem_declaredNames, h.types n (.inl hn),
    h.operations n (.inl hn), h.helpers n (.inl hn)]

end

end Registry

end Prosaic
