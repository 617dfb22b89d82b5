import Mathlib.Logic.Relation
import Prosaic.Proofs.Registry.Resolved

/-!
What the entries of a registry document mean. An expression is a chain of list words that ends in a
name; a name denotes a base type, or what its entry says, where an alias denotes what its target
does and records and domains are known by their names. Whether a name denotes anything is a question
of what the names refer to: the target of an alias and the underlying type of a domain have to come
first, the fields of a record do not.
-/

namespace Prosaic.Registry

open Relation

/-! ### Expressions -/

/-- A text is so many list words, one after the other, and then a name. White space around each part
does not count. -/
inductive Spells : List Char → Nat → String → Prop
  | name {cs : List Char} (h : ¬Expression.listOf <+: Text.trimBoth Text.isBlankOrSeparator cs) :
      Spells cs 0 (String.ofList (Text.trimBoth Text.isBlankOrSeparator cs))
  | list {cs inner : List Char} {n : Nat} {name : String}
      (h : Text.trimBoth Text.isBlankOrSeparator cs = Expression.listOf ++ inner)
      (more : Spells inner n name) : Spells cs (n + 1) name

theorem length_trimBoth_le (p : Char → Bool) (cs : List Char) :
    (Text.trimBoth p cs).length ≤ cs.length := by
  unfold Text.trimBoth
  have hback := (List.dropWhile_sublist p (l := (cs.dropWhile p).reverse)).length_le
  have hfront := (List.dropWhile_sublist p (l := cs)).length_le
  rw [List.length_reverse] at hback ⊢
  exact Nat.le_trans hback hfront

theorem exists_spells (cs : List Char) : ∃ n name, Spells cs n name := by
  induction hlength : cs.length using Nat.strongRecOn generalizing cs with
  | ind k ih =>
      by_cases hlist : Expression.listOf <+: Text.trimBoth Text.isBlankOrSeparator cs
      · obtain ⟨inner, hinner⟩ := hlist
        have hshorter : inner.length < k := by
          have hle := length_trimBoth_le Text.isBlankOrSeparator cs
          have hpos : 0 < Expression.listOf.length := by decide
          rw [← hinner, List.length_append] at hle
          omega
        obtain ⟨n, name, hspells⟩ := ih _ hshorter inner rfl
        exact ⟨n + 1, name, .list hinner.symm hspells⟩
      · exact ⟨0, _, .name hlist⟩

/-- Reading an expression tells how it is spelled. -/
theorem Spells.peel {cs : List Char} {n : Nat} {name : String} (h : Spells cs n name) {fuel : Nat}
    (hfuel : cs.length < fuel) : Expression.peel fuel cs = ⟨n, name⟩ := by
  induction h generalizing fuel with
  | @name cs hname =>
      cases fuel with
      | zero => omega
      | succ fuel =>
          rw [Expression.peel, if_neg]
          rwa [List.isPrefixOf_iff_prefix]
  | @list cs inner n name hlist more ih =>
      cases fuel with
      | zero => omega
      | succ fuel =>
          have hshorter : inner.length < fuel := by
            have hle := length_trimBoth_le Text.isBlankOrSeparator cs
            have hpos : 0 < Expression.listOf.length := by decide
            rw [hlist, List.length_append] at hle
            omega
          rw [Expression.peel, hlist, if_pos, List.drop_left, ih hshorter]
          exact List.isPrefixOf_iff_prefix.mpr (List.prefix_append _ _)

theorem spells_iff {s : String} {n : Nat} {name : String} :
    Spells s.toList n name ↔ Expression.ofText s = ⟨n, name⟩ := by
  refine ⟨fun h => h.peel (Nat.lt_succ_self _), fun h => ?_⟩
  obtain ⟨n', name', hspells⟩ := exists_spells s.toList
  obtain ⟨rfl, rfl⟩ := Expression.mk.inj ((hspells.peel (Nat.lt_succ_self _)).symm.trans h)
  exact hspells

theorem spells_ofText (s : String) :
    Spells s.toList (Expression.ofText s).depth (Expression.ofText s).name := spells_iff.mpr rfl

theorem Spells.unique {s : String} {n n' : Nat} {name name' : String} (h : Spells s.toList n name)
    (h' : Spells s.toList n' name') : n = n' ∧ name = name' :=
  Expression.mk.inj ((spells_iff.mp h).symm.trans (spells_iff.mp h'))

/-! ### Names -/

/-- The expression that has to be resolved before a type is: the target of an alias, or what a
domain type is made from. -/
def TypeEntry.reference? : TypeEntry → Option String
  | .synonym target => some target
  | .domain underlying _ => underlying
  | .record _ => none

/-- All expressions in an entry that stand for types. -/
def TypeEntry.expressions : TypeEntry → List String
  | .synonym target => [target]
  | .domain underlying _ => underlying.toList
  | .record fields => fields.map Prod.snd

/-- All expressions of a callable that stand for types. An empty one says that nothing is
returned. -/
def CallableEntry.expressions (c : CallableEntry) : List String :=
  c.parameters.map ParameterEntry.type ++ c.returns.toList.filter (!·.isEmpty)

/-- The fields of a record. -/
def TypeEntry.fields? : TypeEntry → Option (Keyed String)
  | .record fields => some fields
  | _ => none

theorem TypeEntry.mem_expressions {entry : TypeEntry} {s : String} : s ∈ entry.expressions ↔
    s ∈ entry.reference? ∨ ∃ fields, entry.fields? = some fields ∧ ∃ f ∈ fields, f.2 = s := by
  cases entry with
  | synonym target => simp [expressions, reference?, fields?, eq_comm]
  | domain underlying values => simp [expressions, reference?, fields?]
  | record fields => simp [expressions, reference?, fields?]

section

variable (types : Keyed TypeEntry)

/-- What a name denotes, every alias expanded. -/
inductive Denotes : String → Ty → Prop
  | base (b : Base) : Denotes b.text (.base b)
  | record {name : String} {fields : Keyed String}
      (h : types.lookup name = some (.record fields)) : Denotes name (.record name)
  | domain {name : String} {underlying : Option String} {values : List String}
      (h : types.lookup name = some (.domain underlying values)) : Denotes name (.domain name)
  | synonym {name target aim : String} {n : Nat} {t : Ty}
      (h : types.lookup name = some (.synonym target)) (spells : Spells target.toList n aim)
      (denotes : Denotes aim t) : Denotes name (Expression.wrap n t)

/-- What an expression denotes: so many lists of what its name does. -/
def Means (s : String) (t : Ty) : Prop :=
  ∃ n name u, Spells s.toList n name ∧ Denotes types name u ∧ t = Expression.wrap n u

/-- A base type, or a name that is declared. -/
def Known (name : String) : Prop := (∃ b : Base, name = b.text) ∨ (types.lookup name).isSome = true

/-- An expression that ends in a known name. -/
def Legible (s : String) : Prop := ∃ n name, Spells s.toList n name ∧ Known types name

/-- The definition of one name needs that of another one. -/
def Refers (name other : String) : Prop :=
  ∃ entry s n, types.lookup name = some entry ∧ s ∈ entry.reference? ∧ Spells s.toList n other

/-! ### Definitions -/

/-- What a domain type is defined as. One with values only is made from texts. -/
inductive DomainMeans : Option String → List String → Ty.Domain → Prop
  | made {underlying : String} {values : List String} {t : Ty} (h : Means types underlying t) :
      DomainMeans (some underlying) values ⟨some t, values, true⟩
  | literals {values : List String} (h : values ≠ []) :
      DomainMeans none values ⟨some .string, values, true⟩
  | bare : DomainMeans none [] ⟨none, [], true⟩

/-- What a record is defined as: its fields in order, with what their expressions denote. -/
structure RecordMeans (fields : Keyed String) (record : Ty.Record) : Prop where
  fields : List.Forall₂ (fun f g => f.1 = g.1 ∧ Means types f.2 g.2) fields record.fields
  external : record.external = true

/-- What a callable returns; an empty expression says nothing, as an absent one does. -/
inductive ReturnsMean : Option String → Option Ty → Prop
  | absent : ReturnsMean none none
  | empty : ReturnsMean (some "") none
  | some {s : String} {t : Ty} (hne : s ≠ "") (h : Means types s t) : ReturnsMean (some s) (some t)

/-- What a callable is declared as. -/
structure SignatureMeans (c : CallableEntry) (s : Signature) : Prop where
  parameters :
    List.Forall₂ (fun p q => p.name = q.1 ∧ Means types p.type q.2) c.parameters s.parameters
  returns : ReturnsMean types c.returns s.returns

end

/-- What entries have to be like for a registry to be made from them. -/
structure Entries.Resolvable (e : Entries) : Prop where
  free : ∀ name ∈ e.types.keys, isBuiltinTypeName name = false
  apart : ∀ name ∈ e.operations.keys, name ∉ e.helpers.keys
  types : ∀ name entry, e.types.lookup name = some entry →
    ∀ s ∈ entry.expressions, Legible e.types s
  operations : ∀ name c, e.operations.lookup name = some c →
    ∀ s ∈ c.expressions, Legible e.types s
  helpers : ∀ name c, e.helpers.lookup name = some c → ∀ s ∈ c.expressions, Legible e.types s
  /-- Aliases and domains do not come back to themselves. Records may. -/
  acyclic : ∀ name, ¬TransGen (Refers e.types) name name

/-- The definition of a domain type. -/
def TypeEntry.domain? : TypeEntry → Option (Option String × List String)
  | .domain underlying values => some (underlying, values)
  | _ => none

/-- A registry in which every name maps to what its entry says, and no other name to anything. -/
structure Realizes (r : Registry) (e : Entries) : Prop where
  types : ∀ name, Option.Rel (fun _ t => Denotes e.types name t) (e.types.lookup name)
    (r.types.lookup name)
  domains : ∀ name, Option.Rel (fun entry d => DomainMeans e.types entry.1 entry.2 d)
    ((e.types.lookup name).bind TypeEntry.domain?) (r.domains.lookup name)
  records : ∀ name, Option.Rel (RecordMeans e.types)
    ((e.types.lookup name).bind TypeEntry.fields?) (r.records.lookup name)
  operations : ∀ name, Option.Rel (SignatureMeans e.types) (e.operations.lookup name)
    (r.operations.lookup name)
  helpers : ∀ name, Option.Rel (SignatureMeans e.types) (e.helpers.lookup name)
    (r.helpers.lookup name)

/-! ### What is denoted is one type -/

section

variable {types : Keyed TypeEntry}

theorem isSome_lookup_iff {α : Type} {table : Keyed α} {name : String} :
    (table.lookup name).isSome = true ↔ name ∈ table.keys := by
  constructor
  · intro h
    obtain ⟨a, ha⟩ := Option.isSome_iff_exists.mp h
    exact mem_keys_of_lookup ha
  · intro h
    obtain ⟨e, he, rfl⟩ := List.mem_map.mp h
    by_contra hnone
    rw [Option.not_isSome_iff_eq_none, List.lookup_eq_none_iff] at hnone
    simpa using hnone e he

variable (hfree : ∀ name ∈ types.keys, isBuiltinTypeName name = false)

include hfree

/-- No entry redefines a base type. -/
theorem lookup_base (b : Base) : types.lookup b.text = none := by
  by_contra hsome
  have hmem := isSome_lookup_iff.mp (Option.isSome_iff_ne_none.mpr hsome)
  have hbuiltin : isBuiltinTypeName b.text = true := by cases b <;> decide
  rw [hfree _ hmem] at hbuiltin
  cases hbuiltin

theorem lookup_ne_some_of_base {b : Base} {entry : TypeEntry} :
    types.lookup b.text ≠ some entry := by
  rw [lookup_base hfree]
  exact nofun

theorem Denotes.base_unique {b : Base} {t : Ty} (h : Denotes types b.text t) : t = .base b := by
  generalize hname : b.text = name at h
  cases h with
  | base b' =>
      have hsame := congrArg Base.ofText? hname
      rw [Base.ofText?_text, Base.ofText?_text] at hsame
      rw [Option.some.inj hsame]
  | record h | domain h | synonym h => exact (lookup_ne_some_of_base hfree (hname ▸ h)).elim

/-- A name denotes one type at most. -/
theorem Denotes.unique {name : String} {t u : Ty} (h : Denotes types name t)
    (h' : Denotes types name u) : t = u := by
  induction h generalizing u with
  | base b => exact (h'.base_unique hfree).symm
  | record h =>
      cases h' with
      | base b => exact (lookup_ne_some_of_base hfree h).elim
      | record h' => rfl
      | domain h' | synonym h' => cases h.symm.trans h'
  | domain h =>
      cases h' with
      | base b => exact (lookup_ne_some_of_base hfree h).elim
      | domain h' => rfl
      | record h' | synonym h' => cases h.symm.trans h'
  | synonym h spells denotes ih =>
      cases h' with
      | base b => exact (lookup_ne_some_of_base hfree h).elim
      | record h' | domain h' => cases h.symm.trans h'
      | synonym h' spells' denotes' =>
          cases h.symm.trans h'
          obtain ⟨rfl, rfl⟩ := spells.unique spells'
          rw [ih denotes']

theorem Means.unique {s : String} {t u : Ty} (h : Means types s t) (h' : Means types s u) :
    t = u := by
  obtain ⟨n, name, t', hspells, ht, rfl⟩ := h
  obtain ⟨n', name', u', hspells', hu, rfl⟩ := h'
  obtain ⟨rfl, rfl⟩ := hspells.unique hspells'
  rw [ht.unique hfree hu]

end

end Prosaic.Registry
