import Prosaic.Proofs.Registry.Names

/-!
Reading documents that differ in the order of their keys. Whether a document can be read does not
depend on the order, and what is read from it is the same up to the order of names. It does matter
where two keys of a table differ in the white space around them only: they stand for the same name,
and the last one counts.
-/

namespace Prosaic

/-! ### Documents -/

namespace Document

/-- The same document, except for the order of the keys in its tables. -/
inductive Reordered : Document → Document → Prop
  | refl (d : Document) : Reordered d d
  | array {ds ds' : List Document} (h : List.Forall₂ Reordered ds ds') :
      Reordered (.array ds) (.array ds')
  | table {entries mid entries' : Keyed Document} (order : entries.Perm mid)
      (keys : mid.keys = entries'.keys)
      (values : List.Forall₂ Reordered (mid.map Prod.snd) (entries'.map Prod.snd)) :
      Reordered (.table entries) (.table entries')

/-- A document that is part of another one. -/
inductive Within (d : Document) : Document → Prop
  | self : Within d d
  | element {e : Document} {ds : List Document} (mem : e ∈ ds) (h : Within d e) :
      Within d (.array ds)
  | value {key : String} {e : Document} {entries : Keyed Document} (mem : (key, e) ∈ entries)
      (h : Within d e) : Within d (.table entries)

/-- No two keys of a table are the same without the white space around them. -/
def Apart (d : Document) : Prop :=
  ∀ entries, (Document.table entries).Within d →
    (entries.map fun e => Text.trimBlank e.1).Nodup

variable {d d' : Document}

theorem Apart.element {ds : List Document} (h : (Document.array ds).Apart) (hd : d ∈ ds) :
    d.Apart :=
  fun entries hentries => h entries (.element hd hentries)

theorem Apart.value {key : String} {entries : Keyed Document} (h : (Document.table entries).Apart)
    (hd : (key, d) ∈ entries) : d.Apart :=
  fun entries' hentries => h entries' (.value hd hentries)

theorem Apart.nodup {entries : Keyed Document} (h : (Document.table entries).Apart) :
    entries.keys.Nodup := by
  refine List.Nodup.of_map Text.trimBlank ?_
  rw [Keyed.keys, List.map_map]
  exact h entries .self

theorem apart_of_plain (harray : ∀ ds, d ≠ .array ds) (htable : ∀ entries, d ≠ .table entries) :
    d.Apart := by
  intro entries h
  cases h with
  | self => exact (htable entries rfl).elim
  | element => exact (harray _ rfl).elim
  | value => exact (htable _ rfl).elim

theorem apart_string (s : String) : (Document.string s).Apart := apart_of_plain nofun nofun

theorem apart_table {entries : Keyed Document} : (Document.table entries).Apart ↔
    (entries.map fun e => Text.trimBlank e.1).Nodup ∧ ∀ e ∈ entries, e.2.Apart := by
  refine ⟨fun h => ⟨h entries .self, fun e he => h.value he⟩, fun ⟨hnodup, hall⟩ entries' h => ?_⟩
  cases h with
  | self => exact hnodup
  | value hmem h => exact hall _ hmem entries' h

/-- What a list becomes in another order of keys. -/
theorem Reordered.of_array {ds : List Document} (h : (Document.array ds).Reordered d') :
    ∃ ds', d' = .array ds' ∧ List.Forall₂ Reordered ds ds' := by
  cases h with
  | refl => exact ⟨ds, rfl, List.forall₂_same.mpr fun d _ => .refl d⟩
  | array h => exact ⟨_, rfl, h⟩

/-- What a table becomes in another order of keys. -/
theorem Reordered.of_table {entries : Keyed Document} (h : (Document.table entries).Reordered d') :
    ∃ mid entries', d' = .table entries' ∧ entries.Perm mid ∧
      List.Forall₂ (fun e e' => e.1 = e'.1 ∧ e.2.Reordered e'.2) mid entries' := by
  cases h with
  | refl =>
      exact ⟨entries, entries, rfl, .refl _, List.forall₂_same.mpr fun e _ => ⟨rfl, .refl e.2⟩⟩
  | table order keys values =>
      refine ⟨_, _, rfl, order, ?_⟩
      rw [List.forall₂_map_left_iff, List.forall₂_map_right_iff] at values
      exact forall₂_both (forall₂_of_map_eq keys) values

/-- Nothing but lists and tables can become anything else. -/
theorem Reordered.eq_of_plain (h : d.Reordered d') (harray : ∀ ds, d ≠ .array ds)
    (htable : ∀ entries, d ≠ .table entries) : d' = d := by
  cases h with
  | refl => rfl
  | array => exact (harray _ rfl).elim
  | table => exact (htable _ rfl).elim

end Document

/-! ### Tables -/

variable {α β γ δ : Type}

namespace Keyed

/-- Tables of the same names, in any order, in which what stands under a name goes with what stands
there in the other one. -/
structure Alike (R : α → β → Prop) (as : Keyed α) (bs : Keyed β) : Prop where
  distinct : as.keys.Nodup
  related : ∃ mid : Keyed α, as.Perm mid ∧
    List.Forall₂ (fun e e' => e.1 = e'.1 ∧ R e.2 e'.2) mid bs

variable {R : α → β → Prop} {as : Keyed α} {bs : Keyed β}

theorem Alike.lookup (h : as.Alike R bs) (n : String) :
    Option.Rel R (as.lookup n) (bs.lookup n) := by
  obtain ⟨mid, hperm, hmid⟩ := h.related
  rw [lookup_eq_of_perm hperm h.distinct]
  exact lookup_forall₂ hmid n

theorem Alike.keys (h : as.Alike R bs) : as.keys.Perm bs.keys := by
  obtain ⟨mid, hperm, hmid⟩ := h.related
  have hkeys : mid.keys = bs.keys := map_eq_of_forall₂ (hmid.imp fun _ _ h => h.1)
  exact hkeys ▸ hperm.map Prod.fst

theorem Alike.nil : Alike R [] [] := ⟨List.nodup_nil, [], .nil, .nil⟩

theorem Alike.perm {as as' : Keyed α} (h : as.Alike Eq as') : as.Perm as' := by
  obtain ⟨mid, hperm, hmid⟩ := h.related
  have heq : mid = as' :=
    List.forall₂_eq_eq_eq ▸ hmid.imp fun _ _ h => Prod.ext h.1 h.2
  exact heq ▸ hperm

theorem insert_of_notMem {entries : Keyed α} {key : String} (h : key ∉ entries.keys) (a : α) :
    insert entries key a = entries ++ [(key, a)] := by
  induction entries with
  | nil => rfl
  | cons e entries ih =>
      obtain ⟨hne, hrest⟩ := not_or.mp (mt List.mem_cons.mpr h)
      rw [insert, if_neg (Ne.symm hne), ih hrest]
      rfl

theorem mem_keys_insert {entries : Keyed α} {key k : String} {a : α} :
    k ∈ keys (insert entries key a) ↔ k = key ∨ k ∈ keys entries := by
  induction entries with
  | nil => simp [insert, keys]
  | cons e entries ih =>
      unfold insert
      split
      · next heq => simp [keys, heq]
      · have hrest : k ∈ keys (insert entries key a) ↔ k = key ∨ k ∈ keys entries := ih
        simp only [keys, List.map_cons, List.mem_cons] at hrest ⊢
        rw [hrest, or_left_comm]

theorem nodup_insert {entries : Keyed α} (h : entries.keys.Nodup) (key : String) (a : α) :
    (keys (insert entries key a)).Nodup := by
  induction entries with
  | nil => exact List.nodup_singleton _
  | cons e entries ih =>
      obtain ⟨hnew, hrest⟩ := List.nodup_cons.mp h
      unfold insert
      split
      · exact h
      · next hne =>
          refine List.nodup_cons.mpr ⟨?_, ih hrest⟩
          rw [← keys, mem_keys_insert]
          exact not_or.mpr ⟨hne, hnew⟩

/-- However often a key is given, it stands once. -/
theorem nodup_ofPairs (pairs : List (String × α)) : (ofPairs pairs).keys.Nodup := by
  have hfold : ∀ entries : Keyed α, entries.keys.Nodup →
      (keys (pairs.foldl (fun entries p => insert entries p.1 p.2) entries)).Nodup := by
    induction pairs with
    | nil => exact fun _ h => h
    | cons p pairs ih => exact fun entries h => ih _ (nodup_insert h p.1 p.2)
  exact hfold [] List.nodup_nil

/-- Entries under different keys stay as they are. -/
theorem ofPairs_of_nodup {pairs : List (String × α)} (h : (pairs.map Prod.fst).Nodup) :
    ofPairs pairs = pairs := by
  suffices hfold : ∀ entries : Keyed α, ((entries ++ pairs).map Prod.fst).Nodup →
      pairs.foldl (fun entries p => insert entries p.1 p.2) entries = entries ++ pairs from
    hfold [] h
  clear h
  induction pairs with
  | nil => exact fun entries _ => (List.append_nil entries).symm
  | cons p pairs ih =>
      intro entries h
      have hnew : p.1 ∉ entries.keys := by
        rw [List.map_append, List.map_cons] at h
        exact fun hmem => (List.nodup_append.mp h).2.2 _ hmem _ List.mem_cons_self rfl
      rw [List.foldl_cons, insert_of_notMem hnew, ih, List.append_assoc]
      · rfl
      · rwa [List.append_assoc]

end Keyed

/-! ### Reading -/

namespace Registry

open Document

/-- Two readings that fail both, or yield what goes with each other. -/
inductive Read.Alike (R : α → β → Prop) : Read α → Read β → Prop
  | ok {a : α} {b : β} (h : R a b) : Alike R (.ok a) (.ok b)
  | error {ps qs : List Problem} : Alike R (.error ps) (.error qs)

namespace Read.Alike

variable {R : α → β → Prop} {S : γ → δ → Prop} {a : Read α} {b : Read β}

theorem both {c : Read γ} {d : Read δ} (h : Alike R a b) (h' : Alike S c d) :
    Alike (fun x y => R x.1 y.1 ∧ S x.2 y.2) (a.both c) (b.both d) := by
  cases h with
  | ok h =>
      cases h' with
      | ok h' => exact .ok ⟨h, h'⟩
      | error => exact .error
  | error => cases h' <;> exact .error

theorem map {f : α → γ} {g : β → δ} (h : Alike R a b) (hfg : ∀ x y, R x y → S (f x) (g y)) :
    Alike S (a.map f) (b.map g) := by
  cases h with
  | ok h => exact .ok (hfg _ _ h)
  | error => exact .error

theorem ensure {path path' : List String} {f : α → Option Flaw} {g : β → Option Flaw}
    (h : Alike R a b) (hfg : ∀ x y, R x y → (f x = none ↔ g y = none)) :
    Alike R (a.ensure path f) (b.ensure path' g) := by
  cases h with
  | error => exact .error
  | @ok x y h =>
      have hsame := hfg x y h
      unfold Read.ensure
      simp only [Except.bind]
      cases hf : f x with
      | none =>
          rw [hsame.mp hf]
          exact .ok h
      | some flaw =>
          cases hg : g y with
          | none =>
              rw [hsame.mpr hg] at hf
              cases hf
          | some flaw' => exact .error

theorem ensure_same {a b : Read α} {path path' : List String} {f : α → Option Flaw}
    (h : Alike Eq a b) : Alike Eq (a.ensure path f) (b.ensure path' f) :=
  h.ensure fun x y hxy => by rw [hxy]

theorem all {as : List (Read α)} {bs : List (Read β)} (h : List.Forall₂ (Alike R) as bs) :
    Alike (List.Forall₂ R) (Read.all as) (Read.all bs) := by
  induction h with
  | nil => exact .ok .nil
  | cons hhead _ ih => exact (hhead.both ih).map fun _ _ h => .cons h.1 h.2

theorem mono {R' : α → β → Prop} (h : Alike R a b) (hR : ∀ x y, R x y → R' x y) :
    Alike R' a b := by
  cases h with
  | ok h => exact .ok (hR _ _ h)
  | error => exact .error

theorem refl {a : Read α} {R : α → α → Prop} (h : ∀ x, R x x) : Alike R a a := by
  cases a with
  | ok x => exact .ok (h x)
  | error ps => exact .error

theorem trans {S : β → γ → Prop} {c : Read γ} (h : Alike R a b) (h' : Alike S b c) :
    Alike (Relation.Comp R S) a c := by
  cases h with
  | error =>
      cases h' with
      | error => exact .error
  | ok h =>
      cases h' with
      | ok h' => exact .ok ⟨_, h, h'⟩

/-- What readings yield, they yield. -/
theorem with_eq (h : Alike R a b) : Alike (fun x y => a = .ok x ∧ b = .ok y ∧ R x y) a b := by
  cases h with
  | ok h => exact .ok ⟨rfl, rfl, h⟩
  | error => exact .error

/-- Parts may be read in any order. -/
theorem all_perm {as bs : List (Read α)} (h : as.Perm bs) :
    Alike List.Perm (Read.all as) (Read.all bs) := by
  induction h with
  | nil => exact .ok .nil
  | cons a _ ih =>
      have hhead : Alike Eq a a := .refl fun _ => rfl
      refine (hhead.both ih).map ?_
      rintro ⟨x, xs⟩ ⟨_, ys⟩ ⟨rfl, hrest⟩
      exact hrest.cons x
  | swap a b as =>
      simp only [Read.all]
      cases a with
      | error => cases b <;> cases Read.all as <;> exact .error
      | ok x =>
          cases b with
          | error => cases Read.all as <;> exact .error
          | ok y =>
              cases Read.all as with
              | error => exact .error
              | ok xs => exact .ok (.swap x y xs)
  | trans _ _ ih ih' =>
      exact (ih.trans ih').mono fun _ _ ⟨_, hfirst, hsecond⟩ => hfirst.trans hsecond

end Read.Alike

/-- A reader that reads the same, up to a relation, whatever the order of keys. -/
def Reader.Steady (r : Reader α) (R : α → α → Prop) : Prop :=
  ∀ ⦃d d' : Document⦄, d.Reordered d' → d.Apart →
    ∀ path path', (r path d).Alike R (r path' d')

/-- Readers of anything but lists and tables. -/
theorem steady_of_plain {r : Reader α} (hsame : ∀ d path path', (r path d).Alike Eq (r path' d))
    (harray : ∀ path ds, ∃ ps, r path (.array ds) = .error ps)
    (htable : ∀ path entries, ∃ ps, r path (.table entries) = .error ps) : r.Steady Eq := by
  intro d d' h _ path path'
  cases h with
  | refl => exact hsame d path path'
  | @array ds ds' =>
      obtain ⟨ps, hps⟩ := harray path ds
      obtain ⟨qs, hqs⟩ := harray path' ds'
      rw [hps, hqs]
      exact .error
  | @table entries _ entries' =>
      obtain ⟨ps, hps⟩ := htable path entries
      obtain ⟨qs, hqs⟩ := htable path' entries'
      rw [hps, hqs]
      exact .error

theorem steady_text : Reader.text.Steady Eq := by
  refine steady_of_plain (fun d path path' => ?_) (fun _ _ => ⟨_, rfl⟩) fun _ _ => ⟨_, rfl⟩
  cases d with
  | string s => exact .ok rfl
  | _ => exact .error

theorem steady_readKind : Reader.Steady readKind Eq := by
  refine steady_of_plain (fun d path path' => ?_) (fun _ _ => ⟨_, rfl⟩) fun _ _ => ⟨_, rfl⟩
  unfold readKind
  split
  · exact .ok rfl
  · exact .ok rfl
  · exact .ok rfl
  · exact .error

theorem steady_optional {r : Reader α} (hr : r.Steady Eq) : r.optional.Steady Eq := by
  intro d d' h hapart path path'
  have hsome := (hr h hapart path path').map fun _ _ => congrArg some
  cases d with
  | null =>
      rw [h.eq_of_plain nofun nofun]
      exact .ok rfl
  | array ds =>
      obtain ⟨ds', rfl, -⟩ := h.of_array
      exact hsome
  | table entries =>
      obtain ⟨_, _, rfl, -⟩ := h.of_table
      exact hsome
  | _ =>
      cases h.eq_of_plain nofun nofun
      exact hsome

theorem forall₂_zipIdx {P : α → β → Prop} {as : List α} {bs : List β} (h : List.Forall₂ P as bs)
    (i : Nat) : List.Forall₂ (fun a b => P a.1 b.1) (as.zipIdx i) (bs.zipIdx i) := by
  induction h generalizing i with
  | nil => exact .nil
  | cons hhead _ ih => exact .cons hhead (ih (i + 1))

theorem steady_list {r : Reader α} {R : α → α → Prop} (hr : r.Steady R) :
    r.list.Steady (List.Forall₂ R) := by
  intro d d' h hapart path path'
  cases d with
  | array ds =>
      obtain ⟨ds', rfl, hds⟩ := h.of_array
      have hparts := (List.forall₂_and_left _ _).mpr ⟨fun d hd => hapart.element hd, hds⟩
      refine .all (List.forall₂_map_left_iff.mpr (List.forall₂_map_right_iff.mpr ?_))
      exact (forall₂_zipIdx hparts 0).imp fun _ _ h => hr h.2 h.1 _ _
  | table entries =>
      obtain ⟨_, _, rfl, -⟩ := h.of_table
      exact .error
  | _ =>
      cases h.eq_of_plain nofun nofun
      exact .error

/-! ### Tables of named things -/

theorem keys_all {r : Reader α} {path : List String} {entries : Keyed Document}
    {pairs : List (String × α)}
    (h : Read.all (entries.map fun (key, d) =>
      (r (path ++ [key]) d).map fun a => (Text.trimBlank key, a)) = .ok pairs) :
    pairs.map Prod.fst = entries.map fun e => Text.trimBlank e.1 := by
  induction entries generalizing pairs with
  | nil =>
      cases h
      rfl
  | cons e entries ih =>
      obtain ⟨⟨p, rest⟩, hboth, rfl⟩ := map_eq_ok.mp h
      obtain ⟨hp, hrest⟩ := both_eq_ok hboth
      obtain ⟨a, -, rfl⟩ := map_eq_ok.mp hp
      rw [List.map_cons, List.map_cons, ih hrest]

/-- Where keys are apart, every order of them yields the same table. -/
theorem steady_table {r : Reader α} {R : α → α → Prop} (hr : r.Steady R) :
    r.table.Steady (Keyed.Alike R) := by
  intro d d' h hapart path path'
  cases d with
  | table entries =>
      obtain ⟨mid, entries', rfl, hperm, hmid⟩ := h.of_table
      have hparts := (List.forall₂_and_left _ _).mpr
        ⟨fun e he => hapart.value (hperm.mem_iff.mpr he), hmid⟩
      let read (path : List String) (e : String × Document) : Read (String × α) :=
        (r (path ++ [e.1]) e.2).map fun a => (Text.trimBlank e.1, a)
      have hreads : List.Forall₂ (Read.Alike fun x y => x.1 = y.1 ∧ R x.2 y.2)
          (mid.map (read path)) (entries'.map (read path')) := by
        refine List.forall₂_map_left_iff.mpr (List.forall₂_map_right_iff.mpr (hparts.imp ?_))
        rintro ⟨key, d⟩ ⟨_, d'⟩ ⟨hd, rfl, hreordered⟩
        exact (hr hreordered hd _ _).map fun _ _ h => ⟨rfl, h⟩
      have hall := (Read.Alike.all_perm (hperm.map (read path))).trans (.all hreads)
      refine hall.with_eq.map fun pairs pairs' ⟨hpairs, hpairs', mid', hmid', hrelated⟩ => ?_
      have hdistinct : (pairs.map Prod.fst).Nodup := by
        rw [keys_all hpairs]
        exact hapart entries .self
      have hkeys : (pairs.map Prod.fst).Perm (pairs'.map Prod.fst) := by
        rw [← map_eq_of_forall₂ (hrelated.imp fun _ _ h => h.1)]
        exact hmid'.map Prod.fst
      rw [Keyed.ofPairs_of_nodup hdistinct, Keyed.ofPairs_of_nodup (hkeys.nodup_iff.mp hdistinct)]
      exact ⟨hdistinct, mid', hmid', hrelated⟩
  | array ds =>
      obtain ⟨_, rfl, -⟩ := h.of_array
      exact .error
  | _ =>
      cases h.eq_of_plain nofun nofun
      exact .error

/-! ### Values of keys -/

/-- Tables in which every key has the same value, up to the order of keys in it. -/
structure Matching (entries entries' : Keyed Document) : Prop where
  lookup : ∀ key, Option.Rel (fun d d' => d.Reordered d' ∧ d.Apart) (entries.lookup key)
    (entries'.lookup key)
  keys : entries.keys.Perm entries'.keys

theorem Matching.of_reordered {entries entries' : Keyed Document}
    (h : (Document.table entries).Reordered (.table entries'))
    (hapart : (Document.table entries).Apart) : Matching entries entries' := by
  obtain ⟨mid, entries', ⟨⟩, hperm, hmid⟩ := h.of_table
  have hparts := (List.forall₂_and_left _ _).mpr
    ⟨fun e he => hapart.value (hperm.mem_iff.mpr he), hmid⟩
  have halike : Keyed.Alike (fun d d' => d.Reordered d' ∧ d.Apart) entries entries' :=
    ⟨hapart.nodup, mid, hperm, hparts.imp fun _ _ h => ⟨h.2.1, h.2.2, h.1⟩⟩
  exact ⟨halike.lookup, halike.keys⟩

/-- A reader of tables with certain keys. -/
theorem steady_of_matching {r : Reader α} {R : α → α → Prop}
    (htable : ∀ entries entries', Matching entries entries' → ∀ path path',
      (r path (.table entries)).Alike R (r path' (.table entries')))
    (hother : ∀ path d, (∀ entries, d ≠ .table entries) → ∃ ps, r path d = .error ps) :
    r.Steady R := by
  intro d d' h hapart path path'
  by_cases hd : ∃ entries, d = .table entries
  · obtain ⟨entries, rfl⟩ := hd
    obtain ⟨_, entries', rfl, -⟩ := h.of_table
    exact htable _ _ (.of_reordered h hapart) path path'
  · have hd' : ∀ entries, d' ≠ .table entries := by
      rintro entries rfl
      cases h with
      | refl => exact hd ⟨entries, rfl⟩
      | table => exact hd ⟨_, rfl⟩
    obtain ⟨ps, hps⟩ := hother path d fun entries heq => hd ⟨entries, heq⟩
    obtain ⟨qs, hqs⟩ := hother path' d' hd'
    rw [hps, hqs]
    exact .error

section

variable {entries entries' : Keyed Document} (h : Matching entries entries')
  {r : Reader α} {R : α → α → Prop} (hr : r.Steady R) (path path' : List String) (key : String)

include h

theorem Matching.only (known : List String) :
    (Reader.only known path entries).Alike (fun _ _ => True)
      (Reader.only known path' entries') := by
  have hunknown := h.keys.filter fun key => !known.contains key
  unfold Reader.only
  simp only [hunknown.isEmpty_eq]
  split
  · exact .ok trivial
  · exact .error

include hr

theorem Matching.required :
    (r.required path entries key).Alike R (r.required path' entries' key) := by
  have hvalue := h.lookup key
  unfold Reader.required
  generalize entries.lookup key = d, entries'.lookup key = d' at hvalue
  cases hvalue with
  | none => exact .error
  | some hd => exact hr hd.1 hd.2 _ _

theorem Matching.orElse {absent : α} (habsent : R absent absent) :
    (r.orElse absent path entries key).Alike R (r.orElse absent path' entries' key) := by
  have hvalue := h.lookup key
  unfold Reader.orElse
  generalize entries.lookup key = d, entries'.lookup key = d' at hvalue
  cases hvalue with
  | none => exact .ok habsent
  | some hd => exact hr hd.1 hd.2 _ _

end

/-! ### Entries -/

theorem steady_readParameter : Reader.Steady readParameter Eq := by
  refine steady_of_matching (fun entries entries' h path path' => ?_) fun path d hd => ?_
  · refine ((h.required steady_text _ _ _).ensure_same.both
      ((h.required steady_text _ _ _).both (h.only _ _ _))).map ?_
    rintro ⟨name, type, -⟩ ⟨name', type', -⟩ ⟨rfl, rfl, -⟩
    rfl
  · unfold readParameter
    split
    · exact (hd _ rfl).elim
    · exact ⟨_, rfl⟩

theorem steady_readCallable : Reader.Steady readCallable Eq := by
  refine steady_of_matching (fun entries entries' h path path' => ?_) fun path d hd => ?_
  · have hlist : (Reader.list readParameter).Steady Eq := by
      rw [← List.forall₂_eq_eq_eq]
      exact steady_list steady_readParameter
    have htext := steady_optional steady_text
    refine (((h.orElse hlist _ _ _ rfl).both ((h.orElse htext _ _ _ rfl).both
      ((h.orElse htext _ _ _ rfl).both (h.only _ _ _)))).map ?_).ensure_same
    rintro ⟨parameters, returns, _⟩ ⟨parameters', returns', _⟩ ⟨rfl, rfl, -⟩
    rfl
  · unfold readCallable
    split
    · exact (hd _ rfl).elim
    · exact ⟨_, rfl⟩

/-- The same entry, except for the order of the fields of a record. -/
inductive TypeEntry.Alike : TypeEntry → TypeEntry → Prop
  | refl (entry : TypeEntry) : Alike entry entry
  | record {fields fields' : Keyed String} (h : fields.Perm fields')
      (distinct : fields.keys.Nodup) : Alike (.record fields) (.record fields')

/-- Parts that differ in the order of fields only. -/
structure TypeParts.Alike (t t' : TypeParts) : Prop where
  kind : t.kind = t'.kind
  underlying : t.underlying = t'.underlying
  values : t.values = t'.values
  fields : t.fields.Perm t'.fields
  distinct : t.fields.keys.Nodup
  target : t.target = t'.target

/-- The order of fields tells at most which flaw is found, not whether there is one. -/
theorem TypeParts.Alike.flaw?_iff {t t' : TypeParts} (h : t.Alike t') :
    t.flaw? = none ↔ t'.flaw? = none := by
  have hkeys : (∀ name ∈ t.fields.keys, nameFlaw? "field name" name = none) ↔
      ∀ name ∈ t'.fields.keys, nameFlaw? "field name" name = none := by
    have hsame : ∀ name, name ∈ t.fields.keys ↔ name ∈ t'.fields.keys :=
      fun name => (h.fields.map Prod.fst).mem_iff
    simp only [hsame]
  unfold flaw?
  rw [h.kind, h.underlying, h.values, h.target, h.fields.isEmpty_eq]
  cases t'.kind with
  | record =>
      dsimp only
      split
      · rfl
      · rw [List.findSome?_eq_none_iff, List.findSome?_eq_none_iff]
        exact hkeys
  | domain | synonym => rfl

theorem TypeParts.Alike.entry {t t' : TypeParts} (h : t.Alike t') : t.entry.Alike t'.entry := by
  unfold TypeParts.entry
  rw [h.kind, h.underlying, h.values, h.target]
  cases t'.kind with
  | record => exact .record h.fields h.distinct
  | domain | synonym => exact .refl _

theorem steady_readType : Reader.Steady readType TypeEntry.Alike := by
  refine steady_of_matching (fun entries entries' h path path' => ?_) fun path d hd => ?_
  · have htext := steady_optional steady_text
    have hvalues : (Reader.list .text).Steady Eq := by
      rw [← List.forall₂_eq_eq_eq]
      exact steady_list steady_text
    refine Read.Alike.map (.ensure (R := TypeParts.Alike) (.map
      ((h.required steady_readKind _ _ _).both ((h.orElse htext _ _ _ rfl).both
        ((h.orElse hvalues _ _ _ rfl).both ((h.orElse (steady_table steady_text) _ _ _ .nil).both
          ((h.orElse htext _ _ _ rfl).both ((h.orElse htext _ _ _ rfl).both (h.only _ _ _)))))))
      ?_) ?_) ?_
    · rintro ⟨kind, underlying, values, fields, target, _⟩ ⟨_, _, _, fields', _, _⟩
        ⟨rfl, rfl, rfl, hfields, rfl, -⟩
      exact ⟨rfl, rfl, rfl, hfields.perm, hfields.distinct, rfl⟩
    · exact fun t t' h => h.flaw?_iff
    · exact fun t t' h => h.entry
  · unfold readType
    split
    · exact (hd _ rfl).elim
    · exact ⟨_, rfl⟩

/-! ### Documents -/

theorem nodup_readNamed {r : Reader α} {entries : Keyed Document} {key : String} {named : Keyed α}
    (h : readNamed r entries key = .ok named) : named.keys.Nodup := by
  have hvalue := (ensure_eq_ok h).1
  unfold Reader.orElse at hvalue
  split at hvalue
  · unfold Reader.table at hvalue
    split at hvalue
    · obtain ⟨pairs, -, rfl⟩ := map_eq_ok.mp hvalue
      exact Keyed.nodup_ofPairs pairs
    · cases hvalue
  · cases hvalue
    exact List.nodup_nil

/-- Every name stands once among the entries of a document. -/
theorem nodup_readEntries {doc : Keyed Document} {e : Entries} (h : readEntries doc = .ok e) :
    e.types.keys.Nodup ∧ e.operations.keys.Nodup ∧ e.helpers.keys.Nodup := by
  obtain ⟨⟨types, operations, helpers, _⟩, hparts, rfl⟩ := map_eq_ok.mp h
  obtain ⟨htypes, hparts⟩ := both_eq_ok hparts
  obtain ⟨hoperations, hparts⟩ := both_eq_ok hparts
  obtain ⟨hhelpers, -⟩ := both_eq_ok hparts
  exact ⟨nodup_readNamed htypes, nodup_readNamed hoperations, nodup_readNamed hhelpers⟩

/-- The same entries, except for the order of names. -/
structure Entries.Alike (e e' : Entries) : Prop where
  types : e.types.Alike TypeEntry.Alike e'.types
  operations : e.operations.Alike Eq e'.operations
  helpers : e.helpers.Alike Eq e'.helpers

theorem Matching.readNamed {entries entries' : Keyed Document} (h : Matching entries entries')
    {r : Reader α} {R : α → α → Prop} (hr : r.Steady R) (key : String) :
    (readNamed r entries key).Alike (Keyed.Alike R) (readNamed r entries' key) := by
  refine (h.orElse (steady_table hr) [] [] key .nil).ensure fun named named' h => ?_
  have hsame : ∀ name, name ∈ named.keys ↔ name ∈ named'.keys := fun name => h.keys.mem_iff
  simp only [List.findSome?_eq_none_iff, hsame]

/-- Documents that differ in the order of their keys have the same entries, or none. -/
theorem readEntries_alike {doc doc' : Keyed Document}
    (h : (Document.table doc).Reordered (.table doc')) (hapart : (Document.table doc).Apart) :
    (readEntries doc).Alike Entries.Alike (readEntries doc') := by
  have hmatching := Matching.of_reordered h hapart
  refine ((hmatching.readNamed steady_readType "types").both
    ((hmatching.readNamed steady_readCallable "operations").both
      ((hmatching.readNamed steady_readCallable "helpers").both (hmatching.only _ _ _)))).map ?_
  rintro ⟨types, operations, helpers, _⟩ ⟨types', operations', helpers', _⟩ ⟨ht, ho, hh, -⟩
  exact ⟨ht, ho, hh⟩

end Registry

end Prosaic
