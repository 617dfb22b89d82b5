import Mathlib.Data.List.Forall2
import Mathlib.Data.List.Nodup
import Mathlib.Data.List.Perm.Basic

/-!
Tables: what is looked up in a list of named entries, and where it comes from. Lists that go with
each other, and lists without repetitions.
-/

namespace Prosaic

variable {α β : Type}

theorem mem_of_lookup {table : List (String × β)} {n : String} {b : β}
    (h : table.lookup n = some b) : (n, b) ∈ table := by
  obtain ⟨before, after, rfl, -⟩ := List.lookup_eq_some_iff.mp h
  simp

theorem lookup_map_self {α : Type} (value : String → α) (names : List String) (n : String) :
    (names.map fun n => (n, value n)).lookup n = if n ∈ names then some (value n) else none := by
  induction names with
  | nil => rfl
  | cons m ms ih =>
      by_cases hn : n = m
      · simp [hn]
      · simp [List.lookup_cons, beq_false_of_ne hn, ih, hn]

section

variable {R : α → String × β → Prop} {name : α → String} {as : List α}
  {table : List (String × β)} (h : List.Forall₂ R as table) (hname : ∀ a e, R a e → e.1 = name a)

include h hname

/-- What a table says of a name comes from one of the things that the table was made from. -/
theorem exists_of_lookup {n : String} {b : β} (hb : table.lookup n = some b) :
    ∃ a ∈ as, name a = n ∧ R a (n, b) := by
  have hmem := mem_of_lookup hb
  clear hb
  induction h with
  | nil => cases hmem
  | @cons a e as table hae _ ih =>
      rcases List.mem_cons.mp hmem with rfl | hmem
      · exact ⟨a, List.mem_cons_self, (hname a (n, b) hae).symm, hae⟩
      · obtain ⟨a', ha', hrest⟩ := ih hmem
        exact ⟨a', List.mem_cons_of_mem a ha', hrest⟩

/-- A name that a table does not have is that of nothing the table was made from. -/
theorem not_mem_of_lookup {n : String} (hn : table.lookup n = none) : n ∉ as.map name := by
  rw [List.lookup_eq_none_iff] at hn
  induction h with
  | nil => simp
  | @cons a e as table hae _ ih =>
      obtain ⟨he, htable⟩ := List.forall_mem_cons.mp hn
      have hne : n ≠ name a := hname a e hae ▸ by simpa using he
      rw [List.map_cons, List.mem_cons, not_or]
      exact ⟨hne, ih htable⟩

end

theorem exists_of_mem_left {α β : Type} {R : α → β → Prop} {as : List α} {bs : List β}
    (h : List.Forall₂ R as bs) : ∀ a ∈ as, ∃ b ∈ bs, R a b := by
  induction h with
  | nil => simp
  | @cons a b as bs hab _ ih =>
      refine List.forall_mem_cons.mpr ⟨⟨b, List.mem_cons_self, hab⟩, fun a' ha' => ?_⟩
      obtain ⟨b', hb', hR⟩ := ih a' ha'
      exact ⟨b', List.mem_cons_of_mem b hb', hR⟩

/-- What something goes with stands at the same place. -/
theorem exists_mem_zip {R : α → β → Prop} {as : List α} {bs : List β} (h : List.Forall₂ R as bs) :
    ∀ a ∈ as, ∃ b, (a, b) ∈ as.zip bs ∧ R a b := by
  induction h with
  | nil => exact List.forall_mem_nil _
  | @cons a b as bs hab _ ih =>
      refine List.forall_mem_cons.mpr ⟨⟨b, List.mem_cons_self, hab⟩, fun a' ha' => ?_⟩
      obtain ⟨b', hb', hR⟩ := ih a' ha'
      exact ⟨b', List.mem_cons_of_mem _ hb', hR⟩

theorem map_eq_of_forall₂ {α β γ : Type} {f : α → γ} {g : β → γ} {as : List α} {bs : List β}
    (h : List.Forall₂ (fun a b => f a = g b) as bs) : as.map f = bs.map g := by
  rwa [← List.forall₂_eq_eq_eq, List.forall₂_map_left_iff, List.forall₂_map_right_iff]

theorem forall₂_of_map_eq {α β γ : Type} {f : α → γ} {g : β → γ} {as : List α} {bs : List β}
    (h : as.map f = bs.map g) : List.Forall₂ (fun a b => f a = g b) as bs := by
  rwa [← List.forall₂_eq_eq_eq, List.forall₂_map_left_iff, List.forall₂_map_right_iff] at h

theorem forall₂_both {α β : Type} {R S : α → β → Prop} {as : List α} {bs : List β}
    (h : List.Forall₂ R as bs) (h' : List.Forall₂ S as bs) :
    List.Forall₂ (fun a b => R a b ∧ S a b) as bs := by
  induction h with
  | nil => exact .nil
  | cons hR _ ih =>
      obtain ⟨hS, hrest⟩ := List.forall₂_cons.mp h'
      exact .cons ⟨hR, hS⟩ (ih hrest)

/-- A table with distinct names says the same in every order. -/
theorem lookup_eq_of_perm {table table' : List (String × β)} (h : table.Perm table')
    (hdistinct : (table.map Prod.fst).Nodup) (n : String) : table.lookup n = table'.lookup n := by
  induction h with
  | nil => rfl
  | @cons e _ _ _ ih =>
      rcases e with ⟨m, b⟩
      rw [List.lookup_cons, List.lookup_cons, ih (List.nodup_cons.mp hdistinct).2]
  | swap e e' table =>
      rcases e with ⟨m, b⟩
      rcases e' with ⟨m', b'⟩
      have hne : m' ≠ m := by
        rintro rfl
        simp at hdistinct
      by_cases hn : n = m
      · simp [List.lookup_cons, hn, beq_false_of_ne hne.symm]
      · simp [List.lookup_cons, beq_false_of_ne hn]
  | trans h _ ih ih' => rw [ih hdistinct, ih' ((h.map Prod.fst).nodup_iff.mp hdistinct)]

/-- Lists that are made alike from lists with the same members have the same members. -/
theorem zip_perm_of_forall₂ {R R' : α → β → Prop} {as as' : List α} {bs bs' : List β}
    (hperm : as.Perm as') (h : List.Forall₂ R as bs) (h' : List.Forall₂ R' as' bs')
    (hsame : ∀ a b b', R a b → R' a b' → b = b') : (as.zip bs).Perm (as'.zip bs') := by
  have hpairs : List.Forall₂ (fun a (e : α × β) => e.1 = a ∧ R' a e.2) as' (as'.zip bs') := by
    clear hperm
    induction h' with
    | nil => exact .nil
    | cons hab _ ih => exact .cons ⟨rfl, hab⟩ ih
  obtain ⟨pairs, hpairs, hrest⟩ := List.perm_comp_forall₂ hperm hpairs
  suffices heq : as.zip bs = pairs from heq ▸ hrest
  clear hperm hrest
  induction h generalizing pairs with
  | nil => rw [List.forall₂_nil_left_iff.mp hpairs, List.zip_nil_left]
  | cons hab _ ih =>
      obtain ⟨⟨a, b'⟩, rest, ⟨rfl, hab'⟩, hrest, rfl⟩ := List.forall₂_cons_left_iff.mp hpairs
      rw [List.zip_cons_cons, ih rest hrest, hsame _ _ _ hab hab']

/-- In a table with distinct names, what stands under a name is what the name is looked up as. -/
theorem lookup_of_mem {table : List (String × β)} (hdistinct : (table.map Prod.fst).Nodup)
    {n : String} {b : β} (h : (n, b) ∈ table) : table.lookup n = some b := by
  obtain ⟨before, after, rfl⟩ := List.append_of_mem h
  refine List.lookup_eq_some_iff.mpr ⟨before, after, rfl, fun e he => ?_⟩
  have hapart : ∀ e ∈ before, e.1 ≠ n := by
    rw [List.map_append, List.map_cons] at hdistinct
    intro e he
    exact (List.nodup_append.mp hdistinct).2.2 _ (List.mem_map_of_mem he) _ List.mem_cons_self
  exact bne_iff_ne.mpr (hapart e he).symm

/-- What goes with something is something. -/
theorem exists_of_rel {R : α → β → Prop} {a : Option α} {b : Option β} (h : Option.Rel R a b)
    {x : α} (hx : a = some x) : ∃ y, b = some y ∧ R x y := by
  cases h with
  | none => cases hx
  | some hR => exact ⟨_, rfl, Option.some.inj hx ▸ hR⟩

theorem exists_of_rel_right {R : α → β → Prop} {a : Option α} {b : Option β}
    (h : Option.Rel R a b) {y : β} (hy : b = some y) : ∃ x, a = some x ∧ R x y := by
  cases h with
  | none => cases hy
  | some hR => exact ⟨_, rfl, Option.some.inj hy ▸ hR⟩

/-- At most one thing goes with something. -/
theorem rel_unique {γ : Type} {R : α → β → Prop} {S : α → γ → Prop} {T : β → γ → Prop}
    (hT : ∀ a b c, R a b → S a c → T b c) {a : Option α} {b : Option β} {c : Option γ}
    (h : Option.Rel R a b) (h' : Option.Rel S a c) : Option.Rel T b c := by
  cases h with
  | none =>
      cases h'
      exact .none
  | some hR =>
      cases h' with
      | some hS => exact .some (hT _ _ _ hR hS)

theorem eq_of_rel {a b : Option α} (h : Option.Rel Eq a b) : a = b := by
  cases h with
  | none => rfl
  | some h => rw [h]

/-- Tables that go with each other under every name. -/
theorem lookup_forall₂ {R : α → β → Prop} {table : List (String × α)} {table' : List (String × β)}
    (h : List.Forall₂ (fun e e' => e.1 = e'.1 ∧ R e.2 e'.2) table table') (n : String) :
    Option.Rel R (table.lookup n) (table'.lookup n) := by
  induction h with
  | nil => exact .none
  | @cons e e' _ _ hhead _ ih =>
      rcases e with ⟨m, a⟩
      rcases e' with ⟨m', b⟩
      obtain ⟨rfl, hR⟩ := hhead
      rw [List.lookup_cons, List.lookup_cons]
      cases n == m with
      | true => exact .some hR
      | false => exact ih

/-- Searches in lists that go with each other find what goes with each other. -/
theorem find?_forall₂ {R : α → β → Prop} {p : α → Bool} {q : β → Bool} {as : List α} {bs : List β}
    (h : List.Forall₂ R as bs) (hpq : ∀ a b, R a b → p a = q b) :
    Option.Rel R (as.find? p) (bs.find? q) := by
  induction h with
  | nil => exact .none
  | @cons a b as bs hab _ ih =>
      rw [List.find?_cons, List.find?_cons, hpq a b hab]
      cases q b with
      | true => exact .some hab
      | false => exact ih

/-- Under each name of a table, what there is to say about the name, if anything. -/
theorem lookup_filterMap {γ : Type} (value : String → Option γ) (table : List (String × β))
    (n : String) :
    (table.filterMap fun e => (value e.1).map fun c => (e.1, c)).lookup n =
      if (table.lookup n).isSome then value n else none := by
  induction table with
  | nil => rfl
  | cons e table ih =>
      rcases e with ⟨m, b⟩
      by_cases hn : n = m
      · subst hn
        cases hvalue : value n with
        | some c => simp [hvalue]
        | none => simp [hvalue, ih]
      · have hskip (γ' : Type) (c : γ') (rest : List (String × γ')) :
            ((m, c) :: rest).lookup n = rest.lookup n := by
          rw [List.lookup_cons, beq_false_of_ne hn]
        rw [hskip, ← ih]
        cases hvalue : value m with
        | some c => simp only [List.filterMap_cons, hvalue, Option.map_some, hskip]
        | none => simp only [List.filterMap_cons, hvalue, Option.map_none]

theorem nodup_eraseDups (names : List String) : names.eraseDups.Nodup := by
  induction hlength : names.length using Nat.strongRecOn generalizing names with
  | ind k ih =>
      cases names with
      | nil => simp
      | cons n ns =>
          have hshorter : (ns.filter fun m => !m == n).length < k := by
            rw [← hlength]
            exact Nat.lt_succ_of_le (List.length_filter_le _ _)
          rw [List.eraseDups_cons, List.nodup_cons]
          exact ⟨by simp [List.mem_eraseDups], ih _ hshorter _ rfl⟩

end Prosaic
