import Prosaic.Proofs.Table
import Prosaic.Proofs.TypeScript.Renaming

/-!
When an identifier refers to what the name refers to. The blocks around a place and the scopes that
they are written as stand in a relation that every step inside a block preserves; under it, an
identifier goes astray exactly where a rival captures the name.
-/

namespace Prosaic

open TypeScript (Reference Rivals identifier identifier_eq_iff)

/-! ### Bindings -/

theorem depth_binding? {scopes : List (List String)} {x : String} {d : Referent}
    (h : binding? scopes x = some d) : ∃ depth index, d = .binding depth index ∧
      depth < scopes.length := by
  induction scopes with
  | nil => cases h
  | cons names outer ih =>
      rw [binding?] at h
      split at h
      · cases h
        exact ⟨_, _, rfl, Nat.lt_succ_self _⟩
      · obtain ⟨depth, index, rfl, hlt⟩ := ih h
        exact ⟨depth, index, rfl, Nat.lt_succ_of_lt hlt⟩

theorem binding?_of_mem {names : List String} {outer : List (List String)} {x : String}
    (h : x ∈ names) :
    binding? (names :: outer) x = some (.binding outer.length (names.idxOf x)) := if_pos h

theorem binding?_of_not_mem {names : List String} {outer : List (List String)} {x : String}
    (h : x ∉ names) : binding? (names :: outer) x = binding? outer x := if_neg h

theorem isSome_binding? {scopes : List (List String)} {x : String} :
    (binding? scopes x).isSome = true ↔ ∃ names ∈ scopes, x ∈ names := by
  induction scopes with
  | nil => simp [binding?]
  | cons names outer ih =>
      by_cases hx : x ∈ names
      · simp [binding?_of_mem hx, hx]
      · simp [binding?_of_not_mem hx, hx, ih]

/-! ### Blocks and the scopes that they are written as -/

/-- What a block inside some others binds, and what it is written as: a name that hides nothing is
written under its own identifier, and any other under one that was made up. -/
def SpelledIn (kept : List String) (outer : List BlockNames) (x y : String) : Prop :=
  (Visible outer x → y ∉ kept) ∧ (¬Visible outer x → y = identifier x)

/-- The blocks around a place go with the scopes around it, innermost first. -/
inductive Stands (kept : List String) : List BlockNames → List (List String) → Prop
  | nil : Stands kept [] []
  | cons {b : BlockNames} {outer : List BlockNames} {ids : List String}
      {scopes : List (List String)} (houter : Stands kept outer scopes) (hseen : b.seen <+: b.all)
      (hdistinct : b.all.Nodup) (hkept : ∀ x ∈ b.all, identifier x ∈ kept)
      (hspelled : List.Forall₂ (SpelledIn kept outer) b.all ids) (hapart : ids.Nodup) :
      Stands kept (b :: outer) (ids :: scopes)

/-- The identifier of the local that a name refers to. -/
def spelling? : List BlockNames → List (List String) → String → Option String
  | b :: outer, ids :: scopes, x =>
    if x ∈ b.seen then ids[b.seen.idxOf x]? else spelling? outer scopes x
  | _, _, _ => none

section

variable {kept : List String} {outer : List BlockNames} {names ids : List String}
  (hspelled : List.Forall₂ (SpelledIn kept outer) names ids)

include hspelled

/-- An identifier that a name may have by itself stands for such names only. -/
theorem mem_of_spelled {y : String} (hy : y ∈ kept) :
    y ∈ ids ↔ ∃ x ∈ names, ¬Visible outer x ∧ identifier x = y := by
  constructor
  · intro hmem
    obtain ⟨x, hx, hspell⟩ := exists_of_mem_left hspelled.flip y hmem
    have hhides : ¬Visible outer x := fun hvisible => hspell.1 hvisible hy
    exact ⟨x, hx, hhides, (hspell.2 hhides).symm⟩
  · rintro ⟨x, hx, hhides, rfl⟩
    obtain ⟨y, hy, hspell⟩ := exists_of_mem_left hspelled x hx
    exact hspell.2 hhides ▸ hy

/-- The identifier of a name from elsewhere is bound in a block exactly where a rival of the name is
that hides nothing. -/
theorem mem_rival {x : String} (hx : identifier x ∈ kept) (hother : x ∉ names ∨ Visible outer x) :
    identifier x ∈ ids ↔ ∃ y ∈ names, ¬Visible outer y ∧ Rivals x y := by
  rw [mem_of_spelled hspelled hx]
  refine exists_congr fun y => and_congr_right fun hy => and_congr_right fun hhides => ?_
  rw [eq_comm, identifier_eq_iff]
  apply or_iff_right
  rintro rfl
  exact hother.elim (fun hnot => hnot hy) hhides

/-- The identifiers of a block are different exactly if no two rivals in it hide nothing. -/
theorem nodup_spelled (hdistinct : names.Nodup) (hkept : ∀ x ∈ names, identifier x ∈ kept)
    (hcount : ∀ y ∉ kept, ids.count y ≤ 1) :
    ids.Nodup ↔ names.Pairwise fun x y => Rivals x y → Visible outer x ∨ Visible outer y := by
  induction hspelled with
  | nil => simp
  | @cons x y names ids hxy hrest ih =>
      obtain ⟨hx, hnames⟩ := List.nodup_cons.mp hdistinct
      obtain ⟨hxkept, hkept⟩ := List.forall_mem_cons.mp hkept
      have hcountRest : ∀ z ∉ kept, ids.count z ≤ 1 := fun z hz =>
        Nat.le_trans List.count_le_count_cons (hcount z hz)
      rw [List.nodup_cons, List.pairwise_cons, ih hnames hkept hcountRest]
      refine and_congr_left fun _ => ?_
      by_cases hvisible : Visible outer x
      · have hnot : y ∉ ids := by
          intro hmem
          have hone := hcount y (hxy.1 hvisible)
          have hpos := List.count_pos_iff.mpr hmem
          rw [List.count_cons_self] at hone
          omega
        exact iff_of_true hnot fun _ _ _ => .inl hvisible
      · rw [hxy.2 hvisible, mem_rival hrest hxkept (.inl hx)]
        constructor
        · intro hnone z hz hrivals
          by_contra hneither
          exact hnone ⟨z, hz, fun hz => hneither (.inr hz), hrivals⟩
        · rintro hall ⟨z, hz, hhides, hrivals⟩
          exact (hall z hz hrivals).elim hvisible hhides

end

/-! ### One place -/

theorem shadows_cons_of_not_mem {b : BlockNames} {outer : List BlockNames} {x : String}
    (hx : x ∉ b.seen) : Shadows (b :: outer) x ↔ Shadows outer x := by
  simp [Shadows, hx]

theorem visible_cons_of_not_mem {b : BlockNames} {outer : List BlockNames} {x : String}
    (hx : x ∉ b.seen) : Visible (b :: outer) x ↔ Visible outer x := by
  simp [Visible, hx]

theorem visible_iff_binding? {blocks : List BlockNames} {x : String} :
    Visible blocks x ↔ (binding? (blocks.map BlockNames.seen) x).isSome = true := by
  rw [isSome_binding?, Visible]
  simp

namespace Stands

variable {kept : List String} {blocks : List BlockNames} {scopes : List (List String)}

theorem length_eq (h : Stands kept blocks scopes) : scopes.length = blocks.length := by
  induction h with
  | nil => rfl
  | cons _ _ _ _ _ _ ih => rw [List.length_cons, List.length_cons, ih]

/-- A name that a block has bound so far has an identifier in its place. -/
theorem spelled_seen {b : BlockNames} {outer : List BlockNames} {ids : List String} {x : String}
    (hseen : b.seen <+: b.all) (hspelled : List.Forall₂ (SpelledIn kept outer) b.all ids)
    (hx : x ∈ b.seen) :
    ∃ hlt : b.seen.idxOf x < ids.length, SpelledIn kept outer x ids[b.seen.idxOf x] := by
  have hindex := List.idxOf_lt_length_iff.mpr hx
  have hall := Nat.lt_of_lt_of_le hindex hseen.length_le
  have hids := hspelled.length_eq ▸ hall
  refine ⟨hids, ?_⟩
  have hspell := hspelled.get hall hids
  have hget : b.all[b.seen.idxOf x] = x := by
    rw [← hseen.getElem hindex, List.getElem_idxOf]
  rwa [List.get_eq_getElem, List.get_eq_getElem, hget] at hspell

theorem spelling?_eq_none (h : Stands kept blocks scopes) {x : String} (hx : ¬Visible blocks x) :
    spelling? blocks scopes x = none := by
  induction h with
  | nil => rfl
  | @cons b outer ids scopes houter _ _ _ _ _ ih =>
      have hseen : x ∉ b.seen := fun hmem => hx ⟨b, List.mem_cons_self, hmem⟩
      rw [spelling?, if_neg hseen]
      exact ih (mt (visible_cons_of_not_mem hseen).mpr hx)

/-- A name in scope has an identifier, which is bound in one of the scopes. It is that of the name
unless the local hides another one. -/
theorem spelling?_of_visible (h : Stands kept blocks scopes) {x : String}
    (hx : Visible blocks x) :
    ∃ y, spelling? blocks scopes x = some y ∧ y ∈ scopes.flatten ∧
      (Shadows blocks x → y ∉ kept) ∧ (¬Shadows blocks x → y = identifier x ∧ y ∈ kept) := by
  induction h with
  | nil => exact absurd hx (by simp [Visible])
  | @cons b outer ids scopes houter hseen _ hkept hspelled _ ih =>
      by_cases hmem : x ∈ b.seen
      · obtain ⟨hlt, hvisible, hplain⟩ := spelled_seen hseen hspelled hmem
        have hshadows : Shadows (b :: outer) x ↔ Visible outer x := by simp [Shadows, hmem]
        refine ⟨ids[b.seen.idxOf x], ?_, ?_, fun hsh => hvisible (hshadows.mp hsh), fun hsh => ?_⟩
        · rw [spelling?, if_pos hmem, List.getElem?_eq_getElem hlt]
        · exact List.mem_append_left _ (List.getElem_mem hlt)
        · have heq := hplain (mt hshadows.mpr hsh)
          exact ⟨heq, heq ▸ hkept x (hseen.subset hmem)⟩
      · obtain ⟨y, hy, hflat, hsh, hplain⟩ := ih ((visible_cons_of_not_mem hmem).mp hx)
        rw [shadows_cons_of_not_mem hmem]
        refine ⟨y, ?_, List.mem_append_right _ hflat, hsh, hplain⟩
        rw [spelling?, if_neg hmem, hy]

/-- What is bound in two scopes was not made up. -/
theorem mem_kept {ids : List String} {y : String}
    (hcount : y ∉ kept → (ids :: scopes).flatten.count y ≤ 1) (hids : y ∈ ids)
    (hscopes : y ∈ scopes.flatten) : y ∈ kept := by
  by_contra hnot
  have hone := hcount hnot
  have hpos := List.count_pos_iff.mpr hids
  have hposOuter := List.count_pos_iff.mpr hscopes
  rw [List.flatten_cons, List.count_append] at hone
  omega

/-- What is bound in the innermost scope is no local of a block further out. -/
theorem binding?_ne {ids : List String} {x y : String} (h : Stands kept blocks scopes)
    (hy : y ∈ ids) :
    binding? (ids :: scopes) y ≠ binding? (blocks.map BlockNames.seen) x := by
  rw [binding?_of_mem hy, ne_comm]
  intro heq
  obtain ⟨depth, index, hd, hlt⟩ := depth_binding? heq
  cases hd
  rw [List.length_map, h.length_eq] at hlt
  exact absurd hlt (Nat.lt_irrefl _)

/-- The identifier of a local refers to it exactly if the local hides another one or no rival
captures its name. -/
theorem binding?_spelling (h : Stands kept blocks scopes) {x y : String} (hx : Visible blocks x)
    (hy : spelling? blocks scopes x = some y) (hcount : y ∉ kept → scopes.flatten.count y ≤ 1) :
    binding? scopes y = binding? (blocks.map BlockNames.seen) x ↔
      Shadows blocks x ∨ ¬Captured blocks x := by
  induction h with
  | nil => exact absurd hx (by simp [Visible])
  | @cons b outer ids scopes houter hseen _ hkept hspelled hapart ih =>
      by_cases hmem : x ∈ b.seen
      · -- the local is in this block, where its identifier is the only one of its kind
        obtain ⟨hlt, -⟩ := spelled_seen hseen hspelled hmem
        rw [spelling?, if_pos hmem, List.getElem?_eq_getElem hlt, Option.some_inj] at hy
        subst hy
        have hleft : binding? (ids :: scopes) ids[b.seen.idxOf x] =
            binding? ((b :: outer).map BlockNames.seen) x := by
          rw [binding?_of_mem (List.getElem_mem hlt), hapart.idxOf_getElem, List.map_cons,
            binding?_of_mem hmem, List.length_map, houter.length_eq]
        have hfree : ¬Captured (b :: outer) x := fun hcaptured => hcaptured.1 hmem
        exact iff_of_true hleft (.inr hfree)
      · have hvisible := (visible_cons_of_not_mem hmem).mp hx
        rw [spelling?, if_neg hmem] at hy
        obtain ⟨z, hz, hflat, hshadows, hplain⟩ := houter.spelling?_of_visible hvisible
        obtain rfl : z = y := Option.some.inj (hz.symm.trans hy)
        have hcountOuter : z ∉ kept → scopes.flatten.count z ≤ 1 := by
          intro hnot
          have hone := hcount hnot
          rw [List.flatten_cons, List.count_append] at hone
          omega
        have houterIff := ih hvisible hy hcountOuter
        rw [shadows_cons_of_not_mem hmem, List.map_cons, binding?_of_not_mem hmem]
        by_cases hhit : z ∈ ids
        · -- a made up identifier is bound in one place, so the name goes by its own
          have hzkept := mem_kept hcount hhit hflat
          have hnoShadow : ¬Shadows outer x := fun hsh => hshadows hsh hzkept
          obtain ⟨rfl, -⟩ := hplain hnoShadow
          have hrival := (mem_rival hspelled hzkept (.inr hvisible)).mp hhit
          have hcaptured : Captured (b :: outer) x := ⟨hmem, .inl hrival⟩
          exact iff_of_false (binding?_ne houter hhit) (by simp [hnoShadow, hcaptured])
        · rw [binding?_of_not_mem hhit, houterIff]
          by_cases hsh : Shadows outer x
          · simp [hsh]
          · obtain ⟨rfl, hzkept⟩ := hplain hsh
            have hnoRival := mt (mem_rival hspelled hzkept (.inr hvisible)).mpr hhit
            have hcaptured : Captured (b :: outer) x ↔ Captured outer x := by
              rw [Captured, or_iff_right hnoRival, and_iff_right hmem]
            rw [hcaptured]

/-- The identifier of something that no local is named like is bound in no scope exactly if no rival
captures the name. -/
theorem binding?_callee (h : Stands kept blocks scopes) {x : String} (hx : identifier x ∈ kept)
    (hother : ∀ b ∈ blocks, x ∉ b.all) :
    binding? scopes (identifier x) = none ↔ ¬Captured blocks x := by
  induction h with
  | nil => simp [binding?, Captured]
  | @cons b outer ids scopes _ hseen _ _ hspelled _ ih =>
      obtain ⟨hb, houter⟩ := List.forall_mem_cons.mp hother
      have hmem : x ∉ b.seen := fun hmem => hb (hseen.subset hmem)
      rw [Captured, and_iff_right hmem, not_or, ← mem_rival hspelled hx (.inl hb)]
      by_cases hhit : identifier x ∈ ids
      · simp [binding?_of_mem hhit, hhit]
      · simp [binding?_of_not_mem hhit, hhit, ih houter]

end Stands

/-! ### What the type check asks of names -/

section

variable (callable : Reference → Prop)

/-- A name that is read is in scope, and a callee can be called. -/
def Use.Scoped (seen : List (List String)) : Use → Prop
  | read x => ∃ names ∈ seen, x ∈ names
  | call r => callable r

/-- All places of a block are as they should be, and no local is bound twice in a block or named
like something that can be called. -/
def Names.Scoped : List (List String) → Names Use → Prop
  | _, nil => True
  | seen, use u rest => u.Scoped callable seen ∧ rest.Scoped seen
  | seen, bind x rest =>
    (x ∉ seen.headD [] ∧ ∀ r, callable r → r.name ≠ x) ∧ rest.Scoped (bindIn seen x)
  | seen, block inner rest => inner.Scoped ([] :: seen) ∧ rest.Scoped seen

variable {callable}

theorem Names.Scoped.nodup {block : Names Use} {names : List String} {outer : List (List String)}
    (h : block.Scoped callable (names :: outer)) (hnames : names.Nodup) :
    (names ++ block.bound).Nodup := by
  induction block generalizing names with
  | nil => simpa [bound] using hnames
  | use u rest ih => exact ih h.2 hnames
  | bind x rest ih =>
      have hx : x ∉ names := h.1.1
      have hnext : (names ++ [x]).Nodup :=
        List.nodup_append_comm.mp (List.nodup_cons.mpr ⟨hx, hnames⟩)
      have hall := ih h.2 hnext
      rwa [List.append_assoc] at hall
  | block inner rest _ ih => exact ih h.2 hnames

theorem Names.Scoped.free {block : Names Use} {seen : List (List String)}
    (h : block.Scoped callable seen) :
    ∀ x ∈ block.bound ++ block.boundInside, ∀ r, callable r → r.name ≠ x := by
  induction block generalizing seen with
  | nil => simp [bound, boundInside]
  | use u rest ih => exact ih h.2
  | bind x rest ih => exact List.forall_mem_cons.mpr ⟨h.1.2, ih h.2⟩
  | block inner rest ihinner ih =>
      have hinner := ihinner h.1
      have hrest := ih h.2
      intro x hx
      simp only [bound, boundInside, List.mem_append] at hx hinner hrest
      rcases hx with hx | (hx | hx) | hx
      · exact hrest x (.inl hx)
      · exact hinner x (.inl hx)
      · exact hinner x (.inr hx)
      · exact hrest x (.inr hx)

/-! ### Identifiers of places -/

section

variable {kept : List String} {values : List Reference}
  (hcallable : ∀ r, callable r → identifier r.name ∈ kept)
  (hvalues : (values.map fun r => identifier r.name).Nodup)

include hvalues in
theorem find?_value {r : Reference} (hr : r ∈ values) :
    values.find? (fun s => identifier s.name = identifier r.name) = some r := by
  cases hfind : values.find? fun s => identifier s.name = identifier r.name with
  | none =>
      have hnone := List.find?_eq_none.mp hfind r hr
      simp at hnone
  | some s =>
      have hsame : identifier s.name = identifier r.name := by simpa using List.find?_some hfind
      rw [List.inj_on_of_nodup_map hvalues (List.mem_of_find?_eq_some hfind) hr hsame]

include hcallable hvalues

/-- The identifier of a place refers to what the place refers to exactly if the place is clear. -/
theorem use_iff {blocks : List BlockNames} {scopes : List (List String)}
    (h : Stands kept blocks scopes) {n : Naming}
    (hfind : ∀ x, n.find? x = spelling? blocks scopes x)
    (hcount : ∀ y ∉ kept, scopes.flatten.count y ≤ 1)
    (hfree : ∀ b ∈ blocks, ∀ x ∈ b.all, ∀ r, callable r → r.name ≠ x) {u : Use}
    (hu : u.Scoped callable (blocks.map BlockNames.seen)) (hused : ∀ r ∈ u.callee?, r ∈ values) :
    (∃ d, u.referent? (blocks.map BlockNames.seen) = some d ∧
      TypeScript.referent? values scopes (n.spell u) = some d) ↔ u.Clear blocks := by
  cases u with
  | read x =>
      have hvisible : Visible blocks x := visible_iff_binding?.mpr (isSome_binding?.mpr hu)
      obtain ⟨y, hy, hflat, -⟩ := h.spelling?_of_visible hvisible
      obtain ⟨names, hnames, hmem⟩ := List.mem_flatten.mp hflat
      obtain ⟨d, hd⟩ := Option.isSome_iff_exists.mp (visible_iff_binding?.mp hvisible)
      obtain ⟨e, he⟩ := Option.isSome_iff_exists.mp (isSome_binding?.mpr ⟨names, hnames, hmem⟩)
      have hspell : n.spell (.read x) = y := by rw [Naming.spell, hfind, hy, Option.getD_some]
      rw [Use.Clear, ← h.binding?_spelling hvisible hy (hcount y), hspell, Use.referent?,
        TypeScript.referent?, hd, he, Option.some_or]
      simp
  | call r =>
      have hr : r ∈ values := hused r rfl
      have hother : ∀ b ∈ blocks, r.name ∉ b.all := fun b hb hmem => hfree b hb r.name hmem r hu rfl
      rw [Use.Clear, ← h.binding?_callee (hcallable r hu) hother, Use.referent?,
        TypeScript.referent?, Naming.spell, find?_value hvalues hr]
      cases hbinding : binding? scopes (identifier r.name) with
      | none => simp
      | some d =>
          obtain ⟨depth, index, rfl, -⟩ := depth_binding? hbinding
          simp

end

end

/-! ### All places -/

/-- A place in a block: the block with those around it, the identifiers that the block has been
written with so far and the scopes around, and the naming of what follows. -/
structure Place where
  block : BlockNames
  outer : List BlockNames
  written : List String
  scopes : List (List String)
  naming : Naming

namespace Place

def blocks (p : Place) : List BlockNames := p.block :: p.outer

/-- The scopes around a place that some names follow. -/
def around (p : Place) (rest : Names Use) : List (List String) :=
  (p.written ++ (p.naming.rename rest).1.bound) :: p.scopes

/-- Behind a new local. -/
def bind (p : Place) (x : String) : Place where
  block := ⟨p.block.seen ++ [x], p.block.all⟩
  outer := p.outer
  written := p.written ++ [p.naming.choose x]
  scopes := p.scopes
  naming := p.naming.bind x

/-- Behind a block inside. -/
def behind (p : Place) (inner : Names Use) : Place := { p with naming := p.naming.behind inner }

/-- In front of the names of a block inside that some names follow. -/
def enter (p : Place) (inner rest : Names Use) : Place where
  block := ⟨[], inner.bound⟩
  outer := p.blocks
  written := []
  scopes := (p.behind inner).around rest
  naming := p.naming

theorem around_bind (p : Place) (x : String) (rest : Names Use) :
    p.around (.bind x rest) = (p.bind x).around rest := by
  simp [around, bind, Naming.rename, Names.bound]

end Place

/-- The invariant of writing a block. The blocks around are known to be apart, the naming knows the
identifiers of what is in scope, and an identifier that was made up is bound once in all. -/
structure Standing (callable : Reference → Prop) (kept : List String) (values : List Reference)
    (p : Place) (rest : Names Use) : Prop where
  stands : Stands kept p.blocks (p.around rest)
  all : p.block.all = p.block.seen ++ rest.bound
  length : p.written.length = p.block.seen.length
  find : ∀ x, p.naming.find? x = spelling? p.blocks (p.around rest) x
  taken : kept ⊆ p.naming.taken
  inside : ∀ x ∈ rest.boundInside, identifier x ∈ kept
  count : ∀ y ∉ kept, (p.around rest).flatten.count y +
    (p.naming.rename rest).1.boundInside.count y ≤ 1
  free : ∀ b ∈ p.blocks, ∀ x ∈ b.all, ∀ r, callable r → r.name ≠ x
  names : rest.Scoped callable (p.blocks.map BlockNames.seen)
  used : ∀ r ∈ rest.used.filterMap Use.callee?, r ∈ values

namespace Standing

variable {callable : Reference → Prop} {kept : List String} {values : List Reference} {p : Place}
  {rest : Names Use}

theorem behind_use {u : Use} (h : Standing callable kept values p (.use u rest)) :
    Standing callable kept values p rest where
  stands := h.stands
  all := h.all
  length := h.length
  find := h.find
  taken := h.taken
  inside := h.inside
  count := h.count
  free := h.free
  names := h.names.2
  used r hr := by
    obtain ⟨v, hv, hcallee⟩ := List.mem_filterMap.mp hr
    exact h.used r (List.mem_filterMap.mpr ⟨v, List.mem_cons_of_mem u hv, hcallee⟩)

theorem behind_bind {x : String} (h : Standing callable kept values p (.bind x rest)) :
    Standing callable kept values (p.bind x) rest := by
  have hx : x ∉ p.block.seen := h.names.1.1
  have hall : p.block.all = (p.block.seen ++ [x]) ++ rest.bound := by
    rw [h.all, List.append_assoc]
    rfl
  have hlength : (p.bind x).written.length = (p.bind x).block.seen.length := by
    simp [Place.bind, h.length]
  have hstands := h.stands
  have hfind := h.find
  have hcount := h.count
  rw [p.around_bind] at hstands hfind hcount
  refine ⟨?_, hall, hlength, fun y => ?_,
    List.Subset.trans h.taken (p.naming.taken_subset_bind x), h.inside, hcount, ?_, h.names.2,
    h.used⟩
  · cases hstands with
    | cons houter hseen hdistinct hnames hspelled hapart =>
        exact .cons houter ⟨rest.bound, hall.symm⟩ hdistinct hnames hspelled hapart
  · by_cases hy : y = x
    · -- the new local stands in the place that its identifier is written in
      subst hy
      rw [Place.bind, p.naming.find?_bind_self, Place.blocks, Place.around, spelling?,
        if_pos (by simp), List.idxOf_append_of_notMem hx]
      simp [h.length]
    · rw [Place.bind, p.naming.find?_bind_of_ne hy, hfind, Place.blocks, Place.around, Place.blocks,
        Place.around, spelling?, spelling?]
      by_cases hmem : y ∈ p.block.seen
      · rw [if_pos hmem, if_pos (by simp [hmem]), List.idxOf_append_of_mem hmem]
        rfl
      · rw [if_neg hmem, if_neg (by simp [hmem, hy])]
        rfl
  · exact List.forall_mem_cons.mpr (List.forall_mem_cons.mp h.free)

section

variable {inner : Names Use} (h : Standing callable kept values p (.block inner rest))

include h

/-- What a block inside and the names behind it make up is bound once. -/
theorem count_both {y : String} (hy : y ∉ kept) :
    ((p.behind inner).around rest).flatten.count y +
      ((p.naming.rename inner).1.bound.count y + (p.naming.rename inner).1.boundInside.count y +
        ((p.behind inner).naming.rename rest).1.boundInside.count y) ≤ 1 := by
  have hone := h.count y hy
  rw [p.naming.rename_block, Names.boundInside, List.count_append, List.count_append] at hone
  exact hone

theorem behind_block : Standing callable kept values (p.behind inner) rest where
  stands := h.stands
  all := h.all
  length := h.length
  find := h.find
  taken := List.Subset.trans h.taken (p.naming.taken_subset_rename inner)
  inside x hx := h.inside x (List.mem_append_right _ hx)
  count y hy := by
    have hone := h.count_both hy
    omega
  free := h.free
  names := h.names.2
  used r hr := by
    apply h.used r
    rw [Names.used, List.filterMap_append]
    exact List.mem_append_right _ hr

theorem distinct_inner : inner.bound.Nodup := h.names.1.nodup List.nodup_nil

theorem kept_inner : ∀ x ∈ inner.bound, identifier x ∈ kept := fun x hx =>
  h.inside x (List.mem_append_left _ (List.mem_append_left _ hx))

/-- The names of a block inside are written under their own identifiers unless they hide another
local. -/
theorem spelled_inner :
    List.Forall₂ (SpelledIn kept p.blocks) inner.bound (p.naming.rename inner).1.bound := by
  refine (p.naming.bound_rename h.taken h.distinct_inner).imp fun x y hxy =>
    ⟨fun hvisible => hxy.1 ?_, fun hnot => hxy.2 ?_⟩
  · obtain ⟨z, hz, -⟩ := h.stands.spelling?_of_visible hvisible
    rw [h.find]
    exact Option.isSome_iff_exists.mpr ⟨z, hz⟩
  · rw [h.find]
    exact h.stands.spelling?_eq_none hnot

/-- The identifiers of a block inside are different exactly if rivals in it hide another local. -/
theorem nodup_inner_iff : (p.naming.rename inner).1.bound.Nodup ↔
    inner.bound.Pairwise fun x y => Rivals x y → Visible p.blocks x ∨ Visible p.blocks y := by
  refine nodup_spelled h.spelled_inner h.distinct_inner h.kept_inner fun y hy => ?_
  have hone := h.count_both hy
  omega

theorem inside_block (hapart : (p.naming.rename inner).1.bound.Nodup) :
    Standing callable kept values (p.enter inner rest) inner where
  stands := .cons h.stands List.nil_prefix h.distinct_inner h.kept_inner h.spelled_inner hapart
  all := rfl
  length := rfl
  find x := by
    show p.naming.find? x = _
    rw [h.find]
    rfl
  taken := h.taken
  inside x hx := h.inside x (List.mem_append_left _ (List.mem_append_right _ hx))
  count y hy := by
    have hone := h.count_both hy
    rw [Place.around, List.flatten_cons, List.count_append]
    show (p.naming.rename inner).1.bound.count y +
      ((p.behind inner).around rest).flatten.count y +
        (p.naming.rename inner).1.boundInside.count y ≤ 1
    omega
  free := by
    refine List.forall_mem_cons.mpr ⟨fun x hx => ?_, h.free⟩
    exact h.names.1.free x (List.mem_append_left _ hx)
  names := h.names.1
  used r hr := by
    apply h.used r
    rw [Names.used, List.filterMap_append]
    exact List.mem_append_left _ hr

end

variable (hcallable : ∀ r, callable r → identifier r.name ∈ kept)
  (hvalues : (values.map fun r => identifier r.name).Nodup)

include hcallable hvalues

/-- The identifiers of a block refer to what its names refer to exactly if the block is clear. -/
theorem agree_iff (h : Standing callable kept values p rest) :
    Agree values (p.blocks.map BlockNames.seen) (p.around rest) rest (p.naming.rename rest).1 ↔
      rest.Clear p.blocks := by
  induction rest generalizing p with
  | nil => exact Iff.rfl
  | use u rest ih =>
      have hcount : ∀ y ∉ kept, (p.around (.use u rest)).flatten.count y ≤ 1 :=
        fun y hy => Nat.le_trans (Nat.le_add_right _ _) (h.count y hy)
      have hcallee : ∀ r ∈ u.callee?, r ∈ values :=
        fun r hr => h.used r (List.mem_filterMap.mpr ⟨u, List.mem_cons_self, hr⟩)
      have hplace := use_iff hcallable hvalues h.stands h.find hcount h.free h.names.1 hcallee
      exact and_congr hplace (ih h.behind_use)
  | bind x rest ih =>
      have hrest := ih h.behind_bind
      rw [← p.around_bind] at hrest
      exact hrest
  | block inner rest ihinner ih =>
      refine and_congr ?_ (ih h.behind_block)
      rw [← h.nodup_inner_iff]
      -- only of a block with different identifiers the names inside are known to agree
      exact and_congr_right fun hapart => ihinner (h.inside_block hapart)

end Standing

end Prosaic
