import Mathlib.Data.List.Induction
import Prosaic.Proofs.Table
import Prosaic.Ty.Scope

/-!
Trees of scopes, told by their history. What a name refers to in a scope, and which names can be
looked up there, follows from the bindings that were asked for in the scopes on the path from it to
the outermost one, and from nothing else: the nearest scope in which the name was asked for counts,
and there the first binding.
-/

namespace Prosaic

/-! ### First occurrences -/

section

variable {α : Type} [DecidableEq α]

theorem eraseDups_concat (l : List α) (a : α) :
    (l ++ [a]).eraseDups = if a ∈ l then l.eraseDups else l.eraseDups ++ [a] := by
  rw [List.eraseDups_append, List.removeAll, List.filter_singleton]
  by_cases ha : a ∈ l
  · simp [ha]
  · simp [ha, List.eraseDups_cons]

theorem eraseDups_filter (l : List α) (p : α → Bool) :
    (l.filter p).eraseDups = l.eraseDups.filter p := by
  induction l using List.reverseRecOn with
  | nil => rfl
  | append_singleton l a ih =>
      rw [List.filter_append, List.filter_singleton, eraseDups_concat]
      cases hp : p a with
      | false =>
          rw [cond_false, List.append_nil, ih]
          split
          · rfl
          · simp [hp]
      | true =>
          rw [cond_true, eraseDups_concat, ih]
          by_cases ha : a ∈ l
          · simp [ha, hp]
          · simp [ha, hp]

theorem eraseDups_eraseDups (l : List α) : l.eraseDups.eraseDups = l.eraseDups := by
  induction l using List.reverseRecOn with
  | nil => rfl
  | append_singleton l a ih =>
      rw [eraseDups_concat]
      split
      · exact ih
      · next ha => rw [eraseDups_concat, if_neg (mt List.mem_eraseDups.mp ha), ih]

/-- To leave repetitions out of each part changes nothing if they are left out of the whole. -/
theorem eraseDups_flatMap {β : Type} (parts : List β) (members : β → List α) :
    (parts.flatMap fun j => (members j).eraseDups).eraseDups =
      (parts.flatMap members).eraseDups := by
  induction parts with
  | nil => rfl
  | cons j parts ih =>
      have hremove : ∀ rest : List α,
          rest.removeAll (members j).eraseDups = rest.removeAll (members j) := by
        intro rest
        apply List.filter_congr
        intro a _
        rw [Bool.eq_iff_iff]
        simp
      rw [List.flatMap_cons, List.flatMap_cons, List.eraseDups_append, List.eraseDups_append,
        hremove, eraseDups_eraseDups, List.removeAll, List.removeAll, eraseDups_filter,
        eraseDups_filter, ih]

/-- Without repetitions, the members of a list stand in the order of their first occurrences. -/
theorem eraseDups_ordered (l : List α) :
    l.eraseDups.Pairwise fun a b => l.idxOf a < l.idxOf b := by
  induction l using List.reverseRecOn with
  | nil => exact .nil
  | append_singleton l c ih =>
      have hkept : l.eraseDups.Pairwise fun a b => (l ++ [c]).idxOf a < (l ++ [c]).idxOf b := by
        refine ih.imp_of_mem fun {a b} ha hb hlt => ?_
        rwa [List.idxOf_append_of_mem (List.mem_eraseDups.mp ha),
          List.idxOf_append_of_mem (List.mem_eraseDups.mp hb)]
      rw [eraseDups_concat]
      split
      · exact hkept
      · next hc =>
          refine List.pairwise_append.mpr ⟨hkept, List.pairwise_singleton _ _, ?_⟩
          intro a ha b hb
          obtain rfl := List.mem_singleton.mp hb
          have ha := List.mem_eraseDups.mp ha
          rw [List.idxOf_append_of_mem ha, List.idxOf_append_of_notMem hc]
          have hlt := List.idxOf_lt_length_of_mem ha
          omega

end

/-! ### Frames -/

namespace Frame

/-- The frame after some bindings were asked for in it. -/
def gathered (asked : List Binding) : Frame := asked.foldl (fun f b => (f.bind b).2) []

theorem gathered_concat (asked : List Binding) (b : Binding) :
    gathered (asked ++ [b]) = ((gathered asked).bind b).2 := by
  rw [gathered, List.foldl_append]
  rfl

/-- A frame has the first binding that was asked for under each name. -/
theorem find?_gathered (asked : List Binding) (name : String) :
    (gathered asked).find? name = asked.find? (·.name == name) := by
  induction asked using List.reverseRecOn with
  | nil => rfl
  | append_singleton asked b ih =>
      rw [gathered_concat, List.find?_append, ← ih, bind]
      cases hbound : (gathered asked).find? b.name with
      | some e =>
          by_cases hb : b.name = name
          · rw [← hb, hbound]
            rfl
          · simp [hb]
      | none =>
          show List.find? (fun c => c.name == name) (gathered asked ++ [b]) = _
          rw [List.find?_append]
          rfl

/-- The names of a frame are those that were asked for, in the order in which they first were. -/
theorem names_gathered (asked : List Binding) :
    (gathered asked).map Binding.name = (asked.map Binding.name).eraseDups := by
  induction asked using List.reverseRecOn with
  | nil => rfl
  | append_singleton asked b ih =>
      rw [gathered_concat, List.map_append, List.map_singleton, eraseDups_concat, ← ih, bind]
      have hmem : b.name ∈ asked.map Binding.name ↔ ((gathered asked).find? b.name).isSome := by
        rw [find?_gathered, List.find?_isSome, List.mem_map]
        simp
      cases hbound : (gathered asked).find? b.name with
      | some e =>
          rw [hbound] at hmem
          rw [if_pos (hmem.mpr rfl)]
      | none =>
          rw [hbound] at hmem
          rw [if_neg fun h => by simpa using hmem.mp h, List.map_append]
          rfl

end Frame

namespace Scope.Forest

/-! ### Histories -/

/-- One operation on a tree of scopes: a scope is made inside another one, or a binding is asked for
in one. -/
inductive Step
  | child (i : Nat)
  | bind (i : Nat) (b : Binding)

/-- The tree after an operation, which has to name one of its scopes. -/
def after? (t : Forest) : Step → Option Forest
  | .child i => (t.child? i).map Prod.snd
  | .bind i b => (t.bind? i b).map Prod.snd

/-- The tree after some operations. -/
def replay? (t : Forest) (steps : List Step) : Option Forest := steps.foldlM after? t

/-- The scopes that the later scopes were made inside of, in the order of these. -/
def parents (steps : List Step) : List Nat :=
  steps.filterMap fun
    | .child i => some i
    | .bind .. => none

/-- The bindings that were asked for in a scope, in order. -/
def asked (steps : List Step) (i : Nat) : List Binding :=
  steps.filterMap fun
    | .child _ => none
    | .bind j b => if j = i then some b else none

/-- The scopes from a given one to the outermost one. -/
inductive IsPath (steps : List Step) : Nat → List Nat → Prop
  | root : IsPath steps 0 [0]
  | child {k i : Nat} {path : List Nat} (hparent : (parents steps)[k]? = some i)
      (hpath : IsPath steps i path) : IsPath steps (k + 1) ((k + 1) :: path)

/-- A binding is the first one that was asked for under a name. -/
def IsFirst (asked : List Binding) (name : String) (b : Binding) : Prop :=
  ∃ before behind, asked = before ++ b :: behind ∧ b.name = name ∧ ∀ c ∈ before, c.name ≠ name

/-- A binding is the first one under a name in the nearest scope on a path that was asked for
one. -/
def IsNearest (steps : List Step) (path : List Nat) (name : String) (b : Binding) : Prop :=
  ∃ near i far, path = near ++ i :: far ∧ IsFirst (asked steps i) name b ∧
    ∀ j ∈ near, ∀ c ∈ asked steps j, c.name ≠ name

/-- The names that were asked for in the scopes on a path, the innermost scope first and each in the
order of asking. -/
def namesAlong (steps : List Step) (path : List Nat) : List String :=
  path.flatMap fun i => (asked steps i).map Binding.name

section

variable {steps : List Step}

theorem parents_concat (s : Step) : parents steps <+: parents (steps ++ [s]) := by
  rw [parents, parents, List.filterMap_append]
  exact List.prefix_append _ _

theorem asked_child (i j : Nat) : asked (steps ++ [.child i]) j = asked steps j := by
  rw [asked, asked, List.filterMap_append]
  exact List.append_nil _

theorem asked_bind (i : Nat) (b : Binding) (j : Nat) :
    asked (steps ++ [.bind i b]) j = if i = j then asked steps j ++ [b] else asked steps j := by
  rw [asked, asked, List.filterMap_append]
  by_cases hij : i = j
  · simp [hij]
  · simp [hij]

theorem IsPath.concat {i : Nat} {path : List Nat} (h : IsPath steps i path) (s : Step) :
    IsPath (steps ++ [s]) i path := by
  induction h with
  | root => exact .root
  | child hparent _ ih =>
      refine .child ?_ ih
      obtain ⟨hlt, rfl⟩ := List.getElem?_eq_some_iff.mp hparent
      exact (parents_concat s).getElem hlt ▸ List.getElem?_eq_getElem _

/-- There is one path from a scope to the outermost one. -/
theorem IsPath.unique {i : Nat} {path path' : List Nat} (h : IsPath steps i path)
    (h' : IsPath steps i path') : path = path' := by
  induction h generalizing path' with
  | root =>
      cases h'
      rfl
  | child hparent _ ih =>
      cases h' with
      | child hparent' hpath' =>
          obtain rfl := Option.some.inj (hparent.symm.trans hparent')
          rw [ih hpath']

theorem IsPath.le {i : Nat} {path : List Nat} (h : IsPath steps i path) :
    i ≤ (parents steps).length := by
  cases h with
  | root => exact Nat.zero_le _
  | child hparent _ => exact (List.getElem?_eq_some_iff.mp hparent).1

theorem isFirst_iff {bs : List Binding} {name : String} {b : Binding} :
    IsFirst bs name b ↔ bs.find? (·.name == name) = some b := by
  rw [List.find?_eq_some_iff_append, IsFirst]
  constructor
  · rintro ⟨before, behind, rfl, hname, hbefore⟩
    exact ⟨beq_iff_eq.mpr hname, before, behind, rfl, fun c hc => by simp [hbefore c hc]⟩
  · rintro ⟨hname, before, behind, rfl, hbefore⟩
    exact ⟨before, behind, rfl, beq_iff_eq.mp hname, fun c hc => by simpa using hbefore c hc⟩

end

end Scope.Forest

/-! ### Chains of frames -/

namespace Scope

open Forest

theorem mem_visible {s : Scope} {name : String} :
    name ∈ s.visible ↔ (s.lookup name).isSome = true := by
  rw [visible, List.mem_eraseDups, List.mem_map, lookup, List.findSome?_isSome_iff]
  constructor
  · rintro ⟨b, hb, rfl⟩
    obtain ⟨f, hf, hmem⟩ := List.mem_flatten.mp hb
    exact ⟨f, hf, List.find?_isSome.mpr ⟨b, hmem, beq_self_eq_true _⟩⟩
  · rintro ⟨f, hf, hbound⟩
    obtain ⟨b, hmem, hname⟩ := List.find?_isSome.mp hbound
    exact ⟨b, List.mem_flatten.mpr ⟨f, hf, hmem⟩, beq_iff_eq.mp hname⟩

/-- The frames of the scopes on a path. -/
def along (steps : List Step) (path : List Nat) : Scope :=
  path.map fun i => Frame.gathered (asked steps i)

theorem lookup_along {steps : List Step} {path : List Nat} {name : String} {b : Binding} :
    (along steps path).lookup name = some b ↔ IsNearest steps path name b := by
  have hnone : ∀ j, (asked steps j).find? (·.name == name) = none ↔
      ∀ c ∈ asked steps j, c.name ≠ name := fun j => by simp [List.find?_eq_none]
  rw [lookup, along, List.findSome?_map, List.findSome?_eq_some_iff, IsNearest]
  simp only [Function.comp_apply, Frame.find?_gathered, isFirst_iff, hnone]

theorem visible_along (steps : List Step) (path : List Nat) :
    (along steps path).visible = (namesAlong steps path).eraseDups := by
  rw [visible, List.map_flatten, along, List.map_map, ← List.flatMap_def, namesAlong,
    ← eraseDups_flatMap path fun i => (asked steps i).map Binding.name]
  congr 2
  funext i
  exact Frame.names_gathered _

end Scope

namespace Scope.Forest

/-! ### What a tree knows of its history -/

/-- A tree has the scopes that were made, each with what was asked for in it. -/
structure Recalls (steps : List Step) (t : Forest) : Prop where
  size : t.nodes.length = (parents steps).length + 1
  paths : ∀ i node, t.nodes[i]? = some node → IsPath steps i (i :: node.outer)
  frames : ∀ i, t.frame i = Frame.gathered (asked steps i)

variable {steps : List Step} {t t' : Forest} {i : Nat} {path : List Nat} {b : Binding}

theorem recalls_root : Recalls [] root where
  size := rfl
  paths i node h := by
    cases i with
    | zero =>
        obtain rfl := Option.some.inj h
        exact .root
    | succ i => cases h
  frames i := by
    cases i with
    | zero => rfl
    | succ i => rfl

theorem frame_of_getElem? {node : Node} (h : t.nodes[i]? = some node) : t.frame i = node.frame := by
  rw [frame, h]
  rfl

theorem Recalls.child (h : Recalls steps t) {n : Nat} (hchild : t.child? i = some (n, t')) :
    Recalls (steps ++ [.child i]) t' := by
  obtain ⟨node, hnode, heq⟩ := Option.map_eq_some_iff.mp hchild
  obtain ⟨-, rfl⟩ := Prod.mk.inj heq
  have hsize := h.size
  have hparents : parents (steps ++ [.child i]) = parents steps ++ [i] := by
    rw [parents, List.filterMap_append]
    rfl
  refine ⟨by simp [hparents, hsize], fun j other hj => ?_, fun j => ?_⟩
  · rcases Nat.lt_trichotomy j t.nodes.length with hlt | rfl | hgt
    · rw [List.getElem?_append_left hlt] at hj
      exact (h.paths j other hj).concat _
    · -- the new scope, which is inside the one that was named
      rw [List.getElem?_concat_length] at hj
      obtain rfl := Option.some.inj hj
      rw [hsize]
      refine .child ?_ ((h.paths i node hnode).concat _)
      rw [hparents, List.getElem?_concat_length]
    · rw [List.getElem?_eq_none (by simp; omega)] at hj
      cases hj
  · rw [asked_child, ← h.frames, frame, frame]
    rcases Nat.lt_trichotomy j t.nodes.length with hlt | rfl | hgt
    · rw [List.getElem?_append_left hlt]
    · simp
    · rw [List.getElem?_eq_none (by simp; omega), List.getElem?_eq_none (by omega)]

theorem Recalls.bind (h : Recalls steps t) {existing : Option Binding}
    (hbind : t.bind? i b = some (existing, t')) : Recalls (steps ++ [.bind i b]) t' := by
  obtain ⟨node, hnode, heq⟩ := Option.map_eq_some_iff.mp hbind
  obtain ⟨-, rfl⟩ := Prod.mk.inj heq
  have hlt := (List.getElem?_eq_some_iff.mp hnode).1
  have hparents : parents (steps ++ [.bind i b]) = parents steps := by
    rw [parents, List.filterMap_append]
    exact List.append_nil _
  refine ⟨by simp [hparents, h.size], fun j other hj => ?_, fun j => ?_⟩
  · by_cases hij : i = j
    · subst hij
      rw [List.getElem?_set_self hlt] at hj
      obtain rfl := Option.some.inj hj
      exact (h.paths i node hnode).concat _
    · rw [List.getElem?_set_ne hij] at hj
      exact (h.paths j other hj).concat _
  · rw [asked_bind]
    by_cases hij : i = j
    · subst hij
      rw [if_pos rfl, Frame.gathered_concat, ← h.frames, frame_of_getElem? hnode, frame,
        List.getElem?_set_self hlt]
      rfl
    · rw [if_neg hij, ← h.frames, frame, frame, List.getElem?_set_ne hij]

theorem Recalls.after (h : Recalls steps t) {s : Step} (hs : t.after? s = some t') :
    Recalls (steps ++ [s]) t' := by
  cases s with
  | child i =>
      obtain ⟨⟨n, t₁⟩, hchild, rfl⟩ := Option.map_eq_some_iff.mp hs
      exact h.child hchild
  | bind i b =>
      obtain ⟨⟨existing, t₁⟩, hbind, rfl⟩ := Option.map_eq_some_iff.mp hs
      exact h.bind hbind

theorem recalls_replay (h : root.replay? steps = some t) : Recalls steps t := by
  induction steps using List.reverseRecOn generalizing t with
  | nil =>
      obtain rfl := Option.some.inj h
      exact recalls_root
  | append_singleton steps s ih =>
      rw [replay?, List.foldlM_append] at h
      obtain ⟨t₁, ht₁, hlast⟩ := Option.bind_eq_some_iff.mp h
      rw [List.foldlM_cons] at hlast
      obtain ⟨t₂, ht₂, hend⟩ := Option.bind_eq_some_iff.mp hlast
      obtain rfl := Option.some.inj hend
      exact (ih ht₁).after ht₂

/-! ### What can be looked up -/

theorem Recalls.node (h : Recalls steps t) (hpath : IsPath steps i path) :
    ∃ node, t.nodes[i]? = some node ∧ path = i :: node.outer := by
  have hlt : i < t.nodes.length := by
    have hle := hpath.le
    have hsize := h.size
    omega
  have hnode := List.getElem?_eq_getElem hlt
  exact ⟨t.nodes[i], hnode, hpath.unique (h.paths i _ hnode)⟩

/-- The scope with a number has the frames of the scopes on the path from there. -/
theorem Recalls.scope?_eq (h : Recalls steps t) (hpath : IsPath steps i path) :
    t.scope? i = some (Scope.along steps path) := by
  obtain ⟨node, hnode, rfl⟩ := h.node hpath
  have hframes : t.frame = fun j => Frame.gathered (asked steps j) := funext h.frames
  rw [scope?, hnode, Option.map_some, ← frame_of_getElem? hnode, hframes]
  rfl

theorem Recalls.isSome_scope? (h : Recalls steps t) :
    (t.scope? i).isSome = true ↔ ∃ path, IsPath steps i path := by
  constructor
  · intro hsome
    rw [scope?, Option.isSome_map] at hsome
    obtain ⟨node, hnode⟩ := Option.isSome_iff_exists.mp hsome
    exact ⟨_, h.paths i node hnode⟩
  · rintro ⟨path, hpath⟩
    rw [h.scope?_eq hpath]
    rfl

/-- To ask for a binding tells the first one under the name in that very scope. If there is one,
nothing changes. -/
theorem Recalls.bind?_eq (h : Recalls steps t) (hpath : IsPath steps i path) (b : Binding) :
    ∃ existing t', t.bind? i b = some (existing, t') ∧
      (∀ e, existing = some e ↔ IsFirst (asked steps i) b.name e) ∧
        (existing.isSome = true → t' = t) := by
  obtain ⟨node, hnode, -⟩ := h.node hpath
  have hframe : node.frame = Frame.gathered (asked steps i) :=
    (frame_of_getElem? hnode).symm.trans (h.frames i)
  have hfound : node.frame.find? b.name = (asked steps i).find? (·.name == b.name) := by
    rw [hframe, Frame.find?_gathered]
  have hfirst : ∀ e, node.frame.find? b.name = some e ↔ IsFirst (asked steps i) b.name e := by
    intro e
    rw [hfound, isFirst_iff]
  rw [bind?, hnode, Option.map_some, Frame.bind]
  cases hbound : node.frame.find? b.name with
  | some e =>
      rw [hbound] at hfirst
      refine ⟨some e, _, rfl, hfirst, fun _ => ?_⟩
      obtain ⟨hlt, rfl⟩ := List.getElem?_eq_some_iff.mp hnode
      show Forest.mk (t.nodes.set i t.nodes[i]) = t
      rw [List.set_getElem_self]
  | none =>
      rw [hbound] at hfirst
      exact ⟨none, _, rfl, hfirst, nofun⟩

theorem along_bind (hi : i ∉ path) :
    Scope.along (steps ++ [.bind i b]) path = Scope.along steps path := by
  apply List.map_congr_left
  intro j hj
  rw [asked_bind, if_neg]
  rintro rfl
  exact hi hj

/-- After any history, a scope can be looked into exactly if it has been made. A name refers to the
first binding that was asked for under it in the nearest scope on the path to the outermost one
where there is any; the visible names are those that refer to something, each once, by the first
place where they were asked for along the path. To ask for one more binding tells the one that the
very scope has for the name, in which case nothing changes, and changes no scope whose path does not
come through there. -/
theorem replay_recalls (h : root.replay? steps = some t) :
    (∀ i, (t.scope? i).isSome = true ↔ ∃ path, IsPath steps i path) ∧
      ∀ i path, IsPath steps i path → ∃ s, t.scope? i = some s ∧
        (∀ name b, s.lookup name = some b ↔ IsNearest steps path name b) ∧
        (s.visible.Nodup ∧ (∀ name, name ∈ s.visible ↔ (s.lookup name).isSome = true) ∧
          s.visible.Pairwise fun x y =>
            (namesAlong steps path).idxOf x < (namesAlong steps path).idxOf y) ∧
        ∀ b, ∃ existing t', t.bind? i b = some (existing, t') ∧
          (∀ e, existing = some e ↔ IsFirst (asked steps i) b.name e) ∧
          (existing.isSome = true → t' = t) ∧
          ∀ j path', IsPath steps j path' → i ∉ path' → t'.scope? j = t.scope? j := by
  have hrecalls := recalls_replay h
  refine ⟨fun i => hrecalls.isSome_scope?, fun i path hpath => ?_⟩
  refine ⟨_, hrecalls.scope?_eq hpath, fun _ _ => Scope.lookup_along, ⟨?_, ?_, ?_⟩, fun b => ?_⟩
  · exact nodup_eraseDups _
  · exact fun name => Scope.mem_visible
  · rw [Scope.visible_along]
    exact eraseDups_ordered _
  · obtain ⟨existing, t', hbind, hfirst, hsame⟩ := hrecalls.bind?_eq hpath b
    refine ⟨existing, t', hbind, hfirst, hsame, fun j path' hpath' hi => ?_⟩
    rw [(hrecalls.bind hbind).scope?_eq (hpath'.concat _), hrecalls.scope?_eq hpath', along_bind hi]

/-- One of two scopes inside the outermost one shadows a name and then asks for it again; another
name is bound further out when both have been made. -/
theorem replay_recalls_siblings :
    let outer : Binding := ⟨"x", .base .number, none⟩
    let inner : Binding := ⟨"x", .base .string, none⟩
    let late : Binding := ⟨"y", .base .number, none⟩
    let steps : List Step :=
      [.bind 0 outer, .child 0, .child 0, .bind 1 inner, .bind 1 outer, .bind 0 late]
    ∃ t, root.replay? steps = some t ∧
      (∃ s, t.scope? 1 = some s ∧ s.lookup "x" = some inner ∧ s.lookup "y" = some late ∧
        "y" ∈ s.visible) ∧
      (∃ s, t.scope? 2 = some s ∧ s.lookup "x" = some outer) ∧
      ∃ t', t.bind? 1 late = some (none, t') ∧ t'.scope? 2 = t.scope? 2 := by
  intro outer inner late steps
  obtain ⟨t, hrun⟩ : ∃ t, root.replay? steps = some t := ⟨_, rfl⟩
  obtain ⟨-, hscopes⟩ := replay_recalls hrun
  have hroot : IsPath steps 0 [0] := .root
  have hfirst : IsPath steps 1 [1, 0] := .child rfl hroot
  have hsecond : IsPath steps 2 [2, 0] := .child rfl hroot
  obtain ⟨s₁, hs₁, hlookup₁, ⟨-, hvisible, -⟩, hbind⟩ := hscopes 1 _ hfirst
  obtain ⟨s₂, hs₂, hlookup₂, -, -⟩ := hscopes 2 _ hsecond
  obtain ⟨existing, t', ht', hexisting, -, hother⟩ := hbind late
  have hx : s₁.lookup "x" = some inner :=
    (hlookup₁ _ _).mpr ⟨[], 1, [0], rfl, ⟨[], [outer], rfl, rfl, nofun⟩, nofun⟩
  have hy : s₁.lookup "y" = some late := by
    refine (hlookup₁ _ _).mpr ⟨[1], 0, [], rfl, ⟨[outer], [], rfl, rfl, ?_⟩, ?_⟩
    · decide
    · decide
  have hx' : s₂.lookup "x" = some outer := by
    refine (hlookup₂ _ _).mpr ⟨[2], 0, [], rfl, ⟨[], [late], rfl, rfl, nofun⟩, ?_⟩
    decide
  have hnew : existing = none := by
    cases existing with
    | none => rfl
    | some e =>
        obtain ⟨before, behind, hasked, hname, -⟩ := (hexisting e).mp rfl
        have hall : ∀ c ∈ asked steps 1, c.name ≠ "y" := by decide
        exact absurd hname (hall e (by rw [hasked]; simp))
  subst hnew
  have hvisibleY : "y" ∈ s₁.visible := (hvisible _).mpr (by rw [hy]; rfl)
  have hkept : t'.scope? 2 = t.scope? 2 := hother 2 _ hsecond (by decide)
  exact ⟨t, hrun, ⟨s₁, hs₁, hx, hy, hvisibleY⟩, ⟨s₂, hs₂, hx'⟩, t', ht', hkept⟩

end Scope.Forest

end Prosaic
