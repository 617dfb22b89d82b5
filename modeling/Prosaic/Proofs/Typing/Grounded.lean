import Mathlib.Logic.Relation
import Prosaic.Proofs.Program.Parts
import Prosaic.Proofs.Typing.Aliases

/-!
Type declarations that end somewhere. A declaration refers to at most one other one; that no chain
of them goes on for ever is what a resolution without findings shows, and enough for one in any
other order to find nothing.
-/

namespace Prosaic

/-- The declaration that another one refers to. -/
def RefersTo (declared : List TypeDecl) (u t : TypeDecl) : Prop :=
  u ∈ declared ∧ ∃ ref, t.body = .reference ref ∧ ref.base = u.name

/-- From a declaration on, the declarations that refer to each other come to an end. -/
def Grounded (declared : List TypeDecl) (t : TypeDecl) : Prop := Acc (RefersTo declared) t

namespace Aliases

variable {registry : Registry} {records : List String} {declared : List TypeDecl}

/-! ### Resolutions without findings -/

/-- Everything that is resolved is grounded. -/
def AllGrounded (declared : List TypeDecl) (a : Aliases) : Prop :=
  ∀ t ∈ declared, (a.types.lookup t.name).isSome = true → Grounded declared t

/-- A step that finds nothing resolves what is grounded only, and ends where something holds. -/
def Grounds (declared : List TypeDecl) (a : Aliases) (goal : Prop) (result : Ty × Aliases) : Prop :=
  result.2.found = [] → a.found = [] ∧
    (AllGrounded declared a → AllGrounded declared result.2 ∧ goal)

theorem reference_grounds {step : String → Position → Aliases → Ty × Aliases}
    (hstep : ∀ name start a,
      Grounds declared a (∀ u ∈ declared, name = u.name → Grounded declared u) (step name start a))
    (ref : TypeRef) (a : Aliases) :
    Grounds declared a (∀ u ∈ declared, ref.base = u.name → Grounded declared u)
      (reference step ref a) := by
  induction ref with
  | named name span =>
      by_cases hlist : name = "List"
      · simp [reference, hlist, Grounds, report]
      · simpa only [reference, if_neg hlist, TypeRef.base] using hstep name span.start a
  | list element span ih => exact ih

section

variable (hbase : ∀ t ∈ declared, Base.ofText? t.name = none)
  (hdistinct : (declared.map TypeDecl.name).Nodup)

include hbase hdistinct

theorem named_grounds (knownNames : List String) {fuel : Nat} {opened : List String}
    (hresolve : ∀ t ∈ declared, ∀ a, Grounds declared a (Grounded declared t)
      (resolve registry declared knownNames fuel opened t a))
    (name : String) (start : Position) (a : Aliases) :
    Grounds declared a (∀ u ∈ declared, name = u.name → Grounded declared u)
      (named registry declared knownNames fuel opened name start a) := by
  unfold named
  cases hb : Base.ofText? name with
  | some b =>
      refine fun hfound => ⟨hfound, fun hall => ⟨hall, ?_⟩⟩
      rintro u hu rfl
      rw [hbase u hu] at hb
      cases hb
  | none =>
      cases hlookup : a.types.lookup name with
      | some ty =>
          refine fun hfound => ⟨hfound, fun hall => ⟨hall, ?_⟩⟩
          rintro u hu rfl
          exact hall u hu (by rw [hlookup]; rfl)
      | none =>
          cases hfind : declared.find? (fun t => t.name == name) with
          | some other =>
              have hother := List.mem_of_find?_eq_some hfind
              obtain rfl : other.name = name := by simpa using List.find?_some hfind
              intro hfound
              obtain ⟨ha, hall⟩ := hresolve other hother a hfound
              refine ⟨ha, fun hs => ⟨(hall hs).1, fun u hu hname => ?_⟩⟩
              obtain rfl := List.inj_on_of_nodup_map hdistinct hother hu hname
              exact (hall hs).2
          | none =>
              cases hr : registry.type? name with
              | some ty =>
                  refine fun hfound => ⟨hfound, fun hall => ⟨hall, ?_⟩⟩
                  rintro u hu rfl
                  simpa using List.find?_eq_none.mp hfind u hu
              | none => simp [Grounds, report]

omit hbase in
theorem define_grounds {t : TypeDecl} {a b : Aliases} {d : Ty.Domain} {ty : Ty} (ht : t ∈ declared)
    (hb : b.found = [] → a.found = [] ∧
      (AllGrounded declared a → AllGrounded declared b ∧ Grounded declared t)) :
    Grounds declared a (Grounded declared t) (ty, b.define t.name d) := by
  have hfound : (b.define t.name d).found = b.found := by
    unfold define
    split <;> rfl
  intro h
  obtain ⟨ha, hall⟩ := hb (hfound ▸ h)
  refine ⟨ha, fun hs => ⟨fun u hu hlookup => ?_, (hall hs).2⟩⟩
  by_cases hname : u.name = t.name
  · obtain rfl := List.inj_on_of_nodup_map hdistinct hu ht hname
    exact (hall hs).2
  · refine (hall hs).1 u hu ?_
    cases hb : b.types.lookup t.name with
    | some ty => simpa [define, hb] using hlookup
    | none => simpa [define, hb, List.lookup_cons, beq_false_of_ne hname] using hlookup

/-- A declaration that is resolved without findings is grounded. -/
theorem resolve_grounds (knownNames : List String) {fuel : Nat} {opened : List String}
    (hopened : opened.Nodup) (hsub : opened ⊆ declared.map TypeDecl.name)
    (hfuel : declared.length < opened.length + fuel) {t : TypeDecl} (ht : t ∈ declared)
    (a : Aliases) :
    Grounds declared a (Grounded declared t)
      (resolve registry declared knownNames fuel opened t a) := by
  induction fuel generalizing opened t a with
  | zero =>
      have hle := (hopened.subperm hsub).length_le
      rw [List.length_map] at hle
      omega
  | succ fuel ih =>
      rw [resolve_succ]
      cases hlookup : a.types.lookup t.name with
      | some ty => exact fun hfound => ⟨hfound, fun hs => ⟨hs, hs t ht (by rw [hlookup]; rfl)⟩⟩
      | none =>
          by_cases hopen : t.name ∈ opened
          · simp [hopen, Grounds, cyclic, report]
          · simp only [List.contains_eq_mem, hopen, decide_false, Bool.false_eq_true, if_false]
            cases hbody : t.body with
            | literals values =>
                refine define_grounds hdistinct ht fun h => ⟨h, fun hs => ⟨hs, .intro t ?_⟩⟩
                rintro u ⟨-, ref, href, -⟩
                rw [hbody] at href
                cases href
            | reference ref =>
                refine define_grounds hdistinct ht fun h => ?_
                have hopenedNext := List.nodup_cons.mpr ⟨hopen, hopened⟩
                have hsubNext := List.cons_subset.mpr ⟨List.mem_map_of_mem ht, hsub⟩
                have hfuelNext : declared.length < (t.name :: opened).length + fuel := by
                  rw [List.length_cons]
                  omega
                have hstep := named_grounds hbase hdistinct knownNames
                  fun u hu b => ih hopenedNext hsubNext hfuelNext hu b
                obtain ⟨ha, hall⟩ := reference_grounds hstep ref a h
                refine ⟨ha, fun hs => ⟨(hall hs).1, .intro t ?_⟩⟩
                rintro u ⟨hu, ref', href, hname⟩
                rw [hbody] at href
                cases href
                exact (hall hs).2 u hu hname

/-- Declarations that are all resolved without findings are grounded. -/
theorem foldl_grounds {knownNames : List String} {ts : List TypeDecl} (hts : ts ⊆ declared)
    {a : Aliases} (hfound : (ts.foldl (fun a t => (resolve registry declared knownNames
      (declared.length + 1) [] t a).2) a).found = []) :
    a.found = [] ∧ (AllGrounded declared a → ∀ t ∈ ts, Grounded declared t) := by
  induction ts generalizing a with
  | nil => exact ⟨hfound, fun _ => List.forall_mem_nil _⟩
  | cons t ts ih =>
      obtain ⟨ht, hts⟩ := List.cons_subset.mp hts
      have henough : declared.length < ([] : List String).length + (declared.length + 1) := by
        rw [List.length_nil]
        omega
      obtain ⟨hnext, hrest⟩ := ih hts hfound
      obtain ⟨ha, hall⟩ := resolve_grounds hbase hdistinct knownNames List.nodup_nil
        (List.nil_subset _) henough ht a hnext
      refine ⟨ha, fun hs => List.forall_mem_cons.mpr ⟨(hall hs).2, hrest (hall hs).1⟩⟩

end

/-! ### Grounded declarations -/

theorem Grounded.not_refersTo_self {t : TypeDecl} (h : Grounded declared t) :
    ¬Relation.TransGen (RefersTo declared) t t := by
  have hacc : Acc (Relation.TransGen (RefersTo declared)) t := Acc.transGen h
  clear h
  induction hacc with
  | intro t _ ih => exact fun hself => ih t hself hself

/-- What a reference denotes is found where what its name stands for is. -/
theorem reference_found {step : String → Position → Aliases → Ty × Aliases}
    {named : String → Option Ty} {ref : TypeRef} {a : Aliases}
    (hdenotes : (ref.denote? named).isSome = true)
    (hstep : ∀ start, (named ref.base).isSome = true → (step ref.base start a).2.found = []) :
    (reference step ref a).2.found = [] := by
  induction ref with
  | named name span =>
      rw [TypeRef.denote?] at hdenotes
      split at hdenotes
      · cases hdenotes
      · next hlist =>
          rw [reference, if_neg hlist]
          exact hstep span.start hdenotes
  | list element span ih =>
      rw [TypeRef.denote?, Option.isSome_map] at hdenotes
      exact ih hdenotes hstep

section

variable (hdisjoint : ∀ t ∈ declared, t.name ∉ records)
  (hdistinct : (declared.map TypeDecl.name).Nodup)
  (hdenotes : ∀ t ∈ declared, ∀ ref, t.body = .reference ref →
    (ref.denote? (declaredType? registry records (declared.map TypeDecl.name))).isSome = true)

include hdistinct hdenotes

/-- A grounded declaration is resolved without findings, where none of those that lead to it is the
same again. -/
theorem resolve_found (knownNames : List String) {fuel : Nat} {opened : List String} {t : TypeDecl}
    (hgrounded : Grounded declared t) (ht : t ∈ declared) (hopened : opened.Nodup)
    (hsub : opened ⊆ declared.map TypeDecl.name) (hfuel : declared.length < opened.length + fuel)
    (hleads : ∀ o ∈ opened, ∃ u ∈ declared, u.name = o ∧
      Relation.TransGen (RefersTo declared) t u)
    {a : Aliases} (hs : Sound registry records declared a) (ha : a.found = []) :
    (resolve registry declared knownNames fuel opened t a).2.found = [] := by
  induction hgrounded generalizing fuel opened a with
  | intro t haccessible ih =>
      have hgrounded : Grounded declared t := .intro t haccessible
      cases fuel with
      | zero =>
          have hle := (hopened.subperm hsub).length_le
          rw [List.length_map] at hle
          omega
      | succ fuel =>
          rw [resolve_succ]
          cases hlookup : a.types.lookup t.name with
          | some ty => exact ha
          | none =>
              have hopen : t.name ∉ opened := by
                intro hmem
                obtain ⟨u, hu, hname, hself⟩ := hleads _ hmem
                obtain rfl := List.inj_on_of_nodup_map hdistinct hu ht hname
                exact Grounded.not_refersTo_self hgrounded hself
              have hdefine : ∀ (b : Aliases) (d : Ty.Domain), b.found = [] →
                  (b.define t.name d).found = [] := by
                intro b d hb
                unfold define
                split <;> exact hb
              simp only [List.contains_eq_mem, hopen, decide_false, Bool.false_eq_true, if_false]
              cases hbody : t.body with
              | literals values => exact hdefine _ _ ha
              | reference ref =>
                  refine hdefine _ _
                    (reference_found (hdenotes t ht ref hbody) fun start hsome => ?_)
                  unfold named
                  unfold declaredType? at hsome
                  cases hb : Base.ofText? ref.base with
                  | some b => exact ha
                  | none =>
                      simp only [hb] at hsome
                      cases hknown : a.types.lookup ref.base with
                      | some ty => exact ha
                      | none =>
                          cases hfind : declared.find? (fun t => t.name == ref.base) with
                          | some other =>
                              have hother := List.mem_of_find?_eq_some hfind
                              have hname : other.name = ref.base := by
                                simpa using List.find?_some hfind
                              have hrefers : RefersTo declared other t :=
                                ⟨hother, ref, hbody, hname.symm⟩
                              have hopenedNext := List.nodup_cons.mpr ⟨hopen, hopened⟩
                              have hsubNext := List.cons_subset.mpr ⟨List.mem_map_of_mem ht, hsub⟩
                              refine ih other hrefers hother hopenedNext hsubNext ?_ ?_ hs ha
                              · rw [List.length_cons]
                                omega
                              · refine List.forall_mem_cons.mpr ⟨⟨t, ht, rfl, .single hrefers⟩, ?_⟩
                                intro o ho
                                obtain ⟨u, hu, huo, hlead⟩ := hleads o ho
                                exact ⟨u, hu, huo, .head hrefers hlead⟩
                          | none =>
                              have hrecord : ref.base ∉ records := by
                                intro hmem
                                rw [hs.known _ hmem] at hknown
                                cases hknown
                              have halias : ref.base ∉ declared.map TypeDecl.name := by
                                intro hmem
                                obtain ⟨u, hu, hname⟩ := List.mem_map.mp hmem
                                simpa [hname] using List.find?_eq_none.mp hfind u hu
                              rw [if_neg hrecord, if_neg halias] at hsome
                              cases hr : registry.type? ref.base with
                              | some ty => exact ha
                              | none =>
                                  rw [hr] at hsome
                                  cases hsome

include hdisjoint

/-- Grounded declarations are resolved without findings, one after another. -/
theorem foldl_found {knownNames : List String} {ts : List TypeDecl} (hts : ts ⊆ declared)
    (hgrounded : ∀ t ∈ declared, Grounded declared t) {a : Aliases}
    (hs : Sound registry records declared a) (ha : a.found = []) :
    (ts.foldl (fun a t => (resolve registry declared knownNames
      (declared.length + 1) [] t a).2) a).found = [] := by
  induction ts generalizing a with
  | nil => exact ha
  | cons t ts ih =>
      obtain ⟨ht, hts⟩ := List.cons_subset.mp hts
      have henough : declared.length < ([] : List String).length + (declared.length + 1) := by
        rw [List.length_nil]
        omega
      have hfound := resolve_found hdistinct hdenotes knownNames (hgrounded t ht) ht List.nodup_nil
        (List.nil_subset _) henough (List.forall_mem_nil _) hs ha
      obtain ⟨hresolves, -⟩ := establishes_resolve hdisjoint hdistinct knownNames List.nodup_nil
        (List.nil_subset _) henough ht a
      exact ih hts ((hresolves hfound).2 hs).1 hfound

end

end Aliases

end Prosaic
