import Prosaic.Proofs.Typing.Clean
import Prosaic.Proofs.Typing.Demands

/-!
What an expectation does to an expression. Only list literals depend on it: it gives an empty list
its type, and it lets the string literals in a list stand for values of a domain type. So an
expression that is checked without an expectation gets the type that it has where one is expected,
or one with `String` in place of a domain type, and it keeps its own type where that is expected.
-/

namespace Prosaic

/-- A list literal. -/
inductive Expr.IsList : Expr → Prop
  | intro (es : List Expr) (note : ExprNote) : IsList (.list es note)

/-- Induction over nested list literals. -/
theorem Expr.list_induction {motive : Expr → Prop} (other : ∀ e, ¬e.IsList → motive e)
    (nil : ∀ note, motive (.list [] note))
    (cons : ∀ first es note, (∀ e ∈ first :: es, motive e) → motive (.list (first :: es) note))
    (e : Expr) : motive e := by
  induction e with
  | list es note ih =>
      cases es with
      | nil => exact nil note
      | cons first es => exact cons first es note ih
  | _ => exact other _ nofun

/-- An expression that needs no expectation to get a type. No list in it is empty, and none starts
with a string literal that stands for a value of a domain type. -/
inductive Expr.Settled : Ty → Expr → Prop
  | other {t : Ty} {e : Expr} (h : ¬e.IsList) : Settled t e
  | list {t : Ty} {first : Expr} {es : List Expr} {note : ExprNote}
      (hfirst : ∀ d, t = .domain d → first.stringLiteral? = none)
      (h : ∀ e ∈ first :: es, Settled t e) : Settled (.list t) (.list (first :: es) note)

/-- The same type, or one with `String` in place of a domain type. -/
inductive Ty.Refines : Ty → Ty → Prop
  | refl (t : Ty) : Refines t t
  | domain (d : String) : Refines .string (.domain d)
  | list {a b : Ty} (h : Refines a b) : Refines (.list a) (.list b)

theorem Ty.Refines.antisymm {a b : Ty} (h : a.Refines b) (h' : b.Refines a) : a = b := by
  induction h with
  | refl => rfl
  | domain d => cases h'
  | list _ ih =>
      cases h' with
      | refl => rfl
      | list h' => rw [ih h']

namespace TypeEnv

variable {env : TypeEnv} {scope : Scope}

/-! ### Types of list literals -/

theorem infer_of_not_isList {e : Expr} (he : ¬e.IsList) (expected expected' : Option Ty) :
    env.infer scope expected e = env.infer scope expected' e := by
  cases e with
  | list es note => exact absurd ⟨es, note⟩ he
  | unary op e note => cases op <;> simp only [infer]
  | binary op l r note => cases op <;> simp only [infer]
  | _ => simp only [infer]

theorem emptyListType_cases (expected : Option Ty) (start : Position) :
    (emptyListType expected start).1 = .error ∨
      ∃ t, (emptyListType expected start).1 = .list t := by
  unfold emptyListType
  split
  · exact .inr ⟨_, rfl⟩
  · exact .inl rfl
  · exact .inl rfl

/-- A list literal has no domain type. -/
theorem domain?_infer_list {e : Expr} (he : e.IsList) (expected : Option Ty) :
    env.domain? (env.infer scope expected e).ty = none := by
  obtain ⟨es, note⟩ := he
  have hlist : (env.infer scope expected (.list es note)).ty = .error ∨
      ∃ t, (env.infer scope expected (.list es note)).ty = .list t := by
    cases es with
    | nil => exact emptyListType_cases expected note.span.start
    | cons first es => exact .inr ⟨_, rfl⟩
  rcases hlist with hty | ⟨t, hty⟩ <;> rw [hty] <;> rfl

/-- Only a list literal depends on what is expected, and it has no domain type. -/
theorem infer_of_underlying {expected : Option Ty} {e : Expr} {t : Ty}
    (h : env.underlying? (env.infer scope expected e).ty = some t) (expected' : Option Ty) :
    env.infer scope expected' e = env.infer scope expected e := by
  refine infer_of_not_isList (fun he => ?_) expected' expected
  rw [underlying?, domain?_infer_list he] at h
  cases h

theorem elementTy_cases (env : TypeEnv) (expected : Option Ty) (v : Typing) :
    env.elementTy expected v = v.ty ∨
      (elementExpectation expected = some (env.elementTy expected v) ∧
        env.assignable v.expr v.ty (env.elementTy expected v) = true) := by
  unfold elementTy
  split
  · split
    · next hassignable => exact .inr ⟨rfl, hassignable⟩
    · exact .inl rfl
  · exact .inl rfl

theorem assignable_elementTy (env : TypeEnv) (expected : Option Ty) (v : Typing) :
    env.assignable v.expr v.ty (env.elementTy expected v) = true := by
  rcases env.elementTy_cases expected v with hown | ⟨-, hfits⟩
  · rw [hown]
    exact assignable_self env _ _
  · exact hfits

/-- The type of the elements of a list is found again where a list of it is expected. -/
theorem elementTy_self {expected : Option Ty} {v v' : Typing}
    (hsame : elementExpectation expected = some (env.elementTy expected v) → v' = v)
    (hty : env.elementTy expected v = v.ty → v'.ty = v.ty) :
    env.elementTy (some (.list (env.elementTy expected v))) v' = env.elementTy expected v := by
  rw [elementTy]
  rcases env.elementTy_cases expected v with hfirst | ⟨hexpected, hassignable⟩
  · rw [hty hfirst, hfirst, ite_self]
  · rw [hsame hexpected, if_pos hassignable]

/-- Where the type is expected that an expression has under another expectation, it has that type
as well. -/
theorem ty_infer_self (expected : Option Ty) (e : Expr) :
    (env.infer scope (some (env.infer scope expected e).ty) e).ty =
      (env.infer scope expected e).ty := by
  induction e using Expr.list_induction generalizing expected with
  | other e he => rw [infer_of_not_isList he]
  | nil note =>
      simp only [infer, List.map_nil, inferAll, listType]
      rcases emptyListType_cases expected note.span.start with h | ⟨t, h⟩
      · rw [h]
        rfl
      · rw [h]
        rfl
  | cons first es note ih =>
      simp only [infer, List.map_cons, inferAll, List.headD_cons, List.tail_cons]
      refine congrArg Ty.list (elementTy_self (fun h => ?_) fun h => ?_)
      · exact congrArg (env.infer scope · first) h.symm
      · exact (congrArg (fun t => (env.infer scope (some t) first).ty) h).trans
          (ih first List.mem_cons_self _)

/-! ### Lists without findings -/

/-- An expression that is checked without findings and may stand for a type. -/
structure Fitted (env : TypeEnv) (scope : Scope) (expected : Option Ty) (t : Ty) (e : Expr) :
    Prop where
  found : (env.infer scope expected e).found = []
  fits : env.assignable (env.infer scope expected e).expr (env.infer scope expected e).ty t = true

theorem inferAll_eq_map (expected : Option Ty) (es : List Expr) :
    env.inferAll scope (es.map fun _ => expected) es = es.map (env.infer scope expected) := by
  induction es with
  | nil => simp only [List.map_nil, inferAll]
  | cons e es ih => simp only [List.map_cons, inferAll, List.headD_cons, List.tail_cons, ih]

theorem elementFindings_eq_nil_iff {t : Ty} {vs : List Typing} :
    env.elementFindings t vs = [] ↔
      ∀ v ∈ vs, v.found = [] ∧ env.assignable v.expr v.ty t = true := by
  refine ⟨elementFindings_eq_nil env, fun h => ?_⟩
  induction vs with
  | nil => rfl
  | cons v vs ih =>
      obtain ⟨⟨hfound, hfits⟩, hvs⟩ := List.forall_mem_cons.mp h
      rw [elementFindings, hfound, if_pos hfits, ih hvs]
      rfl

theorem ty_infer_list (expected : Option Ty) (first : Expr) (es : List Expr) (note : ExprNote) :
    (env.infer scope expected (.list (first :: es) note)).ty =
      .list (env.elementTy expected (env.infer scope (elementExpectation expected) first)) := by
  simp only [infer, List.map_cons, inferAll, List.headD_cons, List.tail_cons]
  rfl

/-- Nothing is found in a list exactly if all of its elements fit their type. -/
theorem found_infer_list_eq_nil {expected : Option Ty} {first : Expr} {es : List Expr}
    {note : ExprNote} :
    (env.infer scope expected (.list (first :: es) note)).found = [] ↔
      ∀ e ∈ first :: es, env.Fitted scope (elementExpectation expected)
        (env.elementTy expected (env.infer scope (elementExpectation expected) first)) e := by
  have hfound : (env.infer scope expected (.list (first :: es) note)).found =
      (env.infer scope (elementExpectation expected) first).found ++ env.elementFindings
        (env.elementTy expected (env.infer scope (elementExpectation expected) first))
        (es.map (env.infer scope (elementExpectation expected))) := by
    rw [← inferAll_eq_map]
    simp only [infer, List.map_cons, inferAll, List.headD_cons, List.tail_cons]
    rfl
  have hfirst : env.Fitted scope (elementExpectation expected)
      (env.elementTy expected (env.infer scope (elementExpectation expected) first)) first ↔
      (env.infer scope (elementExpectation expected) first).found = [] :=
    ⟨Fitted.found, fun h => ⟨h, env.assignable_elementTy expected _⟩⟩
  rw [hfound, List.append_eq_nil_iff, elementFindings_eq_nil_iff, List.forall_mem_map,
    List.forall_mem_cons, hfirst]
  exact and_congr_right fun _ => forall₂_congr fun e _ => ⟨fun h => ⟨h.1, h.2⟩, fun h => ⟨h.1, h.2⟩⟩

theorem infer_nil_found (note : ExprNote) :
    (env.infer scope none (.list [] note)).found ≠ [] := by
  simp [infer, inferAll, listType, emptyListType]

@[simp] theorem stringLiteral?_infer (expected : Option Ty) (e : Expr) :
    (env.infer scope expected e).expr.stringLiteral? = e.stringLiteral? := by
  cases e with
  | literal v note => cases v <;> simp only [infer, Expr.stringLiteral?]
  | unary op e note => cases op <;> simp only [infer, Expr.stringLiteral?]
  | binary op l r note => cases op <;> simp only [infer, Expr.stringLiteral?]
  | _ => simp only [infer, Expr.stringLiteral?]

theorem ty_infer_of_stringLiteral? {e : Expr} {value : String} (he : e.stringLiteral? = some value)
    (expected : Option Ty) : (env.infer scope expected e).ty = .string := by
  unfold Expr.stringLiteral? at he
  split at he
  · simp only [infer, literalType]
  · cases he

theorem domain_of_domain? {t : Ty} {d : Ty.Domain} (h : env.domain? t = some d) :
    ∃ name, t = .domain name := by
  cases t with
  | domain name => exact ⟨name, rfl⟩
  | _ => cases h

/-- What may stand for a type that is not in error has that type, or it is a string literal and
stands for a value of a domain type. -/
theorem Fitted.cases {expected : Option Ty} {t : Ty} {e : Expr} (h : env.Fitted scope expected t e)
    (hty : (env.infer scope expected e).ty.containsError = false) (ht : t.containsError = false) :
    (env.infer scope expected e).ty = t ∨
      e.stringLiteral? ≠ none ∧ (env.infer scope expected e).ty = .string ∧
        ∃ d, t = .domain d := by
  have hfits := h.fits
  unfold assignable at hfits
  rw [Bool.or_eq_true, stringLiteral?_infer] at hfits
  rcases hfits with hsame | hliteral
  · exact .inl (Ty.same_eq hty ht hsame)
  · split at hliteral
    · next value d hvalue hdomain =>
        exact .inr ⟨by simp [hvalue], ty_infer_of_stringLiteral? hvalue expected,
          domain_of_domain? hdomain⟩
    · cases hliteral

/-- A list that may stand for a type has that type. -/
theorem Fitted.ty_eq {expected : Option Ty} {t : Ty} {e : Expr} (h : env.Fitted scope expected t e)
    (he : e.IsList) (hty : (env.infer scope expected e).ty.containsError = false)
    (ht : t.containsError = false) : (env.infer scope expected e).ty = t := by
  obtain ⟨es, note⟩ := he
  exact (h.cases hty ht).resolve_right fun hliteral => hliteral.1 rfl

theorem Fitted.of_not_isList {expected : Option Ty} {t : Ty} {e : Expr} (he : ¬e.IsList)
    (h : env.Fitted scope expected t e) (expected' : Option Ty) : env.Fitted scope expected' t e :=
  ⟨infer_of_not_isList he expected' expected ▸ h.found,
    infer_of_not_isList he expected' expected ▸ h.fits⟩

/-- A list whose elements fit a type, which is also that of the first or the one expected. -/
theorem Fitted.list {expected : Option Ty} {t : Ty} {first : Expr} {es : List Expr}
    (note : ExprNote)
    (ht : env.elementTy expected (env.infer scope (elementExpectation expected) first) = t)
    (h : ∀ e ∈ first :: es, env.Fitted scope (elementExpectation expected) t e) :
    env.Fitted scope expected (.list t) (.list (first :: es) note) := by
  refine ⟨found_infer_list_eq_nil.mpr (ht.symm ▸ h), ?_⟩
  rw [ty_infer_list, ht]
  exact assignable_self env _ _

/-- What a list that fits a list type says of its elements. -/
theorem Fitted.elements {expected : Option Ty} {t : Ty} {first : Expr} {es : List Expr}
    {note : ExprNote} (h : env.Fitted scope expected (.list t) (.list (first :: es) note))
    (hty : (env.infer scope expected (.list (first :: es) note)).ty.containsError = false)
    (ht : t.containsError = false) :
    env.elementTy expected (env.infer scope (elementExpectation expected) first) = t ∧
      ∀ e ∈ first :: es, env.Fitted scope (elementExpectation expected) t e := by
  have hlist := h.ty_eq ⟨_, note⟩ hty ht
  rw [ty_infer_list, Ty.list.injEq] at hlist
  exact ⟨hlist, hlist ▸ found_infer_list_eq_nil.mp h.found⟩

/-- Only a list type is the type of a list. -/
theorem Fitted.exists_list {expected : Option Ty} {t : Ty} {first : Expr} {es : List Expr}
    {note : ExprNote} (h : env.Fitted scope expected t (.list (first :: es) note))
    (hty : (env.infer scope expected (.list (first :: es) note)).ty.containsError = false)
    (ht : t.containsError = false) : ∃ u, t = .list u :=
  ⟨_, (h.ty_eq ⟨_, note⟩ hty ht).symm.trans (ty_infer_list expected first es note)⟩

/-! ### What an expectation changes -/

section

variable {w : Setting} (h : env.Reflects w.registry w.program) (hw : w.registry.ErrorFree)
  (hscope : scope.Clean)

include h hw hscope

/-- What fits a type without an expectation does so as well where that type is expected. -/
theorem Fitted.expected {t : Ty} (ht : t.containsError = false) {e : Expr}
    (he : env.Fitted scope none t e) : env.Fitted scope (some t) t e := by
  induction e using Expr.list_induction generalizing t with
  | other e hlist => exact he.of_not_isList hlist _
  | nil note => exact absurd he.found (infer_nil_found note)
  | cons first es note ih =>
      have hclean := (infer_clean h hw hscope (by simp) he.found).1
      obtain ⟨u, rfl⟩ := he.exists_list hclean ht
      replace ht : u.containsError = false := ht
      obtain ⟨-, helements⟩ := he.elements hclean ht
      have hall : ∀ e ∈ first :: es, env.Fitted scope (some u) u e := fun e hmem =>
        ih e hmem ht (helements e hmem)
      exact .list note (if_pos (hall first List.mem_cons_self).fits) hall

/-- An expression that fits a type where it is expected does so without an expectation exactly if it
needs none. -/
theorem Fitted.none_iff {t : Ty} (ht : t.containsError = false) {e : Expr}
    (he : env.Fitted scope (some t) t e) : env.Fitted scope none t e ↔ e.Settled t := by
  induction e using Expr.list_induction generalizing t with
  | other e hlist => exact iff_of_true (he.of_not_isList hlist _) (.other hlist)
  | nil note =>
      refine iff_of_false (fun hnone => infer_nil_found note hnone.found) ?_
      rintro (hlist | _)
      exact hlist ⟨[], note⟩
  | cons first es note ih =>
      have hclean := (infer_clean h hw hscope (by rintro _ ⟨⟩; exact ht) he.found).1
      obtain ⟨u, rfl⟩ := he.exists_list hclean ht
      replace ht : u.containsError = false := ht
      obtain ⟨-, helements⟩ := he.elements hclean ht
      constructor
      · intro hnone
        obtain ⟨hu, hall⟩ :=
          hnone.elements (infer_clean h hw hscope (by simp) hnone.found).1 ht
        refine .list (fun d hd => ?_) fun e hmem =>
          (ih e hmem ht (helements e hmem)).mp (hall e hmem)
        -- a string literal in front would make it a list of strings
        by_contra hliteral
        obtain ⟨value, hvalue⟩ := Option.ne_none_iff_exists'.mp hliteral
        have hstring : (env.infer scope none first).ty = .string :=
          ty_infer_of_stringLiteral? hvalue none
        rw [hd] at hu
        cases hstring.symm.trans hu
      · rintro (hlist | ⟨hfirst, hsettled⟩)
        · exact absurd ⟨_, note⟩ hlist
        · have hall : ∀ e ∈ first :: es, env.Fitted scope none u e := fun e hmem =>
            (ih e hmem ht (helements e hmem)).mpr (hsettled e hmem)
          refine .list note ?_ hall
          have hown := hall first List.mem_cons_self
          refine (hown.cases (infer_clean h hw hscope (by simp) hown.found).1 ht).resolve_right ?_
          rintro ⟨hliteral, -, d, hd⟩
          exact hliteral (hfirst d hd)

/-- With an expectation an expression has the type that it has without one, or one with a domain
type in place of `String`. -/
theorem refines_infer {expected : Option Ty} (hexpected : ∀ t ∈ expected, t.containsError = false)
    {e : Expr} (hnone : (env.infer scope none e).found = [])
    (hfound : (env.infer scope expected e).found = []) :
    (env.infer scope none e).ty.Refines (env.infer scope expected e).ty := by
  induction e using Expr.list_induction generalizing expected with
  | other e hlist =>
      rw [infer_of_not_isList hlist expected none]
      exact .refl _
  | nil note => exact absurd hnone (infer_nil_found note)
  | cons first es note ih =>
      have hfirst := found_infer_list_eq_nil.mp hnone first List.mem_cons_self
      have hfirst' := found_infer_list_eq_nil.mp hfound first List.mem_cons_self
      have hexpectation := elementExpectation_clean hexpected
      have hrefines : (env.infer scope none first).ty.Refines _ :=
        ih first List.mem_cons_self hexpectation hfirst.found hfirst'.found
      have hclean := (infer_clean h hw hscope hexpectation hfirst'.found).1
      rw [ty_infer_list, ty_infer_list]
      refine .list ?_
      rcases env.elementTy_cases expected (env.infer scope (elementExpectation expected) first) with
        hown | ⟨hgiven, -⟩
      · rwa [hown]
      · rcases hfirst'.cases hclean (hexpectation _ hgiven) with hty | ⟨hliteral, -, d, hd⟩
        · rwa [← hty]
        · obtain ⟨value, hvalue⟩ := Option.ne_none_iff_exists'.mp hliteral
          have hstring : (env.infer scope none first).ty = .string :=
            ty_infer_of_stringLiteral? hvalue none
          change (env.infer scope none first).ty.Refines _
          rw [hd, hstring]
          exact .domain d

end

end TypeEnv

end Prosaic
