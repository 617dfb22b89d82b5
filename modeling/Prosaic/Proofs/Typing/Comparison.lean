import Prosaic.Proofs.Typing.Expectation
import Prosaic.Proofs.Typing.Places

/-!
Comparisons for equality and what becomes of them if their operands are exchanged. Either operand
may be a literal that stands for a value of the other one's type, but only the right one is checked
with the type of the other one as its expectation. So what is a list on the right may not do on the
left. Around the comparison nothing changes.
-/

namespace Prosaic

/-- A comparison of two values for equality. -/
structure Comparison where
  op : BinaryOp
  isEquality : op = .is ∨ op = .isNot
  left : Expr
  right : Expr
  note : ExprNote

namespace Comparison

variable (c : Comparison)

def expr : Expr := .binary c.op c.left c.right c.note

/-- The comparison with its operands exchanged. -/
def exchanged : Comparison := { c with left := c.right, right := c.left }

theorem not_logic : ¬(c.op = .and ∨ c.op = .or) := by
  rcases c.isEquality with h | h <;> rw [h] <;> simp

end Comparison

/-- Two expressions that are the same but for one comparison in them, whose operands are
exchanged. -/
inductive Expr.Exchanges (c : Comparison) : Expr → Expr → Prop
  | here : Exchanges c c.expr c.exchanged.expr
  | element {e e' : Expr} {before after : List Expr} {note : ExprNote} (h : Exchanges c e e') :
      Exchanges c (.list (before ++ e :: after) note) (.list (before ++ e' :: after) note)
  | operand {e e' : Expr} {op : UnaryOp} {note : ExprNote} (h : Exchanges c e e') :
      Exchanges c (.unary op e note) (.unary op e' note)
  | left {e e' right : Expr} {op : BinaryOp} {note : ExprNote} (h : Exchanges c e e') :
      Exchanges c (.binary op e right note) (.binary op e' right note)
  | right {left e e' : Expr} {op : BinaryOp} {note : ExprNote} (h : Exchanges c e e') :
      Exchanges c (.binary op left e note) (.binary op left e' note)
  | argument {e e' : Expr} {name : Name} {before after : List Expr} {note : CallNote}
      (h : Exchanges c e e') :
      Exchanges c (.call name (before ++ e :: after) note) (.call name (before ++ e' :: after) note)
  | base {e e' : Expr} {name : Name} {note : ExprNote} (h : Exchanges c e e') :
      Exchanges c (.field e name note) (.field e' name note)

namespace TypeEnv

variable {env : TypeEnv} {scope : Scope}

/-! ### Exchanged operands -/

/-- Two operands of certain types may be compared. -/
def Comparable (env : TypeEnv) (left right : Expr) (leftTy rightTy : Ty) : Prop :=
  env.assignable right rightTy leftTy = true ∨ env.assignable left leftTy rightTy = true

theorem Comparable.symm {left right : Expr} {a b : Ty} (h : env.Comparable left right a b) :
    env.Comparable right left b a :=
  Or.symm h

theorem comparable_self (left right : Expr) (t : Ty) : env.Comparable left right t t :=
  .inl (assignable_self env _ _)

/-- Nothing but a value of its own type can be compared with a list. -/
theorem Comparable.ty_eq {left right : Expr} {x y : Option Ty} (hlist : left.IsList ∨ right.IsList)
    (hleft : (env.infer scope x left).ty.containsError = false)
    (hright : (env.infer scope y right).ty.containsError = false)
    (h : env.Comparable left right (env.infer scope x left).ty (env.infer scope y right).ty) :
    (env.infer scope x left).ty = (env.infer scope y right).ty := by
  wlog hl : left.IsList generalizing left right x y
  · exact (this hlist.symm hright hleft h.symm (hlist.resolve_left hl)).symm
  have hliteral : left.stringLiteral? = none := by
    obtain ⟨es, note⟩ := hl
    rfl
  rcases h with h | h
  · simp only [assignable, domain?_infer_list hl, Bool.or_eq_true] at h
    exact (Ty.same_eq hright hleft (h.resolve_right (by split <;> simp_all))).symm
  · simp only [assignable, hliteral, Bool.or_eq_true] at h
    exact Ty.same_eq hleft hright (h.resolve_right (by simp))

theorem assignable_infer (expected : Option Ty) (e : Expr) (a b : Ty) :
    env.assignable (env.infer scope expected e).expr a b = env.assignable e a b := by
  rw [assignable, assignable, stringLiteral?_infer]

/-- A comparison is an expression without findings if its operands are and may be compared. -/
theorem found_comparison_eq_nil (c : Comparison) (expected : Option Ty) :
    (env.infer scope expected c.expr).found = [] ↔
      let left := env.infer scope none c.left
      let right := env.infer scope (some left.ty) c.right
      left.found = [] ∧ right.found = [] ∧ env.Comparable c.left c.right left.ty right.ty := by
  have hop : ∀ (left right : Typing) (start : Position),
      (env.binaryType c.op left right start).2 = [] ↔
        env.Comparable left.expr right.expr left.ty right.ty := by
    intro left right start
    rcases c.isEquality with h | h <;>
      simp only [h, binaryType, Comparable, ← Bool.or_eq_true] <;> split <;> simp [*]
  rw [Comparison.expr, found_infer_binary env scope c.not_logic, List.append_eq_nil_iff,
    List.append_eq_nil_iff, hop, and_assoc]
  simp only [Comparable, assignable_infer]

theorem found_exchanged_iff (c : Comparison) (expected : Option Ty) :
    (env.infer scope expected c.exchanged.expr).found = [] ↔
      (env.infer scope none c.right).found = [] ∧
        (env.infer scope (some (env.infer scope none c.right).ty) c.left).found = [] ∧
          env.Comparable c.right c.left (env.infer scope none c.right).ty
            (env.infer scope (some (env.infer scope none c.right).ty) c.left).ty :=
  found_comparison_eq_nil c.exchanged expected

theorem ty_infer_comparison (c : Comparison) (expected : Option Ty) :
    (env.infer scope expected c.expr).ty = .boolean := by
  obtain ⟨hand, hor⟩ := not_or.mp c.not_logic
  rw [Comparison.expr, infer_binary env scope hand hor]
  rcases c.isEquality with h | h <;> simp only [h, binaryType] <;> split <;> rfl

section

variable {w : Setting} (h : env.Reflects w.registry w.program) (hw : w.registry.ErrorFree)
  (hscope : scope.Clean)

include h hw hscope

/-- An expression stays without findings where its own type is expected. -/
theorem found_infer_self {e : Expr} (he : (env.infer scope none e).found = []) :
    (env.infer scope (some (env.infer scope none e).ty) e).found = [] := by
  have hfitted : env.Fitted scope none (env.infer scope none e).ty e :=
    ⟨he, assignable_self env _ _⟩
  exact (hfitted.expected h hw hscope (infer_clean h hw hscope (by simp) he).1).found

/-- If a list may stand on either side of a comparison, its own type is that of the other operand,
as neither of the two types has `String` where the other one has a domain type. -/
theorem ty_eq_of_exchanged {c : Comparison} {expected expected' : Option Ty}
    (hlist : c.right.IsList)
    (hfound : (env.infer scope expected c.expr).found = [])
    (hfound' : (env.infer scope expected' c.exchanged.expr).found = []) :
    (env.infer scope none c.right).ty = (env.infer scope none c.left).ty := by
  obtain ⟨hleft, hright, hcomparable⟩ := (found_comparison_eq_nil c expected).mp hfound
  obtain ⟨hright', hleft', hcomparable'⟩ := (found_exchanged_iff c expected').mp hfound'
  have hcleft := (infer_clean h hw hscope (by simp) hleft).1
  have hcright' := (infer_clean h hw hscope (by simp) hright').1
  have hto := refines_infer h hw hscope (by simpa using hcright') hleft hleft'
  have hback := refines_infer h hw hscope (by simpa using hcleft) hright' hright
  have hcright := (infer_clean h hw hscope (by simpa using hcleft) hright).1
  have hcleft' := (infer_clean h hw hscope (by simpa using hcright') hleft').1
  rw [← hcomparable'.ty_eq (.inl hlist) hcright' hcleft'] at hto
  rw [← hcomparable.ty_eq (.inr hlist) hcleft hcright] at hback
  exact hback.antisymm hto

/-- With its operands exchanged, a comparison stays without findings exactly if the right one needs
no expectation to get the type of the left one. -/
theorem found_exchanged_eq_nil {c : Comparison} {expected : Option Ty}
    (hfound : (env.infer scope expected c.expr).found = []) (expected' : Option Ty) :
    (env.infer scope expected' c.exchanged.expr).found = [] ↔
      c.right.Settled (env.infer scope none c.left).ty := by
  obtain ⟨hleft, hright, hcomparable⟩ := (found_comparison_eq_nil c expected).mp hfound
  have hcleft := (infer_clean h hw hscope (by simp) hleft).1
  have hcright := (infer_clean h hw hscope (by simpa using hcleft) hright).1
  -- where both have one type by themselves, the order does not matter
  have hexchanged : (env.infer scope none c.right).found = [] →
      (env.infer scope none c.right).ty = (env.infer scope none c.left).ty →
        (env.infer scope expected' c.exchanged.expr).found = [] := by
    intro hfound hty
    refine (found_exchanged_iff c expected').mpr ⟨hfound, ?_⟩
    rw [hty, ty_infer_self none c.left]
    exact ⟨found_infer_self h hw hscope hleft, comparable_self _ _ _⟩
  by_cases hlist : c.right.IsList
  · have hty := (hcomparable.ty_eq (.inr hlist) hcleft hcright).symm
    have hfitted : env.Fitted scope (some (env.infer scope none c.left).ty)
        (env.infer scope none c.left).ty c.right :=
      ⟨hright, by rw [hty]; exact assignable_self env _ _⟩
    rw [← hfitted.none_iff h hw hscope hcleft]
    constructor
    · intro hfound'
      obtain ⟨hright', -⟩ := (found_exchanged_iff c expected').mp hfound'
      refine ⟨hright', ?_⟩
      rw [ty_eq_of_exchanged h hw hscope hlist hfound hfound']
      exact assignable_self env _ _
    · intro hfits
      exact hexchanged hfits.found
        (hfits.ty_eq hlist (infer_clean h hw hscope (by simp) hfits.found).1 hcleft)
  · refine iff_of_true ?_ (.other hlist)
    rw [infer_of_not_isList hlist _ none] at hright hcomparable hcright
    by_cases hlist' : c.left.IsList
    · exact hexchanged hright (hcomparable.ty_eq (.inl hlist') hcleft hcright).symm
    · refine (found_exchanged_iff c expected').mpr ⟨hright, ?_⟩
      rw [infer_of_not_isList hlist' _ none]
      exact ⟨hleft, hcomparable.symm⟩

end

end TypeEnv

/-! ### Expressions that are used alike -/

/-- Two checked expressions between which the check of what is around them does not distinguish. -/
structure Typing.Like (v v' : Typing) : Prop where
  ty : v'.ty = v.ty
  literal : v'.expr.stringLiteral? = v.expr.stringLiteral?

namespace Typing.Like

variable {env : TypeEnv} {v v' : Typing}

theorem refl (v : Typing) : v.Like v := ⟨rfl, rfl⟩

variable (h : v.Like v')

include h

theorem assignable_eq (t u : Ty) : env.assignable v'.expr t u = env.assignable v.expr t u := by
  rw [TypeEnv.assignable, TypeEnv.assignable, h.literal]

theorem elementTy_eq (expected : Option Ty) :
    env.elementTy expected v' = env.elementTy expected v := by
  simp only [TypeEnv.elementTy, h.assignable_eq, h.ty]

theorem binaryType_eq {right right' : Typing} (hright : right.Like right') (op : BinaryOp)
    (start : Position) :
    (env.binaryType op v' right' start).1 = (env.binaryType op v right start).1 := by
  cases op <;> simp only [TypeEnv.binaryType, h.assignable_eq, h.ty, hright.assignable_eq,
    hright.ty, apply_ite Prod.fst, ite_self]

theorem binaryType_eq_nil {right right' : Typing} (hright : right.Like right') (op : BinaryOp)
    (start : Position) :
    (env.binaryType op v' right' start).2 = [] ↔ (env.binaryType op v right start).2 = [] := by
  cases op <;> simp only [TypeEnv.binaryType, h.assignable_eq, h.ty, hright.assignable_eq,
    hright.ty] <;> repeat' (split <;> simp)

theorem booleanFindings_eq_nil (what : String) :
    TypeEnv.booleanFindings what v' = [] ↔ TypeEnv.booleanFindings what v = [] := by
  simp only [TypeEnv.booleanFindings, h.ty]
  split <;> simp

theorem itemType_eq (item : String) :
    (TypeEnv.itemType item v').1 = (TypeEnv.itemType item v).1 := by
  simp only [TypeEnv.itemType, h.ty]
  split <;> rfl

theorem itemType_eq_nil (item : String) :
    (TypeEnv.itemType item v').2 = [] ↔ (TypeEnv.itemType item v).2 = [] := by
  simp only [TypeEnv.itemType, h.ty]
  split <;> simp

/-- Whether a demand is met does not depend on which of the two is there. -/
theorem demand_eq_nil (d : Demand) : d.found env v' = [] ↔ d.found env v = [] := by
  cases d with
  | argument target parameter t =>
      simp only [Demand.found, TypeEnv.argumentFindings, h.assignable_eq, h.ty]
      split <;> simp
  | element x t =>
      simp only [Demand.found, TypeEnv.elementFindings, h.assignable_eq, h.ty]
      split <;> simp
  | result function t =>
      simp only [Demand.found, h.assignable_eq, h.ty]
      split <;> simp
  | operand op left start => exact (Like.refl left).binaryType_eq_nil h op start

end Typing.Like

/-! ### What hinges on a part -/

section

variable {P : Prop}

/-- Findings before and after something in a program is replaced. If there were none, there are none
now exactly if a condition holds. -/
def Hinges (P : Prop) (ds ds' : List Diagnostic) : Prop := ds = [] → (ds' = [] ↔ P)

/-- What is found around a part may change as long as nothing is found there still. -/
theorem Hinges.append {ds ds' back back' : List Diagnostic} (h : Hinges P ds ds')
    (front : List Diagnostic) (hback : back' = [] ↔ back = []) :
    Hinges P (front ++ ds ++ back) (front ++ ds' ++ back') := by
  intro hnil
  obtain ⟨hfront, hnil⟩ := List.append_eq_nil_iff.mp (List.append_assoc .. ▸ hnil)
  obtain ⟨hds, hnil⟩ := List.append_eq_nil_iff.mp hnil
  rw [hfront, hback.mpr hnil, List.nil_append, List.append_nil]
  exact h hds

theorem Hinges.prepend {ds ds' : List Diagnostic} (h : Hinges P ds ds') (front : List Diagnostic) :
    Hinges P (front ++ ds) (front ++ ds') := by
  have hboth : Hinges P (front ++ ds ++ []) (front ++ ds' ++ []) := h.append front Iff.rfl
  rwa [List.append_nil, List.append_nil] at hboth

/-- A checked expression in place of another one. -/
structure Typing.Replaces (P : Prop) (v v' : Typing) : Prop extends Typing.Like v v' where
  found : Hinges P v.found v'.found

namespace TypeEnv

variable {env : TypeEnv} {scope : Scope} {v v' : Typing} (h : v.Replaces P v')

include h

/-- What is found about an expression of which something is demanded. -/
theorem report_hinges (d : Demand) :
    Hinges P (v.found ++ d.found env v) (v'.found ++ d.found env v') :=
  h.found.append [] (h.demand_eq_nil d)

/-- The type of a list and what is found in it, with an element replaced. -/
theorem listType_replaces (expected : Option Ty) (vs vs' : List Typing) (start : Position) :
    (env.listType expected (vs ++ v' :: vs') start).1 =
        (env.listType expected (vs ++ v :: vs') start).1 ∧
      Hinges P (env.listType expected (vs ++ v :: vs') start).2
        (env.listType expected (vs ++ v' :: vs') start).2 := by
  cases vs with
  | nil =>
      change Ty.list (env.elementTy expected v') = .list (env.elementTy expected v) ∧
        Hinges P (v.found ++ env.elementFindings (env.elementTy expected v) vs')
          (v'.found ++ env.elementFindings (env.elementTy expected v') vs')
      rw [h.elementTy_eq]
      exact ⟨rfl, h.found.append [] Iff.rfl⟩
  | cons first vs =>
      refine ⟨rfl, ?_⟩
      change Hinges P
        (first.found ++ env.elementFindings (env.elementTy expected first) (vs ++ v :: vs'))
        (first.found ++ env.elementFindings (env.elementTy expected first) (vs ++ v' :: vs'))
      simpa only [elementFindings_append, elementFindings_cons env none, List.append_assoc] using
        (report_hinges h (.element none (env.elementTy expected first))).append
          (first.found ++ env.elementFindings (env.elementTy expected first) vs) Iff.rfl

/-- What is found in a call, with an argument replaced. -/
theorem callType_hinges (name : Name) (asValue : Bool) (callee : Callee) (vs vs' : List Typing) :
    Hinges P (env.callType scope name callee (vs ++ v :: vs') asValue).found
      (env.callType scope name callee (vs ++ v' :: vs') asValue).found := by
  have hcount : ∀ v : Typing, (vs ++ v :: vs').length = vs.length + vs'.length + 1 := fun v => by
    rw [List.length_append, List.length_cons, Nat.add_assoc]
  cases callee with
  | base b =>
      by_cases hsingle : vs = [] ∧ vs' = []
      · obtain ⟨rfl, rfl⟩ := hsingle
        refine h.found.append [] ?_
        rw [h.ty]
        split <;> simp
      · have hmany : vs.length + vs'.length + 1 ≠ 1 := fun h => hsingle (by simpa using h)
        refine fun hnil => absurd hnil ?_
        simp only [callType]
        rw [baseConversionFindings_of_length env (hcount v ▸ hmany)]
        exact List.cons_ne_nil _ _
  | unknown => exact fun hnil => absurd hnil (by simp [callType])
  | known target parameters returns =>
      by_cases hlength : vs.length + vs'.length + 1 = parameters.length
      · have hlt : vs.length < parameters.length := by omega
        have hparameter := List.getElem?_eq_getElem hlt
        simp only [found_callType_known, hcount, if_pos hlength,
          argumentFindings_append env _ _ hparameter]
        exact ((report_hinges h _).append _ Iff.rfl).append [] Iff.rfl
      · exact fun hnil => absurd hnil (by simp [found_callType_known, hcount, hlength])

omit h in
/-- What a call returns does not depend on its arguments. -/
theorem returns_callType (name : Name) (asValue : Bool) (callee : Callee) (vs vs' : List Typing) :
    (env.callType scope name callee vs asValue).returns =
      (env.callType scope name callee vs' asValue).returns := by
  cases callee with
  | base | unknown => rfl
  | known target parameters returns =>
      simp only [callType]
      split <;> rfl

omit h in
/-- Whatever hinges on a comparison in an expression, the expression with the operands exchanged may
take its place. -/
theorem infer_replaces {c : Comparison} {e e' : Expr} (he : e.Exchanges c e')
    (hc : ∀ expected, Hinges P (env.infer scope expected c.expr).found
      (env.infer scope expected c.exchanged.expr).found) (expected : Option Ty) :
    (env.infer scope expected e).Replaces P (env.infer scope expected e') := by
  induction he generalizing expected with
  | here =>
      refine ⟨⟨?_, ?_⟩, hc expected⟩
      · rw [ty_infer_comparison, ty_infer_comparison]
      · rw [stringLiteral?_infer, stringLiteral?_infer]
        rfl
  | element _ ih =>
      simp only [infer, inferAll_const]
      obtain ⟨hty, hfound⟩ := listType_replaces (ih _) _ _ _ _
      exact ⟨⟨hty, rfl⟩, hfound⟩
  | @operand e e' op note _ ih =>
      cases op with
      | not =>
          simp only [infer]
          have h := ih (some .boolean)
          exact ⟨⟨rfl, rfl⟩, h.found.append [] (h.booleanFindings_eq_nil _)⟩
      | negate =>
          simp only [infer]
          have h := ih none
          refine ⟨⟨rfl, rfl⟩, h.found.append [] ?_⟩
          rw [h.ty]
          split <;> simp
  | @left e e' right op note _ ih =>
      by_cases hlogic : op = .and ∨ op = .or
      · have h := ih (some .boolean)
        rcases hlogic with rfl | rfl <;>
        · simp only [infer, List.append_assoc]
          exact ⟨⟨rfl, rfl⟩, h.found.append [] (by simp [h.booleanFindings_eq_nil])⟩
      · obtain ⟨hand, hor⟩ := not_or.mp hlogic
        have h := ih none
        have hright := Typing.Like.refl (env.infer scope (some (env.infer scope none e).ty) right)
        rw [infer_binary env scope hand hor, infer_binary env scope hand hor]
        simp only [h.ty]
        exact ⟨⟨h.binaryType_eq hright op _, rfl⟩, (h.found.append [] Iff.rfl).append []
          (h.binaryType_eq_nil hright op _)⟩
  | @right left e e' op note _ ih =>
      by_cases hlogic : op = .and ∨ op = .or
      · have h := ih (some .boolean)
        rcases hlogic with rfl | rfl <;>
        · simp only [infer]
          exact ⟨⟨rfl, rfl⟩, h.found.append _ (h.booleanFindings_eq_nil _)⟩
      · obtain ⟨hand, hor⟩ := not_or.mp hlogic
        have h := ih (some (env.infer scope none left).ty)
        have hleft := Typing.Like.refl (env.infer scope none left)
        rw [infer_binary env scope hand hor, infer_binary env scope hand hor]
        exact ⟨⟨hleft.binaryType_eq h.toLike op _, rfl⟩, h.found.append _
          (hleft.binaryType_eq_nil h.toLike op _)⟩
  | @argument e e' name before after note _ ih =>
      simp only [infer, List.length_append, List.length_cons, inferAll_append]
      have h := ih (((env.callee name.text).expectations
        (before.length + (after.length + 1))).getD before.length none)
      refine ⟨⟨congrArg (Option.getD · Ty.error) ?_, rfl⟩, callType_hinges h name true _ _ _⟩
      exact returns_callType name true (env.callee name.text) _ _
  | base _ ih =>
      simp only [infer]
      have h := ih none
      rw [h.ty]
      exact ⟨⟨rfl, rfl⟩, h.found.append [] Iff.rfl⟩

end TypeEnv

end

end Prosaic
