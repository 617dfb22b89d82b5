import Prosaic.Proofs.Except
import Prosaic.Proofs.Typing.Declared
import Prosaic.Proofs.Typing.Expectation
import Prosaic.Proofs.Typing.Hints

/-!
What becomes of a type mismatch if its hint is followed. A hint may propose to call something with
the value. With the call in its place, the value has the type that the call returns, so the mismatch
is gone exactly if that type meets the demand at the place. Where the name calls what turns the one
type into the other, it does, except with two values of a type that an operator does not take.
-/

namespace Prosaic

open Diagnostic

namespace TypeEnv

variable {env : TypeEnv} {scope : Scope}

/-! ### Calls of conversions -/

/-- The type of a call, for which its name alone decides. -/
def resultOf (env : TypeEnv) (name : String) : Ty :=
  match env.callee name with
  | .base b => .base b
  | .known _ _ returns => returns.getD .error
  | .unknown => .error

theorem ty_infer_call (expected : Option Ty) (name : Name) (args : List Expr) (note : CallNote) :
    (env.infer scope expected (.call name args note)).ty = env.resultOf name.text := by
  simp only [infer, resultOf]
  cases env.callee name.text with
  | base b => rfl
  | unknown => rfl
  | known target parameters returns =>
      simp only [callType, Bool.true_and]
      cases returns <;> rfl

/-- A name calls what turns values of one type into values of another one. -/
def Turns (env : TypeEnv) (name : String) (actual expected : Ty) : Prop :=
  match env.callee name with
  | .base b => expected = .base b ∧ env.underlying? actual = some expected
  | .known _ parameters returns => parameters.map Prod.snd = [actual] ∧ returns = some expected
  | .unknown => False

theorem Turns.resultOf {name : String} {actual expected : Ty}
    (h : env.Turns name actual expected) : env.resultOf name = expected := by
  unfold Turns at h
  unfold TypeEnv.resultOf
  split at h
  · exact h.1.symm
  · rw [h.2]
    rfl
  · exact h.elim

/-- A conversion adds nothing to what is found in the value. -/
theorem Turns.found_infer_call {name : Name} {expected : Option Ty} {e : Expr} {t : Ty}
    (h : env.Turns name.text (env.infer scope expected e).ty t) (expected' : Option Ty)
    (note : CallNote) :
    ∃ x, (env.infer scope expected' (.call name [e] note)).found =
      (env.infer scope x e).found := by
  unfold Turns at h
  simp only [infer]
  split at h
  · next b hcallee =>
      obtain ⟨rfl, hunderlying⟩ := h
      have hvalue := infer_of_underlying hunderlying none
      refine ⟨none, ?_⟩
      simp only [hcallee, callType, Callee.expectations, inferAll, List.headD_nil,
        baseConversionFindings, hvalue, hunderlying, decide_true, Bool.or_true, if_true,
        List.append_nil]
  · next target parameters returns hcallee =>
      obtain ⟨hparameters, rfl⟩ := h
      obtain ⟨⟨parameter, u⟩, rfl, rfl⟩ := List.map_eq_singleton_iff.mp hparameters
      have hself : (env.infer scope (some (env.infer scope expected e).ty) e).ty =
          (env.infer scope expected e).ty := ty_infer_self expected e
      refine ⟨some (env.infer scope expected e).ty, ?_⟩
      simp only [hcallee, Callee.expectations, inferAll, found_callType_known]
      simp [argumentFindings, nothingFindings, hself, assignable_self]
  · exact h.elim

end TypeEnv

/-! ### What meets a demand -/

/-- A call that returns a type meets a demand. -/
def Demand.Accepts (env : TypeEnv) (t : Ty) : Demand → Prop
  | .argument _ _ u | .element _ u | .result _ u => t.same u = true
  | .operand op left _ =>
    match op with
    | .and | .or => True
    | .is | .isNot => t.same left.ty = true ∨ env.assignable left.expr left.ty t = true
    | .less | .greater | .lessEqual | .greaterEqual =>
      left.ty.same .number = true ∧ t.same .number = true ∨
        left.ty.same .dateTime = true ∧ t.same .dateTime = true
    | .add =>
      left.ty.same .number = true ∧ t.same .number = true ∨
        left.ty.same .string = true ∧ t.same .string = true
    | .subtract | .multiply | .divide => left.ty.same .number = true ∧ t.same .number = true

/-- An operator takes two values of a type. -/
def BinaryOp.Takes (t : Ty) : BinaryOp → Prop
  | .and | .or | .is | .isNot => True
  | .less | .greater | .lessEqual | .greaterEqual =>
    t.same .number = true ∨ t.same .dateTime = true
  | .add => t.same .number = true ∨ t.same .string = true
  | .subtract | .multiply | .divide => t.same .number = true

/-- A value of the type that a hint aims at meets the demand. -/
def Demand.Attainable : Demand → Prop
  | .operand op left _ => op.Takes left.ty
  | _ => True

namespace Demand

variable {env : TypeEnv} {v : Typing}

theorem accepts_target (d : Demand) : d.Accepts env d.target ↔ d.Attainable := by
  have hself : ∀ t : Ty, t.same t = true := fun t => by simp [Ty.same]
  cases d with
  | argument | element | result => exact iff_of_true (hself _) trivial
  | operand op left start =>
      cases op <;> simp only [Accepts, Attainable, BinaryOp.Takes, target, and_self, hself, true_or]

theorem snd_ite_eq_nil {p : Prop} [Decidable p] {a b : Ty} {m : Diagnostic} :
    (if p then (a, []) else (b, [m])).2 = [] ↔ p := by
  split <;> simp [*]

theorem snd_ite_ite_eq_nil {p q : Prop} [Decidable p] [Decidable q] {a b c : Ty}
    {m : Diagnostic} :
    (if p then (a, []) else if q then (b, []) else (c, [m])).2 = [] ↔ p ∨ q := by
  by_cases hp : p
  · simp [hp]
  · simp [hp, snd_ite_eq_nil]

/-- An expression that is no literal meets a demand exactly if its type does. -/
theorem found_eq_nil_iff (d : Demand) (hv : v.expr.stringLiteral? = none) :
    d.found env v = [] ↔ d.Accepts env v.ty := by
  have hassignable : ∀ t, env.assignable v.expr v.ty t = v.ty.same t := fun t => by
    simp [TypeEnv.assignable, hv]
  cases d with
  | argument target parameter t =>
      simp [found, Accepts, TypeEnv.argumentFindings, hassignable]
  | element x t => simp [found, Accepts, TypeEnv.elementFindings, hassignable]
  | result function t => simp [found, Accepts, hassignable]
  | operand op left start =>
      cases op with
      | and | or => exact iff_of_true rfl trivial
      | add =>
          simp only [found, Accepts, TypeEnv.binaryType, snd_ite_ite_eq_nil, Bool.and_eq_true]
      | _ =>
          simp only [found, Accepts, TypeEnv.binaryType, hassignable, snd_ite_eq_nil,
            Bool.and_eq_true, Bool.or_eq_true]

/-- What a demand adds to the findings is at most one type mismatch. -/
theorem found_cases (d : Demand) (env : TypeEnv) (v : Typing) :
    d.found env v = [] ∨
      ∃ message start hint, d.found env v = [TypeEnv.mismatch message start hint] := by
  cases d with
  | argument target parameter t =>
      simp only [found, TypeEnv.argumentFindings, List.nil_append, List.append_nil]
      split
      · exact .inl rfl
      · exact .inr ⟨_, _, _, rfl⟩
  | element x t =>
      simp only [found, TypeEnv.elementFindings, List.nil_append, List.append_nil]
      split
      · exact .inl rfl
      · exact .inr ⟨_, _, _, rfl⟩
  | result function t =>
      simp only [found]
      split
      · exact .inl rfl
      · exact .inr ⟨_, _, _, rfl⟩
  | operand op left start =>
      simp only [found, TypeEnv.binaryType]
      repeat' split
      all_goals first | exact .inl rfl | exact .inr ⟨_, _, _, rfl⟩

theorem found_of_mem {d : Demand} {x : Diagnostic} (hx : x ∈ d.found env v) :
    d.found env v = [x] ∧ x.code = typeMismatch := by
  rcases d.found_cases env v with hnil | ⟨message, start, hint, hone⟩
  · rw [hnil] at hx
    cases hx
  · rw [hone] at hx ⊢
    obtain rfl := List.mem_singleton.mp hx
    exact ⟨rfl, rfl⟩

end Demand

/-! ### Places in programs -/

theorem TypeEnv.DeclsPlace.header {env : TypeEnv} {local_ : Scope} {demand : Demand}
    {ss : List Signature} {context : Expr → List Decl}
    (h : env.DeclsPlace local_ demand ss context) (e e' : Expr) :
    (context e).map Decl.header = (context e').map Decl.header := by
  induction h with
  | body => rfl
  | function _ ih => exact congrArg (_ :: ·) ih
  | skipped _ _ ih => exact congrArg (_ :: ·) ih

/-- An expression of a program at a place where something is demanded of it: the scope there, what
is demanded, and the declarations as a function of the expression. -/
structure Program.Place (p : Program) (registry : Registry) where
  scope : Scope
  demand : Demand
  context : Expr → List Decl
  expr : Expr
  isPlace : (Declared.of registry p).env.DeclsPlace scope demand
    (Declared.of registry p).signatures context
  declarations : p.declarations = context expr

namespace Program.Place

variable {p : Program} {registry : Registry}

/-- What is declared in the program. -/
def env (_ : p.Place registry) : TypeEnv := (Declared.of registry p).env

variable (place : p.Place registry)

/-- An expression, checked at the place. -/
def typing (e : Expr) : Typing := place.demand.typing place.env place.scope e

/-- What is found at the place apart from what is found in the expression that stands there. -/
def own (e : Expr) : List Diagnostic := place.demand.found place.env (place.typing e)

/-- The program with another expression at the place. -/
def put (e : Expr) : Program := { p with declarations := place.context e }

theorem put_expr : place.put place.expr = p := by
  rw [put, ← place.declarations]

theorem declared_put (e : Expr) :
    Declared.of registry (place.put e) = Declared.of registry p := by
  rw [← Declared.of_headers registry (place.put e), ← Declared.of_headers registry p]
  congr 1
  rw [Program.headers, Program.headers, place.declarations]
  exact congrArg (Program.mk · p.span) (place.isPlace.header e place.expr)

/-- Whatever stands at the place, as long as a program is checked in time its findings are those
about the place and others, and what is in front of them stays the same. -/
theorem checkTypes_put {budget : Budget} {found : List Diagnostic}
    (h : (p.checkTypes registry budget).result = .ok found) :
    ∃ front, ∀ e, ∃ back, ((place.put e).checkTypes registry budget).result =
      .ok (front ++ (place.typing e).found ++ place.own e ++ back) := by
  have htime : ∀ e, (place.env.checkDecls ⟨budget, none⟩ (place.context e)
      (Declared.of registry p).signatures).2.2.exceeded = none := fun e => by
    rw [env, place.isPlace.timer e place.expr, ← place.declarations]
    exact (Program.checkTypes_eq_ok.mp h).1
  obtain ⟨front, hfront⟩ := place.isPlace.encloses htime
  refine ⟨(Declared.of registry p).found ++ front, fun e => ?_⟩
  obtain ⟨back, hback⟩ := hfront e
  refine ⟨back, Program.checkTypes_eq_ok.mpr ?_⟩
  rw [place.declared_put]
  refine ⟨htime e, ?_⟩
  simp only [put, hback, typing, own, Demand.report, env, List.append_assoc]

/-- What stands at the place if a proposal is followed: a call with the expression. -/
def followed (name : String) (span : Span) (note : CallNote) : Expr :=
  .call ⟨name, span⟩ [place.expr] note

theorem ty_typing_followed (name : String) (span : Span) (note : CallNote) :
    (place.typing (place.followed name span note)).ty = place.env.resultOf name :=
  TypeEnv.ty_infer_call place.demand.expectation ⟨name, span⟩ [place.expr] note

/-- A call stays one when it is checked, so no literal stands at the place. -/
theorem stringLiteral?_typing_followed (name : String) (span : Span) (note : CallNote) :
    (place.typing (place.followed name span note)).expr.stringLiteral? = none := by
  simp only [typing, Demand.typing, followed, TypeEnv.infer, Expr.stringLiteral?]

/-- A finding of a check is about the expression at a place and proposes a call, and this is what
the proposal leads to. -/
structure Explains (place : p.Place registry) (budget : Budget) (found : List Diagnostic)
    (d : Diagnostic) (name : String) : Prop where
  /-- The finding is what is demanded of the expression and not met. -/
  own_expr : place.own place.expr = [d]
  /-- A check of the program that follows the proposal finds the same in front of the place, then
  what is in the call, and then what the call itself does not meet. -/
  checked : ∃ front, (∃ back, found = front ++ (place.typing place.expr).found ++ [d] ++ back) ∧
    ∀ span note, ∃ back,
      ((place.put (place.followed name span note)).checkTypes registry budget).result =
        .ok (front ++ (place.typing (place.followed name span note)).found
          ++ place.own (place.followed name span note) ++ back)
  /-- What the call does not meet is a type mismatch again. -/
  mismatch : ∀ span note, ∀ x ∈ place.own (place.followed name span note), x.code = typeMismatch
  /-- The proposal leads somewhere exactly if what the name returns meets the demand. -/
  repaired_iff : ∀ span note, place.own (place.followed name span note) = [] ↔
    place.demand.Accepts place.env (place.env.resultOf name)
  /-- If the name turns the one type into the other, then the call is in order, and the demand is
  met exactly if any value of that type would do. -/
  turned : place.env.Turns name (place.typing place.expr).ty place.demand.target →
    ∀ span note,
      (∃ x, (place.typing (place.followed name span note)).found =
        (place.env.infer place.scope x place.expr).found) ∧
      (place.own (place.followed name span note) = [] ↔ place.demand.Attainable)

theorem explains {budget : Budget} {found : List Diagnostic} {d : Diagnostic} (name : String)
    (h : (p.checkTypes registry budget).result = .ok found) (hd : d ∈ place.own place.expr) :
    place.Explains budget found d name := by
  obtain ⟨hown, -⟩ := Demand.found_of_mem hd
  have hrepaired : ∀ span note, place.own (place.followed name span note) = [] ↔
      place.demand.Accepts place.env (place.env.resultOf name) := fun span note => by
    rw [← place.ty_typing_followed name span note]
    exact place.demand.found_eq_nil_iff (place.stringLiteral?_typing_followed name span note)
  obtain ⟨front, hfront⟩ := place.checkTypes_put h
  refine ⟨hown, ⟨front, ?_, fun span note => hfront _⟩, fun span note x hx =>
    (Demand.found_of_mem hx).2, hrepaired, fun hturns span note => ⟨?_, ?_⟩⟩
  · obtain ⟨back, hback⟩ := hfront place.expr
    rw [place.put_expr, h, Except.ok.injEq] at hback
    exact ⟨back, hown ▸ hback⟩
  · exact hturns.found_infer_call place.demand.expectation note
  · rw [hrepaired, hturns.resultOf, Demand.accepts_target]

end Program.Place

/-! ### Proposals and what they lead to -/

/-- What proposes a call is found about an expression at a place. -/
theorem Program.exists_place {p : Program} {registry : Registry} {budget : Budget}
    {found : List Diagnostic} {d : Diagnostic} {name : String}
    (h : (p.checkTypes registry budget).result = .ok found) (hd : d ∈ found)
    (hproposes : d.Proposes name) : ∃ place : p.Place registry, d ∈ place.own place.expr := by
  obtain ⟨-, rfl⟩ := Program.checkTypes_eq_ok.mp h
  rcases List.mem_append.mp hd with hd | hd
  · exact absurd hproposes (proposesNone_declared registry p d hd name)
  · obtain ⟨scope, demand, context, e, hplace, hdeclarations, hd⟩ :=
      TypeEnv.declsPlaced_of_checkDecls hd hproposes
    exact ⟨⟨scope, demand, context, e, hplace, hdeclarations⟩, hd⟩

/-- Whatever finding of a type check proposes a call, it is found about an expression at a place of
the program. Put in place of any such expression, the call meets the demand exactly if what the name
returns does. -/
theorem Program.checkTypes_explains {p : Program} {registry : Registry} {budget : Budget}
    {found : List Diagnostic} {d : Diagnostic} {name : String}
    (h : (p.checkTypes registry budget).result = .ok found) (hd : d ∈ found)
    (hproposes : d.Proposes name) :
    (∃ place : p.Place registry, d ∈ place.own place.expr) ∧
      ∀ place : p.Place registry, d ∈ place.own place.expr → place.Explains budget found d name :=
  ⟨Program.exists_place h hd hproposes, fun place => place.explains name h⟩

/-- A registry with one domain type, whose values are made from numbers. -/
def countRegistry : Registry :=
  ⟨[("Count", .domain "Count")], [("Count", ⟨some .number, [], true⟩)], [], [], []⟩

/-- A function of a count that tells whether one expression is less than another one. -/
def lessThan (left right : Expr) : Program :=
  let nowhere : Span := ⟨.first, .first⟩
  let comparison : Expr := .binary .less left right ⟨nowhere, none⟩
  ⟨[.function ⟨⟨"f", nowhere⟩, [⟨"a", .named "Count" nowhere, nowhere⟩],
    some (.named "Boolean" nowhere), .pure, [.return (some comparison) nowhere], none, nowhere,
    none⟩], nowhere⟩

/-- The parameter of such a function. -/
def count : Expr := .variable "a" ⟨⟨.first, .first⟩, none⟩

def three : Expr := .literal (.number (.integer 3)) ⟨⟨.first, .first⟩, none⟩

/-- A call of a conversion. -/
def converted (name : String) (e : Expr) : Expr :=
  .call ⟨name, ⟨.first, .first⟩⟩ [e] ⟨⟨.first, .first⟩, none, none, none⟩

/-- What is reported about the comparison of two types. -/
def incomparable (left right : String) (hint : Option String) : Diagnostic :=
  ⟨typeMismatch, "'<' compares two Numbers or two DateTimes, not " ++ left ++ " and " ++ right,
    ⟨1, 1⟩, hint, .types⟩

/-- A number is compared with a count. The hint to turn the count into a number works. -/
theorem explains_countRight :
    let d := incomparable "Number" "Count" (some "Convert explicitly with 'Number of <value>'.")
    let budget := Budget.start .standard .still
    ((lessThan three count).checkTypes countRegistry budget).result = .ok [d] ∧
      d.Proposes "Number" ∧
      (∃ place : (lessThan three count).Place countRegistry,
        place.Explains budget [d] d "Number") ∧
      ((lessThan three (converted "Number" count)).checkTypes countRegistry budget).result =
        .ok [] := by
  intro d budget
  have hfound : ((lessThan three count).checkTypes countRegistry budget).result = .ok [d] :=
    toOption_eq_some.mp (by decide +kernel)
  have hproposes : d.Proposes "Number" := ⟨rfl, .inl rfl⟩
  obtain ⟨⟨place, hplace⟩, hexplains⟩ :=
    Program.checkTypes_explains hfound List.mem_cons_self hproposes
  exact ⟨hfound, hproposes, ⟨place, hexplains place hplace⟩,
    toOption_eq_some.mp (by decide +kernel)⟩

/-- A count is compared with a number. The hint to turn the number into a count leads nowhere, as
counts cannot be compared. -/
theorem not_repaired_countLeft :
    let d := incomparable "Count" "Number" (some "Convert explicitly with 'Count of <value>'.")
    let budget := Budget.start .standard .still
    ((lessThan count three).checkTypes countRegistry budget).result = .ok [d] ∧
      d.Proposes "Count" ∧
      ((lessThan count (converted "Count" three)).checkTypes countRegistry budget).result =
        .ok [incomparable "Count" "Count" none] :=
  ⟨toOption_eq_some.mp (by decide +kernel), ⟨rfl, .inl rfl⟩,
    toOption_eq_some.mp (by decide +kernel)⟩

end Prosaic
