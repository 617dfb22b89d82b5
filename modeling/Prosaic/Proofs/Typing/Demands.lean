import Prosaic.Proofs.Typing.Statement

/-!
What the type check demands of an expression because of where it stands: of an argument, of an
element of a list behind the first one, of what is returned, and of the right operand of an infix
operation. Among the findings about a list or a call, those about one member stand together; what
stands in front of them does not depend on that member.
-/

namespace Prosaic

/-! ### Demands -/

/-- What the check demands of an expression because of where it stands. -/
inductive Demand
  | argument (target parameter : String) (expected : Ty)
  | element (expectation : Option Ty) (expected : Ty)
  | result (function : String) (expected : Ty)
  | operand (op : BinaryOp) (left : Typing) (start : Position)

namespace Demand

/-- The type that the expression is expected to have while it is checked. -/
def expectation : Demand → Option Ty
  | argument _ _ t | result _ t => some t
  | element x _ => x
  | operand _ left _ => some left.ty

/-- The type that a value is to be turned into where it does not meet the demand. -/
def target : Demand → Ty
  | argument _ _ t | element _ t | result _ t => t
  | operand _ left _ => left.ty

/-- What is found wrong with a checked expression, apart from what is found in it. -/
def found (env : TypeEnv) (v : Typing) : Demand → List Diagnostic
  | argument target parameter t =>
    env.argumentFindings target [{ v with found := [] }] [(parameter, t)]
  | element _ t => env.elementFindings t [{ v with found := [] }]
  | result function t =>
    if env.assignable v.expr v.ty t then []
    else
      [TypeEnv.mismatch ("Function '" ++ function ++ "' must return " ++ t.text
        ++ ", but this returns " ++ v.ty.text) v.expr.span.start (env.conversionHint v.expr v.ty t)]
  | operand op left start => (env.binaryType op left v start).2

/-- An expression, checked as the demand expects it. -/
def typing (d : Demand) (env : TypeEnv) (scope : Scope) (e : Expr) : Typing :=
  env.infer scope d.expectation e

/-- All that is found about an expression where something is demanded of it. -/
def report (d : Demand) (env : TypeEnv) (scope : Scope) (e : Expr) : List Diagnostic :=
  (d.typing env scope e).found ++ d.found env (d.typing env scope e)

end Demand

/-! ### Findings around others -/

/-- The second findings are the first ones between others, and those in front do not depend on what
the findings are about. -/
def Encloses {α : Type} (inner outer : α → List Diagnostic) : Prop :=
  ∃ front, ∀ a, ∃ back, outer a = front ++ inner a ++ back

namespace Encloses

variable {α β : Type} {inner middle outer : α → List Diagnostic}

theorem of_eq (front : List Diagnostic) (back : α → List Diagnostic)
    (h : ∀ a, outer a = front ++ inner a ++ back a) : Encloses inner outer :=
  ⟨front, fun a => ⟨back a, h a⟩⟩

theorem of_eq_append (back : α → List Diagnostic) (h : ∀ a, outer a = inner a ++ back a) :
    Encloses inner outer :=
  .of_eq [] back h

theorem trans (h : Encloses inner middle) (h' : Encloses middle outer) : Encloses inner outer := by
  obtain ⟨front, hmiddle⟩ := h
  obtain ⟨front', houter⟩ := h'
  refine ⟨front' ++ front, fun a => ?_⟩
  obtain ⟨back, hmiddle⟩ := hmiddle a
  obtain ⟨back', houter⟩ := houter a
  exact ⟨back ++ back', by rw [houter, hmiddle]; simp only [List.append_assoc]⟩

theorem comp (h : Encloses inner outer) (f : β → α) :
    Encloses (fun b => inner (f b)) (fun b => outer (f b)) := by
  obtain ⟨front, h⟩ := h
  exact ⟨front, fun b => h (f b)⟩

end Encloses

namespace TypeEnv

/-! ### Lists and arguments -/

/-- The type that the elements of a list have to share, from the first of them. -/
def elementTy (env : TypeEnv) (expected : Option Ty) (first : Typing) : Ty :=
  match expected with
  | some (.list t) => if env.assignable first.expr first.ty t then t else first.ty
  | _ => first.ty

/-- How messages write what a call passes its arguments to. -/
def targetText (target : CallTarget) (name : Name) : String :=
  match target with
  | .conversion => "conversion '" ++ name.text ++ " of'"
  | _ => "'" ++ name.text ++ "'"

section

variable (env : TypeEnv) (scope : Scope)

theorem inferAll_append (expected : List (Option Ty)) (es : List Expr) (e : Expr)
    (es' : List Expr) :
    env.inferAll scope expected (es ++ e :: es') =
      env.inferAll scope expected es ++ env.infer scope (expected.getD es.length none) e ::
        env.inferAll scope (expected.drop (es.length + 1)) es' := by
  induction es generalizing expected with
  | nil => cases expected <;> simp [inferAll]
  | cons first es ih => cases expected <;> simp [inferAll, ih]

@[simp] theorem length_inferAll (expected : List (Option Ty)) (es : List Expr) :
    (env.inferAll scope expected es).length = es.length := by
  induction es generalizing expected with
  | nil => simp [inferAll]
  | cons e es ih => simp [inferAll, ih]

theorem elementFindings_append (t : Ty) (vs vs' : List Typing) :
    env.elementFindings t (vs ++ vs') = env.elementFindings t vs ++ env.elementFindings t vs' := by
  induction vs with
  | nil => rfl
  | cons v vs ih => simp only [List.cons_append, elementFindings, ih, List.append_assoc]

theorem elementFindings_cons (x : Option Ty) (t : Ty) (v : Typing) (vs : List Typing) :
    env.elementFindings t (v :: vs) =
      v.found ++ (Demand.element x t).found env v ++ env.elementFindings t vs := by
  simp only [Demand.found, elementFindings, List.nil_append, List.append_nil]

theorem argumentFindings_cons (target name : String) (t : Ty) (v : Typing) (vs : List Typing)
    (ps : List (String × Ty)) :
    env.argumentFindings target (v :: vs) ((name, t) :: ps) =
      v.found ++ (Demand.argument target name t).found env v
        ++ env.argumentFindings target vs ps := by
  simp only [Demand.found, argumentFindings, List.nil_append, List.append_nil]

theorem argumentFindings_append (target : String) {name : String} {t : Ty} {vs vs' : List Typing}
    {ps : List (String × Ty)} (v : Typing) (hp : ps[vs.length]? = some (name, t)) :
    env.argumentFindings target (vs ++ v :: vs') ps =
      env.argumentFindings target vs ps
        ++ (v.found ++ (Demand.argument target name t).found env v)
        ++ env.argumentFindings target vs' (ps.drop (vs.length + 1)) := by
  induction vs generalizing ps with
  | nil =>
      cases ps with
      | nil => cases hp
      | cons p ps =>
          obtain rfl : p = (name, t) := Option.some.inj hp
          exact env.argumentFindings_cons target name t v vs' ps
  | cons first vs ih =>
      cases ps with
      | nil => cases hp
      | cons p ps =>
          have hrest := ih (show ps[vs.length]? = some (name, t) by simpa using hp)
          simp only [List.cons_append, argumentFindings, hrest, List.append_assoc, List.length_cons,
            List.drop_succ_cons]

theorem flatMap_encloses (vs vs' : List Typing) :
    Encloses Typing.found fun v => (vs ++ v :: vs').flatMap Typing.found :=
  .of_eq (vs.flatMap Typing.found) (fun _ => vs'.flatMap Typing.found) fun v => by
    simp only [List.flatMap_append, List.flatMap_cons, List.append_assoc]

theorem listType_encloses (expected : Option Ty) (vs vs' : List Typing) (start : Position) :
    Encloses Typing.found fun v => (env.listType expected (vs ++ v :: vs') start).2 := by
  cases vs with
  | nil => exact .of_eq_append _ fun v => rfl
  | cons first vs =>
      let t := env.elementTy expected first
      refine .of_eq (first.found ++ env.elementFindings t vs)
        (fun v => (Demand.element none t).found env v ++ env.elementFindings t vs')
        fun v => ?_
      change first.found ++ env.elementFindings t (vs ++ v :: vs') = _
      rw [elementFindings_append, elementFindings_cons env none]
      simp only [List.append_assoc]

theorem listType_encloses_element (expected x : Option Ty) (first : Typing) (vs vs' : List Typing)
    (start : Position) :
    Encloses (fun v => v.found ++ (Demand.element x (env.elementTy expected first)).found env v)
      fun v => (env.listType expected (first :: vs ++ v :: vs') start).2 := by
  generalize ht : env.elementTy expected first = t
  refine .of_eq (first.found ++ env.elementFindings t vs)
    (fun _ => env.elementFindings t vs') fun v => ?_
  change first.found ++ env.elementFindings (env.elementTy expected first) (vs ++ v :: vs') = _
  rw [ht, elementFindings_append, elementFindings_cons env x]
  simp only [List.append_assoc]

/-- The finding that a conversion to a base type does not have one argument. -/
def conversionArity (b : Base) (start : Position) (count : Nat) : Diagnostic :=
  typeFinding Diagnostic.arityMismatch ("Conversion '" ++ b.text
    ++ " of' takes exactly 1 argument but was given " ++ toString count) start
    (some ("Write '" ++ b.text ++ " of <value>'."))

theorem baseConversionFindings_of_length {b : Base} {start : Position} {vs : List Typing}
    (h : vs.length ≠ 1) :
    env.baseConversionFindings b start vs =
      conversionArity b start vs.length :: vs.flatMap Typing.found := by
  unfold baseConversionFindings
  split
  · exact absurd rfl h
  · rfl

theorem baseConversion_encloses (b : Base) (start : Position) (vs vs' : List Typing) :
    Encloses Typing.found fun v => env.baseConversionFindings b start (vs ++ v :: vs') := by
  by_cases hsingle : vs = [] ∧ vs' = []
  · obtain ⟨rfl, rfl⟩ := hsingle
    exact .of_eq_append _ fun v => rfl
  · have hcount : ∀ v, (vs ++ v :: vs').length = vs.length + vs'.length + 1 := fun v => by
      rw [List.length_append, List.length_cons, Nat.add_assoc]
    have hmany : vs.length + vs'.length + 1 ≠ 1 := fun h => hsingle (by simpa using h)
    refine (flatMap_encloses vs vs').trans (.of_eq
      [conversionArity b start (vs.length + vs'.length + 1)] (fun _ => []) fun v => ?_)
    rw [baseConversionFindings_of_length env (hcount v ▸ hmany), hcount, List.append_nil]
    rfl

/-! ### Calls -/

variable (name : Name) (asValue : Bool)

/-- The finding that a call does not have as many arguments as its callee has parameters. -/
def arityFinding (name : Name) (parameters : List (String × Ty)) (count : Nat) : Diagnostic :=
  typeFinding Diagnostic.arityMismatch
    ("'" ++ name.text ++ "' expects " ++ toString parameters.length
      ++ " argument(s) but was given " ++ toString count) name.span.start
    (some ("Signature: " ++ signatureText name.text parameters ++ "."))

/-- What is found about a call of something that returns nothing, where a value is needed. -/
def nothingFindings (name : Name) (parameters : List (String × Ty)) (returns : Option Ty)
    (asValue : Bool) : List Diagnostic :=
  if asValue && returns.isNone then
    [mismatch ("'" ++ name.text ++ "' returns nothing and cannot be used as a value")
      name.span.start (some ("Use it as a statement: 'Call " ++ name.text
        ++ (if parameters.isEmpty then "" else " with ...") ++ ".'."))]
  else []

theorem found_callType_known {target : CallTarget} {parameters : List (String × Ty)}
    {returns : Option Ty} {vs : List Typing} :
    (env.callType scope name (.known target parameters returns) vs asValue).found =
      (if vs.length = parameters.length then
        env.argumentFindings (targetText target name) vs parameters
      else arityFinding name parameters vs.length :: vs.flatMap Typing.found)
        ++ nothingFindings name parameters returns asValue := by
  unfold callType nothingFindings
  dsimp only
  cases asValue && returns.isNone with
  | true => rfl
  | false => exact (List.append_nil _).symm

/-- What is found about an argument is found in a call with the right number of them. -/
theorem callType_encloses_argument {target : CallTarget} {parameters : List (String × Ty)}
    {returns : Option Ty} {vs vs' : List Typing} {parameter : String} {t : Ty}
    (hcount : vs.length + vs'.length + 1 = parameters.length)
    (hparameter : parameters[vs.length]? = some (parameter, t)) :
    Encloses
      (fun v => v.found ++ (Demand.argument (targetText target name) parameter t).found env v)
      fun v => (env.callType scope name (.known target parameters returns) (vs ++ v :: vs')
        asValue).found := by
  refine .of_eq (env.argumentFindings (targetText target name) vs parameters)
    (fun _ =>
      env.argumentFindings (targetText target name) vs' (parameters.drop (vs.length + 1))
        ++ nothingFindings name parameters returns asValue) fun v => ?_
  have hlength : (vs ++ v :: vs').length = parameters.length := by
    rw [List.length_append, List.length_cons, ← hcount, Nat.add_assoc]
  rw [found_callType_known, if_pos hlength, argumentFindings_append env _ v hparameter]
  simp only [List.append_assoc]

/-- What is found in an argument is found in the call. -/
theorem callType_encloses (c : Callee) (vs vs' : List Typing) :
    Encloses Typing.found
      fun v => (env.callType scope name c (vs ++ v :: vs') asValue).found := by
  have hcount : ∀ v, (vs ++ v :: vs').length = vs.length + vs'.length + 1 := fun v => by
    rw [List.length_append, List.length_cons, Nat.add_assoc]
  cases c with
  | base b => exact env.baseConversion_encloses b name.span.start vs vs'
  | unknown =>
      exact (flatMap_encloses vs vs').trans (.of_eq_append
        (fun _ => [env.unknownCallee scope name]) fun v => rfl)
  | known target parameters returns =>
      by_cases hlength : vs.length + vs'.length + 1 = parameters.length
      · have hlt : vs.length < parameters.length := by omega
        exact (Encloses.of_eq_append _ fun v => rfl).trans
          (env.callType_encloses_argument scope name asValue hlength (List.getElem?_eq_getElem hlt))
      · refine (flatMap_encloses vs vs').trans (.of_eq
          [arityFinding name parameters (vs.length + vs'.length + 1)]
          (fun _ => nothingFindings name parameters returns asValue) fun v => ?_)
        rw [found_callType_known, hcount, if_neg hlength]
        rfl

end

end TypeEnv

end Prosaic
