import Prosaic.Proofs.Program.Placed
import Prosaic.Proofs.Typing.Placeholder

/-!
The places of a program where the check reports on a value that failed. An operator is reported
where one operand failed and the other one has a type that it does not take; lists of something that
failed are no failed values for a field selection and a conversion to a base type; and a `Return` is
reported whatever is returned where nothing should be, or is missing where something should be.
These places show in the tree that the check leaves, and the findings are discreet exactly if there
are none.
-/

namespace Prosaic

open Diagnostic

/-! ### Careless places -/

/-- The types of which an operator takes two values, if it does not take all. -/
def BinaryOp.taken? : BinaryOp → Option (List Ty)
  | .and | .or | .is | .isNot => none
  | .less | .greater | .lessEqual | .greaterEqual => some [.number, .dateTime]
  | .add => some [.number, .string]
  | .subtract | .multiply | .divide => some [.number]

/-- A type that did not fail, and of which an operator takes no values. -/
def BinaryOp.Rejects (op : BinaryOp) (t : Ty) : Prop :=
  ∃ ts ∈ op.taken?, t ∉ ts ∧ t.containsError = false

/-- One of the operands failed, and the operator rejects the other one. -/
def BinaryOp.Careless (op : BinaryOp) (left right : Ty) : Prop :=
  left.containsError = true ∧ op.Rejects right ∨ right.containsError = true ∧ op.Rejects left

/-- The condition of a node that is reported because of a value that failed. -/
def Expr.Careless : Expr → Prop
  | .binary op left right _ => ∃ t ∈ left.ty?, ∃ u ∈ right.ty?, op.Careless t u
  | .field base _ _ => ∃ t ∈ base.ty?, t.FailedList
  | .call callee [arg] _ =>
    (Base.ofText? callee.text).isSome = true ∧ ∃ t ∈ arg.ty?, t.FailedList
  | _ => False

/-- An operator that takes all types is not reported because of a failed operand. -/
theorem BinaryOp.not_careless {op : BinaryOp} (hop : op.taken? = none) (left right : Ty) :
    ¬op.Careless left right := by
  rintro (⟨-, ts, hts, -⟩ | ⟨-, ts, hts, -⟩) <;> simp [hop] at hts

/-- The condition of a node whose name, if it calls or selects by one, is a word. -/
def Expr.Worded (e : Expr) : Prop := ∀ n ∈ e.name?, isWord n.text.toList = true

mutual

/-- The names in a statement are words. -/
def Stmt.Worded : Stmt → Prop
  | .bind name init _ => isWord name.text.toList = true ∧ init.Everywhere Expr.Worded
  | .branch condition thenBlock none _ =>
    condition.Everywhere Expr.Worded ∧ Stmt.AllWorded thenBlock
  | .branch condition thenBlock (some otherwise) _ =>
    condition.Everywhere Expr.Worded ∧ Stmt.AllWorded thenBlock ∧ Stmt.AllWorded otherwise
  | .forEach item iterable body _ =>
    isWord item.text.toList = true ∧ iterable.Everywhere Expr.Worded ∧ Stmt.AllWorded body
  | .call callee args note _ => (Expr.call callee args note).Everywhere Expr.Worded
  | .return none _ => True
  | .return (some value) _ => value.Everywhere Expr.Worded
  | .expression value _ => value.Everywhere Expr.Worded

def Stmt.AllWorded : List Stmt → Prop
  | [] => True
  | s :: ss => s.Worded ∧ Stmt.AllWorded ss

end

@[simp] theorem Stmt.allWorded_iff {ss : List Stmt} :
    Stmt.AllWorded ss ↔ ∀ s ∈ ss, s.Worded := by
  induction ss with
  | nil => simp [Stmt.AllWorded]
  | cons s ss ih => simp [Stmt.AllWorded, ih]

/-- The names in a function are words, except for one that could not be read. -/
structure FunctionDecl.Worded (f : FunctionDecl) : Prop where
  name : isWord f.name.text.toList = true ∨ f.name.text = unreadableName
  parameters : ∀ p ∈ f.parameters, isWord p.name.toList = true
  body : Stmt.AllWorded f.body

def Decl.Worded : Decl → Prop
  | .function f => f.Worded
  | .type t => isWord t.name.toList = true
  | .record r => isWord r.name.toList = true

/-- The names in a program are words, as those are that can be read. -/
def Program.Worded (p : Program) : Prop := ∀ d ∈ p.declarations, d.Worded

theorem FunctionDecl.Worded.unbroken_name {f : FunctionDecl} (h : f.Worded) :
    Unbroken f.name.text := by
  rcases h.name with hname | hname
  · exact unbroken_of_isWord hname
  · exact hname ▸ unbroken_unreadable

/-- No node of an expression is reported because of a value that failed. -/
def Expr.Careful (e : Expr) : Prop := e.Everywhere fun e => ¬e.Careless

mutual

/-- No part of a statement is reported because of a value that failed. `returns` is what the
function around it returns. -/
def Stmt.Careful (returns : Option Ty) : Stmt → Prop
  | .bind _ init _ => init.Careful
  | .branch condition thenBlock none _ => condition.Careful ∧ Stmt.AllCareful returns thenBlock
  | .branch condition thenBlock (some otherwise) _ =>
    condition.Careful ∧ Stmt.AllCareful returns thenBlock ∧ Stmt.AllCareful returns otherwise
  | .forEach _ iterable body _ => iterable.Careful ∧ Stmt.AllCareful returns body
  | .call callee args note _ => (Expr.call callee args note).Careful
  | .return none _ => ∀ t ∈ returns, t.containsError = false
  | .return (some value) _ =>
    value.Careful ∧ (returns = none → ∀ t ∈ value.ty?, t.containsError = false)
  | .expression value _ => value.Careful

def Stmt.AllCareful (returns : Option Ty) : List Stmt → Prop
  | [] => True
  | s :: ss => s.Careful returns ∧ Stmt.AllCareful returns ss

end

/-- No part of the body of a function is reported because of a value that failed. -/
def FunctionDecl.Careful (f : FunctionDecl) (s : Signature) : Prop :=
  Stmt.AllCareful s.returns f.body

namespace TypeEnv

variable {env : TypeEnv} {scope : Scope}

/-! ### Reports on values that failed -/

theorem same_of_failed {a : Ty} (h : a.containsError = true) (b : Ty) : a.same b = true := by
  simp [Ty.same, h]

section

variable {op : BinaryOp} {ts : List Ty} (hop : op.taken? = some ts) {left right : Ty}

include hop

theorem rejects_iff (t : Ty) : op.Rejects t ↔ ¬∃ u ∈ ts, t.same u = true := by
  cases op <;> cases hop <;> simp [BinaryOp.Rejects, BinaryOp.taken?, Ty.same, Ty.containsError]
  all_goals tauto

theorem not_careless_of_same (h : ∃ u ∈ ts, left.same u = true ∧ right.same u = true) :
    ¬op.Careless left right := by
  obtain ⟨u, hu, hleft, hright⟩ := h
  rintro (⟨-, hrejects⟩ | ⟨-, hrejects⟩)
  · exact (rejects_iff hop right).mp hrejects ⟨u, hu, hright⟩
  · exact (rejects_iff hop left).mp hrejects ⟨u, hu, hleft⟩

/-- Where two operands go together in none of the types that are taken and one of them failed, the
other one is rejected. -/
theorem careless_iff (h : ¬∃ u ∈ ts, left.same u = true ∧ right.same u = true) :
    op.Careless left right ↔ left.containsError = true ∨ right.containsError = true := by
  refine ⟨Or.imp And.left And.left, Or.imp (fun hfailed => ⟨hfailed, ?_⟩)
    fun hfailed => ⟨hfailed, ?_⟩⟩
  · rw [rejects_iff hop]
    rintro ⟨u, hu, hright⟩
    exact h ⟨u, hu, same_of_failed hfailed u, hright⟩
  · rw [rejects_iff hop]
    rintro ⟨u, hu, hleft⟩
    exact h ⟨u, hu, hleft, same_of_failed hfailed u⟩

end

section

variable (henv : env.Legible) {left right : Typing} (hleft : left.ty.Legible)
  (hright : right.ty.Legible)

include henv hleft hright

/-- A report on two operands of types that are not taken shows whichever of them failed. -/
theorem discreet_operands {op : BinaryOp} {ts : List Ty} (hop : op.taken? = some ts)
    (hclash : ¬∃ u ∈ ts, left.ty.same u = true ∧ right.ty.same u = true) {message : String}
    (hmessage : Shows message.toList ↔ left.ty.containsError = true ∨ right.ty.containsError = true)
    {start : Position} {hint : Option String}
    (hhint : hint = env.conversionHint right.expr right.ty left.ty ∨ hint = none) :
    Discreet [mismatch message start hint] ↔ ¬op.Careless left.ty right.ty := by
  rw [discreet_mismatch, hmessage, careless_iff hop hclash]
  refine and_iff_left_of_imp fun hfree => ?_
  obtain ⟨hfree, hfree'⟩ := not_or.mp hfree
  rcases hhint with rfl | rfl
  · exact discreet_conversionHint hright hleft (by simpa using hfree') (by simpa using hfree) henv _
  · exact discreetHint_none

/-- An operator is reported because of a failed operand if it does not take the other one. -/
theorem discreet_binaryType (op : BinaryOp) (start : Position) :
    Discreet (env.binaryType op left right start).2 ↔ ¬op.Careless left.ty right.ty := by
  unfold binaryType
  cases op with
  | and | or => exact iff_of_true discreet_nil (BinaryOp.not_careless rfl _ _)
  | is | isNot =>
      refine iff_of_true ?_ (BinaryOp.not_careless rfl _ _)
      dsimp only
      split
      · exact discreet_nil
      · next h =>
          simp only [assignable, Bool.or_eq_true, not_or] at h
          obtain ⟨hfree', hfree⟩ := Ty.containsError_of_same h.1.1
          refine discreet_mismatch_of ?_
            (discreet_comparisonHint hleft hright hfree hfree' henv _ _)
          simp [hleft.shows_text, hright.shows_text, hfree, hfree', BinaryOp.text]
  | less | greater | lessEqual | greaterEqual | subtract | multiply | divide =>
      dsimp only
      split
      · next h => exact iff_of_true discreet_nil (not_careless_of_same rfl (by simpa using h))
      · next h =>
          refine discreet_operands henv hleft hright rfl (by simpa using h) ?_ (by simp)
          simp [BinaryOp.text, hleft.shows_text, hright.shows_text_last]
  | add =>
      dsimp only
      split
      · next h =>
          exact iff_of_true discreet_nil
            (not_careless_of_same rfl ⟨.number, by simp, by simpa using h⟩)
      · next hnumber =>
          split
          · next h =>
              exact iff_of_true discreet_nil
                (not_careless_of_same rfl ⟨.string, by simp, by simpa using h⟩)
          · next hstring =>
              refine discreet_operands henv hleft hright rfl ?_ ?_ (.inl rfl)
              · simpa using And.intro hnumber hstring
              · simp [hleft.shows_text, hright.shows_text_last]

end

theorem discreet_fieldType {base : Ty} (hbase : base.Legible) {name : Name}
    (hname : isWord name.text.toList = true) :
    Discreet (env.fieldType base name).2 ↔ ¬base.FailedList := by
  have hlist := base.containsError_iff
  unfold fieldType
  split
  · next herror =>
      obtain rfl : base = .error := by simpa [Ty.isError] using herror
      exact iff_of_true discreet_nil id
  · next herror =>
      dsimp only
      split
      · rw [discreet_mismatch]
        simp [(unbroken_of_isWord hname).shows_append, hbase.shows_text_last, hlist, herror]
      · next r hr =>
          have hrecord : ¬base.FailedList := by
            cases base with
            | record name => exact id
            | _ => cases hr
          split
          · exact iff_of_true discreet_nil hrecord
          · exact iff_of_true (discreet_typeFinding (by decide) _ _) hrecord

theorem discreet_baseConversionFindings (b : Base) (start : Position) {vs : List Typing}
    (hvs : ∀ v ∈ vs, v.ty.Legible) :
    Discreet (env.baseConversionFindings b start vs) ↔
      (∀ v ∈ vs, Discreet v.found) ∧ ∀ v, vs = [v] → ¬v.ty.FailedList := by
  by_cases hone : vs.length = 1
  · obtain ⟨v, rfl⟩ := List.length_eq_one_iff.mp hone
    have hv := hvs v List.mem_cons_self
    have hlist := v.ty.containsError_iff
    simp only [baseConversionFindings, discreet_append, List.forall_mem_singleton]
    refine and_congr_right fun _ => ?_
    rw [show (∀ w, [v] = [w] → ¬w.ty.FailedList) ↔ ¬v.ty.FailedList by simp]
    split
    · next h =>
        refine iff_of_true discreet_nil fun hfailed => ?_
        -- a list is neither the error type nor a domain
        cases hty : v.ty with
        | list t => simp [hty, Ty.isError, underlying?, domain?] at h
        | _ => simp [hty, Ty.FailedList] at hfailed
    · next h =>
        obtain ⟨herror, -⟩ := not_or.mp (mt (Bool.or_eq_true _ _).mpr h)
        have hhint : DiscreetHint (if v.ty = .base b then
            some ("The value is already a " ++ b.text ++
              "; remove the conversion.") else none) := by
          split
          · simp [Ty.shows_base]
          · exact discreetHint_none
        rw [discreet_mismatch, and_iff_left hhint]
        simp [Ty.shows_base, (unbroken_base b).shows_append, hv.shows_text_last, hlist, herror]
  · rw [env.baseConversionFindings_of_length hone, conversionArity,
      discreet_cons_typeFinding (by decide), discreet_flatMap]
    refine (and_iff_left ?_).symm
    rintro v rfl
    exact absurd rfl hone

theorem discreet_callType (henv : env.Legible) {name : Name}
    (hname : isWord name.text.toList = true) {vs : List Typing} (hvs : ∀ v ∈ vs, v.ty.Legible)
    (asValue : Bool) :
    Discreet (env.callType scope name (env.callee name.text) vs asValue).found ↔
      (∀ v ∈ vs, Discreet v.found) ∧
        ((Base.ofText? name.text).isSome = true → ∀ v, vs = [v] → ¬v.ty.FailedList) := by
  have hbase : ∀ b, Base.ofText? name.text = some b → env.callee name.text = .base b :=
    fun b hb => by simp [callee, hb]
  cases hcallee : env.callee name.text with
  | base b =>
      have hb := (env.callee_spec name.text).1 b hcallee
      simp only [callType, discreet_baseConversionFindings b _ hvs, hb, Option.isSome_some,
        forall_const]
  | unknown =>
      have hnone : Base.ofText? name.text = none := Option.eq_none_iff_forall_ne_some.mpr
        fun b hb => by rw [hbase b hb] at hcallee; cases hcallee
      simp only [callType, discreet_append, discreet_flatMap, discreet_unknownCallee hname, hnone,
        Option.isSome_none, Bool.false_eq_true, false_implies]
  | known target parameters returns =>
      have hnone : Base.ofText? name.text = none := Option.eq_none_iff_forall_ne_some.mpr
        fun b hb => by rw [hbase b hb] at hcallee; cases hcallee
      have htarget : ∀ cs, Shows (' ' :: ((targetText target name).toList ++ cs)) ↔ Shows cs :=
        fun cs => by
          unfold targetText
          split <;> simp [(unbroken_of_isWord hname).shows_append]
      rw [found_callType_known, discreet_append,
        and_iff_left (discreet_nothingFindings hname parameters returns asValue)]
      simp only [hnone, Option.isSome_none, Bool.false_eq_true, false_implies, and_true]
      split
      · next hlength =>
          exact discreet_argumentFindings henv htarget hvs (henv.callee hcallee) hlength
      · rw [arityFinding, discreet_cons_typeFinding (by decide), discreet_flatMap]

/-! ### Expressions -/

/-- Of the calls, those of base types with a list of something that failed are careless. -/
theorem careless_call {callee : Name} {vs : List Typing} {note : CallNote}
    (hvs : ∀ v ∈ vs, v.expr.ty? = some v.ty) :
    ((Base.ofText? callee.text).isSome = true → ∀ v, vs = [v] → ¬v.ty.FailedList) ↔
      ¬(Expr.call callee (vs.map Typing.expr) note).Careless := by
  rcases vs with _ | ⟨v, _ | ⟨w, vs⟩⟩
  · simp [Expr.Careless]
  · simp [Expr.Careless, hvs v List.mem_cons_self]
  · simp [Expr.Careless]

theorem discreet_inferAll_of {es : List Expr}
    (hes : ∀ e ∈ es, ∀ x : Option Ty, (∀ t ∈ x, t.Legible) →
      (Discreet (env.infer scope x e).found ↔ (env.infer scope x e).expr.Careful))
    {expected : List (Option Ty)} (hexpected : ∀ x ∈ expected, ∀ t ∈ x, t.Legible) :
    (∀ v ∈ env.inferAll scope expected es, Discreet v.found) ↔
      Expr.EverywhereIn (fun e => ¬e.Careless)
        ((env.inferAll scope expected es).map Typing.expr) := by
  rw [Expr.everywhereIn_iff, List.forall_mem_map]
  refine forall₂_congr fun v hv => ?_
  obtain ⟨e, he, x, rfl, hx⟩ := mem_inferAll env scope hv
  refine hes e he x ?_
  rcases hx with rfl | hx
  · exact nofun
  · exact hexpected x hx

section

variable (henv : env.Legible) (hscope : scope.Over Ty.Legible)

include henv hscope

theorem legible_infer {expected : Option Ty} (hexpected : ∀ t ∈ expected, t.Legible) (e : Expr) :
    (env.infer scope expected e).ty.Legible :=
  infer_over Ty.family_legible henv.types hscope hexpected
    (e.everywhere_of_forall fun e => by cases e <;> trivial)

theorem legible_inferAll {expected : List (Option Ty)}
    (hexpected : ∀ x ∈ expected, ∀ t ∈ x, t.Legible) (es : List Expr) :
    ∀ v ∈ env.inferAll scope expected es, v.ty.Legible :=
  inferAll_over_of (fun e _ _ hx => legible_infer henv hscope hx e) hexpected

/-- What is found in an expression is discreet exactly if the tree has no careless node. -/
theorem discreet_infer {expected : Option Ty} (hexpected : ∀ t ∈ expected, t.Legible) {e : Expr}
    (he : e.Everywhere Expr.Worded) :
    Discreet (env.infer scope expected e).found ↔ (env.infer scope expected e).expr.Careful := by
  have hnone : ∀ t ∈ (none : Option Ty), t.Legible := nofun
  have hboolean : ∀ t ∈ some Ty.boolean, t.Legible := forall_mem_some trivial
  induction e generalizing expected with
  | literal value note => exact iff_of_true discreet_nil id
  | var name note => exact iff_of_true (discreet_variableType _ _) id
  | list es note ih =>
      have hes := Expr.everywhereIn_iff.mp he.2
      have hexpectations := elementExpectations_over Ty.family_legible hexpected es
      simp only [infer, discreet_listType henv expected hexpected
        (legible_inferAll henv hscope hexpectations es)]
      rw [discreet_inferAll_of (fun e hmem x hx => ih e hmem hx (hes e hmem)) hexpectations]
      exact (and_iff_right id).symm
  | unary op e note ih =>
      cases op with
      | not =>
          have hown := discreet_booleanFindings "operand of 'not'" (by simp)
            (legible_infer henv hscope hboolean e)
          simp only [infer, discreet_append, ih hboolean he.2, hown, and_true]
          exact (and_iff_right id).symm
      | negate =>
          have hoperand := legible_infer henv hscope hnone e
          have hown : Discreet (if (env.infer scope none e).ty.same .number then [] else
              [mismatch ("Unary '-' needs a Number, but the operand has type "
                ++ (env.infer scope none e).ty.text) (env.infer scope none e).expr.span.start
                none]) := by
            split
            · exact discreet_nil
            · next hsame =>
                refine discreet_mismatch_of ?_ discreetHint_none
                simp [hoperand.shows_text_last, (Ty.containsError_of_same hsame).1]
          simp only [infer, discreet_append, ih hnone he.2, hown, and_true]
          exact (and_iff_right id).symm
  | binary op l r note ihl ihr =>
      obtain ⟨-, hl, hr⟩ := he
      have hleft := legible_infer henv hscope hnone l
      have hright := legible_infer henv hscope (forall_mem_some hleft) r
      have hfirst : ∀ v : Typing, v.ty.Legible →
          Discreet (booleanFindings ("left operand of '" ++ op.text ++ "'") v) := fun v =>
        discreet_booleanFindings _ fun cs => by cases op <;> simp [BinaryOp.text]
      have hsecond : ∀ v : Typing, v.ty.Legible →
          Discreet (booleanFindings ("right operand of '" ++ op.text ++ "'") v) := fun v =>
        discreet_booleanFindings _ fun cs => by cases op <;> simp [BinaryOp.text]
      cases op with
      | and | or =>
          simp only [infer, discreet_append, ihl hboolean hl, ihr hboolean hr,
            hfirst _ (legible_infer henv hscope hboolean l),
            hsecond _ (legible_infer henv hscope hboolean r), and_true]
          refine (and_iff_right ?_).symm
          rintro ⟨t, -, u, -, hcareless⟩
          exact BinaryOp.not_careless rfl t u hcareless
      | _ =>
          simp only [infer, discreet_append, ihl hnone hl, ihr (forall_mem_some hleft) hr,
            discreet_binaryType henv hleft hright]
          rw [and_comm]
          refine and_congr (not_congr ?_) Iff.rfl
          simp [Expr.Careless, ty?_infer]
  | call callee args note ih =>
      have hargs := Expr.everywhereIn_iff.mp he.2
      have hname : isWord callee.text.toList = true := he.1 callee rfl
      have hexpectations : ∀ x ∈ (env.callee callee.text).expectations args.length,
          ∀ t ∈ x, t.Legible := expectations_over henv.types trivial _
      have hlegible := legible_inferAll henv hscope hexpectations args
      simp only [infer, discreet_callType henv hname hlegible]
      rw [discreet_inferAll_of (fun e hmem x hx => ih e hmem hx (hargs e hmem)) hexpectations,
        and_comm]
      refine and_congr ?_ Iff.rfl
      exact careless_call fun v hv => ty?_of_mem_inferAll env scope hv
  | field base name note ih =>
      have hbase := legible_infer henv hscope hnone base
      simp only [infer, discreet_append, ih hnone he.2,
        discreet_fieldType hbase (he.1 name rfl)]
      rw [and_comm]
      refine and_congr (not_congr ?_) Iff.rfl
      simp [Expr.Careless, ty?_infer]

/-! ### Statements -/

theorem discreet_checkReturn {fn : Enclosing} (hname : Unbroken fn.name)
    (hreturns : ∀ t ∈ fn.returns, t.Legible) {value : Option Expr}
    (hvalue : ∀ e ∈ value, e.Everywhere Expr.Worded) (span : Span) :
    Discreet (env.checkReturn fn scope value span).2 ↔
      (Stmt.return (env.checkReturn fn scope value span).1 span).Careful fn.returns := by
  have hnone : ∀ t ∈ (none : Option Ty), t.Legible := nofun
  unfold checkReturn
  cases value with
  | none =>
      cases hr : fn.returns with
      | none => exact iff_of_true discreet_nil (by simp [Stmt.Careful])
      | some t =>
          have ht := hreturns t hr
          dsimp only
          rw [discreet_mismatch]
          simp [Stmt.Careful, hname.shows_append, ht.shows_text_last]
  | some e =>
      have he := hvalue e rfl
      cases hr : fn.returns with
      | none =>
          have hv := legible_infer henv hscope hnone e
          have hshown : Shows ("Function '" ++ fn.name
              ++ "' returns nothing, but this 'Return' has a value of type "
              ++ (env.infer scope none e).ty.text).toList ↔
              (env.infer scope none e).ty.containsError = true := by
            simp [hname.shows_append, hv.shows_text_last]
          have hhint : ¬(env.infer scope none e).ty.containsError = true → DiscreetHint
              (some ("Write 'Return.' or declare the function 'returning "
                ++ (env.infer scope none e).ty.text ++ "'.")) := fun hfree => by
            simp [hv.shows_text, hfree]
          dsimp only
          rw [discreet_append, discreet_infer henv hscope hnone he, discreet_mismatch, hshown,
            and_iff_left_of_imp hhint]
          simp [Stmt.Careful, ty?_infer]
      | some t =>
          have ht := hreturns t hr
          have hexpected : ∀ u ∈ some t, u.Legible := forall_mem_some ht
          have hv := legible_infer henv hscope hexpected e
          have hown := discreet_unassignable henv hv ht
            ("Function '" ++ fn.name ++ "' must return " ++ t.text ++ ", but this returns "
              ++ (env.infer scope (some t) e).ty.text)
            (fun hfree hfree' => by
              simp [hname.shows_append, hv.shows_text_last, ht.shows_text, hfree, hfree'])
            (env.infer scope (some t) e).expr.span.start
          dsimp only
          rw [discreet_append, discreet_infer henv hscope hexpected he, and_iff_left hown]
          simp [Stmt.Careful]

theorem discreet_checkCall {name : Name} {args : List Expr} {note : CallNote}
    (h : (Expr.call name args note).Everywhere Expr.Worded) :
    Discreet (env.checkCall scope name args note).2.2 ↔
      (Expr.call name (env.checkCall scope name args note).1
        (env.checkCall scope name args note).2.1).Careful := by
  have hargs := Expr.everywhereIn_iff.mp h.2
  have hname : isWord name.text.toList = true := h.1 name rfl
  have hexpectations : ∀ x ∈ (env.callee name.text).expectations args.length, ∀ t ∈ x,
      t.Legible := expectations_over henv.types trivial _
  have hlegible := legible_inferAll henv hscope hexpectations args
  simp only [checkCall, discreet_callType henv hname hlegible]
  rw [discreet_inferAll_of (fun e hmem x hx => discreet_infer henv hscope hx (hargs e hmem))
    hexpectations, and_comm]
  refine and_congr ?_ Iff.rfl
  exact careless_call fun v hv => ty?_of_mem_inferAll env scope hv

theorem discreet_checkUnused {e : Expr} (he : e.Everywhere Expr.Worded) :
    Discreet (env.checkUnused scope e).2 ↔ (env.checkUnused scope e).1.Careful := by
  have hnone : ∀ t ∈ (none : Option Ty), t.Legible := nofun
  unfold checkUnused
  split
  · exact discreet_checkCall henv hscope he
  · exact discreet_infer henv hscope hnone he

end

section

variable (henv : env.Legible)

include henv

theorem legible_checkStmt {fn : Enclosing} {s : Stmt} (hscope : scope.Over Ty.Legible)
    (timer : Timer) : (env.checkStmt fn scope timer s).scope.Over Ty.Legible :=
  checkStmt_over Ty.family_legible henv.types
    (s.everywhere_of_forall fun e => by cases e <;> trivial) hscope timer

variable {fn : Enclosing}

/-- A block is discreet if its statements are, each in a scope with types that can be written. -/
theorem discreet_checkBlock_of {ss : List Stmt}
    (hss : ∀ s ∈ ss, s.Worded → ∀ {scope : Scope}, scope.Over Ty.Legible →
      ∀ {timer}, (env.checkStmt fn scope timer s).timer.exceeded = none →
      (Discreet (env.checkStmt fn scope timer s).found ↔
        (env.checkStmt fn scope timer s).stmt.Careful fn.returns))
    (hworded : Stmt.AllWorded ss) {scope : Scope} (hscope : scope.Over Ty.Legible) {timer : Timer}
    (htime : (env.checkBlock fn scope timer ss).timer.exceeded = none) :
    Discreet (env.checkBlock fn scope timer ss).found ↔
      Stmt.AllCareful fn.returns (env.checkBlock fn scope timer ss).stmts := by
  induction ss generalizing scope timer with
  | nil => simp [checkBlock, Stmt.AllCareful]
  | cons s ss ih =>
      obtain ⟨hs, hss⟩ := List.forall_mem_cons.mp hss
      obtain ⟨hsworded, hworded⟩ := hworded
      simp only [checkBlock] at htime ⊢
      split at htime
      · next e he => rw [he] at htime; cases htime
      · simp only [discreet_append, Stmt.AllCareful]
        -- the time that is left at the end was left behind each statement
        exact and_congr (hs hsworded hscope (exceeded_of_checkBlock env htime))
          (ih hss hworded (legible_checkStmt henv hscope _) htime)

variable (hname : Unbroken fn.name) (hreturns : ∀ t ∈ fn.returns, t.Legible)

include hname hreturns

/-- What is found in a statement is discreet exactly if nothing in it is careless. -/
theorem discreet_checkStmt {s : Stmt} (hs : s.Worded) {scope : Scope}
    (hscope : scope.Over Ty.Legible) {timer : Timer}
    (htime : (env.checkStmt fn scope timer s).timer.exceeded = none) :
    Discreet (env.checkStmt fn scope timer s).found ↔
      (env.checkStmt fn scope timer s).stmt.Careful fn.returns := by
  have hnone : ∀ t ∈ (none : Option Ty), t.Legible := nofun
  have hboolean : ∀ t ∈ some Ty.boolean, t.Legible := forall_mem_some trivial
  have hcondition : ∀ {scope : Scope}, scope.Over Ty.Legible → ∀ c : Expr,
      Discreet (booleanFindings "'If' condition" (env.infer scope (some .boolean) c)) :=
    fun hscope c => discreet_booleanFindings _ (fun cs => by simp)
      (legible_infer henv hscope hboolean c)
  induction s generalizing scope timer with
  | bind name e span =>
      simp only [checkStmt, discreet_append, discreet_infer henv hscope hnone hs.2, discreet_bind,
        and_true, Stmt.Careful]
  | branch c t span iht =>
      obtain ⟨hc, ht⟩ := hs
      simp only [checkStmt] at htime
      have hblock := discreet_checkBlock_of henv iht ht hscope.child htime
      simp only [checkStmt, discreet_append, discreet_infer henv hscope hboolean hc,
        hcondition hscope c, hblock, and_true, Stmt.Careful]
  | branchOtherwise c t o span iht iho =>
      obtain ⟨hc, ht, ho⟩ := hs
      simp only [checkStmt] at htime
      have hblock := discreet_checkBlock_of henv iht ht hscope.child
        (exceeded_of_checkBlock env htime)
      have hotherwise := discreet_checkBlock_of henv iho ho hscope.child htime
      simp only [checkStmt, discreet_append, discreet_infer henv hscope hboolean hc,
        hcondition hscope c, hblock, hotherwise, and_true, and_assoc, Stmt.Careful]
  | forEach item e body span ih =>
      obtain ⟨hitem, he, hbody⟩ := hs
      simp only [checkStmt] at htime
      have hiterable := legible_infer henv hscope hnone e
      have hinner := bind_over Ty.family_legible env hscope.child
        (itemType_over Ty.family_legible item.text hiterable) item.text item.span
      have hblock := discreet_checkBlock_of henv ih hbody hinner htime
      simp only [checkStmt, discreet_append, discreet_infer henv hscope hnone he,
        discreet_itemType hitem hiterable, discreet_bind, hblock, and_true, Stmt.Careful]
  | call name args note span =>
      simp only [checkStmt, Stmt.Careful]
      exact discreet_checkCall henv hscope hs
  | returns value span =>
      simp only [checkStmt]
      refine discreet_checkReturn henv hscope hname hreturns ?_ span
      rintro e rfl
      exact hs
  | expression e span =>
      simp only [checkStmt, Stmt.Careful]
      exact discreet_checkUnused henv hscope hs

theorem discreet_checkBlock {ss : List Stmt} (hss : Stmt.AllWorded ss) {scope : Scope}
    (hscope : scope.Over Ty.Legible) {timer : Timer}
    (htime : (env.checkBlock fn scope timer ss).timer.exceeded = none) :
    Discreet (env.checkBlock fn scope timer ss).found ↔
      Stmt.AllCareful fn.returns (env.checkBlock fn scope timer ss).stmts :=
  discreet_checkBlock_of henv (fun _ _ hs _ => discreet_checkStmt henv hname hreturns hs) hss
    hscope htime

end

/-! ### Functions -/

section

variable (henv : env.Legible)

include henv

theorem discreet_checkFunction {f : FunctionDecl} (hf : f.Worded) {s : Signature}
    (hs : s.Over Ty.Legible) {timer : Timer}
    (htime : (env.checkFunction timer f s).2.2.exceeded = none) :
    Discreet (env.checkFunction timer f s).2.1 ↔ (env.checkFunction timer f s).1.Careful s := by
  have hparameters : ∀ p ∈ f.parameters.zip (s.parameters.map Prod.snd), p.2.Legible :=
    fun p hp => List.forall_mem_map.mpr hs.parameters p.2 (List.of_mem_zip hp).2
  have hfirst : Scope.Over Ty.Legible [[]] :=
    List.forall_mem_singleton.mpr (List.forall_mem_nil _)
  have hscope := bindParameters_over Ty.family_legible env hfirst hparameters
  have hname : Unbroken (Enclosing.mk f.name.text s.returns).name := hf.unbroken_name
  have hbody := discreet_checkBlock henv hname hs.returns hf.body hscope htime
  simp only [checkFunction, discreet_append, discreet_bindParameters, true_and]
  refine (and_iff_left ?_).trans hbody
  split
  · exact discreet_nil
  · split
    · exact discreet_nil
    · exact discreet_typeFinding (by decide) _ _

/-- What is found in the bodies of functions is discreet exactly if nothing in them is careless. -/
theorem discreet_checkDecls {ds : List Decl} (hds : ∀ d ∈ ds, d.Worded) {ss : List Signature}
    (hss : ∀ s ∈ ss, s.Over Ty.Legible)
    (hlength : ss.length = (ds.filterMap Decl.function?).length) {timer : Timer}
    (htime : (env.checkDecls timer ds ss).2.2.exceeded = none) :
    Discreet (env.checkDecls timer ds ss).2.1 ↔ List.Forall₂ FunctionDecl.Careful
      ((env.checkDecls timer ds ss).1.filterMap Decl.function?) ss := by
  induction ds generalizing timer ss with
  | nil =>
      obtain rfl : ss = [] := List.length_eq_zero_iff.mp hlength
      simp [checkDecls]
  | cons d ds ih =>
      obtain ⟨hd, htail⟩ := List.forall_mem_cons.mp hds
      cases d with
      | function f =>
          cases ss with
          | nil => simp [Decl.function?] at hlength
          | cons s ss =>
              obtain ⟨hs, hss⟩ := List.forall_mem_cons.mp hss
              simp only [checkDecls] at htime ⊢
              have hrest := ih htail hss (by simpa [Decl.function?] using hlength) htime
              have hfirst := discreet_checkFunction henv hd hs (exceeded_of_checkDecls env htime)
              simp [hrest, hfirst, Decl.function?]
      | type t =>
          simp only [checkDecls] at htime ⊢
          exact ih htail hss hlength htime
      | record r =>
          simp only [checkDecls] at htime ⊢
          exact ih htail hss hlength htime

end

end TypeEnv

end Prosaic
