import Prosaic.Proofs.Except
import Prosaic.Proofs.Grammar.Statement
import Prosaic.Proofs.Typing.Check
import Prosaic.TypeScript.Lowering

/-!
What each node is lowered to, from what its parts are lowered to. What a lowered tree has is proved
from these rules, by induction on the tree.

A program that the checks have completed can be lowered. What a node needs is a matter of its notes
and, for numbers and conversions, of what was read and checked; what a declaration needs besides is
that its references denote types.
-/

namespace Prosaic

/-- The condition of a node that the checks have completed: a call has a target and a label, and
everything else has a type. -/
def Expr.Annotated : Expr → Prop
  | .call _ _ note => note.target.isSome = true ∧ note.purity.isSome = true
  | e => e.ty?.isSome = true

/-- The condition of a node that converts one value if it is a conversion. -/
def Expr.ConvertsOne : Expr → Prop
  | .call _ args note => note.target = some .conversion → args.length = 1
  | _ => True

namespace TypeScript

/-- The condition of a node that can be lowered if the nodes below it can. -/
structure Lowerable (e : Expr) : Prop where
  annotated : e.Annotated
  converts : e.ConvertsOne
  finite : e.Finite

/-- The condition of a declaration that can be lowered, given the types of names. -/
structure LowerableDecl (named : String → Option Ty) (d : Decl) : Prop where
  denotes : d.Denotes named
  labelled : ∀ f ∈ d.function?, f.resolved.isSome = true
  body : ∀ f ∈ d.function?, Stmt.EverywhereIn Lowerable f.body

/-! ### What is lowered to what -/

section

variable {r : Registry} {l l' : Locals} {t : Term} {c : Command} {span : Span}

theorem requireType_bind_eq_ok {e : Expr} {next : Except Defect Term} :
    (do requireType e; next) = .ok t ↔ e.ty?.isSome = true ∧ next = .ok t := by
  cases hty : e.ty? with
  | none => simp [requireType, hty, bind_eq_ok]
  | some u => simp [requireType, hty, ok_bind]

theorem requireResolved_eq_ok {callee : Name} {note : CallNote} {target : CallTarget}
    {purity : Purity} : requireResolved callee note = .ok (target, purity) ↔
      note.target = some target ∧ note.purity = some purity := by
  unfold requireResolved
  split
  · next htarget hpurity => simp [htarget, hpurity]
  · next hne => exact ⟨nofun, fun h => (hne _ _ h.1 h.2).elim⟩

theorem requireArity_eq_ok {callee : Name} {target : CallTarget} {given : Nat} :
    requireArity callee target given = .ok () ↔ (target = .conversion → given = 1) := by
  by_cases htarget : target = .conversion <;> by_cases hgiven : given = 1 <;>
    simp [requireArity, htarget, hgiven]

theorem lowerLiteral_number {n : Number} :
    lowerLiteral (.number n) = .ok t ↔
      ∃ digits, numberDigits n = .ok digits ∧ .number digits = t := by
  simp only [lowerLiteral, bind_eq_ok, pure_eq_ok]

theorem lowerExprs_eq_ok {es : List Expr} {ts : List Term} :
    lowerExprs r l es = .ok ts ↔ List.Forall₂ (fun e t => lowerExpr r l e = .ok t) es ts := by
  induction es generalizing ts with
  | nil => exact pure_eq_ok.trans (by rw [List.forall₂_nil_left_iff, eq_comm])
  | cons e es ih =>
      refine bind_eq_ok.trans ?_
      simp only [bind_eq_ok, pure_eq_ok, ih]
      constructor
      · rintro ⟨t, ht, ts, hts, rfl⟩
        exact .cons ht hts
      · rintro (_ | ⟨ht, hts⟩)
        exact ⟨_, ht, _, hts, rfl⟩

theorem lowerExpr_literal {value : Literal} {note : ExprNote} :
    lowerExpr r l (.literal value note) = .ok t ↔
      (Expr.literal value note).ty?.isSome = true ∧ lowerLiteral value = .ok t :=
  requireType_bind_eq_ok

theorem lowerExpr_variable {name : String} {note : ExprNote} :
    lowerExpr r l (.variable name note) = .ok t ↔
      (Expr.variable name note).ty?.isSome = true ∧ .variable (l.resolve name) = t :=
  requireType_bind_eq_ok.trans (and_congr_right fun _ => pure_eq_ok)

theorem lowerExpr_list {es : List Expr} {note : ExprNote} :
    lowerExpr r l (.list es note) = .ok t ↔ (Expr.list es note).ty?.isSome = true ∧
      ∃ ts, List.Forall₂ (fun e t => lowerExpr r l e = .ok t) es ts ∧ .array ts = t := by
  refine requireType_bind_eq_ok.trans (and_congr_right fun _ => ?_)
  simp only [bind_eq_ok, pure_eq_ok, lowerExprs_eq_ok]

theorem lowerExpr_unary {op : UnaryOp} {e : Expr} {note : ExprNote} :
    lowerExpr r l (.unary op e note) = .ok t ↔ (Expr.unary op e note).ty?.isSome = true ∧
      ∃ u, lowerExpr r l e = .ok u ∧ .unary op u = t := by
  refine requireType_bind_eq_ok.trans (and_congr_right fun _ => ?_)
  simp only [bind_eq_ok, pure_eq_ok]

theorem lowerExpr_binary {op : BinaryOp} {a b : Expr} {note : ExprNote} :
    lowerExpr r l (.binary op a b note) = .ok t ↔ (Expr.binary op a b note).ty?.isSome = true ∧
      ∃ u, lowerExpr r l a = .ok u ∧ ∃ v, lowerExpr r l b = .ok v ∧ .binary op u v = t := by
  refine requireType_bind_eq_ok.trans (and_congr_right fun _ => ?_)
  simp only [bind_eq_ok, pure_eq_ok]

theorem lowerExpr_field {e : Expr} {name : Name} {note : ExprNote} :
    lowerExpr r l (.field e name note) = .ok t ↔ (Expr.field e name note).ty?.isSome = true ∧
      ∃ u, lowerExpr r l e = .ok u ∧ .member u name.text = t := by
  refine requireType_bind_eq_ok.trans (and_congr_right fun _ => ?_)
  simp only [bind_eq_ok, pure_eq_ok]

/-- A call is lowered with its target and its label, and a conversion with its one value. -/
theorem lowerExpr_call {callee : Name} {args : List Expr} {note : CallNote} :
    lowerExpr r l (.call callee args note) = .ok t ↔ ∃ target purity ts,
      (note.target = some target ∧ note.purity = some purity) ∧
        (target = .conversion → ts.length = 1) ∧
          List.Forall₂ (fun e t => lowerExpr r l e = .ok t) args ts ∧
            callTerm r callee target purity ts = t := by
  refine bind_eq_ok.trans ?_
  simp only [bind_eq_ok, pure_eq_ok, lowerExprs_eq_ok, Prod.exists, requireResolved_eq_ok]
  constructor
  · rintro ⟨target, purity, hresolved, ⟨⟩, harity, ts, hargs, rfl⟩
    have hlength := requireArity_eq_ok.mp harity
    rw [hargs.length_eq] at hlength
    exact ⟨target, purity, ts, hresolved, hlength, hargs, rfl⟩
  · rintro ⟨target, purity, ts, hresolved, hlength, hargs, rfl⟩
    rw [← hargs.length_eq] at hlength
    exact ⟨target, purity, hresolved, ⟨⟩, requireArity_eq_ok.mpr hlength, ts, hargs, rfl⟩

theorem lowerStmts_nil {cs : List Command} :
    lowerStmts r l [] = .ok (cs, l') ↔ [] = cs ∧ l = l' :=
  pure_eq_ok.trans Prod.ext_iff

theorem lowerStmts_cons {s : Stmt} {ss : List Stmt} {cs : List Command} :
    lowerStmts r l (s :: ss) = .ok (cs, l') ↔ ∃ c l₁, lowerStmt r l s = .ok (c, l₁) ∧
      ∃ cs' l₂, lowerStmts r l₁ ss = .ok (cs', l₂) ∧ c :: cs' = cs ∧ l₂ = l' := by
  refine bind_eq_ok.trans ?_
  simp only [bind_eq_ok, pure_eq_ok, Prod.exists, Prod.mk.injEq]

theorem lowerStmt_bind {name : Name} {e : Expr} :
    lowerStmt r l (.bind name e span) = .ok (c, l') ↔ ∃ t, lowerExpr r l e = .ok t ∧
      .const (l.declare name.text).1 t = c ∧ (l.declare name.text).2 = l' := by
  refine bind_eq_ok.trans ?_
  simp only [pure_eq_ok, Prod.mk.injEq]

theorem lowerStmt_branch {e : Expr} {ss : List Stmt} :
    lowerStmt r l (.branch e ss none span) = .ok (c, l') ↔ ∃ t, lowerExpr r l e = .ok t ∧
      ∃ cs l₁, lowerStmts r l.enter ss = .ok (cs, l₁) ∧ .branch t cs none = c ∧ l₁.leave = l' := by
  refine bind_eq_ok.trans ?_
  simp only [bind_eq_ok, pure_eq_ok, Prod.exists, Prod.mk.injEq]

theorem lowerStmt_branchOtherwise {e : Expr} {ss os : List Stmt} :
    lowerStmt r l (.branch e ss (some os) span) = .ok (c, l') ↔ ∃ t, lowerExpr r l e = .ok t ∧
      ∃ cs l₁, lowerStmts r l.enter ss = .ok (cs, l₁) ∧
        ∃ ds l₂, lowerStmts r l₁.leave.enter os = .ok (ds, l₂) ∧
          .branch t cs (some ds) = c ∧ l₂.leave = l' := by
  refine bind_eq_ok.trans ?_
  simp only [bind_eq_ok, pure_eq_ok, Prod.exists, Prod.mk.injEq]

theorem lowerStmt_forEach {item : Name} {e : Expr} {body : List Stmt} :
    lowerStmt r l (.forEach item e body span) = .ok (c, l') ↔ ∃ t, lowerExpr r l e = .ok t ∧
      ∃ cs l₁, lowerStmts r (l.enter.declare item.text).2 body = .ok (cs, l₁) ∧
        .forOf (l.enter.declare item.text).1 t cs = c ∧ l₁.leave = l' := by
  refine bind_eq_ok.trans ?_
  simp only [bind_eq_ok, pure_eq_ok, Prod.exists, Prod.mk.injEq]

/-- The call of a statement is lowered as an expression. -/
theorem lowerStmt_call {callee : Name} {args : List Expr} {note : CallNote} :
    lowerStmt r l (.call callee args note span) = .ok (c, l') ↔
      ∃ t, lowerExpr r l (.call callee args note) = .ok t ∧ .expression t = c ∧ l = l' := by
  simp only [lowerStmt, lowerExpr, bind_eq_ok, pure_eq_ok, Prod.mk.injEq]
  constructor
  · rintro ⟨resolved, hresolved, _, harity, ts, hts, rfl, rfl⟩
    exact ⟨_, ⟨resolved, hresolved, _, harity, ts, hts, rfl⟩, rfl, rfl⟩
  · rintro ⟨_, ⟨resolved, hresolved, _, harity, ts, hts, rfl⟩, rfl, rfl⟩
    exact ⟨resolved, hresolved, _, harity, ts, hts, rfl, rfl⟩

theorem lowerStmt_return_none :
    lowerStmt r l (.return none span) = .ok (c, l') ↔ .return none = c ∧ l = l' :=
  pure_eq_ok.trans Prod.ext_iff

theorem lowerStmt_return_some {e : Expr} :
    lowerStmt r l (.return (some e) span) = .ok (c, l') ↔
      ∃ t, lowerExpr r l e = .ok t ∧ .return (some t) = c ∧ l = l' := by
  refine bind_eq_ok.trans ?_
  simp only [pure_eq_ok, Prod.mk.injEq]

theorem lowerStmt_expression {e : Expr} :
    lowerStmt r l (.expression e span) = .ok (c, l') ↔
      ∃ t, lowerExpr r l e = .ok t ∧ .expression t = c ∧ l = l' := by
  refine bind_eq_ok.trans ?_
  simp only [pure_eq_ok, Prod.mk.injEq]

theorem lowerField_eq_ok {f : Typed} {name : String} {a : TypeExpr} :
    lowerField r f = .ok (name, a) ↔ lowerRef r f.ty = .ok a ∧ f.name = name := by
  simp only [lowerField, bind_eq_ok, pure_eq_ok, Prod.mk.injEq, exists_eq_right_right]

theorem lowerParameter_eq_ok {p : Typed} {name : String} {a : TypeExpr} :
    lowerParameter r p = .ok (name, a) ↔ lowerRef r p.ty = .ok a ∧ identifier p.name = name := by
  simp only [lowerParameter, bind_eq_ok, pure_eq_ok, Prod.mk.injEq, exists_eq_right_right]

section

variable {names : List String} {i : Item}

theorem lowerDecl_literals {name : String} {values : List String} :
    lowerDecl r names (.type ⟨name, .literals values, span⟩) = .ok i ↔
      .type name (.literals values) = i := by
  rw [lowerDecl, pure_eq_ok]

theorem lowerDecl_reference {name : String} {ref : TypeRef} :
    lowerDecl r names (.type ⟨name, .reference ref, span⟩) = .ok i ↔
      ∃ a, lowerRef r ref = .ok a ∧ .type name (.synonym a) = i := by
  simp only [lowerDecl, bind_eq_ok, pure_eq_ok]

theorem lowerDecl_record {d : RecordDecl} :
    lowerDecl r names (.record d) = .ok i ↔ ∃ fields,
      List.Forall₂ (fun f q => lowerField r f = .ok q) d.fields fields ∧
        .interface d.name fields = i := by
  simp only [lowerDecl, bind_eq_ok, pure_eq_ok, mapM_eq_ok]

theorem lowerDecl_function {f : FunctionDecl} :
    lowerDecl r names (.function f) = .ok i ↔ ∃ purity, f.resolved = some purity ∧
      ∃ parameters, List.Forall₂ (fun p q => lowerParameter r p = .ok q) f.parameters parameters ∧
        ∃ returns, lowerReturns r f.returns = .ok returns ∧
          ∃ body l, lowerStmts r (Locals.ofFunction names f).enter f.body = .ok (body, l) ∧
            .function f.name.text (purity = .effectful) parameters returns body = i := by
  rw [lowerDecl, lowerFunction]
  cases hresolved : f.resolved with
  | none => simp
  | some purity =>
      simp only [bind_eq_ok, pure_eq_ok, mapM_eq_ok, Prod.exists, Option.some.injEq,
        exists_eq_left']

end

/-- The items of a module are the declarations of its program. -/
theorem lower_eq_ok {p : Program} {m : Module} : lower p r = .ok m ↔
    List.Forall₂ (fun d i => lowerDecl r (moduleNames p r) d = .ok i) p.declarations m.items := by
  simp only [lower, bind_eq_ok, pure_eq_ok, mapM_eq_ok]
  constructor
  · rintro ⟨items, hitems, rfl⟩
    exact hitems
  · exact fun h => ⟨m.items, h, rfl⟩

end

/-! ### Nodes -/

theorem numberDigits_ok {n : Number} (h : ∀ x, n = .real x → x.isFinite = true) :
    ∃ digits, numberDigits n = .ok digits := by
  cases n with
  | integer n => exact ⟨_, rfl⟩
  | real x =>
      cases x with
      | finite s m e => exact ⟨_, rfl⟩
      | infinite s => cases h _ rfl
      | nan => cases h _ rfl

theorem lowerLiteral_ok {value : Literal} {note : ExprNote}
    (h : (Expr.literal value note).Finite) : ∃ t, lowerLiteral value = .ok t := by
  cases value with
  | string s => exact ⟨_, rfl⟩
  | boolean b => exact ⟨_, rfl⟩
  | number n =>
      have hreal : ∀ x, n = .real x → x.isFinite = true := by
        rintro x rfl
        exact h
      obtain ⟨digits, hdigits⟩ := numberDigits_ok hreal
      exact ⟨_, lowerLiteral_number.mpr ⟨digits, hdigits, rfl⟩⟩

/-! ### Expressions and statements -/

section

variable (r : Registry)

theorem forall₂_lowerExpr_ok {l : Locals} {es : List Expr}
    (h : ∀ e ∈ es, ∃ t, lowerExpr r l e = .ok t) :
    ∃ ts, List.Forall₂ (fun e t => lowerExpr r l e = .ok t) es ts := by
  induction es with
  | nil => exact ⟨[], .nil⟩
  | cons e es ih =>
      obtain ⟨⟨t, ht⟩, hes⟩ := List.forall_mem_cons.mp h
      obtain ⟨ts, hts⟩ := ih hes
      exact ⟨t :: ts, .cons ht hts⟩

/-- An expression can be lowered where all its nodes can. -/
theorem lowerExpr_ok (l : Locals) {e : Expr} (h : e.Everywhere Lowerable) :
    ∃ t, lowerExpr r l e = .ok t := by
  have hnode := h.here
  induction e with
  | literal value note =>
      obtain ⟨t, ht⟩ := lowerLiteral_ok hnode.finite
      exact ⟨t, lowerExpr_literal.mpr ⟨hnode.annotated, ht⟩⟩
  | var name note => exact ⟨_, lowerExpr_variable.mpr ⟨hnode.annotated, rfl⟩⟩
  | list es note ih =>
      obtain ⟨ts, hts⟩ := forall₂_lowerExpr_ok r fun e he =>
        have := Expr.everywhereIn_iff.mp h.2 e he
        ih e he this this.here
      exact ⟨_, lowerExpr_list.mpr ⟨hnode.annotated, ts, hts, rfl⟩⟩
  | unary op e note ih =>
      obtain ⟨t, ht⟩ := ih h.2 h.2.here
      exact ⟨_, lowerExpr_unary.mpr ⟨hnode.annotated, t, ht, rfl⟩⟩
  | binary op a b note iha ihb =>
      obtain ⟨s, hs⟩ := iha h.2.1 h.2.1.here
      obtain ⟨t, ht⟩ := ihb h.2.2 h.2.2.here
      exact ⟨_, lowerExpr_binary.mpr ⟨hnode.annotated, s, hs, t, ht, rfl⟩⟩
  | call callee args note ih =>
      obtain ⟨target, htarget⟩ := Option.isSome_iff_exists.mp hnode.annotated.1
      obtain ⟨purity, hpurity⟩ := Option.isSome_iff_exists.mp hnode.annotated.2
      obtain ⟨ts, hts⟩ := forall₂_lowerExpr_ok r fun e he =>
        have := Expr.everywhereIn_iff.mp h.2 e he
        ih e he this this.here
      have hone : target = .conversion → ts.length = 1 := fun hconversion =>
        hts.length_eq ▸ hnode.converts (htarget.trans (congrArg some hconversion))
      exact ⟨_, lowerExpr_call.mpr ⟨target, purity, ts, ⟨htarget, hpurity⟩, hone, hts, rfl⟩⟩
  | field e name note ih =>
      obtain ⟨t, ht⟩ := ih h.2 h.2.here
      exact ⟨_, lowerExpr_field.mpr ⟨hnode.annotated, t, ht, rfl⟩⟩

theorem lowerStmts_ok_of {ss : List Stmt}
    (h : ∀ s ∈ ss, ∀ l, ∃ c l', lowerStmt r l s = .ok (c, l')) (l : Locals) :
    ∃ cs l', lowerStmts r l ss = .ok (cs, l') := by
  induction ss generalizing l with
  | nil => exact ⟨[], l, lowerStmts_nil.mpr ⟨rfl, rfl⟩⟩
  | cons s ss ih =>
      obtain ⟨hs, hss⟩ := List.forall_mem_cons.mp h
      obtain ⟨c, l', hc⟩ := hs l
      obtain ⟨cs, l'', hcs⟩ := ih hss l'
      exact ⟨c :: cs, l'', lowerStmts_cons.mpr ⟨c, l', hc, cs, l'', hcs, rfl, rfl⟩⟩

/-- A statement can be lowered where all nodes in it can. -/
theorem lowerStmt_ok (l : Locals) {s : Stmt} (h : s.Everywhere Lowerable) :
    ∃ c l', lowerStmt r l s = .ok (c, l') := by
  induction s generalizing l with
  | bind name e span =>
      obtain ⟨t, ht⟩ := lowerExpr_ok r l h
      exact ⟨_, _, lowerStmt_bind.mpr ⟨t, ht, rfl, rfl⟩⟩
  | branch c t span iht =>
      obtain ⟨hc, ht⟩ := h
      rw [Stmt.everywhereIn_iff] at ht
      obtain ⟨c', hc'⟩ := lowerExpr_ok r l hc
      obtain ⟨ts, l', hts⟩ := lowerStmts_ok_of r (fun s hs l => iht s hs l (ht s hs)) l.enter
      exact ⟨_, _, lowerStmt_branch.mpr ⟨c', hc', ts, l', hts, rfl, rfl⟩⟩
  | branchOtherwise c t o span iht iho =>
      obtain ⟨hc, ht, ho⟩ := h
      rw [Stmt.everywhereIn_iff] at ht ho
      obtain ⟨c', hc'⟩ := lowerExpr_ok r l hc
      obtain ⟨ts, l', hts⟩ := lowerStmts_ok_of r (fun s hs l => iht s hs l (ht s hs)) l.enter
      obtain ⟨os, l'', hos⟩ :=
        lowerStmts_ok_of r (fun s hs l => iho s hs l (ho s hs)) l'.leave.enter
      exact ⟨_, _,
        lowerStmt_branchOtherwise.mpr ⟨c', hc', ts, l', hts, os, l'', hos, rfl, rfl⟩⟩
  | forEach item e body span ih =>
      obtain ⟨he, hbody⟩ := h
      rw [Stmt.everywhereIn_iff] at hbody
      obtain ⟨t, ht⟩ := lowerExpr_ok r l he
      obtain ⟨cs, l', hcs⟩ := lowerStmts_ok_of r (fun s hs l => ih s hs l (hbody s hs))
        (l.enter.declare item.text).2
      exact ⟨_, _, lowerStmt_forEach.mpr ⟨t, ht, cs, l', hcs, rfl, rfl⟩⟩
  | call callee args note span =>
      have hcall : (Expr.call callee args note).Everywhere Lowerable := h
      obtain ⟨t, ht⟩ := lowerExpr_ok r l hcall
      exact ⟨_, _, lowerStmt_call.mpr ⟨t, ht, rfl, rfl⟩⟩
  | returns value span =>
      cases value with
      | none => exact ⟨_, _, lowerStmt_return_none.mpr ⟨rfl, rfl⟩⟩
      | some e =>
          obtain ⟨t, ht⟩ := lowerExpr_ok r l h
          exact ⟨_, _, lowerStmt_return_some.mpr ⟨t, ht, rfl, rfl⟩⟩
  | expression e span =>
      obtain ⟨t, ht⟩ := lowerExpr_ok r l h
      exact ⟨_, _, lowerStmt_expression.mpr ⟨t, ht, rfl, rfl⟩⟩

/-! ### Declarations -/

theorem lowerRef_ok {named : String → Option Ty} {ref : TypeRef} (h : ref.Denotes named) :
    ∃ t, lowerRef r ref = .ok t := by
  unfold TypeRef.Denotes at h
  induction ref with
  | named name span =>
      rw [TypeRef.denote?] at h
      rw [lowerRef]
      split at h
      · cases h
      · next hlist => exact ⟨_, if_neg hlist⟩
  | list element span ih =>
      rw [TypeRef.denote?, Option.isSome_map] at h
      obtain ⟨t, ht⟩ := ih h
      exact ⟨_, by rw [lowerRef, ht]; rfl⟩

theorem lowerField_ok {named : String → Option Ty} {f : Typed} (h : f.ty.Denotes named) :
    ∃ q, lowerField r f = .ok q := by
  obtain ⟨t, ht⟩ := lowerRef_ok r h
  exact ⟨_, lowerField_eq_ok.mpr ⟨ht, rfl⟩⟩

theorem lowerParameter_ok {named : String → Option Ty} {p : Typed} (h : p.ty.Denotes named) :
    ∃ q, lowerParameter r p = .ok q := by
  obtain ⟨t, ht⟩ := lowerRef_ok r h
  exact ⟨_, lowerParameter_eq_ok.mpr ⟨ht, rfl⟩⟩

theorem lowerReturns_ok {named : String → Option Ty} {returns : Option TypeRef}
    (h : ∀ ref ∈ returns, ref.Denotes named) : ∃ t, lowerReturns r returns = .ok t := by
  cases returns with
  | none => exact ⟨none, rfl⟩
  | some ref =>
      obtain ⟨t, ht⟩ := lowerRef_ok r (h ref rfl)
      exact ⟨some t, by rw [lowerReturns, ht]; rfl⟩

theorem lowerDecl_ok {named : String → Option Ty} (names : List String) {d : Decl}
    (h : LowerableDecl named d) : ∃ item, lowerDecl r names d = .ok item := by
  cases d with
  | type t =>
      obtain ⟨name, body, span⟩ := t
      cases body with
      | literals values => exact ⟨_, rfl⟩
      | reference ref =>
          obtain ⟨t, ht⟩ := lowerRef_ok r h.denotes
          exact ⟨_, lowerDecl_reference.mpr ⟨t, ht, rfl⟩⟩
  | record d =>
      obtain ⟨fields, hfields⟩ := mapM_ok fun f hf => lowerField_ok r (h.denotes f hf)
      exact ⟨_, lowerDecl_record.mpr ⟨fields, mapM_eq_ok.mp hfields, rfl⟩⟩
  | function f =>
      obtain ⟨hparameters, hreturns⟩ := h.denotes
      have hbody := h.body f rfl
      obtain ⟨purity, hpurity⟩ := Option.isSome_iff_exists.mp (h.labelled f rfl)
      obtain ⟨ps, hps⟩ := mapM_ok fun p hp => lowerParameter_ok r (hparameters p hp)
      obtain ⟨t, ht⟩ := lowerReturns_ok r hreturns
      rw [Stmt.everywhereIn_iff] at hbody
      obtain ⟨cs, l', hcs⟩ := lowerStmts_ok_of r (fun s hs l => lowerStmt_ok r l (hbody s hs))
        (Locals.ofFunction names f).enter
      exact ⟨_, lowerDecl_function.mpr
        ⟨purity, hpurity, ps, mapM_eq_ok.mp hps, t, ht, cs, l', hcs, rfl⟩⟩

/-- A program can be lowered if all its declarations can. -/
theorem lower_ok {named : String → Option Ty} {p : Program}
    (h : ∀ d ∈ p.declarations, LowerableDecl named d) : ∃ m, lower p r = .ok m := by
  obtain ⟨items, hitems⟩ := mapM_ok fun d hd => lowerDecl_ok r (moduleNames p r) (h d hd)
  exact ⟨⟨items⟩, lower_eq_ok.mpr (mapM_eq_ok.mp hitems)⟩

end

end TypeScript

end Prosaic
