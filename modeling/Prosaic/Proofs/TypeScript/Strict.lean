import Prosaic.Compilation
import Prosaic.Proofs.Purity.Findings
import Prosaic.Proofs.Purity.Strict
import Prosaic.Proofs.TypeScript.Renaming
import Prosaic.Proofs.Typing.Strict

/-!
The lowering read strictly: a local is declared in a block that is open and under an identifier that
is free, a block that is left has been entered, the parameters of a function have been declared, and
a conversion has a value to convert. The strict reading has no outcome where one of them is missing,
which is another thing than the defect of a tree. It agrees with the lowering on every program.

So every phase that follows the reading of a program can be run on any program, whatever was found
in it before.
-/

namespace Prosaic.TypeScript

/-! ### Strict readings -/

/-- A lowering that may have no outcome at all. -/
abbrev Strict (α : Type) := ExceptT Defect Option α

/-- A lowering that has an outcome. -/
def Strict.of {α : Type} (x : Except Defect α) : Strict α := ExceptT.mk (some x)

theorem Strict.of_bind {α β : Type} {x : Except Defect α} {f : α → Strict β}
    {g : α → Except Defect β} (h : ∀ a, x = .ok a → f a = .of (g a)) :
    (Strict.of x >>= f) = .of (x >>= g) := by
  cases x with
  | error e => rfl
  | ok a => exact h a rfl

theorem Strict.lift_bind {α β : Type} {x : Option α} {a : α} (hx : x = some a)
    (f : α → Strict β) : ((ExceptT.lift x : Strict α) >>= f) = f a := by
  subst hx
  rfl

theorem Strict.mapM_of {α β : Type} {f : α → Strict β} {g : α → Except Defect β} {as : List α}
    (h : ∀ a ∈ as, f a = .of (g a)) : as.mapM f = .of (as.mapM g) := by
  induction as with
  | nil => rfl
  | cons a as ih =>
      obtain ⟨ha, has⟩ := List.forall_mem_cons.mp h
      rw [List.mapM_cons, List.mapM_cons, ha, ih has]
      exact of_bind fun b _ => of_bind fun bs _ => rfl

/-! ### Locals -/

namespace Locals

/-- Adds a name to the innermost block, which is there. -/
def addStrict (l : Locals) (name chosen : String) : Option Locals :=
  match l.blocks with
  | [] => none
  | b :: rest => some { l with blocks := ((name, chosen) :: b) :: rest }

/-- Declares a local in the innermost block, under an identifier that is free. -/
def declareStrict (l : Locals) (name : String) : Option (String × Locals) :=
  if (l.find? name).isSome then do
    let chosen := freshName l.taken name
    guard (chosen ∉ l.taken)
    return (chosen, ← { l with taken := chosen :: l.taken }.addStrict name chosen)
  else return (identifier name, ← l.addStrict name (identifier name))

/-- Back to the block around, out of a block. -/
def leaveStrict (l : Locals) : Option Locals :=
  match l.blocks with
  | [] => none
  | _ :: rest => some { l with blocks := rest }

/-- The identifier of a parameter, which has been declared in the outermost block. -/
def parameterStrict (l : Locals) (name : String) : Option String :=
  l.blocks.getLast?.bind fun b => b.lookup name

variable {l : Locals}

theorem addStrict_eq (h : 0 < l.blocks.length) (name chosen : String) :
    l.addStrict name chosen = some (l.add name chosen) := by
  obtain ⟨blocks, taken⟩ := l
  cases blocks with
  | nil => exact (Nat.lt_irrefl 0 h).elim
  | cons b rest => rfl

theorem length_add (h : 0 < l.blocks.length) (name chosen : String) :
    (l.add name chosen).blocks.length = l.blocks.length := by
  obtain ⟨blocks, taken⟩ := l
  cases blocks with
  | nil => exact (Nat.lt_irrefl 0 h).elim
  | cons b rest => rfl

theorem declareStrict_eq (h : 0 < l.blocks.length) (name : String) :
    l.declareStrict name = some (l.declare name) := by
  rw [declareStrict, declare]
  by_cases hfound : (l.find? name).isSome = true
  · have hfree : (guard (freshName l.taken name ∉ l.taken) : Option Unit) = some () :=
      if_pos (freshName_not_mem l.taken name)
    have hadd := fun chosen =>
      addStrict_eq (l := { l with taken := chosen :: l.taken }) h name chosen
    rw [if_pos hfound, if_pos hfound]
    dsimp only
    rw [hfree, hadd]
    rfl
  · rw [if_neg hfound, if_neg hfound, addStrict_eq h]
    rfl

theorem length_declare (h : 0 < l.blocks.length) (name : String) :
    (l.declare name).2.blocks.length = l.blocks.length := by
  unfold declare
  split
  · exact length_add (l := { l with taken := freshName l.taken name :: l.taken }) h name _
  · exact length_add h name _

theorem length_leave {l' : Locals} (h : l'.blocks.length = l.enter.blocks.length) :
    l'.leave.blocks.length = l.blocks.length := by
  rw [leave, List.length_tail, h, enter, List.length_cons, Nat.add_sub_cancel]

theorem leaveStrict_eq (h : 0 < l.blocks.length) : l.leaveStrict = some l.leave := by
  obtain ⟨blocks, taken⟩ := l
  cases blocks with
  | nil => exact (Nat.lt_irrefl 0 h).elim
  | cons b rest => rfl

/-- Every parameter of a function has been declared under its own identifier. -/
theorem parameterStrict_ofFunction (moduleNames : List String) {f : FunctionDecl} {p : Typed}
    (hp : p ∈ f.parameters) :
    (ofFunction moduleNames f).parameterStrict p.name = some (identifier p.name) := by
  have hlookup := lookup_map_self identifier (f.parameters.map Typed.name) p.name
  rw [if_pos (List.mem_map_of_mem hp), List.map_map] at hlookup
  exact hlookup

end Locals

/-! ### Expressions -/

/-- A call of lowered arguments. A conversion has one. -/
def callTermStrict (r : Registry) (callee : Name) (target : CallTarget) (purity : Purity)
    (args : List Term) : Option Term :=
  match target, args with
  | .conversion, [] => none
  | _, _ => some (callTerm r callee target purity args)

mutual

/-- Lowers an expression, strictly. -/
def lowerExprStrict (r : Registry) (l : Locals) : Expr → Strict Term
  | .literal v note => do
    Strict.of (requireType (.literal v note))
    Strict.of (lowerLiteral v)
  | .list es note => do
    Strict.of (requireType (.list es note))
    return .array (← lowerExprsStrict r l es)
  | .variable x note => do
    Strict.of (requireType (.variable x note))
    return .variable (l.resolve x)
  | .unary op e note => do
    Strict.of (requireType (.unary op e note))
    return .unary op (← lowerExprStrict r l e)
  | .binary op a b note => do
    Strict.of (requireType (.binary op a b note))
    let a ← lowerExprStrict r l a
    return .binary op a (← lowerExprStrict r l b)
  | .call callee args note => do
    let (target, purity) ← Strict.of (requireResolved callee note)
    Strict.of (requireArity callee target args.length)
    ExceptT.lift (callTermStrict r callee target purity (← lowerExprsStrict r l args))
  | .field e name note => do
    Strict.of (requireType (.field e name note))
    return .member (← lowerExprStrict r l e) name.text

/-- Lowers several expressions, strictly. -/
def lowerExprsStrict (r : Registry) (l : Locals) : List Expr → Strict (List Term)
  | [] => return []
  | e :: es => do
    let e ← lowerExprStrict r l e
    return e :: (← lowerExprsStrict r l es)

end

section

variable {r : Registry} {l : Locals}

/-- Where the number of arguments is right, a conversion has a value to convert. -/
theorem callTermStrict_eq {callee : Name} {target : CallTarget} {purity : Purity}
    {args : List Term} (harity : requireArity callee target args.length = .ok ()) :
    callTermStrict r callee target purity args =
      some (callTerm r callee target purity args) := by
  cases target with
  | conversion =>
      cases args with
      | nil => cases harity
      | cons a as => rfl
  | function | operation | helper => rfl

theorem lowerExprsStrict_eq_of {es : List Expr}
    (h : ∀ e ∈ es, lowerExprStrict r l e = .of (lowerExpr r l e)) :
    lowerExprsStrict r l es = .of (lowerExprs r l es) := by
  induction es with
  | nil => simp only [lowerExprsStrict, lowerExprs]; rfl
  | cons e es ih =>
      obtain ⟨he, hes⟩ := List.forall_mem_cons.mp h
      rw [lowerExprsStrict, lowerExprs, he, ih hes]
      exact Strict.of_bind fun t _ => Strict.of_bind fun ts _ => rfl

/-- A call is lowered to what its arguments are lowered to. -/
theorem callStrict_eq {callee : Name} {args : List Expr} {target : CallTarget} {purity : Purity}
    (harity : requireArity callee target args.length = .ok ()) {ts : List Term}
    (hts : lowerExprs r l args = .ok ts) :
    callTermStrict r callee target purity ts = some (callTerm r callee target purity ts) :=
  callTermStrict_eq (by rwa [← (lowerExprs_eq_ok.mp hts).length_eq])

theorem lowerExprStrict_eq (e : Expr) : lowerExprStrict r l e = .of (lowerExpr r l e) := by
  induction e with
  | literal value note =>
      rw [lowerExprStrict, lowerExpr]
      exact Strict.of_bind fun _ _ => rfl
  | var name note =>
      rw [lowerExprStrict, lowerExpr]
      exact Strict.of_bind fun _ _ => rfl
  | list es note ih =>
      rw [lowerExprStrict, lowerExpr, lowerExprsStrict_eq_of ih]
      exact Strict.of_bind fun _ _ => Strict.of_bind fun _ _ => rfl
  | unary op e note ih =>
      rw [lowerExprStrict, lowerExpr, ih]
      exact Strict.of_bind fun _ _ => Strict.of_bind fun _ _ => rfl
  | binary op a b note iha ihb =>
      rw [lowerExprStrict, lowerExpr, iha, ihb]
      exact Strict.of_bind fun _ _ => Strict.of_bind fun _ _ => Strict.of_bind fun _ _ => rfl
  | call callee args note ih =>
      rw [lowerExprStrict, lowerExpr, lowerExprsStrict_eq_of ih]
      refine Strict.of_bind fun resolved _ => Strict.of_bind fun _ harity =>
        Strict.of_bind fun ts hts => ?_
      rw [callStrict_eq harity hts]
      rfl
  | field e name note ih =>
      rw [lowerExprStrict, lowerExpr, ih]
      exact Strict.of_bind fun _ _ => Strict.of_bind fun _ _ => rfl

theorem lowerExprsStrict_eq (es : List Expr) :
    lowerExprsStrict r l es = .of (lowerExprs r l es) :=
  lowerExprsStrict_eq_of fun e _ => lowerExprStrict_eq e

end

/-! ### Statements -/

mutual

/-- Lowers a statement, strictly. -/
def lowerStmtStrict (r : Registry) (l : Locals) : Stmt → Strict (Command × Locals)
  | .bind name e _ => do
    let e ← lowerExprStrict r l e
    let (x, l) ← ExceptT.lift (l.declareStrict name.text)
    return (.const x e, l)
  | .branch c t none _ => do
    let c ← lowerExprStrict r l c
    let (t, l) ← lowerStmtsStrict r l.enter t
    let l ← ExceptT.lift l.leaveStrict
    return (.branch c t none, l)
  | .branch c t (some o) _ => do
    let c ← lowerExprStrict r l c
    let (t, l) ← lowerStmtsStrict r l.enter t
    let l ← ExceptT.lift l.leaveStrict
    let (o, l) ← lowerStmtsStrict r l.enter o
    let l ← ExceptT.lift l.leaveStrict
    return (.branch c t (some o), l)
  | .forEach item e body _ => do
    let e ← lowerExprStrict r l e
    let (x, l) ← ExceptT.lift (l.enter.declareStrict item.text)
    let (body, l) ← lowerStmtsStrict r l body
    let l ← ExceptT.lift l.leaveStrict
    return (.forOf x e body, l)
  | .call callee args note _ => do
    let (target, purity) ← Strict.of (requireResolved callee note)
    Strict.of (requireArity callee target args.length)
    let args ← lowerExprsStrict r l args
    return (.expression (← ExceptT.lift (callTermStrict r callee target purity args)), l)
  | .return none _ => return (.return none, l)
  | .return (some e) _ => return (.return (some (← lowerExprStrict r l e)), l)
  | .expression e _ => return (.expression (← lowerExprStrict r l e), l)

/-- Lowers the statements of a block, strictly. -/
def lowerStmtsStrict (r : Registry) (l : Locals) : List Stmt → Strict (List Command × Locals)
  | [] => return ([], l)
  | s :: ss => do
    let (c, l) ← lowerStmtStrict r l s
    let (cs, l) ← lowerStmtsStrict r l ss
    return (c :: cs, l)

end

section

variable {r : Registry}

theorem length_lowerStmts_of {ss : List Stmt}
    (h : ∀ s ∈ ss, ∀ {l l' c}, 0 < l.blocks.length → lowerStmt r l s = .ok (c, l') →
      l'.blocks.length = l.blocks.length)
    {l l' : Locals} {cs : List Command} (hl : 0 < l.blocks.length)
    (hcs : lowerStmts r l ss = .ok (cs, l')) : l'.blocks.length = l.blocks.length := by
  induction ss generalizing l cs with
  | nil =>
      obtain ⟨-, rfl⟩ := lowerStmts_nil.mp hcs
      rfl
  | cons s ss ih =>
      obtain ⟨hs, hss⟩ := List.forall_mem_cons.mp h
      obtain ⟨c, l₁, hc, cs', l₂, hrest, -, rfl⟩ := lowerStmts_cons.mp hcs
      have hlength := hs hl hc
      exact (ih hss (hlength ▸ hl) hrest).trans hlength

/-- Behind a statement as many blocks are open as before it. -/
theorem length_lowerStmt {s : Stmt} {l l' : Locals} {c : Command} (hl : 0 < l.blocks.length)
    (h : lowerStmt r l s = .ok (c, l')) : l'.blocks.length = l.blocks.length := by
  have hentered : ∀ l : Locals, 0 < l.enter.blocks.length := fun _ => Nat.succ_pos _
  induction s generalizing l l' c with
  | bind name e span =>
      obtain ⟨t, -, -, rfl⟩ := lowerStmt_bind.mp h
      exact Locals.length_declare hl _
  | branch c t span iht =>
      obtain ⟨_, -, ts, l₁, hts, -, rfl⟩ := lowerStmt_branch.mp h
      exact Locals.length_leave (length_lowerStmts_of iht (hentered l) hts)
  | branchOtherwise c t o span iht iho =>
      obtain ⟨_, -, ts, l₁, hts, os, l₂, hos, -, rfl⟩ := lowerStmt_branchOtherwise.mp h
      have hthen := Locals.length_leave (length_lowerStmts_of iht (hentered l) hts)
      exact (Locals.length_leave (length_lowerStmts_of iho (hentered l₁.leave) hos)).trans hthen
  | forEach item e body span ih =>
      obtain ⟨_, -, cs, l₁, hcs, -, rfl⟩ := lowerStmt_forEach.mp h
      have hitem := Locals.length_declare (hentered l) item.text
      exact Locals.length_leave ((length_lowerStmts_of ih (hitem ▸ hentered l) hcs).trans hitem)
  | call callee args note span =>
      obtain ⟨_, -, -, rfl⟩ := lowerStmt_call.mp h
      rfl
  | returns value span =>
      cases value with
      | none =>
          obtain ⟨-, rfl⟩ := lowerStmt_return_none.mp h
          rfl
      | some e =>
          obtain ⟨_, -, -, rfl⟩ := lowerStmt_return_some.mp h
          rfl
  | expression e span =>
      obtain ⟨_, -, -, rfl⟩ := lowerStmt_expression.mp h
      rfl

theorem length_lowerStmts {ss : List Stmt} {l l' : Locals} {cs : List Command}
    (hl : 0 < l.blocks.length) (hcs : lowerStmts r l ss = .ok (cs, l')) :
    l'.blocks.length = l.blocks.length :=
  length_lowerStmts_of (fun _ _ => length_lowerStmt) hl hcs

/-- Behind the statements of a block, the block can be left. -/
theorem leaveStrict_lowerStmts {ss : List Stmt} {l l' : Locals} {cs : List Command}
    (hl : 0 < l.blocks.length) (hcs : lowerStmts r l ss = .ok (cs, l')) :
    l'.leaveStrict = some l'.leave :=
  Locals.leaveStrict_eq (length_lowerStmts hl hcs ▸ hl)

theorem lowerStmtsStrict_eq_of {ss : List Stmt}
    (h : ∀ s ∈ ss, ∀ {l : Locals}, 0 < l.blocks.length →
      lowerStmtStrict r l s = .of (lowerStmt r l s)) {l : Locals} (hl : 0 < l.blocks.length) :
    lowerStmtsStrict r l ss = .of (lowerStmts r l ss) := by
  induction ss generalizing l with
  | nil => simp only [lowerStmtsStrict, lowerStmts]; rfl
  | cons s ss ih =>
      obtain ⟨hs, hss⟩ := List.forall_mem_cons.mp h
      rw [lowerStmtsStrict, lowerStmts, hs hl]
      refine Strict.of_bind ?_
      rintro ⟨c, l₁⟩ hc
      dsimp only
      rw [ih hss (length_lowerStmt hl hc ▸ hl)]
      exact Strict.of_bind fun _ _ => rfl

/-- A statement is lowered strictly where a block is open. -/
theorem lowerStmtStrict_eq {s : Stmt} {l : Locals} (hl : 0 < l.blocks.length) :
    lowerStmtStrict r l s = .of (lowerStmt r l s) := by
  have hentered : ∀ l : Locals, 0 < l.enter.blocks.length := fun _ => Nat.succ_pos _
  induction s generalizing l with
  | bind name e span =>
      rw [lowerStmtStrict, lowerStmt, lowerExprStrict_eq]
      exact Strict.of_bind fun t _ => Strict.lift_bind (Locals.declareStrict_eq hl _) _
  | branch c t span iht =>
      rw [lowerStmtStrict, lowerStmt, lowerExprStrict_eq, lowerStmtsStrict_eq_of iht (hentered l)]
      refine Strict.of_bind fun _ _ => Strict.of_bind ?_
      rintro ⟨ts, l₁⟩ hts
      exact Strict.lift_bind (leaveStrict_lowerStmts (hentered l) hts) _
  | branchOtherwise c t o span iht iho =>
      rw [lowerStmtStrict, lowerStmt, lowerExprStrict_eq, lowerStmtsStrict_eq_of iht (hentered l)]
      refine Strict.of_bind fun _ _ => Strict.of_bind ?_
      rintro ⟨ts, l₁⟩ hts
      refine (Strict.lift_bind (leaveStrict_lowerStmts (hentered l) hts) _).trans ?_
      rw [lowerStmtsStrict_eq_of iho (hentered l₁.leave)]
      refine Strict.of_bind ?_
      rintro ⟨os, l₂⟩ hos
      exact Strict.lift_bind (leaveStrict_lowerStmts (hentered l₁.leave) hos) _
  | forEach item e body span ih =>
      have hitem : 0 < (l.enter.declare item.text).2.blocks.length :=
        Locals.length_declare (hentered l) item.text ▸ hentered l
      rw [lowerStmtStrict, lowerStmt, lowerExprStrict_eq]
      refine Strict.of_bind fun _ _ => ?_
      refine (Strict.lift_bind (Locals.declareStrict_eq (hentered l) _) _).trans ?_
      generalize l.enter.declare item.text = declared at hitem
      obtain ⟨x, inner⟩ := declared
      dsimp only at hitem ⊢
      rw [lowerStmtsStrict_eq_of ih hitem]
      refine Strict.of_bind ?_
      rintro ⟨cs, l₁⟩ hcs
      exact Strict.lift_bind (leaveStrict_lowerStmts hitem hcs) _
  | call callee args note span =>
      rw [lowerStmtStrict, lowerStmt, lowerExprsStrict_eq]
      refine Strict.of_bind fun resolved _ => Strict.of_bind fun _ harity =>
        Strict.of_bind fun ts hts => ?_
      exact Strict.lift_bind (callStrict_eq harity hts) _
  | returns value span =>
      cases value with
      | none =>
          rw [lowerStmtStrict, lowerStmt]
          rfl
      | some e =>
          rw [lowerStmtStrict, lowerStmt, lowerExprStrict_eq]
          exact Strict.of_bind fun _ _ => rfl
  | expression e span =>
      rw [lowerStmtStrict, lowerStmt, lowerExprStrict_eq]
      exact Strict.of_bind fun _ _ => rfl

end

/-! ### Declarations -/

/-- Lowers a parameter, whose identifier has been declared. -/
def lowerParameterStrict (r : Registry) (l : Locals) (p : Typed) : Strict (String × TypeExpr) := do
  return (← ExceptT.lift (l.parameterStrict p.name), ← Strict.of (lowerRef r p.ty))

/-- Lowers a function, strictly. -/
def lowerFunctionStrict (r : Registry) (moduleNames : List String) (f : FunctionDecl) :
    Strict Item :=
  match f.resolved with
  | none => Strict.of (.error (.unlabelled f.name.text))
  | some purity => do
    let l := Locals.ofFunction moduleNames f
    let parameters ← f.parameters.mapM (lowerParameterStrict r l)
    let returns ← Strict.of (lowerReturns r f.returns)
    let (body, l) ← lowerStmtsStrict r l.enter f.body
    let _ ← ExceptT.lift l.leaveStrict
    return .function f.name.text (purity = .effectful) parameters returns body

/-- Lowers a declaration, strictly. -/
def lowerDeclStrict (r : Registry) (moduleNames : List String) : Decl → Strict Item
  | .function f => lowerFunctionStrict r moduleNames f
  | d => Strict.of (lowerDecl r moduleNames d)

/-- Lowers a program, strictly. -/
def lowerStrict (p : Program) (r : Registry) : Strict Module :=
  return ⟨← p.declarations.mapM (lowerDeclStrict r (moduleNames p r))⟩

section

variable {r : Registry}

theorem lowerParameterStrict_eq (moduleNames : List String) {f : FunctionDecl} {p : Typed}
    (hp : p ∈ f.parameters) :
    lowerParameterStrict r (.ofFunction moduleNames f) p = .of (lowerParameter r p) :=
  (Strict.lift_bind (Locals.parameterStrict_ofFunction moduleNames hp) _).trans
    (Strict.of_bind fun _ _ => rfl)

theorem lowerFunctionStrict_eq (moduleNames : List String) (f : FunctionDecl) :
    lowerFunctionStrict r moduleNames f = .of (lowerFunction r moduleNames f) := by
  unfold lowerFunctionStrict lowerFunction
  cases f.resolved with
  | none => rfl
  | some purity =>
      dsimp only
      have hentered : 0 < (Locals.ofFunction moduleNames f).enter.blocks.length := Nat.succ_pos _
      rw [Strict.mapM_of fun p hp => lowerParameterStrict_eq moduleNames hp,
        lowerStmtsStrict_eq_of (fun _ _ => lowerStmtStrict_eq) hentered]
      refine Strict.of_bind fun _ _ => Strict.of_bind fun _ _ =>
        Strict.of_bind fun ⟨cs, l⟩ hcs => ?_
      exact Strict.lift_bind (leaveStrict_lowerStmts hentered hcs) _

theorem lowerStrict_eq (p : Program) : lowerStrict p r = .of (lower p r) := by
  have hdecls : ∀ d ∈ p.declarations,
      lowerDeclStrict r (moduleNames p r) d = .of (lowerDecl r (moduleNames p r) d) := by
    intro d _
    cases d with
    | function f => exact lowerFunctionStrict_eq _ f
    | type t | record d => rfl
  rw [lowerStrict, Strict.mapM_of hdecls]
  exact Strict.of_bind fun _ _ => rfl

end

end Prosaic.TypeScript

namespace Prosaic

/-- The module of a program as text, or what keeps it from being lowered, read strictly. -/
def Program.emitStrict (p : Program) (registry : Registry) (target : Target) :
    Option (Except TypeScript.Defect String) :=
  (TypeScript.lowerStrict p registry).run.map fun m => m.map (·.text target)

/-- Whatever the emission of a program looks up is there. -/
theorem Program.emitStrict_eq (p : Program) (registry : Registry) (target : Target) :
    p.emitStrict registry target = some (p.emit registry target) := by
  rw [emitStrict, TypeScript.lowerStrict_eq, emit]
  cases TypeScript.lower p registry <;> rfl

/-- Whatever a program is, whether it was read with findings or without or is what a check has left,
all that the phases look up in it is there: either check ends with its findings, if not with the
time being over, and the emission ends with a text or with a defect. -/
theorem Program.nothing_missing (p : Program) (registry : Registry) (budget : Budget)
    (target : Target) :
    p.checkTypesStrict registry budget = some (p.checkTypes registry budget) ∧
      (∀ e, (p.checkTypes registry budget).result = .error e → ∃ most, e.limit = .time most) ∧
      p.checkPurityStrict registry budget = some (p.checkPurity registry budget) ∧
      (∀ e, (p.checkPurity registry budget).result = .error e → ∃ most, e.limit = .time most) ∧
      p.emitStrict registry target = some (p.emit registry target) :=
  ⟨p.checkTypesStrict_eq registry budget, fun _ => checkTypes_time,
    p.checkPurityStrict_eq registry budget, fun _ => checkPurity_time,
    p.emitStrict_eq registry target⟩

end Prosaic
