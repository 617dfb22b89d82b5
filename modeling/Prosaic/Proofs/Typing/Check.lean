import Prosaic.Proofs.Program.Bare
import Prosaic.Proofs.Typing.Declared
import Prosaic.Proofs.Typing.Statement

/-!
The type check writes into the notes of a tree and changes nothing else. If it ends in time without
findings, it establishes something about declarations and bodies, and it leaves no node without a
type and no call without a target.
-/

namespace Prosaic

/-! ### What a check writes -/

namespace TypeEnv

variable (env : TypeEnv)

theorem bare_inferAll {scope : Scope} {es : List Expr}
    (hes : ∀ e ∈ es, ∀ expected, (env.infer scope expected e).expr.bare = e.bare)
    (expected : List (Option Ty)) :
    ((env.inferAll scope expected es).map Typing.expr).map Expr.bare = es.map Expr.bare := by
  induction es generalizing expected with
  | nil => rfl
  | cons e es ih =>
      obtain ⟨he, hes⟩ := List.forall_mem_cons.mp hes
      simp only [inferAll, List.map_cons, he, ih hes]

theorem bare_infer {scope : Scope} {e : Expr} (expected : Option Ty) :
    (env.infer scope expected e).expr.bare = e.bare := by
  induction e generalizing expected with
  | literal | var => rfl
  | list es note ih | call f es note ih =>
      simp only [infer, Expr.bare, Expr.bareAll_eq, noteTarget]
      rw [bare_inferAll env fun e he x => ih e he x]
  | unary op e note ih => cases op <;> simp only [infer, Expr.bare, ih]
  | binary op l r note ihl ihr => cases op <;> simp only [infer, Expr.bare, ihl, ihr]
  | field e name note ih => simp only [infer, Expr.bare, ih]

theorem bare_checkCall (scope : Scope) (name : Name) (args : List Expr) (note : CallNote) :
    (Expr.call name (env.checkCall scope name args note).1
      (env.checkCall scope name args note).2.1).bare = (Expr.call name args note).bare := by
  simp only [checkCall, Expr.bare, Expr.bareAll_eq, noteTarget]
  rw [bare_inferAll env fun e _ x => bare_infer env x]

theorem bare_checkUnused (scope : Scope) (e : Expr) :
    (env.checkUnused scope e).1.bare = e.bare := by
  cases e with
  | call name args note => exact bare_checkCall env scope name args note
  | _ => exact bare_infer env none

theorem bare_checkReturn (fn : Enclosing) (scope : Scope) (value : Option Expr) (span : Span) :
    (Stmt.return (env.checkReturn fn scope value span).1 span).bare =
      (Stmt.return value span).bare := by
  unfold checkReturn
  cases value with
  | none => cases fn.returns <;> rfl
  | some e => cases fn.returns <;> simp only [Stmt.bare, bare_infer]

theorem bare_checkBlock_of {fn : Enclosing} {ss : List Stmt}
    (hss : ∀ s ∈ ss, ∀ scope timer, (env.checkStmt fn scope timer s).stmt.bare = s.bare)
    (scope : Scope) (timer : Timer) :
    (env.checkBlock fn scope timer ss).stmts.map Stmt.bare = ss.map Stmt.bare := by
  induction ss generalizing scope timer with
  | nil => rfl
  | cons s ss ih =>
      obtain ⟨hs, hss⟩ := List.forall_mem_cons.mp hss
      simp only [checkBlock]
      split
      · rfl
      · simp only [List.map_cons, hs, ih hss]

theorem bare_checkStmt {fn : Enclosing} {s : Stmt} (scope : Scope) (timer : Timer) :
    (env.checkStmt fn scope timer s).stmt.bare = s.bare := by
  induction s generalizing scope timer with
  | bind name e span => simp only [checkStmt, Stmt.bare, bare_infer]
  | branch c t span iht =>
      simp only [checkStmt, Stmt.bare, Stmt.bareAll_eq, bare_infer,
        bare_checkBlock_of env iht]
  | branchOtherwise c t o span iht iho =>
      simp only [checkStmt, Stmt.bare, Stmt.bareAll_eq, bare_infer,
        bare_checkBlock_of env iht, bare_checkBlock_of env iho]
  | forEach item e body span ih =>
      simp only [checkStmt, Stmt.bare, Stmt.bareAll_eq, bare_infer, bare_checkBlock_of env ih]
  | call name args note span =>
      have := bare_checkCall env scope name args note
      simp only [Expr.bare, Expr.call.injEq] at this
      simp only [checkStmt, Stmt.bare, this]
  | returns value span => exact bare_checkReturn env fn scope value span
  | expression e span => simp only [checkStmt, Stmt.bare, bare_checkUnused]

theorem bare_checkBlock (fn : Enclosing) (scope : Scope) (timer : Timer) (ss : List Stmt) :
    (env.checkBlock fn scope timer ss).stmts.map Stmt.bare = ss.map Stmt.bare :=
  bare_checkBlock_of env (fun _ _ => bare_checkStmt env) scope timer

theorem bare_checkDecls (timer : Timer) (ds : List Decl) (ss : List Signature) :
    (env.checkDecls timer ds ss).1.map Decl.bare = ds.map Decl.bare := by
  induction ds generalizing timer ss with
  | nil => simp [checkDecls]
  | cons d ds ih =>
      cases d with
      | function f =>
          cases ss with
          | nil => simp only [checkDecls, List.map_cons, ih]
          | cons s ss =>
              simp only [checkDecls, List.map_cons, ih, Decl.bare, checkFunction,
                FunctionDecl.bare, Stmt.bareAll_eq, bare_checkBlock]
      | type t => simp only [checkDecls, List.map_cons, ih]
      | record r => simp only [checkDecls, List.map_cons, ih]

end TypeEnv

theorem Program.sameBare_checkTypes (p : Program) (registry : Registry) (budget : Budget) :
    (p.checkTypes registry budget).program.SameBare p :=
  TypeEnv.bare_checkDecls _ _ _ _

/-! ### What a check without findings establishes -/

/-- The condition of a node that the type check has completed: a call has a target, and one argument
if it is a conversion; everything else has a type. -/
def Expr.Resolved : Expr → Prop
  | .call _ args note =>
      note.target.isSome = true ∧ (note.target = some .conversion → args.length = 1)
  | e => e.ty?.isSome = true

/-- A reference denotes a type, given the types of names. -/
def TypeRef.Denotes (named : String → Option Ty) (ref : TypeRef) : Prop :=
  (ref.denote? named).isSome = true

/-- All references in a declaration denote types. -/
def Decl.Denotes (named : String → Option Ty) : Decl → Prop
  | .type ⟨_, .literals _, _⟩ => True
  | .type ⟨_, .reference ref, _⟩ => ref.Denotes named
  | .record r => ∀ f ∈ r.fields, f.ty.Denotes named
  | .function f =>
      (∀ p ∈ f.parameters, p.ty.Denotes named) ∧ ∀ ref ∈ f.returns, ref.Denotes named

namespace TypeEnv

variable {env : TypeEnv}

/-! ### Accepted trees -/

theorem resolved_of_callFits {callee : Name} {args : List Expr} {note : CallNote}
    {returns : Option Ty} (h : env.CallFits callee.text args note.target returns) :
    (Expr.call callee args note).Resolved := by
  rcases callFits_cases h with
    ⟨b, arg, t, -, htarget, -, rfl, -⟩ | ⟨kind, parameters, hknown, htarget, hargs⟩
  · exact ⟨by rw [htarget]; rfl, fun _ => rfl⟩
  · refine ⟨by rw [htarget]; rfl, fun hconversion => ?_⟩
    rw [htarget, Option.some_inj] at hconversion
    subst hconversion
    rw [hargs.length_eq]
    -- a conversion asks for one value
    cases hknown
    rfl

theorem exists_ty?_of_accepts {scope : Scope} {e : Expr} (h : env.Accepts scope e) :
    ∃ t, e.ty? = some t := by
  induction e with
  | literal value note => exact ⟨_, h⟩
  | list es note =>
      rcases h with ⟨t, ht, -⟩ | ⟨-, ht⟩
      · exact ⟨_, ht⟩
      · exact ⟨_, ht⟩
  | var name note =>
      obtain ⟨b, -, ht⟩ := h
      exact ⟨_, ht⟩
  | unary op e note => cases op <;> exact ⟨_, h.1⟩
  | binary op l r note =>
      obtain ⟨-, -, t, -, -, ht, -⟩ := h
      exact ⟨t, ht⟩
  | call callee args note =>
      obtain ⟨t, ht, -⟩ := h
      exact ⟨t, ht⟩
  | field e name note =>
      obtain ⟨-, t, -, ht, -⟩ := h
      exact ⟨t, ht⟩

theorem resolved_of_accepts {scope : Scope} {e : Expr} (h : env.Accepts scope e) : e.Resolved := by
  have hty := Option.isSome_iff_exists.mpr (exists_ty?_of_accepts h)
  cases e with
  | call callee args note =>
      obtain ⟨t, -, hfits⟩ := h
      exact resolved_of_callFits hfits
  | _ => exact hty

section

variable {P : Expr → Prop} (hnode : ∀ scope e, env.Accepts scope e → P e)
  (hcall : ∀ callee args note returns, env.CallFits callee.text args note.target returns →
    P (.call callee args note))

include hnode hcall

theorem everywhere_of_acceptsUnused {scope : Scope} {e : Expr} (h : env.AcceptsUnused scope e) :
    e.Everywhere P := by
  cases e with
  | call callee args note =>
      obtain ⟨hargs, returns, hfits⟩ := h
      refine ⟨hcall _ _ _ _ hfits, Expr.everywhereIn_iff.mpr fun e he => ?_⟩
      exact (hargs e he).mono (hnode scope)
  | _ => exact Expr.Everywhere.mono (hnode scope) h

omit hnode hcall in
theorem everywhere_of_acceptsBlock {fn : Enclosing} {ss : List Stmt}
    (hss : ∀ s ∈ ss, ∀ scope, env.AcceptsStmt fn scope s → s.Everywhere P)
    {scope : Scope} (h : env.AcceptsBlock fn scope ss) : Stmt.EverywhereIn P ss := by
  induction ss generalizing scope with
  | nil => trivial
  | cons s ss ih =>
      obtain ⟨hs, hss⟩ := List.forall_mem_cons.mp hss
      exact ⟨hs scope h.1, ih hss h.2⟩

/-- What holds of every node that is accepted, and of every call that fits, holds everywhere in an
accepted statement. -/
theorem everywhere_of_acceptsStmt {fn : Enclosing} {s : Stmt} {scope : Scope}
    (h : env.AcceptsStmt fn scope s) : s.Everywhere P := by
  induction s generalizing scope with
  | bind name e span => exact h.1.mono (hnode _)
  | branch c t span iht =>
      obtain ⟨hc, -, ht⟩ := h
      exact ⟨hc.mono (hnode _), everywhere_of_acceptsBlock (fun s hs _ => iht s hs) ht⟩
  | branchOtherwise c t o span iht iho =>
      obtain ⟨hc, -, ht, ho⟩ := h
      exact ⟨hc.mono (hnode _), everywhere_of_acceptsBlock (fun s hs _ => iht s hs) ht,
        everywhere_of_acceptsBlock (fun s hs _ => iho s hs) ho⟩
  | forEach item e body span ih =>
      obtain ⟨he, -, _, -, hbody⟩ := h
      exact ⟨he.mono (hnode _), everywhere_of_acceptsBlock (fun s hs _ => ih s hs) hbody⟩
  | call callee args note span => exact everywhere_of_acceptsUnused hnode hcall h
  | returns value span =>
      cases value with
      | none => trivial
      | some e =>
          obtain ⟨-, -, he, -⟩ := h
          exact he.mono (hnode _)
  | expression e span => exact everywhere_of_acceptsUnused hnode hcall h

end

end TypeEnv

/-! ### Declarations -/

theorem Denoted.denotes {named : String → Option Ty} {declared : List Typed}
    {types : List (String × Ty)} (h : Denoted named declared types) :
    ∀ d ∈ declared, d.ty.Denotes named := by
  have hpairs := h.imp fun d t hdt =>
    And.intro (show d.ty.Denotes named by rw [TypeRef.Denotes, hdt.2]; rfl) hdt
  exact ((List.forall₂_and_left _ _).mp hpairs).1

theorem SignatureDenoted.denotes {named : String → Option Ty} {f : FunctionDecl} {s : Signature}
    (h : SignatureDenoted named f s) : (Decl.function f).Denotes named := by
  refine ⟨h.parameters.denotes, fun ref href => ?_⟩
  have hreturns := h.returns
  rw [Option.mem_def.mp href] at hreturns
  generalize s.returns = t at hreturns
  cases hreturns with
  | some hdenote => rw [TypeRef.Denotes, hdenote]; rfl

/-- Where the environment reflects the declarations, their references denote types. -/
theorem TypeEnv.Reflects.denotes {env : TypeEnv} {registry : Registry} {p : Program}
    (h : env.Reflects registry p) {d : Decl} (hd : d ∈ p.readable.declarations) :
    d.Denotes env.type? := by
  cases d with
  | type t =>
      obtain ⟨d, -, hbody⟩ := h.domains t (Program.mem_types.mpr hd)
      obtain ⟨name, body, span⟩ := t
      cases body with
      | literals values => trivial
      | reference ref =>
          obtain ⟨t, hdenote, -⟩ := hbody
          rw [Decl.Denotes, TypeRef.Denotes, hdenote]
          rfl
  | record r =>
      have hpairs := h.records.imp fun r e hre =>
        And.intro (show (Decl.record r).Denotes env.type? by
          obtain ⟨-, -, fields, -, hfields⟩ := hre
          exact hfields.denotes) hre
      exact ((List.forall₂_and_left _ _).mp hpairs).1 r (Program.mem_records.mpr hd)
  | function f =>
      have hpairs := h.functions.imp fun f e hfe => And.intro hfe.2.denotes hfe
      exact ((List.forall₂_and_left _ _).mp hpairs).1 f (Program.mem_functions.mpr hd)

theorem TypeEnv.Reflects.nodup_functionNames {env : TypeEnv} {registry : Registry} {p : Program}
    (h : env.Reflects registry p) : (p.readable.functions.map fun f => f.name.text).Nodup :=
  Program.nodup_functionNames h.distinct

/-- A declaration says no less about its types where nothing is noted in its body. -/
theorem Decl.denotes_bare (named : String → Option Ty) (d : Decl) :
    d.bare.Denotes named ↔ d.Denotes named := by
  cases d <;> rfl

theorem SignatureDenoted.bare_iff {named : String → Option Ty} {f : FunctionDecl}
    {s : Signature} : SignatureDenoted named f.bare s ↔ SignatureDenoted named f s :=
  ⟨fun h => ⟨h.parameters, h.returns⟩, fun h => ⟨h.parameters, h.returns⟩⟩

/-- The functions of programs with the same bare declarations have the same signatures. -/
theorem Program.SameBare.signatures {named : String → Option Ty} {p q : Program}
    (h : p.SameBare q) {ss : List Signature}
    (hss : List.Forall₂ (SignatureDenoted named) q.functions ss) :
    List.Forall₂ (SignatureDenoted named) p.functions ss := by
  have hbare : List.Forall₂ (SignatureDenoted named) (q.functions.map FunctionDecl.bare) ss :=
    List.forall₂_map_left_iff.mpr (hss.imp fun _ _ => SignatureDenoted.bare_iff.mpr)
  rw [← h.functions, List.forall₂_map_left_iff] at hbare
  exact hbare.imp fun _ _ => SignatureDenoted.bare_iff.mp

/-! ### The whole check -/

section

variable {p : Program} {registry : Registry} {budget : Budget}

/-- What a type check that ends in time without findings has established. -/
theorem Program.checkTypes_accepts (h : (p.checkTypes registry budget).result = .ok []) :
    (Declared.of registry p).env.Reflects registry p ∧
      List.Forall₂ (SignatureDenoted (Declared.of registry p).env.type?) p.functions
        (Declared.of registry p).signatures ∧
      List.Forall₂ (Declared.of registry p).env.AcceptsFunction
        (p.checkTypes registry budget).program.functions (Declared.of registry p).signatures := by
  obtain ⟨htime, hnone⟩ := checkTypes_eq_ok.mp h
  obtain ⟨hdeclared, hfound⟩ := List.append_eq_nil_iff.mp hnone.symm
  obtain ⟨hreflects, hsignatures⟩ := Declared.of_reflects hdeclared
  exact ⟨hreflects, hsignatures,
    TypeEnv.checkDecls_accepts _ hsignatures.length_eq.symm hfound htime⟩

/-- What holds of accepted nodes and fitting calls holds everywhere after a check without
findings. -/
theorem Program.checkTypes_everywhere {P : Expr → Prop}
    (hnode : ∀ scope e, (Declared.of registry p).env.Accepts scope e → P e)
    (hcall : ∀ callee args note returns,
      (Declared.of registry p).env.CallFits callee.text args note.target returns →
        P (.call callee args note))
    (h : (p.checkTypes registry budget).result = .ok []) :
    (p.checkTypes registry budget).program.Everywhere P := by
  obtain ⟨-, -, haccepts⟩ := checkTypes_accepts h
  have hbodies := haccepts.imp fun f s hs =>
    And.intro (TypeEnv.everywhere_of_acceptsBlock
      (fun _ _ _ => TypeEnv.everywhere_of_acceptsStmt hnode hcall) hs.body) hs
  exact ((List.forall₂_and_left _ _).mp hbodies).1

/-- After a type check without findings every node is resolved. -/
theorem Program.checkTypes_resolved (h : (p.checkTypes registry budget).result = .ok []) :
    (p.checkTypes registry budget).program.Everywhere Expr.Resolved :=
  checkTypes_everywhere (fun _ _ => TypeEnv.resolved_of_accepts)
    (fun _ _ _ _ => TypeEnv.resolved_of_callFits) h

end

end Prosaic
