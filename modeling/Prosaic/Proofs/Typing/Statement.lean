import Prosaic.Proofs.Program.Parts
import Prosaic.Proofs.Typing.Expression
import Prosaic.Typing.Statement

/-!
What the check of statements, blocks and functions establishes when it finds nothing and does not
run out of time. As for expressions, the conditions speak about the annotated tree: each statement
is looked at in the scope that the statements before it leave.
-/

namespace Prosaic

/-! ### Timers -/

theorem Timer.exceeded_of_check {t : Timer} {start : Position}
    (h : (t.check start).exceeded = none) : t.exceeded = none := by
  cases ht : t.exceeded with
  | none => rfl
  | some e => simp [Timer.check, ht] at h

namespace TypeEnv

/-! ### Conditions of the statements -/

/-- A name that a local may have in the innermost frame of a scope. -/
structure Bindable (env : TypeEnv) (scope : Scope) (name : String) : Prop where
  function : env.functions.lookup name = none
  callable : env.registry.callable? name = none
  fresh : (scope.headD []).find? name = none

/-- The scope behind a checked statement. -/
def after (scope : Scope) : Stmt → Scope
  | .bind name init _ => (scope.bind ⟨name.text, init.ty?.getD .error, some name.span⟩).2
  | _ => scope

/-- The condition of an expression whose value is not used: a call may return nothing. -/
def AcceptsUnused (env : TypeEnv) (scope : Scope) : Expr → Prop
  | .call callee args note =>
      (∀ e ∈ args, e.Everywhere (env.Accepts scope)) ∧
        ∃ returns, env.CallFits callee.text args note.target returns
  | e => e.Everywhere (env.Accepts scope)

mutual

/-- The condition of a statement in a scope. -/
def AcceptsStmt (env : TypeEnv) (fn : Enclosing) (scope : Scope) : Stmt → Prop
  | .bind name init _ => init.Everywhere (env.Accepts scope) ∧ env.Bindable scope name.text
  | .branch condition thenBlock none _ =>
      condition.Everywhere (env.Accepts scope) ∧
        (∃ t, condition.ty? = some t ∧ t.same .boolean = true) ∧
        AcceptsBlock env fn scope.child thenBlock
  | .branch condition thenBlock (some otherwise) _ =>
      condition.Everywhere (env.Accepts scope) ∧
        (∃ t, condition.ty? = some t ∧ t.same .boolean = true) ∧
        AcceptsBlock env fn scope.child thenBlock ∧ AcceptsBlock env fn scope.child otherwise
  | .forEach item iterable body _ =>
      iterable.Everywhere (env.Accepts scope) ∧ env.Bindable scope.child item.text ∧
        ∃ t, (iterable.ty? = some (.list t) ∨ (iterable.ty? = some .error ∧ t = .error)) ∧
          AcceptsBlock env fn (scope.child.bind ⟨item.text, t, some item.span⟩).2 body
  | .call callee args note _ => AcceptsUnused env scope (.call callee args note)
  | .return none _ => fn.returns = none
  | .return (some value) _ =>
      ∃ t, fn.returns = some t ∧ value.Everywhere (env.Accepts scope) ∧ env.Fits value t
  | .expression value _ => AcceptsUnused env scope value

def AcceptsBlock (env : TypeEnv) (fn : Enclosing) (scope : Scope) : List Stmt → Prop
  | [] => True
  | s :: ss => AcceptsStmt env fn scope s ∧ AcceptsBlock env fn (after scope s) ss

end

/-- The local that a parameter is. -/
def parameterBinding (p : Typed × Ty) : Binding := ⟨p.1.name, p.2, some p.1.span⟩

/-- The locals that the parameters of a function are, with the types of its signature. -/
def parameterFrame (f : FunctionDecl) (s : Signature) : Frame :=
  (f.parameters.zip (s.parameters.map Prod.snd)).map parameterBinding

/-- The condition of a function with a signature. -/
structure AcceptsFunction (env : TypeEnv) (f : FunctionDecl) (s : Signature) : Prop where
  distinct : ((parameterFrame f s).map Binding.name).Nodup
  free : ∀ b ∈ parameterFrame f s,
    env.functions.lookup b.name = none ∧ env.registry.callable? b.name = none
  body : AcceptsBlock env ⟨f.name.text, s.returns⟩ [parameterFrame f s] f.body

section

variable (env : TypeEnv)

/-! ### Parts without findings -/

theorem bind_eq_nil {scope : Scope} {name : String} {t : Ty} {span : Span}
    (h : (env.bind scope name t span).2 = []) :
    env.Bindable scope name ∧
      (env.bind scope name t span).1 = (scope.bind ⟨name, t, some span⟩).2 := by
  unfold bind at h ⊢
  cases hf : env.functions.lookup name with
  | some f => simp [hf] at h
  | none =>
      cases hc : env.registry.callable? name with
      | some c => simp [hf, hc] at h
      | none =>
          simp only [hf, hc, Option.map_none, Option.isSome_none, Bool.false_eq_true, if_false,
            Option.toList_none, List.nil_append] at h ⊢
          refine ⟨⟨hf, hc, ?_⟩, trivial⟩
          cases scope with
          | nil => rfl
          | cons frame rest =>
              cases hfind : frame.find? name with
              | none => exact hfind
              | some b => simp [Scope.bind, Frame.bind, hfind] at h

theorem itemType_eq_nil {item : String} {iterable : Typing}
    (h : (itemType item iterable).2 = []) :
    iterable.ty = .list (itemType item iterable).1 ∨
      (iterable.ty = .error ∧ (itemType item iterable).1 = .error) := by
  unfold itemType at h ⊢
  cases ht : iterable.ty with
  | list t => exact .inl rfl
  | error => exact .inr ⟨rfl, rfl⟩
  | base | domain | record | function => simp [ht] at h

theorem checkCall_eq_nil {scope : Scope} {name : Name} {args : List Expr} {note : CallNote}
    (h : (env.checkCall scope name args note).2.2 = []) :
    env.AcceptsUnused scope (.call name (env.checkCall scope name args note).1
      (env.checkCall scope name args note).2.1) := by
  simp only [checkCall] at h ⊢
  have hty : ∀ t ∈ env.inferAll scope ((env.callee name.text).expectations args.length) args,
      t.expr.ty? = some t.ty := fun t => ty?_of_mem_inferAll env scope
  obtain ⟨hfound, -, hfits⟩ := callType_eq_nil env scope hty h
  rw [AcceptsUnused, target_noteTarget env note hfits]
  refine ⟨?_, _, hfits⟩
  simp only [List.forall_mem_map]
  intro t ht
  obtain ⟨e, -, x, rfl, -⟩ := mem_inferAll env scope ht
  exact infer_accepts env scope (hfound _ ht)

theorem checkUnused_eq_nil {scope : Scope} {e : Expr} (h : (env.checkUnused scope e).2 = []) :
    env.AcceptsUnused scope (env.checkUnused scope e).1 := by
  cases e with
  | call name args note => exact checkCall_eq_nil env h
  | unary op => cases op <;> exact infer_accepts env scope h
  | binary op => cases op <;> exact infer_accepts env scope h
  | _ => exact infer_accepts env scope h

theorem checkReturn_eq_nil {fn : Enclosing} {scope : Scope} {value : Option Expr} {span : Span}
    (h : (env.checkReturn fn scope value span).2 = []) :
    env.AcceptsStmt fn scope (.return (env.checkReturn fn scope value span).1 span) := by
  unfold checkReturn at h ⊢
  cases value with
  | none =>
      cases hr : fn.returns with
      | none => exact hr
      | some t => simp [hr] at h
  | some e =>
      cases hr : fn.returns with
      | none => simp [hr] at h
      | some t =>
          simp only [hr, List.append_eq_nil_iff] at h ⊢
          refine ⟨t, hr, infer_accepts env scope h.1, _, ty?_infer env scope _ e, ?_⟩
          by_contra hassign
          simp [hassign] at h

/-! ### The whole check -/

theorem exceeded_of_checkBlock {fn : Enclosing} {scope : Scope} {timer : Timer} {ss : List Stmt}
    (h : (env.checkBlock fn scope timer ss).timer.exceeded = none) : timer.exceeded = none := by
  cases ss with
  | nil => simpa only [checkBlock] using h
  | cons s ss =>
      simp only [checkBlock] at h
      split at h
      · exact Timer.exceeded_of_check h
      · next htimer => exact Timer.exceeded_of_check htimer

/-- A block without findings meets its condition if its statements do. -/
theorem checkBlock_accepts_of {fn : Enclosing} {ss : List Stmt}
    (hss : ∀ s ∈ ss, ∀ {scope timer}, (env.checkStmt fn scope timer s).found = [] →
      (env.checkStmt fn scope timer s).timer.exceeded = none →
      env.AcceptsStmt fn scope (env.checkStmt fn scope timer s).stmt ∧
        (env.checkStmt fn scope timer s).scope = after scope (env.checkStmt fn scope timer s).stmt)
    {scope : Scope} {timer : Timer} (h : (env.checkBlock fn scope timer ss).found = [])
    (htime : (env.checkBlock fn scope timer ss).timer.exceeded = none) :
    env.AcceptsBlock fn scope (env.checkBlock fn scope timer ss).stmts := by
  induction ss generalizing scope timer with
  | nil => simp [checkBlock, AcceptsBlock]
  | cons s ss ih =>
      obtain ⟨hs, hss⟩ := List.forall_mem_cons.mp hss
      simp only [checkBlock] at h htime ⊢
      split at htime
      · next e he => rw [he] at htime; cases htime
      · next htimer =>
          simp only [htimer, List.append_eq_nil_iff] at h ⊢
          -- the time that is left at the end was left behind each statement
          obtain ⟨haccepts, hscope⟩ := hs h.1 (exceeded_of_checkBlock env htime)
          rw [hscope] at h htime ⊢
          exact ⟨haccepts, ih hss h.2 htime⟩

/-- Where the check of a statement finds nothing in time, the result meets its condition, and what
follows is checked in the scope behind it. -/
theorem checkStmt_accepts {fn : Enclosing} {s : Stmt} {scope : Scope} {timer : Timer}
    (h : (env.checkStmt fn scope timer s).found = [])
    (htime : (env.checkStmt fn scope timer s).timer.exceeded = none) :
    env.AcceptsStmt fn scope (env.checkStmt fn scope timer s).stmt ∧
      (env.checkStmt fn scope timer s).scope =
        after scope (env.checkStmt fn scope timer s).stmt := by
  induction s generalizing scope timer with
  | bind name e span =>
      simp only [checkStmt, List.append_eq_nil_iff] at h ⊢
      obtain ⟨hbindable, hscope⟩ := bind_eq_nil env h.2
      refine ⟨⟨infer_accepts env scope h.1, hbindable⟩, ?_⟩
      -- the local gets the type that is written into the tree
      rw [hscope, after, ty?_infer, Option.getD_some]
  | branch c t span iht =>
      simp only [checkStmt, List.append_eq_nil_iff] at h htime ⊢
      exact ⟨⟨infer_accepts env scope h.1.1,
        booleanFindings_eq_nil (ty?_infer env scope _ c) h.1.2,
        checkBlock_accepts_of env iht h.2 htime⟩, rfl⟩
  | branchOtherwise c t o span iht iho =>
      simp only [checkStmt, List.append_eq_nil_iff] at h htime ⊢
      exact ⟨⟨infer_accepts env scope h.1.1.1,
        booleanFindings_eq_nil (ty?_infer env scope _ c) h.1.1.2,
        checkBlock_accepts_of env iht h.1.2 (exceeded_of_checkBlock env htime),
        checkBlock_accepts_of env iho h.2 htime⟩, rfl⟩
  | forEach item e body span ih =>
      simp only [checkStmt, List.append_eq_nil_iff] at h htime ⊢
      obtain ⟨hbindable, hscope⟩ := bind_eq_nil env h.1.2
      rw [hscope] at h htime ⊢
      refine ⟨⟨infer_accepts env scope h.1.1.1, hbindable, _, ?_,
        checkBlock_accepts_of env ih h.2 htime⟩, rfl⟩
      rw [ty?_infer, Option.some_inj, Option.some_inj]
      exact itemType_eq_nil h.1.1.2
  | call name args note span =>
      simp only [checkStmt] at h ⊢
      exact ⟨checkCall_eq_nil env h, rfl⟩
  | returns value span =>
      simp only [checkStmt] at h ⊢
      exact ⟨checkReturn_eq_nil env h, rfl⟩
  | expression e span =>
      simp only [checkStmt] at h ⊢
      exact ⟨checkUnused_eq_nil env h, rfl⟩

theorem checkBlock_accepts {fn : Enclosing} {ss : List Stmt} {scope : Scope} {timer : Timer}
    (h : (env.checkBlock fn scope timer ss).found = [])
    (htime : (env.checkBlock fn scope timer ss).timer.exceeded = none) :
    env.AcceptsBlock fn scope (env.checkBlock fn scope timer ss).stmts :=
  checkBlock_accepts_of env (fun _ _ _ _ => checkStmt_accepts env) h htime

/-! ### Functions -/

/-- Parameters without findings are bound in order, and their names are distinct. -/
theorem bindParameters_eq_nil {ps : List (Typed × Ty)} {frame : Frame}
    (hframe : (frame.map Binding.name).Nodup) (h : (env.bindParameters [frame] ps).2 = []) :
    (env.bindParameters [frame] ps).1 = [frame ++ ps.map parameterBinding] ∧
      ((frame ++ ps.map parameterBinding).map Binding.name).Nodup ∧
      ∀ b ∈ ps.map parameterBinding,
        env.functions.lookup b.name = none ∧ env.registry.callable? b.name = none := by
  induction ps generalizing frame with
  | nil => simpa [bindParameters] using hframe
  | cons p ps ih =>
      simp only [bindParameters, List.append_eq_nil_iff] at h ⊢
      obtain ⟨hbindable, hscope⟩ := bind_eq_nil env h.1
      -- all parameters go into one frame, so that a repeated name is found there
      have hfresh : frame.find? p.1.name = none := hbindable.fresh
      have hbind : (Scope.bind [frame] ⟨p.1.name, p.2, some p.1.span⟩).2 =
          [frame ++ [parameterBinding p]] := by
        simp [Scope.bind, Frame.bind, hfresh, parameterBinding]
      rw [hscope, hbind] at h ⊢
      have hnodup : ((frame ++ [parameterBinding p]).map Binding.name).Nodup := by
        rw [List.map_append, List.nodup_append]
        refine ⟨hframe, by simp, ?_⟩
        simp only [List.map_cons, List.map_nil, List.mem_singleton, forall_eq, List.mem_map,
          forall_exists_index, and_imp, forall_apply_eq_imp_iff₂]
        intro b hb heq
        have := List.find?_eq_none.mp hfresh b hb
        simp [heq, parameterBinding] at this
      obtain ⟨hresult, hnames, hcallable⟩ := ih hnodup h.2
      rw [List.map_cons, List.append_cons frame _ (ps.map parameterBinding)]
      exact ⟨hresult, hnames,
        List.forall_mem_cons.mpr ⟨⟨hbindable.function, hbindable.callable⟩, hcallable⟩⟩

theorem checkFunction_accepts {timer : Timer} {f : FunctionDecl} {s : Signature}
    (h : (env.checkFunction timer f s).2.1 = [])
    (htime : (env.checkFunction timer f s).2.2.exceeded = none) :
    env.AcceptsFunction (env.checkFunction timer f s).1 s := by
  simp only [checkFunction, List.append_eq_nil_iff] at h htime ⊢
  obtain ⟨hscope, hnames, hcallable⟩ := bindParameters_eq_nil env (by simp) h.1.1
  rw [hscope] at h htime ⊢
  exact ⟨hnames, hcallable, checkBlock_accepts env h.1.2 htime⟩

theorem exceeded_of_checkFunction {timer : Timer} {f : FunctionDecl} {s : Signature}
    (h : (env.checkFunction timer f s).2.2.exceeded = none) : timer.exceeded = none :=
  exceeded_of_checkBlock env h

theorem exceeded_of_checkDecls {timer : Timer} {ds : List Decl} {ss : List Signature}
    (h : (env.checkDecls timer ds ss).2.2.exceeded = none) : timer.exceeded = none := by
  induction ds generalizing timer ss with
  | nil => simpa [checkDecls] using h
  | cons d ds ih =>
      cases d with
      | function f =>
          cases ss with
          | nil => exact ih (by simpa only [checkDecls] using h)
          | cons s ss =>
              exact exceeded_of_checkFunction env (ih (by simpa only [checkDecls] using h))
      | type t => exact ih (by simpa only [checkDecls] using h)
      | record r => exact ih (by simpa only [checkDecls] using h)

/-- What holds of every function that is checked in time and without findings holds of those of a
program of which that is true. -/
theorem forall₂_checkDecls {P : FunctionDecl → Signature → FunctionDecl → Prop}
    (hP : ∀ timer f s, (env.checkFunction timer f s).2.1 = [] →
      (env.checkFunction timer f s).2.2.exceeded = none → P f s (env.checkFunction timer f s).1)
    {timer : Timer} {ds : List Decl} {ss : List Signature}
    (hlength : ss.length = (ds.filterMap Decl.function?).length)
    (h : (env.checkDecls timer ds ss).2.1 = [])
    (htime : (env.checkDecls timer ds ss).2.2.exceeded = none) :
    List.Forall₂ (fun fs g => P fs.1 fs.2 g) ((ds.filterMap Decl.function?).zip ss)
      ((env.checkDecls timer ds ss).1.filterMap Decl.function?) := by
  induction ds generalizing timer ss with
  | nil => simp [checkDecls]
  | cons d ds ih =>
      cases d with
      | function f =>
          cases ss with
          | nil => simp [Decl.function?] at hlength
          | cons s ss =>
              simp only [checkDecls, List.append_eq_nil_iff] at h htime ⊢
              have hrest := ih (by simpa [Decl.function?] using hlength) h.2 htime
              exact .cons (hP _ f s h.1 (exceeded_of_checkDecls env htime)) hrest
      | type t =>
          simp only [checkDecls] at h htime ⊢
          exact ih hlength h htime
      | record r =>
          simp only [checkDecls] at h htime ⊢
          exact ih hlength h htime

/-- Where the check of the bodies finds nothing in time, every function meets its condition. -/
theorem checkDecls_accepts {timer : Timer} {ds : List Decl} {ss : List Signature}
    (hlength : ss.length = (ds.filterMap Decl.function?).length)
    (h : (env.checkDecls timer ds ss).2.1 = [])
    (htime : (env.checkDecls timer ds ss).2.2.exceeded = none) :
    List.Forall₂ env.AcceptsFunction
      ((env.checkDecls timer ds ss).1.filterMap Decl.function?) ss := by
  have hchecked := env.forall₂_checkDecls (P := fun _ s g => env.AcceptsFunction g s)
    (fun _ _ _ => checkFunction_accepts env) hlength h htime
  have hsignatures : ((ds.filterMap Decl.function?).zip ss).map Prod.snd = ss :=
    List.map_snd_zip (Nat.le_of_eq hlength)
  rw [← hsignatures, List.forall₂_map_right_iff, hsignatures]
  exact hchecked.flip

end

end TypeEnv

/-- What a check finds that ends in time. -/
theorem Program.checkTypes_eq_ok {p : Program} {registry : Registry} {budget : Budget}
    {found : List Diagnostic} :
    (p.checkTypes registry budget).result = .ok found ↔
      let declared := Declared.of registry p
      let checked := declared.env.checkDecls ⟨budget, none⟩ p.declarations declared.signatures
      checked.2.2.exceeded = none ∧ found = declared.found ++ checked.2.1 := by
  simp only [checkTypes]
  split
  · next e hover => simp [hover]
  · next htime => simp [htime, eq_comm]

end Prosaic
