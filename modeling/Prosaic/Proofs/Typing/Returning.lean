import Prosaic.Proofs.Except
import Prosaic.Proofs.Typing.Declared
import Prosaic.Proofs.Typing.Findings

/-!
Definite return. Which way an execution goes is not known to the check: a condition may hold or not,
and a loop may be run any number of times. A block definitely returns if no execution at all gets
behind it, and the check finds out exactly that, in one pass over the tree.
-/

namespace Prosaic

open Diagnostic (missingReturn)

/-! ### Executions -/

/-- How an execution ends: behind what is executed, or by a `Return` that leaves the function. -/
inductive Ending
  | behind | returned

mutual

/-- A statement has an execution with a certain ending. -/
inductive Stmt.Runs : Stmt → Ending → Prop
  | bind {name : Name} {init : Expr} {span : Span} : Runs (.bind name init span) .behind
  | thenBlock {c : Expr} {t : List Stmt} {o : Option (List Stmt)} {span : Span} {ending : Ending}
      (h : RunsAll t ending) : Runs (.branch c t o span) ending
  | otherwise {c : Expr} {t o : List Stmt} {span : Span} {ending : Ending}
      (h : RunsAll o ending) : Runs (.branch c t (some o) span) ending
  | skipped {c : Expr} {t : List Stmt} {span : Span} : Runs (.branch c t none span) .behind
  | forEach {item : Name} {e : Expr} {body : List Stmt} {span : Span}
    {ending : Ending} (times : Nat)
      (h : RunsTimes body times ending) : Runs (.forEach item e body span) ending
  | call {callee : Name} {args : List Expr} {note : CallNote} {span : Span} :
      Runs (.call callee args note span) .behind
  | returns {value : Option Expr} {span : Span} : Runs (.return value span) .returned
  | expression {value : Expr} {span : Span} : Runs (.expression value span) .behind

/-- A block has an execution with a certain ending. What stands behind a `Return` is not
executed. -/
inductive Stmt.RunsAll : List Stmt → Ending → Prop
  | nil : RunsAll [] .behind
  | returned {s : Stmt} {ss : List Stmt} (h : Runs s .returned) : RunsAll (s :: ss) .returned
  | cons {s : Stmt} {ss : List Stmt} {ending : Ending} (hs : Runs s .behind)
      (hss : RunsAll ss ending) : RunsAll (s :: ss) ending

/-- A block that is to be run some times has an execution with a certain ending. -/
inductive Stmt.RunsTimes : List Stmt → Nat → Ending → Prop
  | zero {body : List Stmt} : RunsTimes body 0 .behind
  | returned {body : List Stmt} {times : Nat} (h : RunsAll body .returned) :
      RunsTimes body (times + 1) .returned
  | succ {body : List Stmt} {times : Nat} {ending : Ending} (h : RunsAll body .behind)
      (hrest : RunsTimes body times ending) : RunsTimes body (times + 1) ending

end

/-- A block has an execution that gets behind it without a `Return`. -/
def Stmt.FallsOff (ss : List Stmt) : Prop := Stmt.RunsAll ss .behind

/-! ### Blocks that always return -/

mutual

/-- A statement returns if it is a `Return`, or if both of its branches return. -/
def Stmt.alwaysReturns : Stmt → Bool
  | .branch _ t (some o) _ => Stmt.anyReturns t && Stmt.anyReturns o
  | .return .. => true
  | _ => false

/-- One of the statements always returns. -/
def Stmt.anyReturns : List Stmt → Bool
  | [] => false
  | s :: ss => s.alwaysReturns || Stmt.anyReturns ss

end

namespace Stmt

@[simp] theorem runsAll_behind_cons {s : Stmt} {ss : List Stmt} :
    RunsAll (s :: ss) .behind ↔ s.Runs .behind ∧ RunsAll ss .behind := by
  constructor
  · rintro (_ | _ | ⟨hs, hss⟩)
    exact ⟨hs, hss⟩
  · exact fun ⟨hs, hss⟩ => .cons hs hss

theorem fallsOff_iff_of {ss : List Stmt}
    (h : ∀ s ∈ ss, s.Runs .behind ↔ s.alwaysReturns = false) :
    FallsOff ss ↔ anyReturns ss = false := by
  induction ss with
  | nil => exact iff_of_true .nil rfl
  | cons s ss ih =>
      obtain ⟨hs, hss⟩ := List.forall_mem_cons.mp h
      rw [FallsOff, runsAll_behind_cons, anyReturns, Bool.or_eq_false_iff, hs]
      exact and_congr_right fun _ => ih hss

/-- An execution gets behind a statement unless the statement always returns. -/
theorem runs_behind_iff (s : Stmt) : s.Runs .behind ↔ s.alwaysReturns = false := by
  induction s with
  | bind name e span => exact iff_of_true .bind rfl
  | branch c t span iht => exact iff_of_true .skipped rfl
  | branchOtherwise c t o span iht iho =>
      rw [alwaysReturns, Bool.and_eq_false_iff, ← fallsOff_iff_of iht, ← fallsOff_iff_of iho]
      constructor
      · rintro (_ | ht | ho)
        · exact .inl ht
        · exact .inr ho
      · rintro (ht | ho)
        · exact .thenBlock ht
        · exact .otherwise ho
  -- a loop may be run no times at all
  | forEach item e body span ih => exact iff_of_true (.forEach 0 .zero) rfl
  | call f es note span => exact iff_of_true .call rfl
  | returns value span => exact iff_of_false nofun Bool.noConfusion
  | expression e span => exact iff_of_true .expression rfl

theorem fallsOff_iff (ss : List Stmt) : FallsOff ss ↔ anyReturns ss = false :=
  fallsOff_iff_of fun s _ => s.runs_behind_iff

instance (ss : List Stmt) : Decidable (FallsOff ss) := decidable_of_iff _ (fallsOff_iff ss).symm

theorem exists_runsAll_of {ss : List Stmt} (h : ∀ s ∈ ss, ∃ ending, s.Runs ending) :
    ∃ ending, RunsAll ss ending := by
  induction ss with
  | nil => exact ⟨_, .nil⟩
  | cons s ss ih =>
      obtain ⟨⟨ending, hs⟩, hss⟩ := List.forall_mem_cons.mp h
      cases ending with
      | returned => exact ⟨_, .returned hs⟩
      | behind =>
          obtain ⟨ending, hrest⟩ := ih hss
          exact ⟨ending, .cons hs hrest⟩

theorem exists_runs (s : Stmt) : ∃ ending, s.Runs ending := by
  induction s with
  | bind name e span => exact ⟨_, .bind⟩
  | branch c t span iht => exact ⟨_, .skipped⟩
  | branchOtherwise c t o span iht iho =>
      obtain ⟨ending, ht⟩ := exists_runsAll_of iht
      exact ⟨ending, .thenBlock ht⟩
  | forEach item e body span ih => exact ⟨_, .forEach 0 .zero⟩
  | call f es note span => exact ⟨_, .call⟩
  | returns value span => exact ⟨_, .returns⟩
  | expression e span => exact ⟨_, .expression⟩

/-- Every block has an execution. -/
theorem exists_runsAll (ss : List Stmt) : ∃ ending, RunsAll ss ending :=
  exists_runsAll_of fun s _ => s.exists_runs

end Stmt

/-! ### The check -/

namespace TypeEnv

variable (env : TypeEnv)

theorem checkBlock_returns_of {fn : Enclosing} {ss : List Stmt}
    (hss : ∀ s ∈ ss, ∀ {scope timer}, (env.checkStmt fn scope timer s).timer.exceeded = none →
      (env.checkStmt fn scope timer s).returns = s.alwaysReturns)
    {scope : Scope} {timer : Timer}
    (htime : (env.checkBlock fn scope timer ss).timer.exceeded = none) :
    (env.checkBlock fn scope timer ss).returns = Stmt.anyReturns ss := by
  induction ss generalizing scope timer with
  | nil => rfl
  | cons s ss ih =>
      obtain ⟨hs, hss⟩ := List.forall_mem_cons.mp hss
      simp only [checkBlock] at htime ⊢
      split at htime
      · next e he => rw [he] at htime; cases htime
      · next htimer =>
          simp only [Stmt.anyReturns]
          rw [hs (exceeded_of_checkBlock env htime), ih hss htime]

theorem checkStmt_returns {fn : Enclosing} {s : Stmt} {scope : Scope} {timer : Timer}
    (htime : (env.checkStmt fn scope timer s).timer.exceeded = none) :
    (env.checkStmt fn scope timer s).returns = s.alwaysReturns := by
  induction s generalizing scope timer with
  | branchOtherwise c t o span iht iho =>
      simp only [checkStmt] at htime ⊢
      rw [Stmt.alwaysReturns, checkBlock_returns_of env iho htime,
        checkBlock_returns_of env iht (exceeded_of_checkBlock env htime)]
  | _ => rfl

/-- A block that is checked in time is found to return exactly if no execution gets behind it. -/
theorem checkBlock_returns {fn : Enclosing} {scope : Scope} {timer : Timer} {ss : List Stmt}
    (htime : (env.checkBlock fn scope timer ss).timer.exceeded = none) :
    (env.checkBlock fn scope timer ss).returns = true ↔ ¬Stmt.FallsOff ss := by
  rw [checkBlock_returns_of env (fun s _ => checkStmt_returns env) htime, Stmt.fallsOff_iff,
    Bool.not_eq_false]

end TypeEnv

/-! ### Functions -/

/-- The findings of other codes leave no missing return. -/
theorem AllFoundAt.filter_missingReturn {mark : Location → Prop} {ds : List Diagnostic}
    (h : AllFoundAt bodyCodes mark ds) : ds.filter (fun d => d.code = missingReturn) = [] := by
  exact List.filter_eq_nil_iff.mpr fun d hd hcode =>
    h.code_ne (by decide) d hd (of_decide_eq_true hcode)

theorem FunctionDecl.filter_endFindings (f : FunctionDecl) (result : Option Ty) (returns : Bool) :
    (f.endFindings result returns).filter (fun d => d.code = missingReturn) =
      f.endFindings result returns := by
  refine List.filter_eq_self.mpr fun d hd => ?_
  obtain ⟨t, -, -, rfl⟩ := mem_endFindings.mp hd
  rfl

namespace TypeEnv

variable (env : TypeEnv)

/-- The bodies that are checked in time have the missing returns of their functions. -/
theorem checkDecls_missingReturns {mark : Location → Prop} {timer : Timer} {ds : List Decl}
    {ss : List Signature} (hds : ∀ d ∈ ds, d.Placed mark (Expr.Placed mark))
    (htime : (env.checkDecls timer ds ss).2.2.exceeded = none) :
    (env.checkDecls timer ds ss).2.1.filter (fun d => d.code = missingReturn) =
      ((ds.filterMap Decl.function?).zip ss).flatMap fun fs =>
        fs.1.endFindings fs.2.returns (Stmt.anyReturns fs.1.body) := by
  induction ds generalizing timer ss with
  | nil => simp [checkDecls]
  | cons d ds ih =>
      obtain ⟨hd, hrest⟩ := List.forall_mem_cons.mp hds
      cases d with
      | type t => exact ih hrest htime
      | record r => exact ih hrest htime
      | function f =>
          cases ss with
          | nil =>
              rw [List.zip_nil_right, List.flatMap_nil]
              exact (ih hrest htime).trans (by rw [List.zip_nil_right, List.flatMap_nil])
          | cons s ss =>
              obtain ⟨inside, hinside, hfound⟩ := env.found_checkFunction timer hd s
              have hbody := checkBlock_returns_of env (fun s _ => checkStmt_returns env)
                (exceeded_of_checkDecls env htime)
              show List.filter _ ((env.checkFunction timer f s).2.1 ++ _) = _
              rw [List.filter_append, hfound, List.filter_append, hinside.filter_missingReturn,
                f.filter_endFindings, List.nil_append, ih hrest htime]
              exact congrArg (fun r => f.endFindings s.returns r ++ _) hbody

/-- A signature has a result if the declaration has one. -/
theorem signature_returns (f : FunctionDecl) :
    (env.signature f).1.returns = f.returns.map fun ref => (env.resolve ref).1 := by
  unfold signature
  cases f.returns <;> rfl

end TypeEnv

/-- A function with a result whose end can be reached. -/
def FunctionDecl.MissesReturn (f : FunctionDecl) : Prop :=
  f.returns.isSome = true ∧ Stmt.FallsOff f.body

instance (f : FunctionDecl) : Decidable f.MissesReturn :=
  inferInstanceAs (Decidable (_ ∧ _))

theorem endFindings_forall₂ (resolve : TypeRef → Ty) (fs : List FunctionDecl) :
    List.Forall₂ (fun d f => ∃ t, d = FunctionDecl.missingReturnOf f t)
      (fs.flatMap fun f => f.endFindings (f.returns.map resolve) (Stmt.anyReturns f.body))
      (fs.filter fun f => f.MissesReturn) := by
  induction fs with
  | nil => exact .nil
  | cons f fs ih =>
      rw [List.flatMap_cons]
      by_cases hf : f.MissesReturn
      · obtain ⟨ref, href⟩ := Option.isSome_iff_exists.mp hf.1
        have hfinding : f.endFindings (f.returns.map resolve) (Stmt.anyReturns f.body) =
            [f.missingReturnOf (resolve ref)] := by
          rw [href, (Stmt.fallsOff_iff _).mp hf.2]
          rfl
        rw [List.filter_cons_of_pos (by simpa using hf), hfinding]
        exact .cons ⟨_, rfl⟩ ih
      · have hnone : f.endFindings (f.returns.map resolve) (Stmt.anyReturns f.body) = [] := by
          refine List.eq_nil_iff_forall_not_mem.mpr fun d hd => hf ?_
          obtain ⟨t, ht, hreturns, -⟩ := FunctionDecl.mem_endFindings.mp hd
          obtain ⟨ref, href, -⟩ := Option.map_eq_some_iff.mp ht
          exact ⟨Option.isSome_iff_exists.mpr ⟨ref, href⟩, (Stmt.fallsOff_iff _).mpr hreturns⟩
        rw [List.filter_cons_of_neg (by simpa using hf), hnone]
        exact ih

/-- The check is exact about returns. A block that is checked in time is found to return if and only
if none of its executions, of which there is one, gets behind it. And the missing returns that are
found in a program are one for each function that declares a result and has an execution that falls
off its end, in the order of the functions. -/
theorem definite_return_exact :
    (∀ (env : TypeEnv) (fn : TypeEnv.Enclosing) (scope : Scope) (timer : Timer) (ss : List Stmt),
      (env.checkBlock fn scope timer ss).timer.exceeded = none →
        ((env.checkBlock fn scope timer ss).returns = true ↔ ¬Stmt.RunsAll ss .behind) ∧
          ∃ ending, Stmt.RunsAll ss ending) ∧
      ∀ (p : Program) (registry : Registry) (budget : Budget) (found : List Diagnostic),
        (p.checkTypes registry budget).result = .ok found →
          List.Forall₂ (fun d f => ∃ t, d = FunctionDecl.missingReturnOf f t)
            (found.filter fun d => d.code = missingReturn)
            (p.functions.filter fun f => f.MissesReturn) := by
  refine ⟨fun env fn scope timer ss htime =>
    ⟨env.checkBlock_returns htime, Stmt.exists_runsAll ss⟩, fun p registry budget found h => ?_⟩
  obtain ⟨htime, rfl⟩ := Program.checkTypes_eq_ok.mp h
  have hanywhere : ∀ l, (fun _ : Location => True) l := fun _ => trivial
  have hp := p.placed_anywhere hanywhere (Expr.placed_anywhere hanywhere)
  -- what is wrong with the declarations has other codes
  have hdeclared : (Declared.of registry p).found.filter (fun d => d.code = missingReturn) = [] :=
    List.filter_eq_nil_iff.mpr fun d hd hcode =>
      (declaredAt_of registry hp).code_ne (by decide) d hd (of_decide_eq_true hcode)
  rw [List.filter_append, hdeclared, List.nil_append, TypeEnv.checkDecls_missingReturns _ hp htime,
    ← Program.functions_eq]
  simp only [Declared.of_eq, TypeEnv.signatures_eq, ← List.map_prod_left_eq_zip, List.flatMap_map,
    TypeEnv.signature_returns]
  exact endFindings_forall₂ _ _

/-- A function without parameters that returns a number. -/
def numberFunction (name : String) (body : List Stmt) : FunctionDecl :=
  let nowhere : Span := ⟨.first, .first⟩
  ⟨⟨name, nowhere⟩, [], some (.named "Number" nowhere), .pure, body, none, nowhere, none⟩

/-- Both branches return, and something stands behind them. -/
def returnsInBoth : List Stmt :=
  let nowhere : Span := ⟨.first, .first⟩
  let one : Expr := .literal (.number (.integer 1)) ⟨nowhere, none⟩
  [.branch (.literal (.boolean true) ⟨nowhere, none⟩) [.return (some one) nowhere]
      (some [.return (some one) nowhere]) nowhere,
    .bind ⟨"x", nowhere⟩ one nowhere]

/-- A loop over a list of one number returns that number. -/
def returnsInLoop : List Stmt :=
  let nowhere : Span := ⟨.first, .first⟩
  let one : Expr := .literal (.number (.integer 1)) ⟨nowhere, none⟩
  [.forEach ⟨"x", nowhere⟩ (.list [one] ⟨nowhere, none⟩)
    [.return (some (.variable "x" ⟨nowhere, none⟩)) nowhere] nowhere]

/-- Of two functions, one returns on both branches and one only in a loop. -/
def branchesAndLoop : Program :=
  ⟨[.function (numberFunction "both" returnsInBoth),
    .function (numberFunction "loop" returnsInLoop)], ⟨.first, .first⟩⟩

theorem definite_return_branchesAndLoop :
    ¬Stmt.RunsAll returnsInBoth .behind ∧
      ∃ found, (branchesAndLoop.checkTypes .empty (.start .standard .still)).result = .ok found ∧
        ∃ d t, found.filter (fun d => d.code = missingReturn) = [d] ∧
          d = (numberFunction "loop" returnsInLoop).missingReturnOf t := by
  have hblock := definite_return_exact.1 (Declared.of .empty branchesAndLoop).env
    ⟨"both", some .number⟩ [[]] ⟨.start .standard .still, none⟩ returnsInBoth (by decide +kernel)
  refine ⟨hblock.1.mp (by decide +kernel), ?_⟩
  have hcheck : (branchesAndLoop.checkTypes .empty
      (.start .standard .still)).result.toOption.isSome = true := by
    decide +kernel
  obtain ⟨found, hfound⟩ := Option.isSome_iff_exists.mp hcheck
  rw [toOption_eq_some] at hfound
  have hexact := definite_return_exact.2 _ _ _ _ hfound
  have hmissing : (branchesAndLoop.functions.filter fun f => f.MissesReturn) =
      [numberFunction "loop" returnsInLoop] := rfl
  rw [hmissing] at hexact
  obtain ⟨_, _, ⟨t, rfl⟩, hnone, hfilter⟩ := List.forall₂_cons_right_iff.mp hexact
  obtain rfl := List.forall₂_nil_right_iff.mp hnone
  exact ⟨found, hfound, _, t, hfilter, rfl⟩

end Prosaic
