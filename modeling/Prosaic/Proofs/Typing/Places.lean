import Prosaic.Proofs.Typing.Demands

/-!
Places of expressions in a program. A place is what is around it, as a function of the expression
that stands there, so what is demanded there does not depend on that expression. Whatever stands at
a place, the findings of a check are some that come before it and stay the same, then what is found
about the expression, and then the others.
-/

namespace Prosaic

namespace TypeEnv

/-! ### Expressions in expressions -/

/-- An expression directly in another one: what is expected of the outer and of the inner one, and
the outer one as a function of the inner one. -/
inductive ExprPart (env : TypeEnv) (scope : Scope) : Option Ty → Option Ty → (Expr → Expr) → Prop
  | element {expected : Option Ty} {before after : List Expr} {note : ExprNote} :
      ExprPart env scope expected (elementExpectation expected)
        fun e => .list (before ++ e :: after) note
  | argument {expected : Option Ty} {name : Name} {before after : List Expr} {note : CallNote} :
      ExprPart env scope expected
        (((env.callee name.text).expectations (before.length + after.length + 1)).getD
          before.length none)
        fun e => .call name (before ++ e :: after) note
  | not {expected : Option Ty} {note : ExprNote} :
      ExprPart env scope expected (some .boolean) fun e => .unary .not e note
  | negate {expected : Option Ty} {note : ExprNote} :
      ExprPart env scope expected none fun e => .unary .negate e note
  | leftTruth {expected : Option Ty} {op : BinaryOp} {right : Expr} {note : ExprNote}
      (hop : op = .and ∨ op = .or) :
      ExprPart env scope expected (some .boolean) fun e => .binary op e right note
  | rightTruth {expected : Option Ty} {op : BinaryOp} {left : Expr} {note : ExprNote}
      (hop : op = .and ∨ op = .or) :
      ExprPart env scope expected (some .boolean) fun e => .binary op left e note
  | left {expected : Option Ty} {op : BinaryOp} {right : Expr} {note : ExprNote}
      (hop : ¬(op = .and ∨ op = .or)) :
      ExprPart env scope expected none fun e => .binary op e right note
  | right {expected : Option Ty} {op : BinaryOp} {left : Expr} {note : ExprNote}
      (hop : ¬(op = .and ∨ op = .or)) :
      ExprPart env scope expected (some (env.infer scope none left).ty)
        fun e => .binary op left e note
  | base {expected : Option Ty} {name : Name} {note : ExprNote} :
      ExprPart env scope expected none fun e => .field e name note

/-- What an expression demands of one directly in it. -/
inductive Demanded (env : TypeEnv) (scope : Scope) : Demand → Option Ty → (Expr → Expr) → Prop
  | argument {expected returns : Option Ty} {name : Name} {target : CallTarget}
      {parameters : List (String × Ty)} {parameter : String} {t : Ty} {before after : List Expr}
      {note : CallNote} (hcallee : env.callee name.text = .known target parameters returns)
      (hcount : before.length + after.length + 1 = parameters.length)
      (hparameter : parameters[before.length]? = some (parameter, t)) :
      Demanded env scope (.argument (targetText target name) parameter t) expected
        fun e => .call name (before ++ e :: after) note
  | element {expected : Option Ty} {first : Expr} {before after : List Expr} {note : ExprNote} :
      Demanded env scope
        (.element (elementExpectation expected)
          (env.elementTy expected (env.infer scope (elementExpectation expected) first)))
        expected fun e => .list (first :: before ++ e :: after) note
  | operand {expected : Option Ty} {op : BinaryOp} {left : Expr} {note : ExprNote}
      (hop : ¬(op = .and ∨ op = .or)) :
      Demanded env scope (.operand op (env.infer scope none left) note.span.start) expected
        fun e => .binary op left e note

/-- A place, at any depth of an expression, where something is demanded. -/
inductive Place (env : TypeEnv) (scope : Scope) (demand : Demand) :
    Option Ty → (Expr → Expr) → Prop
  | here {expected : Option Ty} {context : Expr → Expr}
      (h : env.Demanded scope demand expected context) : Place env scope demand expected context
  | within {outer inner : Option Ty} {part context : Expr → Expr}
      (hpart : env.ExprPart scope outer inner part) (h : Place env scope demand inner context) :
      Place env scope demand outer fun e => part (context e)

section

variable (env : TypeEnv) (scope : Scope)

/-- All elements of a list are checked with the same expectation. -/
theorem inferAll_const (expected : Option Ty) (es : List Expr) (e : Expr) (es' : List Expr) :
    env.inferAll scope ((es ++ e :: es').map fun _ => expected) (es ++ e :: es') =
      env.inferAll scope (es.map fun _ => expected) es ++ env.infer scope expected e ::
        env.inferAll scope (es'.map fun _ => expected) es' := by
  induction es with
  | nil => simp [inferAll]
  | cons first es ih => simpa [inferAll] using ih

theorem found_infer_list (expected : Option Ty) (es : List Expr) (e : Expr) (es' : List Expr)
    (note : ExprNote) :
    (env.infer scope expected (.list (es ++ e :: es') note)).found =
      (env.listType expected
        (env.inferAll scope (es.map fun _ => elementExpectation expected) es
          ++ env.infer scope (elementExpectation expected) e ::
            env.inferAll scope (es'.map fun _ => elementExpectation expected) es')
        note.span.start).2 := by
  simp only [infer, inferAll_const]

/-- What is found in a call, whether it stands as a value or as a statement. -/
theorem found_callType_inferAll (name : Name) (asValue : Bool) (es : List Expr) (e : Expr)
    (es' : List Expr) :
    (env.callType scope name (env.callee name.text)
        (env.inferAll scope ((env.callee name.text).expectations (es ++ e :: es').length)
          (es ++ e :: es')) asValue).found =
      let expected := (env.callee name.text).expectations (es.length + es'.length + 1)
      (env.callType scope name (env.callee name.text)
        (env.inferAll scope expected es ++ env.infer scope (expected.getD es.length none) e ::
          env.inferAll scope (expected.drop (es.length + 1)) es') asValue).found := by
  rw [inferAll_append, List.length_append, List.length_cons, Nat.add_assoc]

theorem found_infer_binary {op : BinaryOp} (hop : ¬(op = .and ∨ op = .or)) (expected : Option Ty)
    (left right : Expr) (note : ExprNote) :
    (env.infer scope expected (.binary op left right note)).found =
      (env.infer scope none left).found
        ++ (env.infer scope (some (env.infer scope none left).ty) right).found
        ++ (env.binaryType op (env.infer scope none left)
          (env.infer scope (some (env.infer scope none left).ty) right) note.span.start).2 := by
  obtain ⟨hand, hor⟩ := not_or.mp hop
  rw [infer_binary env scope hand hor]

theorem found_infer_truth {op : BinaryOp} (hop : op = .and ∨ op = .or) (expected : Option Ty)
    (left right : Expr) (note : ExprNote) :
    (env.infer scope expected (.binary op left right note)).found =
      (env.infer scope (some .boolean) left).found
        ++ booleanFindings ("left operand of '" ++ op.text ++ "'")
          (env.infer scope (some .boolean) left)
        ++ (env.infer scope (some .boolean) right).found
        ++ booleanFindings ("right operand of '" ++ op.text ++ "'")
          (env.infer scope (some .boolean) right) := by
  rcases hop with rfl | rfl <;> simp only [infer]

end

variable {env : TypeEnv} {scope : Scope}

/-- What is found in an expression is found in one that it stands directly in. -/
theorem ExprPart.encloses {outer inner : Option Ty} {part : Expr → Expr}
    (h : env.ExprPart scope outer inner part) :
    Encloses (fun e => (env.infer scope inner e).found)
      fun e => (env.infer scope outer (part e)).found := by
  cases h with
  | element =>
      simp only [found_infer_list]
      exact (env.listType_encloses _ _ _ _).comp _
  | @argument name before after note =>
      simp only [infer, found_callType_inferAll]
      exact (env.callType_encloses scope name true _ _ _).comp _
  | not | negate | base =>
      simp only [infer]
      exact .of_eq_append _ fun e => rfl
  | leftTruth hop =>
      simp only [found_infer_truth env scope hop, List.append_assoc]
      exact .of_eq_append _ fun e => rfl
  | rightTruth hop =>
      simp only [found_infer_truth env scope hop]
      exact .of_eq _ _ fun e => rfl
  | left hop =>
      simp only [found_infer_binary env scope hop, List.append_assoc]
      exact .of_eq_append _ fun e => rfl
  | right hop =>
      simp only [found_infer_binary env scope hop]
      exact .of_eq _ _ fun e => rfl

/-- An argument is expected to have the type of its parameter. -/
theorem getD_expectations {name : String} {target : CallTarget} {parameters : List (String × Ty)}
    {returns : Option Ty} {parameter : String} {t : Ty} {i count : Nat}
    (hcallee : env.callee name = .known target parameters returns)
    (hcount : count = parameters.length) (hparameter : parameters[i]? = some (parameter, t)) :
    ((env.callee name).expectations count).getD i none = some t := by
  simp [hcallee, Callee.expectations, hcount, hparameter]

/-- What is found about an expression of which something is demanded is found in the one that
demands it. -/
theorem Demanded.encloses {demand : Demand} {expected : Option Ty} {context : Expr → Expr}
    (h : env.Demanded scope demand expected context) :
    Encloses (demand.report env scope) fun e => (env.infer scope expected (context e)).found := by
  cases h with
  | @argument _ returns name target parameters parameter t before after note hcallee hcount
      hparameter =>
      simp only [infer, found_callType_inferAll, getD_expectations hcallee hcount hparameter]
      rw [hcallee]
      exact (env.callType_encloses_argument scope name true (by simpa using hcount)
        (by simpa using hparameter)).comp _
  | @element _ first before after note =>
      simp only [found_infer_list, List.map_cons, inferAll, List.headD_cons, List.tail_cons]
      exact (env.listType_encloses_element expected _ _ _ _ _).comp _
  | @operand _ op left note hop =>
      simp only [found_infer_binary env scope hop, List.append_assoc]
      exact .of_eq (env.infer scope none left).found (fun _ => []) fun e => by
        rw [List.append_nil]
        rfl

theorem Place.encloses {demand : Demand} {expected : Option Ty} {context : Expr → Expr}
    (h : env.Place scope demand expected context) :
    Encloses (demand.report env scope) fun e => (env.infer scope expected (context e)).found := by
  induction h with
  | here h => exact h.encloses
  | within hpart _ ih => exact ih.trans (hpart.encloses.comp _)

/-! ### Expressions whose value is not used -/

/-- What is found in an expression is found in one whose value is not used. -/
theorem ExprPart.encloses_unused {inner : Option Ty} {part : Expr → Expr}
    (h : env.ExprPart scope none inner part) :
    Encloses (fun e => (env.infer scope inner e).found)
      fun e => (env.checkUnused scope (part e)).2 := by
  have hvalue := h.encloses
  cases h with
  | @argument name before after note =>
      simp only [checkUnused, checkCall, found_callType_inferAll]
      exact (env.callType_encloses scope name false _ _ _).comp _
  | _ => exact hvalue

theorem Demanded.encloses_unused {demand : Demand} {context : Expr → Expr}
    (h : env.Demanded scope demand none context) :
    Encloses (demand.report env scope) fun e => (env.checkUnused scope (context e)).2 := by
  have hvalue := h.encloses
  cases h with
  | @argument _ returns name target parameters parameter t before after note hcallee hcount
      hparameter =>
      simp only [checkUnused, checkCall, found_callType_inferAll,
        getD_expectations hcallee hcount hparameter]
      rw [hcallee]
      exact (env.callType_encloses_argument scope name false (by simpa using hcount)
        (by simpa using hparameter)).comp _
  | _ => exact hvalue

theorem Place.encloses_unused {demand : Demand} {context : Expr → Expr}
    (h : env.Place scope demand none context) :
    Encloses (demand.report env scope) fun e => (env.checkUnused scope (context e)).2 := by
  cases h with
  | here h => exact h.encloses_unused
  | within hpart h => exact h.encloses.trans (hpart.encloses_unused.comp _)

end TypeEnv

/-! ### Time -/

mutual

/-- The time behind a statement. It takes the same time whatever its expressions are. -/
def Timer.over (t : Timer) : Stmt → Timer
  | .branch _ thenBlock none _ => t.overAll thenBlock
  | .branch _ thenBlock (some otherwise) _ => (t.overAll thenBlock).overAll otherwise
  | .forEach _ _ body _ => t.overAll body
  | _ => t

/-- The time behind a block, which is checked until the time is over. -/
def Timer.overAll (t : Timer) : List Stmt → Timer
  | [] => t
  | s :: ss =>
    match (t.check s.span.start).exceeded with
    | some _ => t.check s.span.start
    | none => ((t.check s.span.start).over s).overAll ss

end

namespace Timer

/-- If there is time behind a block, there is time in front of it. -/
theorem exceeded_of_overAll {t : Timer} {ss : List Stmt} (h : (t.overAll ss).exceeded = none) :
    t.exceeded = none := by
  cases ss with
  | nil => simpa only [overAll] using h
  | cons s ss =>
      rw [overAll] at h
      split at h
      · exact exceeded_of_check h
      · next hchecked => exact exceeded_of_check hchecked

theorem overAll_cons {t : Timer} {s : Stmt} {ss : List Stmt}
    (h : (t.overAll (s :: ss)).exceeded = none) :
    (t.check s.span.start).exceeded = none ∧
      (((t.check s.span.start).over s).overAll ss).exceeded = none := by
  rw [overAll] at h
  split at h
  · next e he => rw [he] at h; cases h
  · next hchecked => exact ⟨hchecked, h⟩

end Timer

namespace TypeEnv

variable (env : TypeEnv)

theorem timer_checkBlock_of {fn : Enclosing} {ss : List Stmt}
    (hss : ∀ s ∈ ss, ∀ scope timer, (env.checkStmt fn scope timer s).timer = timer.over s)
    (scope : Scope) (timer : Timer) :
    (env.checkBlock fn scope timer ss).timer = timer.overAll ss := by
  induction ss generalizing scope timer with
  | nil => simp only [checkBlock, Timer.overAll]
  | cons s ss ih =>
      obtain ⟨hs, hss⟩ := List.forall_mem_cons.mp hss
      simp only [checkBlock, Timer.overAll]
      cases (timer.check s.span.start).exceeded with
      | some e => rfl
      | none => rw [ih hss, hs]

theorem timer_checkStmt (fn : Enclosing) (scope : Scope) (timer : Timer) (s : Stmt) :
    (env.checkStmt fn scope timer s).timer = timer.over s := by
  induction s generalizing scope timer with
  | branch c t span iht =>
      simp only [checkStmt, Timer.over, timer_checkBlock_of env iht]
  | branchOtherwise c t o span iht iho =>
      simp only [checkStmt, Timer.over, timer_checkBlock_of env iht, timer_checkBlock_of env iho]
  | forEach item e body span ih =>
      simp only [checkStmt, Timer.over, timer_checkBlock_of env ih]
  | bind | call | returns | expression => simp only [checkStmt, Timer.over]

theorem timer_checkBlock (fn : Enclosing) (scope : Scope) (timer : Timer) (ss : List Stmt) :
    (env.checkBlock fn scope timer ss).timer = timer.overAll ss :=
  timer_checkBlock_of env (fun s _ scope timer => timer_checkStmt env fn scope timer s) scope timer

/-! ### Expressions in blocks -/

/-- The scope behind a statement. -/
def behind (scope : Scope) : Stmt → Scope
  | .bind name init _ =>
    (env.bind scope name.text (env.infer scope none init).ty name.span).1
  | _ => scope

/-- The scope of the body of a loop. -/
def loopScope (scope : Scope) (item : Name) (iterable : Expr) : Scope :=
  (env.bind scope.child item.text (itemType item.text (env.infer scope none iterable)).1
    item.span).1

/-- A block in another one: the scopes of the two, and the outer one as a function of the inner
one. -/
inductive BlockPart : Scope → Scope → (List Stmt → List Stmt) → Prop
  | later {scope : Scope} {s : Stmt} : BlockPart scope (env.behind scope s) fun ss => s :: ss
  | thenBlock {scope : Scope} {c : Expr} {otherwise : Option (List Stmt)} {span : Span}
      {rest : List Stmt} :
      BlockPart scope scope.child fun ss => .branch c ss otherwise span :: rest
  | otherwise {scope : Scope} {c : Expr} {thenBlock : List Stmt} {span : Span}
      {rest : List Stmt} :
      BlockPart scope scope.child fun ss => .branch c thenBlock (some ss) span :: rest
  | body {scope : Scope} {item : Name} {iterable : Expr} {span : Span} {rest : List Stmt} :
      BlockPart scope (env.loopScope scope item iterable)
        fun ss => .forEach item iterable ss span :: rest

/-- An expression that stands by itself in the first statement of a block: what it is expected to
be, and the block as a function of it. -/
inductive StmtPart (fn : Enclosing) : Option Ty → (Expr → List Stmt) → Prop
  | bind {name : Name} {span : Span} {rest : List Stmt} :
      StmtPart fn none fun e => .bind name e span :: rest
  | condition {thenBlock : List Stmt} {otherwise : Option (List Stmt)} {span : Span}
      {rest : List Stmt} :
      StmtPart fn (some .boolean) fun e => .branch e thenBlock otherwise span :: rest
  | iterable {item : Name} {body : List Stmt} {span : Span} {rest : List Stmt} :
      StmtPart fn none fun e => .forEach item e body span :: rest
  | result {span : Span} {rest : List Stmt} :
      StmtPart fn fn.returns fun e => .return (some e) span :: rest

/-- A place, at any depth of a block, where something is demanded. `local_` is the scope there. -/
inductive BlockPlace (fn : Enclosing) (local_ : Scope) (demand : Demand) :
    Scope → (Expr → List Stmt) → Prop
  | result {t : Ty} {span : Span} {rest : List Stmt} (hreturns : fn.returns = some t)
      (hdemand : demand = .result fn.name t) :
      BlockPlace fn local_ demand local_ fun e => .return (some e) span :: rest
  | expr {expected : Option Ty} {part : Expr → List Stmt} {context : Expr → Expr}
      (hpart : StmtPart fn expected part) (h : env.Place local_ demand expected context) :
      BlockPlace fn local_ demand local_ fun e => part (context e)
  | unused {span : Span} {rest : List Stmt} {context : Expr → Expr}
      (h : env.Place local_ demand none context) :
      BlockPlace fn local_ demand local_ fun e => .expression (context e) span :: rest
  | call {name : Name} {args : Expr → List Expr} {note : CallNote} {span : Span}
      {rest : List Stmt} (h : env.Place local_ demand none fun e => .call name (args e) note) :
      BlockPlace fn local_ demand local_ fun e => .call name (args e) note span :: rest
  | within {outer inner : Scope} {part : List Stmt → List Stmt} {context : Expr → List Stmt}
      (hpart : env.BlockPart outer inner part) (h : BlockPlace fn local_ demand inner context) :
      BlockPlace fn local_ demand outer fun e => part (context e)

variable {env} {fn : Enclosing}

/-- What stands at a place takes no time of its own. -/
theorem BlockPart.overAll {outer inner : Scope} {part : List Stmt → List Stmt}
    (h : env.BlockPart outer inner part) {ss ss' : List Stmt}
    (hss : ∀ t : Timer, t.overAll ss = t.overAll ss') (t : Timer) :
    t.overAll (part ss) = t.overAll (part ss') := by
  cases h with
  | later => simp only [Timer.overAll, hss]
  | @thenBlock c otherwise span rest =>
      cases otherwise <;> simp only [Timer.overAll, Timer.over, Stmt.span, hss]
  | otherwise | body => simp only [Timer.overAll, Timer.over, Stmt.span, hss]

theorem StmtPart.overAll {expected : Option Ty} {part : Expr → List Stmt}
    (h : StmtPart fn expected part) (e e' : Expr) (t : Timer) :
    t.overAll (part e) = t.overAll (part e') := by
  cases h with
  | @condition thenBlock otherwise span rest =>
      cases otherwise <;> simp only [Timer.overAll, Timer.over, Stmt.span]
  | bind | iterable | result => simp only [Timer.overAll, Timer.over, Stmt.span]

theorem BlockPlace.overAll {local_ scope : Scope} {demand : Demand} {context : Expr → List Stmt}
    (h : env.BlockPlace fn local_ demand scope context) (e e' : Expr) (t : Timer) :
    t.overAll (context e) = t.overAll (context e') := by
  induction h generalizing t with
  | result | unused | call => simp only [Timer.overAll, Timer.over, Stmt.span]
  | expr hpart => exact hpart.overAll _ _ t
  | within hpart _ ih => exact hpart.overAll ih t

/-! ### Findings in blocks -/

theorem scope_checkStmt (scope : Scope) (timer : Timer) (s : Stmt) :
    (env.checkStmt fn scope timer s).scope = env.behind scope s := by
  cases s with
  | branch c t otherwise span => cases otherwise <;> simp only [checkStmt, behind]
  | _ => simp only [checkStmt, behind]

theorem found_checkBlock_cons {scope : Scope} {timer : Timer} {s : Stmt} {ss : List Stmt}
    (h : (timer.overAll (s :: ss)).exceeded = none) :
    (env.checkBlock fn scope timer (s :: ss)).found =
      (env.checkStmt fn scope (timer.check s.span.start) s).found
        ++ (env.checkBlock fn (env.behind scope s) ((timer.check s.span.start).over s)
          ss).found := by
  simp only [checkBlock, (Timer.overAll_cons h).1, scope_checkStmt, timer_checkStmt]

/-- What is found in a block is found in one around it, which leaves it the time that it takes. -/
theorem BlockPart.encloses {outer inner : Scope} {part : List Stmt → List Stmt}
    (h : env.BlockPart outer inner part) {α : Type} {context : α → List Stmt} {timer : Timer}
    (htime : ∀ a, (timer.overAll (part (context a))).exceeded = none) :
    ∃ timer' : Timer, (∀ a, (timer'.overAll (context a)).exceeded = none) ∧
      Encloses (fun a => (env.checkBlock fn inner timer' (context a)).found)
        fun a => (env.checkBlock fn outer timer (part (context a))).found := by
  cases h with
  | @later s =>
      refine ⟨_, fun a => (Timer.overAll_cons (htime a)).2, ?_⟩
      simp only [found_checkBlock_cons (htime _)]
      exact .of_eq _ (fun _ => []) fun a => (List.append_nil _).symm
  | @thenBlock c otherwise span rest =>
      cases otherwise with
      | none =>
          refine ⟨timer.check span.start, fun a =>
            Timer.exceeded_of_overAll (Timer.overAll_cons (htime a)).2, ?_⟩
          simp only [found_checkBlock_cons (htime _), checkStmt, Stmt.span]
          exact .of_eq _ _ fun a => rfl
      | some otherwise =>
          refine ⟨timer.check span.start, fun a => Timer.exceeded_of_overAll
            (Timer.exceeded_of_overAll (Timer.overAll_cons (htime a)).2), ?_⟩
          simp only [found_checkBlock_cons (htime _), checkStmt, Stmt.span, List.append_assoc]
          exact .of_eq _ _ fun a => by rw [← List.append_assoc, ← List.append_assoc]
  | @otherwise c thenBlock span rest =>
      refine ⟨(timer.check span.start).overAll thenBlock, fun a =>
        Timer.exceeded_of_overAll (Timer.overAll_cons (htime a)).2, ?_⟩
      simp only [found_checkBlock_cons (htime _), checkStmt, Stmt.span, timer_checkBlock]
      exact .of_eq _ _ fun a => rfl
  | @body item iterable span rest =>
      refine ⟨timer.check span.start, fun a =>
        Timer.exceeded_of_overAll (Timer.overAll_cons (htime a)).2, ?_⟩
      simp only [found_checkBlock_cons (htime _), checkStmt, Stmt.span]
      exact .of_eq _ _ fun a => rfl

theorem checkReturn_encloses (scope : Scope) (span : Span) :
    Encloses (fun e => (env.infer scope fn.returns e).found)
      fun e => (env.checkReturn fn scope (some e) span).2 := by
  unfold checkReturn
  cases fn.returns with
  | none => exact .of_eq_append _ fun e => rfl
  | some t => exact .of_eq_append _ fun e => rfl

theorem StmtPart.encloses {scope : Scope} {expected : Option Ty} {part : Expr → List Stmt}
    (h : StmtPart fn expected part) {timer : Timer}
    (htime : ∀ e, (timer.overAll (part e)).exceeded = none) :
    Encloses (fun e => (env.infer scope expected e).found)
      fun e => (env.checkBlock fn scope timer (part e)).found := by
  cases h with
  | bind | iterable =>
      simp only [found_checkBlock_cons (htime _), checkStmt, List.append_assoc]
      exact .of_eq_append _ fun e => rfl
  | @condition thenBlock otherwise span rest =>
      cases otherwise <;> simp only [found_checkBlock_cons (htime _), checkStmt, List.append_assoc]
      all_goals exact .of_eq_append _ fun e => rfl
  | result =>
      simp only [found_checkBlock_cons (htime _), checkStmt]
      exact (checkReturn_encloses scope _).trans (.of_eq_append _ fun e => rfl)

/-- What is found about the expression at a place is found in the block. -/
theorem BlockPlace.encloses {local_ scope : Scope} {demand : Demand} {context : Expr → List Stmt}
    (h : env.BlockPlace fn local_ demand scope context) {timer : Timer}
    (htime : ∀ e, (timer.overAll (context e)).exceeded = none) :
    Encloses (demand.report env local_)
      fun e => (env.checkBlock fn scope timer (context e)).found := by
  induction h generalizing timer with
  | result hreturns hdemand =>
      simp only [found_checkBlock_cons (htime _), checkStmt, checkReturn, hreturns, hdemand]
      exact .of_eq_append _ fun e => rfl
  | @expr _ part context hpart h =>
      have htime' : ∀ e, (timer.overAll (part e)).exceeded = none := fun e => by
        rw [hpart.overAll e (context default)]
        exact htime default
      exact h.encloses.trans ((hpart.encloses htime').comp context)
  | unused h =>
      simp only [found_checkBlock_cons (htime _), checkStmt]
      exact h.encloses_unused.trans (.of_eq_append _ fun e => rfl)
  | call h =>
      simp only [found_checkBlock_cons (htime _), checkStmt]
      exact h.encloses_unused.trans (.of_eq_append _ fun e => rfl)
  | within hpart _ ih =>
      obtain ⟨timer', htime', hencloses⟩ := hpart.encloses htime
      exact (ih htime').trans hencloses

/-! ### Functions -/

variable (env) in
/-- A place in the declarations of a program, whose functions have certain signatures. -/
inductive DeclsPlace (local_ : Scope) (demand : Demand) :
    List Signature → (Expr → List Decl) → Prop
  | body {f : FunctionDecl} {s : Signature} {ss : List Signature} {ds : List Decl}
      {context : Expr → List Stmt}
      (h : env.BlockPlace ⟨f.name.text, s.returns⟩ local_ demand
        (env.bindParameters [[]] (f.parameters.zip (s.parameters.map Prod.snd))).1 context) :
      DeclsPlace local_ demand (s :: ss) fun e => .function { f with body := context e } :: ds
  | function {f : FunctionDecl} {s : Signature} {ss : List Signature} {context : Expr → List Decl}
      (h : DeclsPlace local_ demand ss context) :
      DeclsPlace local_ demand (s :: ss) fun e => .function f :: context e
  | skipped {d : Decl} {ss : List Signature} {context : Expr → List Decl}
      (hd : d.function? = none ∨ ss = []) (h : DeclsPlace local_ demand ss context) :
      DeclsPlace local_ demand ss fun e => d :: context e

theorem checkDecls_skipped {timer : Timer} {d : Decl} {ds : List Decl} {ss : List Signature}
    (h : d.function? = none ∨ ss = []) :
    (env.checkDecls timer (d :: ds) ss).2 = (env.checkDecls timer ds ss).2 := by
  cases d with
  | function f =>
      obtain rfl := h.resolve_left nofun
      simp only [checkDecls]
  | type t => simp only [checkDecls]
  | record r => simp only [checkDecls]

/-- Where the declarations are checked in time, so is the body of the first function. -/
theorem exceeded_overAll_of_checkDecls {timer : Timer} {f : FunctionDecl} {s : Signature}
    {ds : List Decl} {ss : List Signature}
    (h : (env.checkDecls timer (.function f :: ds) (s :: ss)).2.2.exceeded = none) :
    (timer.overAll f.body).exceeded = none := by
  have := exceeded_of_checkDecls env (by simpa only [checkDecls] using h)
  simpa only [checkFunction, timer_checkBlock] using this

/-- A check takes the same time whatever stands at a place. -/
theorem DeclsPlace.timer {local_ : Scope} {demand : Demand} {ss : List Signature}
    {context : Expr → List Decl} (h : env.DeclsPlace local_ demand ss context) (e e' : Expr)
    (timer : Timer) :
    (env.checkDecls timer (context e) ss).2.2 = (env.checkDecls timer (context e') ss).2.2 := by
  induction h generalizing timer with
  | body h =>
      simp only [checkDecls, checkFunction, timer_checkBlock]
      rw [h.overAll e e']
  | function _ ih =>
      simp only [checkDecls]
      exact ih _
  | skipped hd _ ih =>
      rw [checkDecls_skipped hd, checkDecls_skipped hd]
      exact ih timer

/-- What is found about the expression at a place is found in the declarations. -/
theorem DeclsPlace.encloses {local_ : Scope} {demand : Demand} {ss : List Signature}
    {context : Expr → List Decl} (h : env.DeclsPlace local_ demand ss context) {timer : Timer}
    (htime : ∀ e, (env.checkDecls timer (context e) ss).2.2.exceeded = none) :
    Encloses (demand.report env local_)
      fun e => (env.checkDecls timer (context e) ss).2.1 := by
  induction h generalizing timer with
  | @body f s ss ds context h =>
      have hbody : ∀ e, (timer.overAll (context e)).exceeded = none := fun e =>
        exceeded_overAll_of_checkDecls (htime e)
      simp only [checkDecls, checkFunction, List.append_assoc]
      exact (h.encloses hbody).trans (.of_eq _ _ fun e => by rw [← List.append_assoc])
  | function _ ih =>
      simp only [checkDecls] at htime ⊢
      exact (ih htime).trans (.of_eq _ (fun _ => []) fun e => (List.append_nil _).symm)
  | skipped hd _ ih =>
      simp only [checkDecls_skipped hd] at htime ⊢
      exact ih htime

end TypeEnv

end Prosaic
