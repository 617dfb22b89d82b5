import Prosaic.Proofs.Except
import Prosaic.Proofs.Typing.Comparison
import Prosaic.Proofs.Typing.Declared
import Prosaic.Proofs.Typing.Returning

/-!
Programs in which the operands of one comparison are exchanged. If a program has no type errors,
then neither has the one with the operands exchanged, unless the right operand is a list that gets
its type from the left one only.
-/

namespace Prosaic

/-! ### Programs with one comparison turned around -/

/-- Two blocks that are the same but for one comparison in them, whose operands are exchanged. -/
inductive Stmt.Exchanges (c : Comparison) : List Stmt → List Stmt → Prop
  | bind {name : Name} {e e' : Expr} {span : Span} {rest : List Stmt} (h : e.Exchanges c e') :
      Exchanges c (.bind name e span :: rest) (.bind name e' span :: rest)
  | condition {e e' : Expr} {thenBlock : List Stmt} {otherwise : Option (List Stmt)} {span : Span}
      {rest : List Stmt} (h : e.Exchanges c e') :
      Exchanges c (.branch e thenBlock otherwise span :: rest)
        (.branch e' thenBlock otherwise span :: rest)
  | iterable {item : Name} {e e' : Expr} {body : List Stmt} {span : Span} {rest : List Stmt}
      (h : e.Exchanges c e') :
      Exchanges c (.forEach item e body span :: rest) (.forEach item e' body span :: rest)
  | result {e e' : Expr} {span : Span} {rest : List Stmt} (h : e.Exchanges c e') :
      Exchanges c (.return (some e) span :: rest) (.return (some e') span :: rest)
  | unused {e e' : Expr} {span : Span} {rest : List Stmt} (h : e.Exchanges c e') :
      Exchanges c (.expression e span :: rest) (.expression e' span :: rest)
  | call {name : Name} {args args' : List Expr} {note : CallNote} {span : Span} {rest : List Stmt}
      (h : Expr.Exchanges c (.call name args note) (.call name args' note)) :
      Exchanges c (.call name args note span :: rest) (.call name args' note span :: rest)
  | later {s : Stmt} {ss ss' : List Stmt} (h : Exchanges c ss ss') :
      Exchanges c (s :: ss) (s :: ss')
  | thenBlock {condition : Expr} {ss ss' : List Stmt} {otherwise : Option (List Stmt)} {span : Span}
      {rest : List Stmt} (h : Exchanges c ss ss') :
      Exchanges c (.branch condition ss otherwise span :: rest)
        (.branch condition ss' otherwise span :: rest)
  | otherwise {condition : Expr} {thenBlock ss ss' : List Stmt} {span : Span} {rest : List Stmt}
      (h : Exchanges c ss ss') :
      Exchanges c (.branch condition thenBlock (some ss) span :: rest)
        (.branch condition thenBlock (some ss') span :: rest)
  | body {item : Name} {iterable : Expr} {ss ss' : List Stmt} {span : Span} {rest : List Stmt}
      (h : Exchanges c ss ss') :
      Exchanges c (.forEach item iterable ss span :: rest) (.forEach item iterable ss' span :: rest)

/-- Two programs that are the same but for one comparison in a body, whose operands are
exchanged. -/
inductive Program.Exchanges (c : Comparison) (p q : Program) : Prop
  | intro {before after : List Decl} {f : FunctionDecl} {body : List Stmt}
      (hp : p.declarations = before ++ .function f :: after)
      (hq : q.declarations = before ++ .function { f with body } :: after)
      (hspan : q.span = p.span) (hbody : Stmt.Exchanges c f.body body) : Exchanges c p q

namespace TypeEnv

variable {env : TypeEnv}

/-- Such blocks, with the scopes in front of them and of the comparison. -/
inductive BlockExchanges (env : TypeEnv) (fn : Enclosing) (c : Comparison) (local_ : Scope) :
    Scope → List Stmt → List Stmt → Prop
  | expr {expected : Option Ty} {part : Expr → List Stmt} {e e' : Expr}
      (hpart : StmtPart fn expected part) (h : e.Exchanges c e') :
      BlockExchanges env fn c local_ local_ (part e) (part e')
  | unused {e e' : Expr} {span : Span} {rest : List Stmt} (h : e.Exchanges c e') :
      BlockExchanges env fn c local_ local_ (.expression e span :: rest)
        (.expression e' span :: rest)
  | call {name : Name} {args args' : List Expr} {note : CallNote} {span : Span} {rest : List Stmt}
      (h : Expr.Exchanges c (.call name args note) (.call name args' note)) :
      BlockExchanges env fn c local_ local_ (.call name args note span :: rest)
        (.call name args' note span :: rest)
  | within {outer inner : Scope} {part : List Stmt → List Stmt} {ss ss' : List Stmt}
      (hpart : env.BlockPart outer inner part) (h : BlockExchanges env fn c local_ inner ss ss') :
      BlockExchanges env fn c local_ outer (part ss) (part ss')

/-- The comparison is in some scope. -/
theorem exists_blockExchanges {c : Comparison} {ss ss' : List Stmt} (h : Stmt.Exchanges c ss ss')
    (fn : Enclosing) (scope : Scope) : ∃ local_, env.BlockExchanges fn c local_ scope ss ss' := by
  induction h generalizing scope with
  | bind h => exact ⟨scope, .expr .bind h⟩
  | condition h => exact ⟨scope, .expr .condition h⟩
  | iterable h => exact ⟨scope, .expr .iterable h⟩
  | result h => exact ⟨scope, .expr .result h⟩
  | unused h => exact ⟨scope, .unused h⟩
  | call h => exact ⟨scope, .call h⟩
  | later _ ih => exact (ih _).imp fun _ h => .within .later h
  | thenBlock _ ih => exact (ih _).imp fun _ h => .within .thenBlock h
  | otherwise _ ih => exact (ih _).imp fun _ h => .within .otherwise h
  | body _ ih => exact (ih _).imp fun _ h => .within .body h

/-! ### Bodies -/

section

variable {fn : Enclosing} {c : Comparison} {local_ scope : Scope} {ss ss' : List Stmt}

theorem BlockExchanges.overAll (h : env.BlockExchanges fn c local_ scope ss ss') (t : Timer) :
    t.overAll ss' = t.overAll ss := by
  induction h generalizing t with
  | expr hpart => exact hpart.overAll _ _ t
  | unused | call => simp only [Timer.overAll, Timer.over, Stmt.span]
  | within hpart _ ih => exact hpart.overAll ih t

theorem BlockPart.anyReturns {outer inner : Scope} {part : List Stmt → List Stmt}
    (h : env.BlockPart outer inner part) (hss : Stmt.anyReturns ss' = Stmt.anyReturns ss) :
    Stmt.anyReturns (part ss') = Stmt.anyReturns (part ss) := by
  cases h with
  | @thenBlock c otherwise span rest =>
      cases otherwise <;> simp only [Stmt.anyReturns, Stmt.alwaysReturns, hss]
  | later | otherwise | body => simp only [Stmt.anyReturns, Stmt.alwaysReturns, hss]

theorem BlockExchanges.anyReturns (h : env.BlockExchanges fn c local_ scope ss ss') :
    Stmt.anyReturns ss' = Stmt.anyReturns ss := by
  induction h with
  | @expr expected part e e' hpart =>
      cases hpart with
      | @condition thenBlock otherwise span rest =>
          cases otherwise <;> simp only [Stmt.anyReturns, Stmt.alwaysReturns]
      | bind | iterable | result => simp only [Stmt.anyReturns, Stmt.alwaysReturns]
  | unused | call => simp only [Stmt.anyReturns, Stmt.alwaysReturns]
  | within hpart _ ih => exact hpart.anyReturns ih

/-- Whether a block returns does not hinge on the comparison. -/
theorem BlockExchanges.returns_eq (h : env.BlockExchanges fn c local_ scope ss ss') {timer : Timer}
    (htime : (timer.overAll ss).exceeded = none) :
    (env.checkBlock fn scope timer ss').returns = (env.checkBlock fn scope timer ss).returns := by
  have hreturns : ∀ ss, (timer.overAll ss).exceeded = none →
      (env.checkBlock fn scope timer ss).returns = Stmt.anyReturns ss := fun ss hss =>
    checkBlock_returns_of env (fun _ _ => checkStmt_returns env) (by rwa [timer_checkBlock])
  rw [hreturns ss htime, hreturns ss' (by rwa [h.overAll]), h.anyReturns]

/-! ### What hinges on the comparison -/

variable {P : Prop}

theorem checkUnused_hinges {e e' : Expr} (he : e.Exchanges c e')
    (hc : ∀ expected, Hinges P (env.infer scope expected c.expr).found
      (env.infer scope expected c.exchanged.expr).found) :
    Hinges P (env.checkUnused scope e).2 (env.checkUnused scope e').2 := by
  have hvalue := (infer_replaces he hc none).found
  cases he with
  | @argument e e' name before after note he =>
      simp only [checkUnused, checkCall, List.length_append, List.length_cons, inferAll_append]
      exact callType_hinges (infer_replaces he hc _) name false _ _ _
  | _ => exact hvalue

/-- The first statement of a block is replaced by one that takes the same time and binds the
same. -/
theorem checkBlock_cons_hinges {s s' : Stmt} {rest : List Stmt} {timer : Timer}
    (hspan : s'.span = s.span) (hover : ∀ t : Timer, t.over s' = t.over s)
    (hbehind : env.behind scope s' = env.behind scope s)
    (htime : (timer.overAll (s :: rest)).exceeded = none)
    (h : Hinges P (env.checkStmt fn scope (timer.check s.span.start) s).found
      (env.checkStmt fn scope (timer.check s.span.start) s').found) :
    Hinges P (env.checkBlock fn scope timer (s :: rest)).found
      (env.checkBlock fn scope timer (s' :: rest)).found := by
  have htime' : (timer.overAll (s' :: rest)).exceeded = none := by
    simpa only [Timer.overAll, hspan, hover] using htime
  rw [found_checkBlock_cons htime, found_checkBlock_cons htime', hspan, hover, hbehind]
  exact h.append [] Iff.rfl

/-- A block in another one is replaced by one that takes the same time. -/
theorem BlockPart.hinges {outer inner : Scope} {part : List Stmt → List Stmt}
    (h : env.BlockPart outer inner part) (hover : ∀ t : Timer, t.overAll ss' = t.overAll ss)
    (hss : ∀ timer : Timer, (timer.overAll ss).exceeded = none →
      Hinges P (env.checkBlock fn inner timer ss).found (env.checkBlock fn inner timer ss').found)
    {timer : Timer} (htime : (timer.overAll (part ss)).exceeded = none) :
    Hinges P (env.checkBlock fn outer timer (part ss)).found
      (env.checkBlock fn outer timer (part ss')).found := by
  cases h with
  | @later s =>
      have hrest := (Timer.overAll_cons htime).2
      have htime' : (timer.overAll (s :: ss')).exceeded = none := by
        simpa only [Timer.overAll, hover] using htime
      rw [found_checkBlock_cons htime, found_checkBlock_cons htime']
      exact (hss _ hrest).prepend _
  | @thenBlock c otherwise span rest =>
      have hbranch := Timer.exceeded_of_overAll (Timer.overAll_cons htime).2
      cases otherwise with
      | none =>
          refine checkBlock_cons_hinges rfl (fun t => ?_) rfl htime ?_
          · simp only [Timer.over, hover]
          · simp only [checkStmt]
            exact (hss _ hbranch).prepend _
      | some otherwise =>
          refine checkBlock_cons_hinges rfl (fun t => ?_) rfl htime ?_
          · simp only [Timer.over, hover]
          · simp only [checkStmt, timer_checkBlock, hover]
            exact (hss _ (Timer.exceeded_of_overAll hbranch)).append _ Iff.rfl
  | otherwise =>
      have hbranch := Timer.exceeded_of_overAll (Timer.overAll_cons htime).2
      refine checkBlock_cons_hinges rfl (fun t => ?_) rfl htime ?_
      · simp only [Timer.over, hover]
      · simp only [checkStmt, timer_checkBlock]
        exact (hss _ hbranch).prepend _
  | body =>
      have hbody := Timer.exceeded_of_overAll (Timer.overAll_cons htime).2
      refine checkBlock_cons_hinges rfl (fun t => ?_) rfl htime ?_
      · simp only [Timer.over, hover]
      · simp only [checkStmt]
        exact (hss _ hbody).prepend _

/-- An expression in the first statement of a block is replaced. -/
theorem StmtPart.hinges {expected : Option Ty} {part : Expr → List Stmt} {e e' : Expr}
    (h : StmtPart fn expected part)
    (he : (env.infer scope expected e).Replaces P (env.infer scope expected e'))
    {timer : Timer} (htime : (timer.overAll (part e)).exceeded = none) :
    Hinges P (env.checkBlock fn scope timer (part e)).found
      (env.checkBlock fn scope timer (part e')).found := by
  cases h with
  | bind =>
      refine checkBlock_cons_hinges rfl (fun _ => rfl) ?_ htime ?_
      · simp only [behind, he.ty]
      · simp only [checkStmt, he.ty]
        exact he.found.append [] Iff.rfl
  | @condition thenBlock otherwise span rest =>
      have hcondition := he.found.append [] (he.booleanFindings_eq_nil "'If' condition")
      cases otherwise with
      | none =>
          refine checkBlock_cons_hinges rfl (fun t => ?_) rfl htime ?_
          · simp only [Timer.over]
          · simp only [checkStmt]
            exact hcondition.append [] Iff.rfl
      | some otherwise =>
          refine checkBlock_cons_hinges rfl (fun t => ?_) rfl htime ?_
          · simp only [Timer.over]
          · simp only [checkStmt]
            exact (hcondition.append [] Iff.rfl).append [] Iff.rfl
  | @iterable item body span rest =>
      have hitem := he.found.append [] (he.itemType_eq_nil item.text)
      refine checkBlock_cons_hinges rfl (fun t => ?_) rfl htime ?_
      · simp only [Timer.over]
      · simp only [checkStmt, he.itemType_eq]
        exact (hitem.append [] Iff.rfl).append [] Iff.rfl
  | result =>
      refine checkBlock_cons_hinges rfl (fun _ => rfl) rfl htime ?_
      cases hreturns : fn.returns with
      | none => exact fun hnil => absurd hnil (by simp [checkStmt, checkReturn, hreturns])
      | some t =>
          rw [hreturns] at he
          simp only [checkStmt, checkReturn, hreturns]
          exact report_hinges he (.result fn.name t)

/-- What is found in a block before and after the exchange. -/
theorem BlockExchanges.hinges (h : env.BlockExchanges fn c local_ scope ss ss')
    (hc : ∀ expected, Hinges P (env.infer local_ expected c.expr).found
      (env.infer local_ expected c.exchanged.expr).found)
    {timer : Timer} (htime : (timer.overAll ss).exceeded = none) :
    Hinges P (env.checkBlock fn scope timer ss).found
      (env.checkBlock fn scope timer ss').found := by
  induction h generalizing timer with
  | expr hpart he => exact hpart.hinges (infer_replaces he hc _) htime
  | unused he =>
      refine checkBlock_cons_hinges rfl (fun _ => rfl) rfl htime ?_
      simp only [checkStmt]
      exact checkUnused_hinges he hc
  | call he =>
      refine checkBlock_cons_hinges rfl (fun _ => rfl) rfl htime ?_
      simp only [checkStmt]
      exact checkUnused_hinges he hc
  | within hpart h ih => exact hpart.hinges h.overAll (fun _ => ih) htime

/-! ### The scope of the comparison -/

section

variable {w : Setting} (h : env.Reflects w.registry w.program) (hw : w.registry.ErrorFree)

include h hw

theorem BlockPart.clean {outer inner : Scope} {part : List Stmt → List Stmt}
    (hpart : env.BlockPart outer inner part) (hscope : outer.Clean) {timer : Timer}
    (htime : (timer.overAll (part ss)).exceeded = none)
    (hfound : (env.checkBlock fn outer timer (part ss)).found = []) : inner.Clean := by
  cases hpart with
  | @later s =>
      rw [found_checkBlock_cons htime, List.append_eq_nil_iff] at hfound
      cases s with
      | bind name e span =>
          simp only [checkStmt, List.append_eq_nil_iff] at hfound
          exact bind_clean hscope (infer_clean h hw hscope (by simp) hfound.1.1).1 hfound.1.2
      | _ => exact hscope
  | thenBlock | otherwise => exact hscope.child
  | body =>
      rw [found_checkBlock_cons htime] at hfound
      simp only [checkStmt, List.append_eq_nil_iff] at hfound
      obtain ⟨⟨⟨⟨hiterable, hitem⟩, hbind⟩, -⟩, -⟩ := hfound
      exact bind_clean hscope.child
        (itemType_clean (infer_clean h hw hscope (by simp) hiterable).1 hitem) hbind

/-- No local that the comparison sees has a type in error. -/
theorem BlockExchanges.clean (hexchanges : env.BlockExchanges fn c local_ scope ss ss')
    (hscope : scope.Clean) {timer : Timer} (htime : (timer.overAll ss).exceeded = none)
    (hfound : (env.checkBlock fn scope timer ss).found = []) : local_.Clean := by
  induction hexchanges generalizing timer with
  | expr | unused | call => exact hscope
  | @within outer inner part ss ss' hpart _ ih =>
      have hencloses : ∃ timer' : Timer, _ ∧ Encloses
          (fun _ : Unit => (env.checkBlock fn inner timer' ss).found) _ :=
        hpart.encloses fun _ => htime
      obtain ⟨timer', htime', front, hencloses⟩ := hencloses
      obtain ⟨back, hback⟩ := hencloses ()
      have hinner : front ++ (env.checkBlock fn inner timer' ss).found ++ back = [] :=
        hback.symm.trans hfound
      rw [List.append_eq_nil_iff, List.append_eq_nil_iff] at hinner
      exact ih (hpart.clean h hw hscope htime hfound) (htime' ()) hinner.1.2

end

end

/-! ### Declarations -/

/-- Such declarations, whose functions have certain signatures, with the scope of the comparison. -/
inductive DeclsExchanges (env : TypeEnv) (c : Comparison) (local_ : Scope) :
    List Signature → List Decl → List Decl → Prop
  | body {f : FunctionDecl} {s : Signature} {ss : List Signature} {ds : List Decl}
      {body : List Stmt}
      (h : env.BlockExchanges ⟨f.name.text, s.returns⟩ c local_
        (env.bindParameters [[]] (f.parameters.zip (s.parameters.map Prod.snd))).1 f.body body) :
      DeclsExchanges env c local_ (s :: ss) (.function f :: ds)
        (.function { f with body := body } :: ds)
  | function {f : FunctionDecl} {s : Signature} {ss : List Signature} {ds ds' : List Decl}
      (h : DeclsExchanges env c local_ ss ds ds') :
      DeclsExchanges env c local_ (s :: ss) (.function f :: ds) (.function f :: ds')
  | other {d : Decl} {ss : List Signature} {ds ds' : List Decl} (hd : d.function? = none)
      (h : DeclsExchanges env c local_ ss ds ds') :
      DeclsExchanges env c local_ ss (d :: ds) (d :: ds')

theorem exists_declsExchanges {c : Comparison} {before after : List Decl} {f : FunctionDecl}
    {body : List Stmt} (hbody : Stmt.Exchanges c f.body body) {ss : List Signature}
    (hlength : ((before ++ .function f :: after).filterMap Decl.function?).length = ss.length) :
    ∃ local_, env.DeclsExchanges c local_ ss (before ++ .function f :: after)
      (before ++ .function { f with body := body } :: after) := by
  induction before generalizing ss with
  | nil =>
      cases ss with
      | nil => cases hlength
      | cons s ss => exact (exists_blockExchanges hbody _ _).imp fun _ h => .body h
  | cons d before ih =>
      cases d with
      | function g =>
          cases ss with
          | nil => cases hlength
          | cons s ss => exact (ih (Nat.succ.inj hlength)).imp fun _ h => .function h
      | type | record => exact (ih hlength).imp fun _ h => .other rfl h

section

variable {c : Comparison} {local_ : Scope} {ss : List Signature} {ds ds' : List Decl}

theorem DeclsExchanges.header (h : env.DeclsExchanges c local_ ss ds ds') :
    ds'.map Decl.header = ds.map Decl.header := by
  induction h with
  | body => rfl
  | function _ ih => exact congrArg (_ :: ·) ih
  | other _ _ ih => exact congrArg (_ :: ·) ih

theorem DeclsExchanges.timer (h : env.DeclsExchanges c local_ ss ds ds') (timer : Timer) :
    (env.checkDecls timer ds' ss).2.2 = (env.checkDecls timer ds ss).2.2 := by
  induction h generalizing timer with
  | body h => simp only [checkDecls, checkFunction, timer_checkBlock, h.overAll]
  | function _ ih =>
      simp only [checkDecls]
      exact ih _
  | other hd _ ih =>
      rw [checkDecls_skipped (.inl hd), checkDecls_skipped (.inl hd)]
      exact ih timer

/-- What is found in the declarations before and after the exchange. -/
theorem DeclsExchanges.hinges {P : Prop} (h : env.DeclsExchanges c local_ ss ds ds')
    (hc : ∀ expected, Hinges P (env.infer local_ expected c.expr).found
      (env.infer local_ expected c.exchanged.expr).found)
    {timer : Timer} (htime : (env.checkDecls timer ds ss).2.2.exceeded = none) :
    Hinges P (env.checkDecls timer ds ss).2.1 (env.checkDecls timer ds' ss).2.1 := by
  induction h generalizing timer with
  | @body f s ss ds body h =>
      have hbody := exceeded_overAll_of_checkDecls htime
      have hreturns := h.returns_eq hbody
      simp only [checkDecls, checkFunction, timer_checkBlock, h.overAll, hreturns]
      exact ((h.hinges hc hbody).append _ Iff.rfl).append [] Iff.rfl
  | function _ ih =>
      simp only [checkDecls] at htime ⊢
      exact (ih htime).prepend _
  | other hd _ ih =>
      rw [checkDecls_skipped (.inl hd)] at htime ⊢
      rw [checkDecls_skipped (.inl hd)]
      exact ih htime

theorem DeclsExchanges.clean {w : Setting} (hw' : env.Reflects w.registry w.program)
    (hw : w.registry.ErrorFree) (h : env.DeclsExchanges c local_ ss ds ds')
    (hss : List.Forall₂ (SignatureDenoted w.type?) (ds.filterMap Decl.function?) ss)
    {timer : Timer} (htime : (env.checkDecls timer ds ss).2.2.exceeded = none)
    (hfound : (env.checkDecls timer ds ss).2.1 = []) : local_.Clean := by
  induction h generalizing timer with
  | @body f s ss ds body h =>
      have hbody := exceeded_overAll_of_checkDecls htime
      simp only [checkDecls, checkFunction, List.append_eq_nil_iff] at hfound
      cases hss with
      | cons hs _ =>
          exact h.clean hw' hw (bindParameters_clean hw hs hfound.1.1.1) hbody hfound.1.1.2
  | function _ ih =>
      cases hss with
      | cons _ hss =>
          simp only [checkDecls, List.append_eq_nil_iff] at htime hfound
          exact ih hss htime hfound.2
  | other hd _ ih =>
      rw [checkDecls_skipped (.inl hd)] at htime hfound
      rw [List.filterMap_cons_none hd] at hss
      exact ih hss htime hfound

end

end TypeEnv

/-! ### Programs -/

variable {p q : Program} {registry : Registry}

/-- Where a program has no type errors, the one with the operands of a comparison exchanged has none
either exactly if the right operand needs no expectation to get the type that the left one has in
the scope of the comparison. Registries that are read from a document are free of errors
(`Registry.ofDocument_errorFree`). -/
theorem Program.checkTypes_exchanged (hregistry : registry.ErrorFree) {budget : Budget}
    (hfound : (p.checkTypes registry budget).result = .ok []) {c : Comparison}
    (hexchanges : p.Exchanges c q) :
    (∃ scope, (Declared.of registry p).env.DeclsExchanges c scope
      (Declared.of registry p).signatures p.declarations q.declarations) ∧
    ∀ scope, (Declared.of registry p).env.DeclsExchanges c scope
      (Declared.of registry p).signatures p.declarations q.declarations →
        ((q.checkTypes registry budget).result = .ok [] ↔
          c.right.Settled ((Declared.of registry p).env.infer scope none c.left).ty) := by
  obtain ⟨htime, hnone⟩ := checkTypes_eq_ok.mp hfound
  obtain ⟨hdeclared, hbodies⟩ := List.append_eq_nil_iff.mp hnone.symm
  obtain ⟨hreflects, hsignatures⟩ := Declared.of_reflects hdeclared
  refine ⟨?_, fun scope hscope => ?_⟩
  · obtain ⟨hp, hq, -, hbody⟩ := hexchanges
    rw [functions_eq, hp] at hsignatures
    rw [hp, hq]
    exact TypeEnv.exists_declsExchanges hbody hsignatures.length_eq
  · have hsame : Declared.of registry q = Declared.of registry p := by
      rw [← Declared.of_headers registry q, ← Declared.of_headers registry p]
      congr 1
      obtain ⟨-, -, hspan, -⟩ := hexchanges
      rw [Program.headers, Program.headers, hscope.header, hspan]
    let w : Setting := ⟨p, registry⟩
    have hreflects : (Declared.of registry p).env.Reflects w.registry w.program := hreflects
    rw [hreflects.type?_eq] at hsignatures
    have hclean := hscope.clean hreflects hregistry hsignatures htime hbodies
    have hhinges := hscope.hinges (fun expected hcomparison =>
      TypeEnv.found_exchanged_eq_nil hreflects hregistry hclean hcomparison expected) htime
    rw [← hhinges hbodies, checkTypes_eq_ok, hsame]
    simp only [hscope.timer, hdeclared, List.nil_append, eq_comm (a := ([] : List Diagnostic))]
    exact and_iff_right htime

/-- The comparison of two expressions. -/
def equality (left right : Expr) : Comparison := ⟨.is, .inl rfl, left, right, ⟨default, none⟩⟩

/-- A function of a list of levels and of one level that returns an expression. -/
def leveled (result : Expr) : Program :=
  let level : TypeRef := .named "Level" default
  ⟨[.type ⟨"Level", .literals ["Low", "High"], default⟩,
    .function ⟨⟨"f", default⟩,
      [⟨"levels", .list level default, default⟩, ⟨"level", level, default⟩],
      some (.named "Boolean" default), .pure, [.return (some result) default], none, default,
      none⟩], default⟩

/-- The list that such a function takes. -/
def levels : Expr := .variable "levels" ⟨default, none⟩

/-- The level that it takes. -/
def level : Expr := .variable "level" ⟨default, none⟩

/-- A list literal. -/
def listed (es : List Expr) : Expr := .list es ⟨default, none⟩

def low : Expr := .literal (.string "Low") ⟨default, none⟩

theorem exchanges_leveled (left right : Expr) :
    (leveled (equality left right).expr).Exchanges (equality left right)
      (leveled (equality right left).expr) := by
  have hbefore : (leveled (equality left right).expr).declarations = [_] ++ .function _ :: [] := rfl
  exact .intro hbefore rfl rfl (.result .here)

/-- A list that starts with a level may stand on either side of a list of levels. -/
theorem checkTypes_exchanged_mixed :
    let mixed := listed [level, low]
    let budget := Budget.start .standard .still
    ((leveled (equality levels mixed).expr).checkTypes .empty budget).result = .ok [] ∧
      ((leveled (equality mixed levels).expr).checkTypes .empty budget).result = .ok [] := by
  intro mixed budget
  have hempty : Registry.empty.ErrorFree := by constructor <;> exact List.forall_mem_nil _
  have hfound : ((leveled (equality levels mixed).expr).checkTypes .empty budget).result = .ok [] :=
    toOption_eq_some.mp (by decide +kernel)
  obtain ⟨-, hiff⟩ :=
    Program.checkTypes_exchanged hempty hfound (exchanges_leveled levels mixed)
  refine ⟨hfound, (hiff _ (.other rfl (.body (.expr .result .here)))).mpr ?_⟩
  exact .list (fun _ _ => rfl) (List.forall_mem_cons.mpr
    ⟨.other nofun, List.forall_mem_singleton.mpr (.other nofun)⟩)

/-- A list of literals is a list of levels on the right of one, and a list of strings on the
left. -/
theorem not_symmetric_listed :
    let budget := Budget.start .standard .still
    (leveled (equality levels (listed [low])).expr).Exchanges (equality levels (listed [low]))
        (leveled (equality (listed [low]) levels).expr) ∧
      ((leveled (equality levels (listed [low])).expr).checkTypes .empty budget).result = .ok [] ∧
      ((leveled (equality (listed [low]) levels).expr).checkTypes .empty budget).result =
        .ok [⟨Diagnostic.typeMismatch,
          "Cannot compare List of String with List of Level using 'is'", default, none, .types⟩] :=
  ⟨exchanges_leveled _ _, toOption_eq_some.mp (by decide +kernel),
    toOption_eq_some.mp (by decide +kernel)⟩

end Prosaic
